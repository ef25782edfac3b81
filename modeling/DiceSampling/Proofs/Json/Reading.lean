/-
# Reading accepts the language of JSON

A text in which a value can be written is read as that value.  The scanner cuts it into
the tokens of the value: a word ends where a mark, a blank or the end of the text follows
it, and everything else ends by itself.  The reader then puts the value together from its
tokens, whatever is open around it.
-/

import DiceSampling.Proofs.Json.Words

namespace DiceSampling

namespace Json

namespace Reader

/-- A value starts with a token that does not close an array. -/
theorem exists_tokens_eq (value : Json) :
    ∃ token rest, value.tokens = token :: rest ∧ token ≠ .closeArray := by
  cases value <;> exact ⟨_, _, rfl, by simp⟩

theorem exists_itemTokens_eq (item : Json) (rest : List Json) :
    ∃ token more, itemTokens (item :: rest) = token :: more ∧ token ≠ .closeArray := by
  obtain ⟨token, more, head, other⟩ := exists_tokens_eq item
  cases rest with
  | nil => exact ⟨token, more, head, other⟩
  | cons next rest =>
      exact ⟨token, more ++ .comma :: itemTokens (next :: rest), by
        rw [itemTokens, head, List.cons_append]
        exact List.cons_ne_nil next rest, other⟩

theorem step_firstItem {token : Token} (h : token ≠ .closeArray) (frames : List Frame) :
    step (firstItem frames) token = step (value (.array [] :: frames)) token := by
  cases token <;> first | rfl | exact absurd rfl h

theorem foldlM_cons_firstItem {token : Token} (h : token ≠ .closeArray) (rest : List Token)
    (frames : List Frame) :
    (token :: rest).foldlM step (firstItem frames) =
      (token :: rest).foldlM step (value (.array [] :: frames)) := by
  rw [List.foldlM_cons, step_firstItem h, List.foldlM_cons]

mutual

/-- The tokens of a value are read as the value, whatever is open. -/
theorem foldlM_tokens : ∀ (v : Json) (frames : List Frame),
    v.tokens.foldlM step (value frames) = some (after frames v)
  | .null, _ => rfl
  | .bool _, _ => rfl
  | .number _, _ => rfl
  | .string _, _ => rfl
  | .array [], _ => rfl
  | .array (item :: rest), frames => by
      have items := foldlM_itemTokens (item :: rest) (List.cons_ne_nil item rest) [] frames
      obtain ⟨token, more, head, other⟩ := exists_itemTokens_eq item rest
      rw [head, List.cons_append, ← foldlM_cons_firstItem other] at items
      rw [tokens, head]
      exact items
  | .object [], _ => rfl
  | .object ((name, v) :: rest), frames => by
      have members := foldlM_memberTokens ((name, v) :: rest) (List.cons_ne_nil _ _) [] frames
      cases rest <;> exact members

/-- The tokens of some items complete an array that has been opened. -/
theorem foldlM_itemTokens : ∀ (items : List Json), items ≠ [] →
    ∀ (held : List Json) (frames : List Frame),
      (itemTokens items ++ [Token.closeArray]).foldlM step (value (.array held :: frames)) =
        some (after frames (.array (held.reverse ++ items)))
  | [], h, _, _ => absurd rfl h
  | [item], _, held, frames => by
      rw [itemTokens, List.foldlM_append, foldlM_tokens item]
      show some (after frames (.array (item :: held).reverse)) = _
      rw [List.reverse_cons]
  | item :: next :: rest, _, held, frames => by
      rw [itemTokens, List.append_assoc, List.foldlM_append, foldlM_tokens item]
      have more :=
        foldlM_itemTokens (next :: rest) (List.cons_ne_nil next rest) (item :: held) frames
      rw [List.reverse_cons, List.append_assoc] at more
      exact more
      exact List.cons_ne_nil next rest

/-- The tokens of some members complete an object that has been opened. -/
theorem foldlM_memberTokens : ∀ (members : List (List Char × Json)), members ≠ [] →
    ∀ (held : List (List Char × Json)) (frames : List Frame),
      (memberTokens members ++ [Token.closeObject]).foldlM step (memberName frames held) =
        some (after frames (.object (held.reverse ++ members)))
  | [], h, _, _ => absurd rfl h
  | [(name, v)], _, held, frames => by
      change (v.tokens ++ [Token.closeObject]).foldlM step
        (value (.object held name :: frames)) = _
      rw [List.foldlM_append, foldlM_tokens v]
      show some (after frames (.object ((name, v) :: held).reverse)) = _
      rw [List.reverse_cons]
  | (name, v) :: next :: rest, _, held, frames => by
      have more := foldlM_memberTokens (next :: rest) (List.cons_ne_nil next rest)
        ((name, v) :: held) frames
      rw [List.reverse_cons, List.append_assoc] at more
      change ((v.tokens ++ Token.comma :: memberTokens (next :: rest)) ++
        [Token.closeObject]).foldlM step (value (.object held name :: frames)) = _
      rw [List.append_assoc, List.foldlM_append, foldlM_tokens v]
      exact more

end

end Reader

theorem ofTokens?_tokens (value : Json) : ofTokens? value.tokens = some value := by
  rw [ofTokens?, Reader.foldlM_tokens]
  rfl

namespace Scanner

open JsonLanguage

variable {follow follow' : List Char → Prop} {l m : Language Char} {tokens tokens' : List Token}
  {c : Char} {text rest : List Char}

/-- What a scanner makes of a text up to its end. -/
def scan? (scanner : Scanner) (text : List Char) : Option (List Token) :=
  (text.foldlM step scanner).bind finish

theorem scan?_cons (scanner : Scanner) (c : Char) (text : List Char) :
    scan? scanner (c :: text) = (step scanner c).bind (scan? · text) := by
  rw [scan?, List.foldlM_cons, Option.bind_eq_bind, Option.bind_assoc]
  rfl

/-- Whether no word goes on in a text. -/
def Ends (text : List Char) : Prop := ∀ c rest, text = c :: rest → isWordChar c = false

theorem ends_nil : Ends [] := fun _ _ h => absurd h.symm (List.cons_ne_nil _ _)

theorem ends_cons (h : isWordChar c = false) (rest : List Char) : Ends (c :: rest) := by
  rintro _ _ ⟨⟩
  exact h

/-- Whether the texts of a language are cut into some tokens, if what follows them allows it. -/
def Scans (follow : List Char → Prop) (l : Language Char) (tokens : List Token) : Prop :=
  ∀ text ∈ l, ∀ rest, follow rest → ∀ held,
    scan? ⟨held, .between⟩ (text ++ rest) = scan? ⟨tokens.reverse ++ held, .between⟩ rest

/-- Texts after one another are cut one after the other. -/
theorem Scans.mul (first : Scans follow l tokens) (second : Scans follow' m tokens')
    (h : ∀ text ∈ m, ∀ rest, follow' rest → follow (text ++ rest)) :
    Scans follow' (l * m) (tokens ++ tokens') := by
  rintro _ ⟨text, htext, text', htext', rfl⟩ rest allowed held
  change scan? _ ((text ++ text') ++ rest) = _
  rw [List.append_assoc, first text htext _ (h text' htext' rest allowed),
    second text' htext' rest allowed, List.reverse_append, List.append_assoc]

theorem Scans.mono (h : Scans follow l tokens) (stronger : ∀ rest, follow' rest → follow rest) :
    Scans follow' l tokens :=
  fun text htext rest allowed => h text htext rest (stronger rest allowed)

theorem scans_one : Scans (fun _ => True) 1 [] := by
  rintro _ rfl rest - held
  rfl

theorem scans_blanks : Scans (fun _ => True) blanks [] := by
  rintro text htext rest - held
  refine of_mem_kstar (P := fun text => scan? ⟨held, .between⟩ (text ++ rest) =
    scan? ⟨held, .between⟩ rest) rfl ?_ htext
  rintro _ ⟨c, hc, rfl⟩ more ih
  have all : blankChars.all isBlank = true := by decide
  have blank : isBlank c = true := List.all_eq_true.mp all c hc
  rw [List.append_assoc, List.singleton_append, scan?_cons, step, next, if_pos blank,
    Option.bind_some, ih]

/-- Whether a character is a mark: it is no part of a word or a string. -/
def IsMark (c : Char) (token : Token) : Prop :=
  Token.ofMark c = some token ∧ isBlank c = false ∧ c ≠ '"' ∧ isWordChar c = false

instance (c : Char) (token : Token) : Decidable (IsMark c token) :=
  inferInstanceAs (Decidable (_ ∧ _ ∧ _ ∧ _))

theorem scans_mark {token : Token} (h : IsMark c token) :
    Scans (fun _ => True) (mark c) [token] := by
  obtain ⟨isMark, notBlank, notQuote, notWord⟩ := h
  have single : Scans (fun _ => True) (one (· = c)) [token] := by
    rintro _ ⟨_, rfl, rfl⟩ rest - held
    rw [List.singleton_append, scan?_cons, step, next, notBlank, if_neg (by decide),
      if_neg notQuote, notWord, if_neg (by decide), isMark]
    rfl
  exact scans_blanks.mul (single.mul scans_blanks fun _ _ _ => id) fun _ _ _ => id

theorem ends_blanks (htext : text ∈ blanks) (h : Ends rest) : Ends (text ++ rest) := by
  refine of_mem_kstar (P := fun text => Ends (text ++ rest)) h ?_ htext
  rintro _ ⟨c, hc, rfl⟩ more -
  have all : blankChars.all (fun c => isWordChar c == false) = true := by decide
  exact ends_cons (beq_iff_eq.mp (List.all_eq_true.mp all c hc)) _

/-- A mark ends the word before it. -/
theorem ends_mark {token : Token} (h : IsMark c token) (htext : text ∈ mark c)
    (rest : List Char) : Ends (text ++ rest) := by
  obtain ⟨blank, hblank, _, ⟨_, ⟨c, rfl, rfl⟩, blank', -, rfl⟩, rfl⟩ := htext
  change Ends ((blank ++ (c :: blank')) ++ rest)
  rw [List.append_assoc]
  exact ends_blanks hblank (ends_cons h.2.2.2 _)

theorem not_blank_of_isWordChar (h : isWordChar c = true) : isBlank c = false ∧ c ≠ '"' := by
  constructor
  · rw [Bool.eq_false_iff]
    intro blank
    simp only [isBlank, Bool.or_eq_true, beq_iff_eq] at blank
    rcases blank with ((rfl | rfl) | rfl) | rfl <;> exact absurd h (by decide)
  · rintro rfl
    exact absurd h (by decide)

/-- A word is complete when something else follows it. -/
theorem scan?_word {word : List Char} {token : Token} (h : Token.ofWord word = some token)
    (allowed : Ends rest) (held : List Token) :
    scan? ⟨held, .word word.reverse⟩ rest = scan? ⟨token :: held, .between⟩ rest := by
  cases rest with
  | nil =>
      change (Token.ofWord word.reverse.reverse).map _ = _
      rw [List.reverse_reverse, h]
      rfl
  | cons c rest =>
      have notWord := allowed c rest rfl
      rw [scan?_cons, scan?_cons, step, step]
      dsimp only
      rw [notWord, if_neg (by decide), List.reverse_reverse, h]
      rfl

theorem scan?_word_append {word word' : List Char} (all : word'.all isWordChar = true)
    (held : List Token) :
    scan? ⟨held, .word word⟩ (word' ++ rest) =
      scan? ⟨held, .word (word'.reverse ++ word)⟩ rest := by
  induction word' generalizing word with
  | nil => rfl
  | cons c word' ih =>
      rw [List.all_cons, Bool.and_eq_true] at all
      rw [List.cons_append, scan?_cons, step]
      dsimp only
      rw [if_pos all.1, Option.bind_some, ih all.2, List.reverse_cons, List.append_assoc,
        List.singleton_append]

/-- A word is scanned as its token. -/
theorem scans_word {word : List Char} {token : Token} (nonempty : word ≠ [])
    (all : word.all isWordChar = true) (h : Token.ofWord word = some token) :
    Scans Ends ({word} : Set (List Char)) [token] := by
  rintro text (rfl : text = word) rest allowed held
  cases text with
  | nil => exact absurd rfl nonempty
  | cons c more =>
      rw [List.all_cons, Bool.and_eq_true] at all
      have others := not_blank_of_isWordChar all.1
      rw [List.cons_append, scan?_cons, step, next, others.1, if_neg (by decide), if_neg others.2,
        if_pos all.1, Option.bind_some, scan?_word_append all.2, ← List.reverse_cons,
        scan?_word h allowed]
      rfl

/-- The body of a string is held until its quote comes. -/
theorem scan?_string_append {written : List Char} (h : written ∈ body) (held : List Token)
    (before : List Char) :
    scan? ⟨held, .string before⟩ (written ++ rest) =
      scan? ⟨held, .string (written.reverse ++ before)⟩ rest := by
  revert before
  refine of_mem_kstar (P := fun written => ∀ before,
    scan? ⟨held, .string before⟩ (written ++ rest) =
      scan? ⟨held, .string (written.reverse ++ before)⟩ rest) (fun _ => rfl) ?_ h
  intro part hpart more ih before
  have plain {c : Char} (quote : c ≠ '"') (backslash : c ≠ '\\') (before text : List Char) :
      scan? ⟨held, .string before⟩ (c :: text) = scan? ⟨held, .string (c :: before)⟩ text := by
    rw [scan?_cons, step]
    dsimp only
    rw [if_neg quote, if_neg backslash, Option.bind_some]
  have special (c : Char) (before text : List Char) :
      scan? ⟨held, .string before⟩ ('\\' :: c :: text) =
        scan? ⟨held, .string (c :: '\\' :: before)⟩ text := by
    rw [scan?_cons, step]
    dsimp only
    rw [if_neg (by decide), if_pos rfl, Option.bind_some, scan?_cons]
    rfl
  have hexDigit {c : Char} (hc : c ∈ hexChars) : c ≠ '"' ∧ c ≠ '\\' := by
    have all : hexChars.all (fun c => c != '"' && c != '\\') = true := by decide
    have found := List.all_eq_true.mp all c hc
    rwa [Bool.and_eq_true, bne_iff_ne, bne_iff_ne] at found
  rcases mem_part hpart with ⟨c, -, quote, backslash, rfl⟩ | ⟨c, -, rfl⟩ |
    ⟨a, ha, b, hb, c, hc, d, hd, rfl⟩
  · rw [List.append_assoc, List.singleton_append, plain quote backslash, ih, List.reverse_append,
      List.append_assoc]
    rfl
  · rw [List.append_assoc]
    change scan? _ ('\\' :: c :: (more ++ rest)) = _
    rw [special, ih, List.reverse_append, List.append_assoc]
    rfl
  · rw [List.append_assoc]
    change scan? _ ('\\' :: 'u' :: a :: b :: c :: d :: (more ++ rest)) = _
    rw [special, plain (hexDigit ha).1 (hexDigit ha).2, plain (hexDigit hb).1 (hexDigit hb).2,
      plain (hexDigit hc).1 (hexDigit hc).2, plain (hexDigit hd).1 (hexDigit hd).2, ih,
      List.reverse_append, List.append_assoc]
    rfl

theorem scans_quoted (written : List Char) :
    Scans (fun _ => True) (quoted written) [.string written] := by
  rintro _ ⟨h, rfl⟩ rest - held
  have closing : isBody (written.reverse ++ []).reverse = true := by
    rw [List.append_nil, List.reverse_reverse]
    exact isBody_of_mem_body h
  change scan? ⟨held, .between⟩ ('"' :: ((written ++ ['"']) ++ rest)) = _
  rw [List.append_assoc, scan?_cons]
  change scan? ⟨held, .string []⟩ (written ++ '"' :: rest) = _
  rw [scan?_string_append h, scan?_cons, step]
  dsimp only
  rw [if_pos rfl, if_pos closing, List.append_nil, List.reverse_reverse]
  rfl

theorem scans_number {digits : List Char} (h : digits ∈ JsonLanguage.number) :
    Scans Ends ({digits} : Set (List Char)) [.number digits] := by
  have isNumber := isNumber_of_mem_number h
  have other (word : List Char) (no : Json.isNumber word = false) : digits ≠ word := by
    rintro rfl
    rw [no] at isNumber
    cases isNumber
  refine scans_word (other [] rfl) (all_isWordChar_of_mem_number h) ?_
  rw [Token.ofWord, if_neg (other _ (by decide)), if_neg (other _ (by decide)),
    if_neg (other _ (by decide)), if_pos isNumber]

theorem scans_between {token : Token} (h : IsMark c token) (first : Scans Ends l tokens)
    (second : Scans Ends m tokens') :
    Scans Ends (l * (mark c * m)) (tokens ++ token :: tokens') := by
  refine first.mul ((scans_mark h).mul second fun _ _ _ _ => trivial) ?_
  rintro _ ⟨text, htext, text', -, rfl⟩ rest -
  change Ends ((text ++ text') ++ rest)
  rw [List.append_assoc]
  exact ends_mark h htext _

/-- Marks around a text end it. -/
theorem scans_enclosed {c' : Char} {token token' : Token} (opening : IsMark c token)
    (closing : IsMark c' token') (inner : Scans Ends l tokens) :
    Scans Ends (mark c * (l * mark c')) (token :: tokens ++ [token']) := by
  have inside := inner.mul (scans_mark closing)
    fun text htext rest _ => ends_mark closing htext rest
  exact ((scans_mark opening).mul inside fun _ _ _ _ => trivial).mono fun _ _ => trivial

mutual

/-- Every text of a value is cut into the tokens of the value. -/
theorem scans_texts : ∀ value : Json, Scans Ends value.texts value.tokens
  | .null => scans_word (by decide) (by decide) rfl
  | .bool true => scans_word (by decide) (by decide) rfl
  | .bool false => scans_word (by decide) (by decide) rfl
  | .number digits => by
      rintro _ ⟨h, rfl⟩
      exact scans_number h _ rfl
  | .string written => (scans_quoted written).mono fun _ _ => trivial
  | .array items => scans_enclosed (by decide) (by decide) (scans_itemTexts items)
  | .object members => scans_enclosed (by decide) (by decide) (scans_memberTexts members)

theorem scans_itemTexts : ∀ items : List Json, Scans Ends (itemTexts items) (itemTokens items)
  | [] => scans_one.mono fun _ _ => trivial
  | [item] => scans_texts item
  | item :: next :: rest =>
    scans_between (by decide) (scans_texts item) (scans_itemTexts (next :: rest))

theorem scans_memberTexts : ∀ members : List (List Char × Json),
    Scans Ends (memberTexts members) (memberTokens members)
  | [] => scans_one.mono fun _ _ => trivial
  | [(name, value)] =>
    scans_between (by decide) ((scans_quoted name).mono fun _ _ => trivial) (scans_texts value)
  | (name, value) :: next :: rest => by
    have more : Scans Ends (value.texts * (mark ',' * memberTexts (next :: rest)))
        (value.tokens ++ .comma :: memberTokens (next :: rest)) :=
      scans_between (by decide) (scans_texts value) (scans_memberTexts (next :: rest))
    have all : Scans Ends (memberTexts ((name, value) :: next :: rest))
        ([.string name] ++ .colon :: (value.tokens ++ .comma :: memberTokens (next :: rest))) :=
      scans_between (by decide) ((scans_quoted name).mono fun _ _ => trivial) more
    exact all

end

/-- A document is cut into the tokens of its value. -/
theorem tokens?_of_mem_documents {value : Json} {text : List Char} (h : text ∈ value.documents) :
    tokens? text = some value.tokens := by
  have blank : Scans Ends blanks [] := scans_blanks.mono fun _ _ => trivial
  have scanned : Scans Ends value.documents ([] ++ (value.tokens ++ [])) :=
    scans_blanks.mul ((scans_texts value).mul blank fun _ htext _ => ends_blanks htext)
      fun _ _ _ _ => trivial
  have whole := scanned text h [] ends_nil []
  rw [List.append_nil, List.append_nil, List.nil_append, List.append_nil] at whole
  refine whole.trans ?_
  change some value.tokens.reverse.reverse = _
  rw [List.reverse_reverse]

end Scanner

/-- A text in which a value can be written, with blanks where the grammar allows them, is read
as the value. -/
theorem read?_of_mem_documents {value : Json} {text : String}
    (h : text.toList ∈ value.documents) : read? text = some value := by
  rw [read?, Scanner.tokens?_of_mem_documents h, Option.bind_some, ofTokens?_tokens]

end Json

end DiceSampling
