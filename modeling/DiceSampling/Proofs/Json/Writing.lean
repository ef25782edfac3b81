/-
# Values as text

A value whose numbers and strings have the right shape can be written at all, and then it can
be written without blanks and over several lines.  In both forms it is read as itself.
-/

import DiceSampling.Json.Codec
import DiceSampling.Json.Indented
import DiceSampling.Proofs.Json.Reading

namespace DiceSampling.Json

open JsonLanguage
open scoped Computability

section Writable

variable {items : List Json} {members : List (List Char × Json)} {text : List Char}

theorem nil_mem_blanks : [] ∈ blanks := Language.nil_mem_kstar _

theorem mem_blanks (h : ∀ c ∈ text, c ∈ blankChars) : text ∈ blanks := by
  refine Language.mem_kstar.mpr ⟨text.map fun c => [c], ?_, ?_⟩
  · rw [← List.flatMap_def, List.flatMap_singleton']
  · rw [List.forall_mem_map]
    exact fun c mem => ⟨c, h c mem, rfl⟩

theorem mem_mark {before after : List Char} (hbefore : before ∈ blanks) (c : Char)
    (hafter : after ∈ blanks) : before ++ c :: after ∈ mark c :=
  ⟨before, hbefore, _, ⟨[c], ⟨c, rfl, rfl⟩, after, hafter, rfl⟩, rfl⟩

theorem singleton_mem_mark (c : Char) : [c] ∈ mark c := mem_mark nil_mem_blanks c nil_mem_blanks

/-- Whether a value can be written: its numbers and strings have the right shape. -/
def Writable (value : Json) : Prop := ∃ text, text ∈ value.texts

theorem writable_null : Writable null := ⟨_, rfl⟩

theorem writable_number {digits : List Char} (h : digits ∈ JsonLanguage.number) :
    Writable (number digits) := ⟨digits, h, rfl⟩

theorem writable_string {written : List Char} (h : written ∈ body) : Writable (string written) :=
  ⟨_, h, rfl⟩

theorem exists_mem_itemTexts (h : ∀ item ∈ items, Writable item) :
    ∃ text, text ∈ itemTexts items := by
  induction items with
  | nil => exact ⟨[], rfl⟩
  | cons item rest ih =>
      obtain ⟨⟨text, here⟩, others⟩ := List.forall_mem_cons.mp h
      obtain ⟨more, later⟩ := ih others
      cases rest with
      | nil => exact ⟨text, here⟩
      | cons next rest =>
          exact ⟨_, text, here, _, ⟨_, singleton_mem_mark ',', more, later, rfl⟩, rfl⟩

theorem exists_mem_memberTexts
    (h : ∀ member ∈ members, member.1 ∈ body ∧ Writable member.2) :
    ∃ text, text ∈ memberTexts members := by
  induction members with
  | nil => exact ⟨[], rfl⟩
  | cons member rest ih =>
      obtain ⟨⟨hname, text, here⟩, others⟩ := List.forall_mem_cons.mp h
      obtain ⟨more, later⟩ := ih others
      obtain ⟨name, value⟩ := member
      cases rest with
      | nil => exact ⟨_, _, ⟨hname, rfl⟩, _, ⟨_, singleton_mem_mark ':', text, here, rfl⟩, rfl⟩
      | cons next rest =>
          exact ⟨_, _, ⟨hname, rfl⟩, _, ⟨_, singleton_mem_mark ':', _, ⟨text, here, _,
            ⟨_, singleton_mem_mark ',', more, later, rfl⟩, rfl⟩, rfl⟩, rfl⟩

theorem writable_of_mem_itemTexts (h : text ∈ itemTexts items) : ∀ item ∈ items, Writable item := by
  induction items generalizing text with
  | nil => simp
  | cons item rest ih =>
      cases rest with
      | nil => exact List.forall_mem_singleton.mpr ⟨text, h⟩
      | cons next rest =>
          obtain ⟨here, hhere, _, ⟨_, -, more, hmore, -⟩, -⟩ := h
          exact List.forall_mem_cons.mpr ⟨⟨here, hhere⟩, ih hmore⟩

theorem writable_of_mem_memberTexts (h : text ∈ memberTexts members) :
    ∀ member ∈ members, member.1 ∈ body ∧ Writable member.2 := by
  induction members generalizing text with
  | nil => simp
  | cons member rest ih =>
      obtain ⟨name, value⟩ := member
      cases rest with
      | nil =>
          obtain ⟨_, ⟨hname, -⟩, _, ⟨_, -, here, hhere, -⟩, -⟩ := h
          exact List.forall_mem_singleton.mpr ⟨hname, here, hhere⟩
      | cons next rest =>
          obtain ⟨_, ⟨hname, -⟩, _, ⟨_, -, _, ⟨here, hhere, _, later, -⟩, -⟩, -⟩ := h
          obtain ⟨_, -, more, hmore, -⟩ := later
          exact List.forall_mem_cons.mpr ⟨⟨hname, here, hhere⟩, ih hmore⟩

/-- An array can be written if its items can. -/
theorem writable_array_iff : Writable (array items) ↔ ∀ item ∈ items, Writable item := by
  constructor
  · rintro ⟨_, _, -, _, ⟨inner, mem, -⟩, -⟩
    exact writable_of_mem_itemTexts mem
  · intro h
    obtain ⟨text, mem⟩ := exists_mem_itemTexts h
    exact ⟨_, _, singleton_mem_mark '[', _, ⟨text, mem, _, singleton_mem_mark ']', rfl⟩, rfl⟩

/-- An object can be written if its members can. -/
theorem writable_object_iff :
    Writable (object members) ↔ ∀ member ∈ members, member.1 ∈ body ∧ Writable member.2 := by
  constructor
  · rintro ⟨_, _, -, _, ⟨inner, mem, -⟩, -⟩
    exact writable_of_mem_memberTexts mem
  · intro h
    obtain ⟨text, mem⟩ := exists_mem_memberTexts h
    exact ⟨_, _, singleton_mem_mark '\x7b', _, ⟨text, mem, _, singleton_mem_mark '\x7d', rfl⟩, rfl⟩

theorem writable_ofNat (n : ℕ) : Writable (ofNat n) := writable_number (digits_mem_number n)

/-- Names without special characters stand as they are. -/
theorem writable_ofMembers {members : List (String × Json)}
    (h : ∀ member ∈ members, member.1.toList.all isPlain = true ∧ Writable member.2) :
    Writable (ofMembers members) := by
  refine writable_object_iff.mpr (List.forall_mem_map.mpr ?_)
  rintro ⟨name, value⟩ mem
  obtain ⟨plain, hvalue⟩ := h _ mem
  exact ⟨flatMap_escape_mem_body plain, hvalue⟩

end Writable

section Compact

/-- The characters of a value without blanks. -/
def compact (value : Json) : List Char := value.tokens.flatMap Token.chars

theorem toList_render (value : Json) : value.render.toList = value.compact :=
  String.toList_ofList

mutual

/-- What can be written at all can be written without blanks. -/
theorem compact_mem_texts : ∀ value : Json, Writable value → value.compact ∈ value.texts
  | .null, _ => rfl
  | .bool true, _ => rfl
  | .bool false, _ => rfl
  | .number _, ⟨_, shape, _⟩ => ⟨shape, List.append_nil _⟩
  | .string _, ⟨_, shape, _⟩ => ⟨shape, List.append_nil _⟩
  | .array items, h => by
    have inner := compact_mem_itemTexts items (writable_array_iff.mp h)
    refine ⟨_, singleton_mem_mark '[', _, ⟨_, inner, _, singleton_mem_mark ']', rfl⟩, ?_⟩
    simp [compact, tokens, Token.chars]
  | .object members, h => by
    have inner := compact_mem_memberTexts members (writable_object_iff.mp h)
    refine ⟨_, singleton_mem_mark '\x7b', _, ⟨_, inner, _, singleton_mem_mark '\x7d', rfl⟩, ?_⟩
    simp [compact, tokens, Token.chars]

theorem compact_mem_itemTexts : ∀ items : List Json, (∀ item ∈ items, Writable item) →
    (itemTokens items).flatMap Token.chars ∈ itemTexts items
  | [], _ => rfl
  | [item], h => compact_mem_texts item (List.forall_mem_singleton.mp h)
  | item :: next :: rest, h => by
    obtain ⟨here, others⟩ := List.forall_mem_cons.mp h
    have inner := compact_mem_texts item here
    have more := compact_mem_itemTexts (next :: rest) others
    refine ⟨_, inner, _, ⟨_, singleton_mem_mark ',', _, more, rfl⟩, ?_⟩
    simp [compact, itemTokens, Token.chars]

theorem compact_mem_memberTexts : ∀ members : List (List Char × Json),
    (∀ member ∈ members, member.1 ∈ body ∧ Writable member.2) →
    (memberTokens members).flatMap Token.chars ∈ memberTexts members
  | [], _ => rfl
  | [(name, value)], h => by
    obtain ⟨hname, here⟩ := List.forall_mem_singleton.mp h
    have inner := compact_mem_texts value here
    exact ⟨_, ⟨hname, rfl⟩, _, ⟨_, singleton_mem_mark ':', _, inner, rfl⟩, rfl⟩
  | (name, value) :: next :: rest, h => by
    obtain ⟨⟨hname, here⟩, others⟩ := List.forall_mem_cons.mp h
    have inner := compact_mem_texts value here
    have more := compact_mem_memberTexts (next :: rest) others
    refine ⟨_, ⟨hname, rfl⟩, _, ⟨_, singleton_mem_mark ':', _, ⟨_, inner, _,
      ⟨_, singleton_mem_mark ',', _, more, rfl⟩, rfl⟩, rfl⟩, ?_⟩
    simp [compact, memberTokens, Token.chars]

end

/-- What is written without blanks is a document. -/
theorem render_mem_documents {value : Json} (h : Writable value) :
    value.render.toList ∈ value.documents :=
  ⟨[], nil_mem_blanks, _, ⟨_, compact_mem_texts value h, [], nil_mem_blanks, List.append_nil _⟩,
    (toList_render value).symm⟩

end Compact

section Indented

theorem newLine_mem_blanks (depth : ℕ) : newLine depth ∈ blanks := by
  refine mem_blanks fun c mem => ?_
  rcases List.mem_cons.mp mem with rfl | mem
  · decide
  · rw [List.eq_of_mem_replicate mem]
    decide

theorem mark_newLine (c : Char) (depth : ℕ) : c :: newLine depth ∈ mark c :=
  mem_mark nil_mem_blanks c (newLine_mem_blanks depth)

theorem newLine_mark (c : Char) (depth : ℕ) : newLine depth ++ [c] ∈ mark c :=
  mem_mark (newLine_mem_blanks depth) c nil_mem_blanks

/-- Items that are written in lines of one depth, with commas between them. -/
theorem indentedItems_mem {depth : ℕ} {item : Json} {rest : List Json}
    (h : ∀ part ∈ item :: rest, part.indented depth ∈ part.texts) :
    item.indented depth ++ indentedItems depth rest ∈ itemTexts (item :: rest) := by
  induction rest generalizing item with
  | nil =>
      rw [indentedItems, List.append_nil]
      exact h item List.mem_cons_self
  | cons next rest ih =>
      obtain ⟨here, others⟩ := List.forall_mem_cons.mp h
      refine ⟨_, here, _, ⟨_, mark_newLine ',' depth, _, ih others, rfl⟩, ?_⟩
      simp [indentedItems]

theorem indentedMembers_mem {depth : ℕ} {name : List Char} {value : Json}
    {rest : List (List Char × Json)}
    (h : ∀ member ∈ (name, value) :: rest,
      member.1 ∈ body ∧ member.2.indented depth ∈ member.2.texts) :
    (Token.string name).chars ++ [':', ' '] ++ value.indented depth ++ indentedMembers depth rest ∈
      memberTexts ((name, value) :: rest) := by
  have blank : [' '] ∈ blanks := mem_blanks (List.forall_mem_singleton.mpr (by decide))
  have colon : [':', ' '] ∈ mark ':' := mem_mark nil_mem_blanks ':' blank
  induction rest generalizing name value with
  | nil =>
      obtain ⟨⟨hname, here⟩, -⟩ := List.forall_mem_cons.mp h
      refine ⟨_, ⟨hname, rfl⟩, _, ⟨_, colon, _, here, rfl⟩, ?_⟩
      simp [indentedMembers, Token.chars]
  | cons next rest ih =>
      obtain ⟨⟨hname, here⟩, others⟩ := List.forall_mem_cons.mp h
      refine ⟨_, ⟨hname, rfl⟩, _, ⟨_, colon, _, ⟨_, here, _,
        ⟨_, mark_newLine ',' depth, _, ih others, rfl⟩, rfl⟩, rfl⟩, ?_⟩
      simp [indentedMembers, Token.chars]

mutual

/-- What can be written at all can be written over several lines. -/
theorem indented_mem_texts : ∀ value : Json, Writable value → ∀ depth : ℕ,
    value.indented depth ∈ value.texts
  | .null, _, _ => rfl
  | .bool true, _, _ => rfl
  | .bool false, _, _ => rfl
  | .number _, ⟨_, shape, _⟩, _ => ⟨shape, rfl⟩
  | .string _, ⟨_, shape, _⟩, _ => ⟨shape, rfl⟩
  | .array [], _, _ =>
    ⟨_, singleton_mem_mark '[', _, ⟨[], rfl, _, singleton_mem_mark ']', rfl⟩, rfl⟩
  | .array (item :: rest), h, depth => by
    have items := indented_mem_texts_of_items (item :: rest) (writable_array_iff.mp h) (depth + 1)
    refine ⟨_, mark_newLine '[' (depth + 1), _, ⟨_, indentedItems_mem items, _,
      newLine_mark ']' depth, rfl⟩, ?_⟩
    simp [indented]
  | .object [], _, _ =>
    ⟨_, singleton_mem_mark '\x7b', _, ⟨[], rfl, _, singleton_mem_mark '\x7d', rfl⟩, rfl⟩
  | .object ((name, value) :: rest), h, depth => by
    have members := indented_mem_texts_of_members ((name, value) :: rest)
      (writable_object_iff.mp h) (depth + 1)
    refine ⟨_, mark_newLine '\x7b' (depth + 1), _, ⟨_, indentedMembers_mem members, _,
      newLine_mark '\x7d' depth, rfl⟩, ?_⟩
    simp [indented]

theorem indented_mem_texts_of_items : ∀ items : List Json, (∀ item ∈ items, Writable item) →
    ∀ depth : ℕ, ∀ item ∈ items, item.indented depth ∈ item.texts
  | [], _, _ => by simp
  | item :: rest, h, depth =>
    List.forall_mem_cons.mpr
      ⟨indented_mem_texts item (List.forall_mem_cons.mp h).1 depth,
        indented_mem_texts_of_items rest (List.forall_mem_cons.mp h).2 depth⟩

theorem indented_mem_texts_of_members : ∀ members : List (List Char × Json),
    (∀ member ∈ members, member.1 ∈ body ∧ Writable member.2) →
    ∀ depth : ℕ, ∀ member ∈ members,
      member.1 ∈ body ∧ member.2.indented depth ∈ member.2.texts
  | [], _, _ => by simp
  | (name, value) :: rest, h, depth =>
    List.forall_mem_cons.mpr
      ⟨⟨(List.forall_mem_cons.mp h).1.1,
          indented_mem_texts value (List.forall_mem_cons.mp h).1.2 depth⟩,
        indented_mem_texts_of_members rest (List.forall_mem_cons.mp h).2 depth⟩

end

/-- What is written over several lines is read as the value. -/
theorem read?_renderIndented {value : Json} (h : Writable value) :
    read? value.renderIndented = some value := by
  apply read?_of_mem_documents
  rw [renderIndented, String.toList_ofList]
  exact ⟨[], nil_mem_blanks, _, ⟨_, indented_mem_texts value h 0, [], nil_mem_blanks,
    List.append_nil _⟩, rfl⟩

end Indented

end DiceSampling.Json
