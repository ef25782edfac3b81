/-
# What a report says

A report is read item by item: the text of a notation, a number of samples, two summaries,
and a share for each total.  Read in this way it gives back what was written, with the
numbers that the floats denote.
-/

import DiceSampling.Proofs.Json.Decimals
import DiceSampling.Proofs.Json.RoundTrip
import DiceSampling.Report

namespace DiceSampling

namespace Json

/-- The text that a string denotes. -/
def text? : Json → Option String
  | string body => (unescape body).map String.ofList
  | _ => none

/-- The items of an array. -/
def items? : Json → Option (List Json)
  | array items => some items
  | _ => none

/-- The members of an object, with their names read. -/
def members? : Json → Option (List (List Char × Json))
  | object members => members.mapM fun (body, value) => (unescape body).map (·, value)
  | _ => none

/-- What is read of the one member with a name. -/
def field? {α : Type} (name : String) (read : Json → Option α)
    (members : List (List Char × Json)) : Option α := (member? name members).bind read

/-- The number that a value stands for, to the precision of a float. Null stands for none. -/
def float? : Json → Option (Option ℚ)
  | null => some none
  | number digits => some (some (Binary64.rounded (rational digits)))
  | _ => none

theorem text?_ofText {text : String} (plain : text.toList.all isPlain = true) :
    (ofText text).text? = some text := by
  rw [ofText, text?, flatMap_escape_of_isPlain plain, unescape_of_isPlain plain, Option.map_some,
    String.ofList_toList]

theorem members?_ofMembers {members : List (String × Json)}
    (plain : ∀ member ∈ members, member.1.toList.all isPlain = true) :
    (ofMembers members).members? =
      some (members.map fun member => (member.1.toList, member.2)) := by
  rw [ofMembers, members?, List.mapM_map]
  refine mapM_eq_some_map fun member mem => ?_
  change (unescape (written member.1)).map (·, member.2) = _
  rw [unescape_written (plain member mem), Option.map_some]

/-- A member is looked up by its name. -/
theorem field?_of_mem {α : Type} {read : Json → Option α} {members : List (String × Json)}
    {name : String} {value : Json} {a : α} (distinct : (members.map Prod.fst).Nodup)
    (mem : (name, value) ∈ members) (reads : read value = some a) :
    field? name read (members.map fun member => (member.1.toList, member.2)) = some a := by
  obtain ⟨before, after, rfl⟩ := List.append_of_mem mem
  rw [List.map_append, List.map_cons, List.nodup_middle, List.nodup_cons, ← List.map_append]
    at distinct
  have found : member? name ((before ++ (name, value) :: after).map
      fun member => (member.1.toList, member.2)) = some value := by
    refine member?_of_perm ((List.perm_middle (a := (name, value))).map _) ?_
    rw [List.forall_mem_map]
    intro member other same
    exact distinct.1 (List.mem_map.mpr ⟨member, other, String.toList_inj.mp same⟩)
  rw [field?, found, Option.bind_some, reads]

theorem writable_ofText {text : String} (plain : text.toList.all isPlain = true) :
    Writable (ofText text) := writable_string (flatMap_escape_mem_body plain)

theorem writable_ofInt (i : ℤ) : Writable (ofInt i) := by
  refine writable_number ?_
  cases i with
  | ofNat n =>
      rw [Decimal.signedText, Decimal.text, String.toList_ofList]
      exact JsonLanguage.digits_mem_number n
  | negSucc n =>
      rw [toList_signedText_negSucc]
      exact ⟨['-'], .inr ⟨'-', rfl, rfl⟩, _, ⟨_, JsonLanguage.digits_mem_whole (n + 1), [],
        ⟨[], .inl rfl, [], .inl rfl, rfl⟩, List.append_nil _⟩, rfl⟩

end Json

namespace Report

open Json

/-- What a report says of one notation, with the numbers that the floats denote. -/
structure Item where
  title : String
  samples : UInt64
  summary : Option (Option ℚ × Option ℚ)
  expected : Option (Option ℚ × Option ℚ)
  frequencies : List (Int64 × Option ℚ)

/-- The mean and the deviation that a value stands for. Null stands for none. -/
def summary? : Json → Option (Option (Option ℚ × Option ℚ))
  | null => some none
  | json => do
    let (mean, deviation) ← json.pair? "mean" "std_dev"
    return some (← mean.float?, ← deviation.float?)

/-- The total and the share that a value stands for. -/
def frequency? : Json → Option (Int64 × Option ℚ)
  | array [total, share] => do return (← total.digits?.bind int64?, ← share.float?)
  | _ => none

/-- The totals with their shares that a value stands for. -/
def frequencies? (json : Json) : Option (List (Int64 × Option ℚ)) := do
  let items ← json.items?
  items.mapM frequency?

/-- The item that a value stands for. -/
def item? (json : Json) : Option Item := do
  let members ← json.members?
  let title ← field? "notation" text? members
  let samples ← field? "samples" (fun value => value.digits?.bind word64?) members
  let summary ← field? "summary" summary? members
  let expected ← field? "expected" summary? members
  let frequencies ← field? "frequencies" frequencies? members
  return ⟨title, samples, summary, expected, frequencies⟩

/-- The items of a report. -/
def read? (text : String) : Option (List Item) := do
  let items ← (← Json.read? text).items?
  items.mapM item?

/-- The two numbers of a summary. -/
def numbers (summary : Summary) : Option ℚ × Option ℚ :=
  (Binary64.value? summary.mean, Binary64.value? summary.stdDev)

/-- The item of a distribution. -/
def Item.of (distribution : Distribution) : Item where
  title := distribution.title
  samples := distribution.samples
  summary := distribution.summary.map numbers
  expected := distribution.expected.map numbers
  frequencies := distribution.frequencies.map fun (total, share) => (total, Binary64.value? share)

section Float

theorem ofFloat_cases (x : Float) :
    (Binary64.value? x = none ∧ ofFloat Binary64.shortestText x = .null) ∨
    ∃ v, Binary64.value? x = some v ∧
      ofFloat Binary64.shortestText x = .number (Binary64.shortestText x).toList := by
  unfold ofFloat Binary64.isNumber Binary64.value?
  cases Binary64.ofFloat x with
  | nan => exact .inl ⟨rfl, rfl⟩
  | infinite negative => exact .inl ⟨rfl, rfl⟩
  | finite negative m q => exact .inr ⟨_, rfl, rfl⟩

theorem writable_ofFloat (x : Float) : Writable (ofFloat Binary64.shortestText x) := by
  rcases ofFloat_cases x with ⟨-, written⟩ | ⟨v, denotes, written⟩
  · rw [written]
    exact writable_null
  · rw [written]
    exact writable_number (toList_shortestText_mem_number denotes)

/-- What is written of a float stands for the number that it denotes. -/
theorem float?_ofFloat (x : Float) :
    (ofFloat Binary64.shortestText x).float? = some (Binary64.value? x) := by
  rcases ofFloat_cases x with ⟨denotes, written⟩ | ⟨v, denotes, written⟩
  · rw [written, denotes, float?]
  · rw [written, denotes, float?, rounded_rational_shortestText denotes]

end Float

section Parts

variable (summary : Option Summary) (total : Int64) (share : Float)

theorem writable_ofSummary : Writable (ofSummary Binary64.shortestText summary) := by
  cases summary with
  | none => exact writable_null
  | some summary =>
      refine writable_ofMembers fun member mem => ?_
      rcases List.mem_pair.mp mem with rfl | rfl
      · exact ⟨show "mean".toList.all isPlain = true by decide, writable_ofFloat _⟩
      · exact ⟨show "std_dev".toList.all isPlain = true by decide, writable_ofFloat _⟩

theorem summary?_ofSummary :
    summary? (ofSummary Binary64.shortestText summary) = some (summary.map numbers) := by
  cases summary with
  | none => rfl
  | some summary =>
      have held := holds_ofMembers "mean" "std_dev"
        (ofFloat Binary64.shortestText summary.mean) (ofFloat Binary64.shortestText summary.stdDev)
      rw [ofSummary, summary?, held.pair?_eq (by decide) (by decide) (by decide)]
      · change (do return some (← (ofFloat _ summary.mean).float?,
          ← (ofFloat _ summary.stdDev).float?)) = _
        rw [float?_ofFloat, float?_ofFloat]
        rfl
      · exact nofun

theorem writable_ofFrequency : Writable (ofFrequency total share) := by
  refine writable_array_iff.mpr fun item mem => ?_
  rcases List.mem_pair.mp mem with rfl | rfl
  · exact writable_ofInt _
  · exact writable_ofFloat share

theorem frequency?_ofFrequency :
    frequency? (ofFrequency total share) = some (total, Binary64.value? share) := by
  have int64 : (ofInt total.toInt).digits?.bind int64? = some total := int64?_signedText total
  rw [ofFrequency, frequency?, int64, float?_ofFloat]
  rfl

theorem frequencies?_array (frequencies : List (Int64 × Float)) :
    frequencies? (.array (frequencies.map fun (total, share) => ofFrequency total share)) =
      some (frequencies.map fun (total, share) => (total, Binary64.value? share)) := by
  change (frequencies.map _).mapM frequency? = _
  rw [List.mapM_map]
  exact mapM_eq_some_map fun (total, share) _ => frequency?_ofFrequency total share

end Parts

section Distribution

variable {distribution : Distribution} (plain : distribution.title.toList.all isPlain = true)
include plain

theorem writable_ofDistribution :
    Writable (ofDistribution Binary64.shortestText distribution) := by
  refine writable_ofMembers ?_
  simp only [List.forall_mem_cons]
  refine ⟨⟨by decide, writable_ofText plain⟩, ⟨by decide, writable_ofNat _⟩,
    ⟨by decide, writable_ofSummary _⟩, ⟨by decide, writable_ofSummary _⟩, ⟨by decide, ?_⟩,
    List.forall_mem_nil _⟩
  exact writable_array_iff.mpr (List.forall_mem_map.mpr fun _ _ => writable_ofFrequency _ _)

/-- The item of a distribution is read as what it says. -/
theorem item?_ofDistribution :
    item? (ofDistribution Binary64.shortestText distribution) = some (.of distribution) := by
  obtain ⟨title, samples, summary, expected, frequencies⟩ := distribution
  have number : (ofNat samples.toNat).digits?.bind word64? = some samples := word64?_digits samples
  rw [ofDistribution, item?, members?_ofMembers (by simp only [List.forall_mem_cons]; decide),
    Option.bind_eq_bind, Option.bind_some]
  generalize hmembers : [("notation", ofText title), _, _, _, _] = members
  have distinct : (members.map Prod.fst).Nodup := by
    rw [← hmembers]
    change ["notation", "samples", "summary", "expected", "frequencies"].Nodup
    decide
  rw [field?_of_mem distinct (by simp [← hmembers]) (text?_ofText plain),
    field?_of_mem distinct (by simp [← hmembers]) number,
    field?_of_mem distinct (by simp [← hmembers]) (summary?_ofSummary summary),
    field?_of_mem distinct (by simp [← hmembers]) (summary?_ofSummary expected),
    field?_of_mem distinct (by simp [← hmembers]) (frequencies?_array frequencies)]
  rfl

end Distribution

/-- A report is read as what it says of each distribution, in order. -/
theorem read?_text {distributions : List Distribution}
    (plain : ∀ distribution ∈ distributions, distribution.title.toList.all isPlain = true) :
    read? (text Binary64.shortestText distributions) = some (distributions.map .of) := by
  have writable : Writable (.array (distributions.map (ofDistribution Binary64.shortestText))) :=
    writable_array_iff.mpr (List.forall_mem_map.mpr fun distribution mem =>
      writable_ofDistribution (plain distribution mem))
  rw [read?, text, read?_renderIndented writable]
  change (distributions.map (ofDistribution Binary64.shortestText)).mapM item? = _
  rw [List.mapM_map]
  exact mapM_eq_some_map fun distribution mem => item?_ofDistribution (plain distribution mem)

end Report

end DiceSampling
