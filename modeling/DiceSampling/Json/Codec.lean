/-
# Specifications and samples as JSON

Both are written as objects with two members.  Reading takes the members in any
order and passes over members with other names, or takes an array of the two
values; a member that is missing or given twice is refused.
-/

import DiceSampling.Json.Value
import DiceSampling.Sample.Basic

namespace DiceSampling

namespace Json

/-- The object with some members. -/
def ofMembers (members : List (String × Json)) : Json :=
  .object (members.map fun (name, value) => (name.toList.flatMap escape, value))

/-- The value of the one member with a name. -/
def member? (name : String) (members : List (List Char × Json)) : Option Json :=
  match members.filter fun (written, _) => written = name.toList with
  | [(_, value)] => some value
  | _ => none

/-- The values of two members by name, or the two items of an array. -/
def pair? (first second : String) : Json → Option (Json × Json)
  | array [a, b] => some (a, b)
  | object members => do
    let members ← members.mapM fun (body, value) => (unescape body).map (·, value)
    return (← member? first members, ← member? second members)
  | _ => none

/-- The characters of a number. -/
def digits? : Json → Option (List Char)
  | number digits => some digits
  | _ => none

end Json

namespace Spec

/-- A specification as JSON. -/
def toJson (spec : Spec) : Json :=
  .ofMembers [("count", .ofNat spec.count.toNat), ("sides", .ofNat spec.sides.toNat)]

/-- The specification that a JSON value stands for. -/
def ofJson? (json : Json) : Option Spec := do
  let (count, sides) ← json.pair? "count" "sides"
  return ⟨← count.digits?.bind Json.word32?, ← sides.digits?.bind Json.word32?⟩

/-- The specification that a JSON text stands for. -/
def ofJsonText? (text : String) : Option Spec := (Json.read? text).bind ofJson?

end Spec

namespace Sample

/-- The member of a total and its tally.  The total is the name. -/
def tallyMember (total : Int64) (tally : UInt64) : String × Json :=
  (Decimal.signedText total.toInt, .ofNat tally.toNat)

/-- A sample as JSON. -/
def toJson (sample : Sample) : Json :=
  .ofMembers [
    ("counts", .ofMembers (sample.entries.map fun (total, tally) => tallyMember total tally)),
    ("len", .ofNat sample.len.toNat)]

/-- The table of the members of an object.  Of a total that is named more than
once the last tally stands.  A total must be written as an integer, without escapes. -/
def tallies? : Json → Option (Std.ExtTreeMap Int64 UInt64)
  | .object members =>
    members.foldlM (fun table (name, value) => do
      return table.insert (← Json.int64? name) (← value.digits?.bind Json.word64?)) ∅
  | _ => none

/-- The sample that a JSON value stands for. -/
def ofJson? (json : Json) : Option Sample := do
  let (counts, len) ← json.pair? "counts" "len"
  return ⟨← tallies? counts, ← len.digits?.bind Json.word64?⟩

/-- The sample that a JSON text stands for. -/
def ofJsonText? (text : String) : Option Sample := (Json.read? text).bind ofJson?

end Sample

end DiceSampling
