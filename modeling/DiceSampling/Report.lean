/-
# Reports

The distributions of a run as indented JSON text.
-/

import DiceSampling.Binary64.Shortest
import DiceSampling.Json.Codec
import DiceSampling.Json.Indented
import DiceSampling.Sample.Summary

namespace DiceSampling

/-- What a run found out about one notation. -/
structure Distribution where
  title : String
  samples : UInt64
  summary : Option Summary
  expected : Option Summary
  frequencies : List (Int64 × Float)

/-- How a float is written. -/
abbrev FloatFormat := Float → String

namespace Report

/-- A float as JSON.  What is not a number is null. -/
def ofFloat (format : FloatFormat) (x : Float) : Json :=
  if Binary64.isNumber x then .number (format x).toList else .null

/-- A summary as JSON. -/
def ofSummary (format : FloatFormat) : Option Summary → Json
  | none => .null
  | some summary =>
    .ofMembers [
      ("mean", ofFloat format summary.mean),
      ("std_dev", ofFloat format summary.stdDev)]

/-- A total with its share as JSON. -/
def ofFrequency (total : Int64) (share : Float) : Json :=
  .array [.ofInt total.toInt, ofFloat Binary64.shortestText share]

/-- A distribution as JSON. -/
def ofDistribution (format : FloatFormat) (distribution : Distribution) : Json :=
  .ofMembers [
    ("notation", .ofText distribution.title),
    ("samples", .ofNat distribution.samples.toNat),
    ("summary", ofSummary format distribution.summary),
    ("expected", ofSummary Binary64.shortestText distribution.expected),
    ("frequencies", .array (distribution.frequencies.map fun (total, share) =>
      ofFrequency total share))]

/-- The text of a report.  `format` writes the floats of the summaries; all other
floats are written with the fewest digits. -/
def text (format : FloatFormat) (distributions : List Distribution) : String :=
  (Json.array (distributions.map (ofDistribution format))).renderIndented

end Report

end DiceSampling
