/-
# Histograms

A sample as lines of text: how many draws there were, what is known of their
mean and deviation, and one row for every total.  A row shows the total, its
share in percent and a bar; the longest bar belongs to the greatest share and
has the full width.
-/

import DiceSampling.Binary64.Text
import DiceSampling.Sample.Summary

namespace DiceSampling.Histogram

/-- What a row shows. -/
structure Row where
  total : Int64
  share : Float
  bar : Nat

/-- The greatest share; zero if there is none above it. -/
def peak (frequencies : List (Int64 × Float)) : Float :=
  frequencies.foldl (fun highest (_, share) => if highest < share then share else highest) 0.0

/-- The length of the bar of a share, in characters. -/
def barLength (width : UInt64) (peak share : Float) : Nat :=
  if 0.0 < peak then Binary64.roundToNat (UInt64.size - 1) (share / peak * width.toFloat) else 0

/-- The rows of a sample, in ascending order of the totals. -/
def rows (sample : Sample) (width : UInt64) : List Row :=
  let frequencies := sample.frequencies
  let peak := peak frequencies
  frequencies.map fun (total, share) => ⟨total, share, barLength width peak share⟩

/-- The text of a row's total. -/
def Row.label (row : Row) : String := Decimal.signedText row.total.toInt

/-- The length of the longest label. -/
def labelWidth (rows : List Row) : Nat := rows.foldl (fun width row => max width row.label.length) 0

/-- A text with blanks in front, up to a length. -/
def padded (width : Nat) (text : String) : String :=
  String.ofList (List.replicate (width - text.length) ' ') ++ text

/-- The line of a row. -/
def Row.line (row : Row) (labelWidth : Nat) : String :=
  padded labelWidth row.label ++ " " ++ padded 6 (Binary64.fixedText 2 (row.share * 100.0)) ++ "% "
    ++ String.ofList (List.replicate row.bar '#')

/-- A mean and a deviation on a line. -/
def summaryLine (summary : Summary) : String :=
  "mean " ++ Binary64.fixedText 2 summary.mean
    ++ ", std dev " ++ Binary64.fixedText 2 summary.stdDev

/-- The lines before the rows. -/
def header (title : String) (sample : Sample) (expected : Option Summary) : List String :=
  [title ++ " (" ++ Decimal.text sample.len.toNat ++ " rolls)"]
    ++ sample.summary.toList.map summaryLine
    ++ expected.toList.map fun summary => "expected " ++ summaryLine summary

/-- The lines of a histogram. -/
def lines (title : String) (sample : Sample) (expected : Option Summary) (width : UInt64) :
    List String :=
  let rows := rows sample width
  header title sample expected ++ rows.map fun row => row.line (labelWidth rows)

/-- A histogram, with a line break after every line. -/
def text (title : String) (sample : Sample) (expected : Option Summary) (width : UInt64) : String :=
  String.join ((lines title sample expected width).map (· ++ "\n"))

end DiceSampling.Histogram
