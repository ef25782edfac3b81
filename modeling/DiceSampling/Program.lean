/-
# Sampling runs

A run reads all notations first.  Then each is sampled from its own fork of the
main generator, so what one notation takes does not touch the next.  A run that
ends early keeps what it has printed, and has no report.
-/

import DiceSampling.Histogram
import DiceSampling.Options.Basic
import DiceSampling.Random.Supply
import DiceSampling.Report

namespace DiceSampling.Program

/-- Why a run ends early. -/
inductive Failure where
  /-- A notation cannot be read. -/
  | unreadable (text : String) (cause : NotationError)
  /-- There is no total to sample. -/
  | fault (cause : Fault)
  deriving DecidableEq, Repr

namespace Failure

/-- What is wrong, in words. -/
def message : Failure → String
  | unreadable text _ => "Invalid dice notation " ++ Quoted.text text
  | fault cause => cause.message

/-- What lies behind it, in words, the nearest cause first. -/
def causes : Failure → List String
  | unreadable _ cause => [cause.message]
  | fault _ => []

end Failure

/-- What a run has sampled of one notation. -/
structure Entry where
  title : String
  spec : Spec
  sample : Sample

namespace Entry

/-- What is printed of an entry: its histogram and an empty line. -/
def block (options : Options) (entry : Entry) : String :=
  Histogram.text entry.title entry.sample (options.expected entry.spec) options.width ++ "\n"

/-- What a report keeps of an entry. -/
def distribution (options : Options) (entry : Entry) : Distribution :=
  ⟨entry.title, entry.sample.len, entry.sample.summary, options.expected entry.spec,
    entry.sample.frequencies⟩

end Entry

/-- The entries that a run came to, in order, and why it ended early, if it did. -/
structure Outcome where
  entries : List Entry
  failure : Option Failure

namespace Outcome

/-- Everything that is printed of an outcome. -/
def printed (options : Options) (outcome : Outcome) : String :=
  String.join (outcome.entries.map (Entry.block options))

/-- The report of an outcome.  A run that ended early has none. -/
def report? (options : Options) (format : FloatFormat) (outcome : Outcome) : Option String :=
  match outcome.failure with
  | none => some (Report.text format (outcome.entries.map (Entry.distribution options)))
  | some _ => none

/-- An outcome with one more entry before all others. -/
def cons (entry : Entry) (outcome : Outcome) : Outcome :=
  ⟨entry :: outcome.entries, outcome.failure⟩

end Outcome

/-- What a run of the command does to the world. -/
structure Effects where
  /-- Everything that is printed. -/
  printed : String
  /-- Why the command fails, if it does. -/
  failure : Option Failure
  /-- The file that is written, if one is: its path and its content. -/
  written : Option (String × String)

/-- The effects of an outcome.  Its report is written if a path is given for it. -/
def Effects.of (options : Options) (outcome : Outcome) : Effects where
  printed := outcome.printed options
  failure := outcome.failure
  written := do return (← options.output, ← outcome.report? options Binary64.shortestText)

/-- The specifications of some notations.  The first that cannot be read is the failure. -/
def specs (notations : List String) : Except Failure (List (String × Spec)) :=
  notations.mapM fun text => do
    return (text, ← (Notation.read text).mapError (Failure.unreadable text))

/-- The sample of a specification from a generator. -/
def sample (options : Options) (spec : Spec) (g : Generator) : Except Fault Sample :=
  (Act.sample (options.total (Roll.plain spec Generator.source)) options.samples g).1

/-- Samples specifications one after the other, each from a fork of the generator. -/
def sampleAll (options : Options) : Generator → List (String × Spec) → Outcome
  | _, [] => ⟨[], none⟩
  | g, (title, spec) :: rest =>
    match sample options spec g.fork.1 with
    | .error fault => ⟨[], some (.fault fault)⟩
    | .ok sample => (sampleAll options g.fork.2 rest).cons ⟨title, spec, sample⟩

/-- A run with the main generator it starts from. -/
def run (options : Options) (g : Generator) : Outcome :=
  match specs options.notations with
  | .error failure => ⟨[], some failure⟩
  | .ok specs => sampleAll options g specs

end DiceSampling.Program
