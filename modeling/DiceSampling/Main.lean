/-
# The command

Reads the options, runs, prints the blocks and writes the report.  A run without
a seed starts from a key that the system chooses.
-/

import DiceSampling.Options.Arguments
import DiceSampling.Program

namespace DiceSampling.Command

/-- What is printed where arguments are refused. -/
def usage : String := "Usage: [OPTIONS] <NOTATION>..."

/-- The version of the command. -/
def version : String := "0.1.0"

/-- Eight words from thirty-two bytes, each least byte first. -/
def keyOfBytes (bytes : ByteArray) : ChaCha.Key :=
  let word (i : Nat) : UInt32 :=
    let byte (j : Nat) : UInt32 := (bytes.data.getD (4 * i + j) 0).toUInt32
    byte 0 ||| (byte 1 <<< 8) ||| (byte 2 <<< 16) ||| (byte 3 <<< 24)
  ⟨⟨word 0, word 1, word 2, word 3⟩, ⟨word 4, word 5, word 6, word 7⟩⟩

/-- The main generator of a run. -/
def mainGenerator (options : Options) : IO Generator :=
  match options.seed with
  | some seed => pure (.ofSeed seed)
  | none => do return .ofKey (keyOfBytes (← IO.getRandomBytes 32))

/-- Says on the error output why a run ended early. -/
def complain (failure : Program.Failure) : IO Unit := do
  IO.eprintln ("Error: " ++ failure.message)
  unless failure.causes.isEmpty do
    IO.eprintln ("\nCaused by:\n    " ++ "\n    ".intercalate failure.causes)

/-- Does what is to be done to the world, and says how the command ends. -/
def finish (effects : Program.Effects) : IO UInt32 := do
  IO.print effects.printed
  effects.failure.forM complain
  effects.written.forM fun (path, content) => IO.FS.writeFile path content
  return if effects.failure.isSome then 1 else 0

/-- Runs the command. -/
def run (arguments : List String) : IO UInt32 := do
  match Arguments.read arguments with
  | .error .displayHelp => IO.println usage; return 0
  | .error .displayVersion => IO.println version; return 0
  | .error _ => IO.eprintln usage; return 2
  | .ok options => finish (.of options (Program.run options (← mainGenerator options)))

end DiceSampling.Command

def main (arguments : List String) : IO UInt32 := DiceSampling.Command.run arguments
