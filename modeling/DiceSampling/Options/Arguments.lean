/-
# Options from arguments

Arguments are read from left to right.  Settings take a value, in the same
argument or in the next one; switches take none; everything else is notation, and
after `--` all arguments are.  A value in an argument of its own is held, and it
is looked at only when the next setting, switch or notation comes, or the end.
-/

import DiceSampling.Options.Basic

namespace DiceSampling.Arguments

/-- Why there are no options to run with. -/
inductive Refusal where
  /-- An argument names no setting and no switch. -/
  | unknownArgument
  /-- A setting has no value, or an empty one where a path is due. -/
  | invalidValue
  /-- A value is not a number in range. -/
  | valueValidation
  /-- A switch has a value. -/
  | tooManyValues
  /-- A setting or switch comes twice, or two switches exclude each other. -/
  | argumentConflict
  /-- There is nothing to sample. -/
  | missingRequiredArgument
  /-- Help was asked for. -/
  | displayHelp
  /-- The version was asked for. -/
  | displayVersion
  deriving DecidableEq, Repr

/-- What takes a value. -/
inductive Setting where
  | samples
  | seed
  | bonus
  | width
  | output
  deriving DecidableEq, Repr

/-- What takes none. -/
inductive Switch where
  | advantage
  | disadvantage
  | help
  | version
  deriving DecidableEq, Repr

/-- What an argument can name. -/
inductive Named where
  | setting (setting : Setting)
  | switch (switch : Switch)
  deriving DecidableEq, Repr

/-- What the word after two dashes names. -/
def ofWord? (word : List Char) : Option Named :=
  match String.ofList word with
  | "samples" => some (.setting .samples)
  | "seed" => some (.setting .seed)
  | "bonus" => some (.setting .bonus)
  | "width" => some (.setting .width)
  | "output" => some (.setting .output)
  | "advantage" => some (.switch .advantage)
  | "disadvantage" => some (.switch .disadvantage)
  | "help" => some (.switch .help)
  | "version" => some (.switch .version)
  | _ => none

/-- What the letter after one dash names. -/
def ofLetter? : Char → Option Named
  | 'n' => some (.setting .samples)
  | 'o' => some (.setting .output)
  | 'h' => some (.switch .help)
  | 'V' => some (.switch .version)
  | _ => none

/-- The value of digits, of which there must be one at least. -/
def digits? (s : List Char) : Option Nat :=
  if !s.isEmpty && s.all Char.isDigit then some (Decimal.value s) else none

/-- A number of 64 bits; it may have a plus sign. -/
def word64? (s : List Char) : Option UInt64 := do
  let n ← match s with
    | '+' :: rest => digits? rest
    | _ => digits? s
  if n < UInt64.size then some (UInt64.ofNat n) else none

/-- A signed number of 64 bits; it may have either sign. -/
def int64? (s : List Char) : Option Int64 := do
  let n ← match s with
    | '+' :: rest => (digits? rest).map Int.ofNat
    | '-' :: rest => (digits? rest).map fun n => -(n : Int)
    | _ => (digits? s).map Int.ofNat
  if Int64.minValue.toInt ≤ n ∧ n ≤ Int64.maxValue.toInt then some (Int64.ofInt n) else none

/-- Whether what follows the digits of a number is one exponent, or nothing. -/
def isExponent : List Char → Bool
  | [] => true
  | e :: rest => (e == 'e' || e == 'E') && !rest.isEmpty && rest.all Char.isDigit

/-- Whether characters look like a number without a sign: digits, then at most one
point with digits after it or none, then at most one exponent. -/
def looksNumeric (s : List Char) : Bool :=
  !(s.takeWhile Char.isDigit).isEmpty &&
    match s.dropWhile Char.isDigit with
    | '.' :: rest => isExponent (rest.dropWhile Char.isDigit)
    | rest => isExponent rest

/-- What the arguments have said so far. -/
structure Draft where
  notations : List String := []
  samples : Option UInt64 := none
  seed : Option UInt64 := none
  bonus : Option Int64 := none
  width : Option UInt64 := none
  output : Option String := none
  advantage : Bool := false
  disadvantage : Bool := false
  deriving DecidableEq, Repr

namespace Draft

/-- A value that is given for the first time and can be read. -/
def once {α : Type} (before : Option α) (read : Except Refusal α) : Except Refusal (Option α) :=
  match before with
  | some _ => throw .argumentConflict
  | none => read.map some

/-- A number that could be read. -/
def number {α : Type} (read : Option α) : Except Refusal α :=
  match read with
  | some n => pure n
  | none => throw .valueValidation

/-- A path, which is not empty. -/
def path (value : List Char) : Except Refusal String :=
  if value.isEmpty then throw .invalidValue else pure (String.ofList value)

/-- The draft with a setting given its value. -/
def assign (draft : Draft) (setting : Setting) (value : List Char) : Except Refusal Draft :=
  match setting with
  | .samples => do return { draft with samples := ← once draft.samples (number (word64? value)) }
  | .seed => do return { draft with seed := ← once draft.seed (number (word64? value)) }
  | .bonus => do return { draft with bonus := ← once draft.bonus (number (int64? value)) }
  | .width => do return { draft with width := ← once draft.width (number (word64? value)) }
  | .output => do return { draft with output := ← once draft.output (path value) }

/-- The draft with a switch set.  Asking for help or the version ends everything. -/
def set (draft : Draft) (switch : Switch) : Except Refusal Draft :=
  match switch with
  | .advantage =>
    if draft.advantage then throw .argumentConflict else pure { draft with advantage := true }
  | .disadvantage =>
    if draft.disadvantage then throw .argumentConflict
    else pure { draft with disadvantage := true }
  | .help => throw .displayHelp
  | .version => throw .displayVersion

/-- The draft with one more notation. -/
def add (draft : Draft) (text : String) : Draft :=
  { draft with notations := draft.notations ++ [text] }

/-- The options of a complete draft. -/
def options (draft : Draft) : Except Refusal Options := do
  if draft.advantage && draft.disadvantage then throw .argumentConflict
  if draft.notations.isEmpty then throw .missingRequiredArgument
  return {
    notations := draft.notations
    samples := draft.samples.getD 100000
    seed := draft.seed
    bonus := draft.bonus.getD 0
    edge :=
      if draft.advantage then .advantage else if draft.disadvantage then .disadvantage else .none
    width := draft.width.getD 50
    output := draft.output }

end Draft

/-- A setting without its value, or whose value has not been looked at. -/
inductive Pending where
  | nothing
  /-- The value is to come. -/
  | awaited (setting : Setting)
  /-- The value is there. -/
  | held (setting : Setting) (value : List Char)
  deriving DecidableEq, Repr

/-- Where the reading of arguments stands. -/
structure Reader where
  draft : Draft := {}
  pending : Pending := .nothing
  /-- Whether all further arguments are notation. -/
  onlyNotation : Bool := false
  deriving DecidableEq, Repr

/-- The shape of an argument. -/
inductive Shape where
  /-- Two dashes alone. -/
  | dashes
  /-- Two dashes and a word, with what follows its equals sign. -/
  | long (word : List Char) (value : Option (List Char))
  /-- One dash and a letter, with what follows it. -/
  | short (letter : Char) (rest : List Char)
  /-- Anything else. -/
  | plain
  deriving DecidableEq, Repr

/-- The part of a list after the first place where a character stands. -/
def after? (c : Char) (s : List Char) : Option (List Char) :=
  match s.dropWhile (· != c) with
  | [] => none
  | _ :: rest => some rest

/-- The shape of an argument. -/
def Shape.of : List Char → Shape
  | ['-', '-'] => dashes
  | '-' :: '-' :: rest => long (rest.takeWhile (· != '=')) (after? '=' rest)
  | '-' :: letter :: rest => short letter rest
  | _ => plain

/-- The value in the same argument as a letter: what follows it, less an equals sign. -/
def attached? : List Char → Option (List Char)
  | [] => none
  | '=' :: rest => some rest
  | rest => some rest

namespace Reader

/-- The draft once the pending setting has got its value. -/
def settle (reader : Reader) : Except Refusal Draft :=
  match reader.pending with
  | .nothing => pure reader.draft
  | .awaited _ => throw .invalidValue
  | .held setting value => reader.draft.assign setting value

/-- A setting or a switch with the value in its own argument, if there is one. -/
def name (reader : Reader) (named : Option Named) (value : Option (List Char)) :
    Except Refusal Reader :=
  match named, value with
  | none, _ => throw .unknownArgument
  | some (.switch _), some _ => throw .tooManyValues
  | some (.switch switch), none => do return ⟨← (← reader.settle).set switch, .nothing, false⟩
  | some (.setting setting), some value => do
    return ⟨← (← reader.settle).assign setting value, .nothing, false⟩
  | some (.setting setting), none => do return ⟨← reader.settle, .awaited setting, false⟩

/-- An argument that is notation. -/
def add (reader : Reader) (text : String) : Except Refusal Reader := do
  return ⟨(← reader.settle).add text, .nothing, reader.onlyNotation⟩

/-- An argument that is the awaited value, if one is awaited, or notation. -/
def hold (reader : Reader) (text : String) : Except Refusal Reader :=
  match reader.pending with
  | .awaited setting => pure ⟨reader.draft, .held setting text.toList, false⟩
  | _ => reader.add text

/-- One more argument.  A letter takes the rest of its argument as its value if it
names a setting; if it names a switch the rest is not looked at.  Only an awaited
bonus can be a negative number. -/
def step (reader : Reader) (text : String) : Except Refusal Reader :=
  if reader.onlyNotation then reader.add text
  else
    match Shape.of text.toList with
    | .dashes => pure ⟨reader.draft, reader.pending, true⟩
    | .long word value => reader.name (ofWord? word) value
    | .short letter rest =>
      if reader.pending = .awaited .bonus && looksNumeric (letter :: rest) then reader.hold text
      else
        match ofLetter? letter with
        | some (.switch switch) => reader.name (some (.switch switch)) none
        | named => reader.name named (attached? rest)
    | .plain => reader.hold text

end Reader

/-- The options that arguments stand for. -/
def read (arguments : List String) : Except Refusal Options := do
  let reader ← arguments.foldlM Reader.step {}
  (← reader.settle).options

end DiceSampling.Arguments
