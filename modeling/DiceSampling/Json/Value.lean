/-
# JSON values

A value is read from tokens by a machine that keeps the arrays and objects it is
inside of.  Strings and numbers keep the form in which they are written, so a
value knows whether a number was written as an integer, and objects keep their
members in order, repeated names included.
-/

import DiceSampling.Json.Token

namespace DiceSampling

/-- A JSON value as it is written. -/
inductive Json where
  | null
  | bool (value : Bool)
  | number (digits : List Char)
  | string (body : List Char)
  | array (items : List Json)
  | object (members : List (List Char × Json))

namespace Json

/-- The string that denotes a text. -/
def ofText (text : String) : Json := .string (text.toList.flatMap escape)

/-- The number that is a natural number. -/
def ofNat (n : Nat) : Json := .number (Decimal.digits n)

/-- The number that is an integer. -/
def ofInt (i : Int) : Json := .number (Decimal.signedText i).toList

/-- An array or object that is not closed yet; its parts are held latest first. -/
inductive Frame where
  | array (items : List Json)
  /-- With the name of the member whose value comes next. -/
  | object (members : List (List Char × Json)) (name : List Char)

/-- Where reading stands: what is open, innermost first, and what is due next. -/
inductive Reader where
  /-- A value. -/
  | value (frames : List Frame)
  /-- The first item of an array, or its end. -/
  | firstItem (frames : List Frame)
  /-- The first member of an object, or its end. -/
  | firstMember (frames : List Frame)
  /-- The name of a member. -/
  | memberName (frames : List Frame) (members : List (List Char × Json))
  /-- The colon after a name. -/
  | memberColon (frames : List Frame) (members : List (List Char × Json)) (name : List Char)
  /-- What follows a complete value. -/
  | after (frames : List Frame) (value : Json)

namespace Reader

/-- A token where a value is due. -/
def value? (frames : List Frame) : Token → Option Reader
  | .null => some (.after frames .null)
  | .bool b => some (.after frames (.bool b))
  | .number digits => some (.after frames (.number digits))
  | .string body => some (.after frames (.string body))
  | .openArray => some (.firstItem frames)
  | .openObject => some (.firstMember frames)
  | _ => none

/-- One more token. -/
def step : Reader → Token → Option Reader
  | value frames, token => value? frames token
  | firstItem frames, .closeArray => some (after frames (.array []))
  | firstItem frames, token => value? (.array [] :: frames) token
  | firstMember frames, .closeObject => some (after frames (.object []))
  | firstMember frames, .string body => some (memberColon frames [] body)
  | memberName frames members, .string body => some (memberColon frames members body)
  | memberColon frames members name, .colon => some (value (.object members name :: frames))
  | after (.array items :: frames) v, .comma => some (value (.array (v :: items) :: frames))
  | after (.array items :: frames) v, .closeArray =>
    some (after frames (.array (v :: items).reverse))
  | after (.object members name :: frames) v, .comma =>
    some (memberName frames ((name, v) :: members))
  | after (.object members name :: frames) v, .closeObject =>
    some (after frames (.object ((name, v) :: members).reverse))
  | _, _ => none

/-- The value that has been read, if nothing is open. -/
def finish : Reader → Option Json
  | after [] v => some v
  | _ => none

end Reader

/-- The value that tokens make up. -/
def ofTokens? (tokens : List Token) : Option Json :=
  (tokens.foldlM Reader.step (.value [])).bind Reader.finish

/-- The value that a text makes up. -/
def read? (text : String) : Option Json := (tokens? text.toList).bind ofTokens?

mutual

/-- The tokens of a value. -/
def tokens : Json → List Token
  | null => [.null]
  | bool b => [.bool b]
  | number digits => [.number digits]
  | string body => [.string body]
  | array items => .openArray :: itemTokens items ++ [.closeArray]
  | object members => .openObject :: memberTokens members ++ [.closeObject]

/-- The tokens of the items of an array, with commas between them. -/
def itemTokens : List Json → List Token
  | [] => []
  | [item] => item.tokens
  | item :: rest => item.tokens ++ .comma :: itemTokens rest

/-- The tokens of the members of an object, with commas between them. -/
def memberTokens : List (List Char × Json) → List Token
  | [] => []
  | [(name, value)] => .string name :: .colon :: value.tokens
  | (name, value) :: rest => .string name :: .colon :: value.tokens ++ .comma :: memberTokens rest

end

/-- A value without blanks. -/
def render (value : Json) : String := String.ofList (value.tokens.flatMap Token.chars)

end Json

end DiceSampling
