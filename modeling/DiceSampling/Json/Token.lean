/-
# Tokens of JSON text

JSON text is cut into marks, strings and words.  A scanner goes over the
characters once and holds the token it is in the middle of.  Strings keep their
bodies, and numbers their digits, as they stand in the text.
-/

import DiceSampling.Json.Number
import DiceSampling.Json.Text

namespace DiceSampling.Json

/-- A token of JSON text. -/
inductive Token where
  | openArray
  | closeArray
  | openObject
  | closeObject
  | colon
  | comma
  | null
  | bool (value : Bool)
  | number (digits : List Char)
  | string (body : List Char)
  deriving DecidableEq, Repr

namespace Token

/-- The characters of a token. -/
def chars : Token → List Char
  | openArray => ['[']
  | closeArray => [']']
  | openObject => ['\x7b']
  | closeObject => ['\x7d']
  | colon => [':']
  | comma => [',']
  | null => ['n', 'u', 'l', 'l']
  | bool true => ['t', 'r', 'u', 'e']
  | bool false => ['f', 'a', 'l', 's', 'e']
  | number digits => digits
  | string body => '"' :: body ++ ['"']

/-- The token of a single mark. -/
def ofMark : Char → Option Token
  | '[' => some openArray
  | ']' => some closeArray
  | '\x7b' => some openObject
  | '\x7d' => some closeObject
  | ':' => some colon
  | ',' => some comma
  | _ => none

/-- The token of a word. -/
def ofWord (word : List Char) : Option Token :=
  if word = null.chars then some null
  else if word = (bool true).chars then some (bool true)
  else if word = (bool false).chars then some (bool false)
  else if isNumber word then some (number word)
  else none

end Token

/-- The characters that may stand between tokens. -/
def isBlank (c : Char) : Bool := c == ' ' || c == '\t' || c == '\n' || c == '\r'

/-- The characters that words are made of. -/
def isWordChar (c : Char) : Bool :=
  c.isDigit || ('a' ≤ c && c ≤ 'z') || c == 'E' || c == '+' || c == '-' || c == '.'

/-- What a scanner is in the middle of; characters are held latest first. -/
inductive Scan where
  | between
  | word (chars : List Char)
  | string (body : List Char)
  /-- Just after a backslash in a string. -/
  | escape (body : List Char)
  deriving DecidableEq, Repr

/-- A scanner: the tokens that are complete, latest first, and what comes after them. -/
structure Scanner where
  tokens : List Token
  scan : Scan
  deriving DecidableEq, Repr

namespace Scanner

/-- Nothing scanned. -/
def start : Scanner := ⟨[], .between⟩

/-- A character that starts a token or stands between tokens. -/
def next (tokens : List Token) (c : Char) : Option Scanner :=
  if isBlank c then some ⟨tokens, .between⟩
  else if c = '"' then some ⟨tokens, .string []⟩
  else if isWordChar c then some ⟨tokens, .word [c]⟩
  else (Token.ofMark c).map fun token => ⟨token :: tokens, .between⟩

/-- One more character. -/
def step (scanner : Scanner) (c : Char) : Option Scanner :=
  match scanner.scan with
  | .between => next scanner.tokens c
  | .word chars =>
    if isWordChar c then some ⟨scanner.tokens, .word (c :: chars)⟩
    else do
      let token ← Token.ofWord chars.reverse
      next (token :: scanner.tokens) c
  | .string body =>
    if c = '"' then
      if isBody body.reverse then some ⟨.string body.reverse :: scanner.tokens, .between⟩ else none
    else if c = '\\' then some ⟨scanner.tokens, .escape (c :: body)⟩
    else some ⟨scanner.tokens, .string (c :: body)⟩
  | .escape body => some ⟨scanner.tokens, .string (c :: body)⟩

/-- The tokens at the end of the text. -/
def finish (scanner : Scanner) : Option (List Token) :=
  match scanner.scan with
  | .between => some scanner.tokens.reverse
  | .word chars => (Token.ofWord chars.reverse).map fun token => (token :: scanner.tokens).reverse
  | .string _ | .escape _ => none

end Scanner

/-- The tokens of a text. -/
def tokens? (text : List Char) : Option (List Token) :=
  (text.foldlM Scanner.step Scanner.start).bind Scanner.finish

end DiceSampling.Json
