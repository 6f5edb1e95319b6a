import TelemetryHub.Json.Basic
import TelemetryHub.Number.Shortest
import TelemetryHub.Text.Quoted
import TelemetryHub.Text.Utf8

/-!
# What can be wrong with a text

A reader that stops says what the problem is and where: it keeps the text that it has not taken
and how many bytes of it the place lies ahead. `Fault.position` turns this into a line and a column,
both counted from one, the column in bytes.
-/

namespace TelemetryHub.Json

/-- The kind of value that a reader met. -/
inductive Found where
  | null
  | bool (b : Bool)
  | num (n : Number)
  | str (s : String)
  | list
  | object
deriving DecidableEq

/-- The kind of value that a reader can use. -/
inductive Wanted where
  | text
  | signed
  | unsigned
  | message
  | list
deriving DecidableEq

inductive Problem where
  | endInValue
  | endInString
  | endInList
  | endInObject
  | noValue
  | noLiteral
  | noColon
  | noListEnd
  | noObjectEnd
  | keyNotString
  | trailingComma
  | trailingCharacters
  | badNumber
  | numberTooBig
  | badEscape
  | openHexEscape
  | loneSurrogate
  | controlCharacter
  | tooDeep
  | wrongKind (found : Found) (wanted : Wanted)
  | outOfRange (n : Whole) (wanted : Wanted)
  | missingField (name : String)
  | duplicateField (name : String)
  | tooShort (length : Nat)
  | tooLong (length : Nat)
deriving DecidableEq

def kind : Json → Found
  | .null => .null
  | .bool b => .bool b
  | .num n => .num n
  | .str s => .str s
  | .arr _ => .list
  | .obj _ => .object

def Found.phrase : Found → String
  | .null => "null"
  | .bool b => "boolean `" ++ (if b then "true" else "false") ++ "`"
  | .num (.whole n) => "integer `" ++ String.ofList (Text.integer n.val) ++ "`"
  | .num (.real x) => "floating point `" ++ String.ofList x.text ++ "`"
  | .str s => "string " ++ String.ofList (Text.quoted s.toList)
  | .list => "sequence"
  | .object => "map"

def Wanted.phrase : Wanted → String
  | .text => "a string"
  | .signed => "i64"
  | .unsigned => "u64"
  | .message => "struct CommandMessage"
  | .list => "a sequence"

def Problem.phrase : Problem → String
  | .endInValue => "EOF while parsing a value"
  | .endInString => "EOF while parsing a string"
  | .endInList => "EOF while parsing a list"
  | .endInObject => "EOF while parsing an object"
  | .noValue => "expected value"
  | .noLiteral => "expected ident"
  | .noColon => "expected `:`"
  | .noListEnd => "expected `,` or `]`"
  | .noObjectEnd => "expected `,` or `\x7d`"
  | .keyNotString => "key must be a string"
  | .trailingComma => "trailing comma"
  | .trailingCharacters => "trailing characters"
  | .badNumber => "invalid number"
  | .numberTooBig => "number out of range"
  | .badEscape => "invalid escape"
  | .openHexEscape => "unexpected end of hex escape"
  | .loneSurrogate => "lone leading surrogate in hex escape"
  | .controlCharacter => "control character (\\u0000-\\u001F) found while parsing a string"
  | .tooDeep => "recursion limit exceeded"
  | .wrongKind found wanted => "invalid type: " ++ found.phrase ++ ", expected " ++ wanted.phrase
  | .outOfRange n wanted =>
    "invalid value: " ++ (Found.num (.whole n)).phrase ++ ", expected " ++ wanted.phrase
  | .missingField name => "missing field `" ++ name ++ "`"
  | .duplicateField name => "duplicate field `" ++ name ++ "`"
  | .tooShort length =>
    "invalid length " ++ String.ofList (Text.digits length) ++
      ", expected struct CommandMessage with 4 elements"
  | .tooLong length =>
    "invalid length " ++ String.ofList (Text.digits length) ++
      ", expected fewer elements in array"

structure Position where
  line : Nat
  column : Nat
deriving DecidableEq

/-- Why and where a reader stopped: the text it has not taken, and how many bytes of that text the
place is ahead. -/
structure Fault where
  problem : Problem
  rest : List Char
  ahead : Nat
deriving DecidableEq

def positionAt (bytes : List UInt8) (index : Nat) : Position :=
  let before := bytes.take index
  let line := before.reverse.takeWhile (· ≠ 0x0A)
  ⟨before.count 0x0A + 1, line.length⟩

/-- The place of a fault in the text; no place is beyond the end. -/
def Fault.position (fault : Fault) (text : List Char) : Position :=
  let taken := Text.byteLength text - Text.byteLength fault.rest
  positionAt (Text.encode text) (taken + fault.ahead)

/-- A problem, with its place if the value came from a text. -/
structure Mistake where
  problem : Problem
  place : Option Position
deriving DecidableEq

def Mistake.phrase (mistake : Mistake) : String :=
  match mistake.place with
  | none => mistake.problem.phrase
  | some place =>
    mistake.problem.phrase ++ " at line " ++ String.ofList (Text.digits place.line) ++
      " column " ++ String.ofList (Text.digits place.column)

/-- What a reader makes of the beginning of a text, and what is left of the text. -/
abbrev Outcome (α : Type) := Except Fault (α × List Char)

/-- Stop in front of `rest`, or some bytes ahead. -/
def stop {α : Type} (problem : Problem) (rest : List Char) (ahead : Nat) : Except Fault α :=
  .error ⟨problem, rest, ahead⟩

end TelemetryHub.Json
