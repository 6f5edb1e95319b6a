import TelemetryHub.Json.Basic
import TelemetryHub.Number.Shortest
import TelemetryHub.Text.Basic

/-!
# Printing

The two printed forms of a value: the compact one without any space, and the pretty one with a
member or an item per line, two spaces further in than its container. A string escapes quotes,
backslashes and control characters and nothing else, so that no printed form holds a control
character other than the line ends of the pretty form.
-/

namespace TelemetryHub

def Number.print : Number → List Char
  | .whole n => Text.integer n.val
  | .real x => x.text

namespace Json

open Text (hexDigit)

def escaped (c : Char) : List Char :=
  if c = '"' then ['\\', '"']
  else if c = '\\' then ['\\', '\\']
  else if c = '\n' then ['\\', 'n']
  else if c = '\r' then ['\\', 'r']
  else if c = '\t' then ['\\', 't']
  else if c.toNat = 8 then ['\\', 'b']
  else if c.toNat = 12 then ['\\', 'f']
  else if c.toNat < 0x20 then
    ['\\', 'u', '0', '0', hexDigit (c.toNat / 16), hexDigit (c.toNat % 16)]
  else [c]

def printString (cs : List Char) : List Char := '"' :: cs.flatMap escaped ++ ['"']

def printBool (b : Bool) : List Char := if b then "true".toList else "false".toList

mutual

def printCompact : Json → List Char
  | .null => "null".toList
  | .bool b => printBool b
  | .num n => n.print
  | .str s => printString s.toList
  | .arr [] => ['[', ']']
  | .arr (item :: items) => '[' :: printCompact item ++ printCompactItems items
  | .obj [] => ['\x7b', '\x7d']
  | .obj (member :: members) =>
    '\x7b' :: printString member.1.toList ++ ':' :: printCompact member.2 ++
      printCompactMembers members

/-- The items after the first one and the end of a list. -/
def printCompactItems : List Json → List Char
  | [] => [']']
  | item :: items => ',' :: printCompact item ++ printCompactItems items

/-- The members after the first one and the end of an object. -/
def printCompactMembers : List (String × Json) → List Char
  | [] => ['\x7d']
  | member :: members =>
    ',' :: printString member.1.toList ++ ':' :: printCompact member.2 ++
      printCompactMembers members

end

/-- The start of a line that is `level` containers deep. -/
def newline (level : Nat) : List Char := '\n' :: List.replicate (2 * level) ' '

mutual

/-- The pretty form of a value that is `level` containers deep. -/
def printPretty (level : Nat) : Json → List Char
  | .null => "null".toList
  | .bool b => printBool b
  | .num n => n.print
  | .str s => printString s.toList
  | .arr [] => ['[', ']']
  | .arr (item :: items) =>
    '[' :: newline (level + 1) ++ printPretty (level + 1) item ++ printPrettyItems level items
  | .obj [] => ['\x7b', '\x7d']
  | .obj (member :: members) =>
    '\x7b' :: newline (level + 1) ++ printString member.1.toList ++ ':' :: ' ' ::
      printPretty (level + 1) member.2 ++ printPrettyMembers level members

def printPrettyItems (level : Nat) : List Json → List Char
  | [] => newline level ++ [']']
  | item :: items =>
    ',' :: newline (level + 1) ++ printPretty (level + 1) item ++ printPrettyItems level items

def printPrettyMembers (level : Nat) : List (String × Json) → List Char
  | [] => newline level ++ ['\x7d']
  | member :: members =>
    ',' :: newline (level + 1) ++ printString member.1.toList ++ ':' :: ' ' ::
      printPretty (level + 1) member.2 ++ printPrettyMembers level members

end

def compact (value : Json) : String := String.ofList (printCompact value)

def pretty (value : Json) : String := String.ofList (printPretty 0 value)

theorem escaped_visible {c d : Char} (member : d ∈ escaped c) : 0x20 ≤ d.toNat := by
  have hex : ∀ n < 16, 0x20 ≤ (hexDigit n).toNat := by decide
  unfold escaped at member
  split at member
  · simp at member; rcases member with rfl | rfl <;> decide
  split at member
  · simp at member; subst member; decide
  split at member
  · simp at member; rcases member with rfl | rfl <;> decide
  split at member
  · simp at member; rcases member with rfl | rfl <;> decide
  split at member
  · simp at member; rcases member with rfl | rfl <;> decide
  split at member
  · simp at member; rcases member with rfl | rfl <;> decide
  split at member
  · simp at member; rcases member with rfl | rfl <;> decide
  split at member
  · next small =>
    simp at member
    rcases member with rfl | rfl | rfl | rfl | rfl
    · decide
    · decide
    · decide
    · exact hex _ (by omega)
    · exact hex _ (by omega)
  · next large =>
    simp at member
    subst member
    omega

end Json
end TelemetryHub
