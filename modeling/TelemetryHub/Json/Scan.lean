import TelemetryHub.Json.Numeral
import TelemetryHub.Text.Basic

/-!
# The parts of a document

Blanks, the three literals and strings. A string is read character by character; an escape of a
code unit needs four hexadecimal digits, and a leading surrogate needs a trailing one right behind
it.

A loop over a text is bounded by `room`, a text that is at least as long: it gives up a character in
every turn, so that it never runs out before the text itself.
-/

namespace TelemetryHub.Json

open Text (hexValue?)

/-- The characters that may stand between the parts of a document. -/
def isSpace (c : Char) : Bool := c = ' ' || c = '\n' || c = '\t' || c = '\r'

def skipSpace (cs : List Char) : List Char := cs.dropWhile isSpace

def literal : List Char → List Char → Except Fault (List Char)
  | [], cs => .ok cs
  | _ :: _, [] => stop .endInValue [] 0
  | c :: word, d :: rest => if c = d then literal word rest else stop .noLiteral (d :: rest) 1

def codeUnit (cs : List Char) : Outcome Nat :=
  if Text.byteLength (cs.take 4) < 4 then stop .endInString [] 0
  else
    match cs with
    | a :: b :: c :: d :: rest =>
      match hexValue? a, hexValue? b, hexValue? c, hexValue? d with
      | some a, some b, some c, some d => .ok (((a * 16 + b) * 16 + c) * 16 + d, rest)
      | _, _, _, _ => stop .badEscape cs 4
    | _ => stop .badEscape cs 4

def isTrailing (unit : Nat) : Bool := 0xDC00 ≤ unit && unit ≤ 0xDFFF

def isLeading (unit : Nat) : Bool := 0xD800 ≤ unit && unit ≤ 0xDBFF

def pairChar (leading trailing : Nat) : Char :=
  Char.ofNat ((leading - 0xD800) * 0x400 + (trailing - 0xDC00) + 0x10000)

/-- The second half of a pair, after its first half. -/
def trailingUnit (leading : Nat) (cs : List Char) : Outcome Char :=
  match cs with
  | [] => stop .endInString [] 0
  | '\\' :: rest =>
    match rest with
    | [] => stop .endInString [] 0
    | 'u' :: rest =>
      match codeUnit rest with
      | .error fault => .error fault
      | .ok (unit, rest) =>
        if isTrailing unit then .ok (pairChar leading unit, rest)
        else stop .loneSurrogate rest 0
    | rest => stop .openHexEscape rest 1
  | rest => stop .openHexEscape rest 1

def shortEscape? (c : Char) : Option Char :=
  if c = '"' || c = '\\' || c = '/' then some c
  else if c = 'b' then some '\x08'
  else if c = 'f' then some '\x0c'
  else if c = 'n' then some '\n'
  else if c = 'r' then some '\r'
  else if c = 't' then some '\t'
  else none

def escape (cs : List Char) : Outcome Char :=
  match cs with
  | [] => stop .endInString [] 0
  | c :: rest =>
    match shortEscape? c with
    | some d => .ok (d, rest)
    | none =>
      if c = 'u' then
        match codeUnit rest with
        | .error fault => .error fault
        | .ok (unit, rest) =>
          if isTrailing unit then stop .loneSurrogate rest 0
          else if isLeading unit then trailingUnit unit rest
          else .ok (Char.ofNat unit, rest)
      else stop .badEscape (c :: rest) 1

/-- The rest of a string; `taken` is what has been read, last character first. Every turn gives up a
character of `room`, which is at least as long as the text. -/
def stringFrom (taken : List Char) : List Char → List Char → Outcome (List Char)
  | _, [] => stop .endInString [] 0
  | [], cs => stop .endInString cs 0
  | _ :: room, c :: rest =>
    if c = '"' then .ok (taken.reverse, rest)
    else if c = '\\' then
      match escape rest with
      | .ok (d, rest) => stringFrom (d :: taken) room rest
      | .error fault => .error fault
    else if c.toNat < 0x20 then stop .controlCharacter (c :: rest) 1
    else stringFrom (c :: taken) room rest

def string (cs : List Char) : Outcome String :=
  match stringFrom [] cs cs with
  | .ok (taken, rest) => .ok (String.ofList taken, rest)
  | .error fault => .error fault

/-- A value without parts; the text has no blank at its front. -/
def scalar (cs : List Char) : Outcome Json :=
  match cs with
  | [] => stop .endInValue [] 0
  | c :: rest =>
    if c = 'n' then (literal "ull".toList rest).map fun rest => (.null, rest)
    else if c = 't' then (literal "rue".toList rest).map fun rest => (.bool true, rest)
    else if c = 'f' then (literal "alse".toList rest).map fun rest => (.bool false, rest)
    else if c = '"' then (string rest).map fun (s, rest) => (.str s, rest)
    else if c = '-' || c.isDigit then (numeral cs).map fun (n, rest) => (.num n, rest)
    else stop .noValue cs 1

end TelemetryHub.Json
