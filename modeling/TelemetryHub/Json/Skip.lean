import TelemetryHub.Json.Reader

/-!
# Passing over values

A value that nobody needs is passed over by its syntax alone: numerals may be of any size, escaped
surrogates need no partner, and containers may be inside each other to any depth. The open containers
are kept as a list, and every turn takes a character at least.
-/

namespace TelemetryHub.Json

inductive Container where
  | list
  | object
deriving DecidableEq

def passExponent (cs : List Char) : Except Fault (List Char) :=
  let digits := match cs with
    | '-' :: rest | '+' :: rest => rest
    | _ => cs
  match digits with
  | [] => stop .badNumber [] 0
  | c :: rest => if c.isDigit then .ok (dropDigits rest) else stop .badNumber (c :: rest) 1

def passExponent? (cs : List Char) : Except Fault (List Char) :=
  match cs with
  | 'e' :: rest | 'E' :: rest => passExponent rest
  | rest => .ok rest

/-- The fraction of a numeral and its exponent, after the digits of the integer part. -/
def passFraction (cs : List Char) : Except Fault (List Char) :=
  match cs with
  | '.' :: rest =>
    match rest with
    | [] => stop .badNumber [] 0
    | c :: more =>
      if c.isDigit then passExponent? (dropDigits more) else stop .badNumber (c :: more) 1
  | rest => passExponent? rest

def passNumeral (cs : List Char) : Except Fault (List Char) :=
  match cs with
  | [] => stop .badNumber [] 0
  | c :: rest =>
    if c = '0' then
      match rest with
      | d :: _ => if d.isDigit then stop .badNumber rest 1 else passFraction rest
      | [] => .ok []
    else if c.isDigit then passFraction (dropDigits rest)
    else stop .badNumber (c :: rest) 1

/-- The rest of a string; every turn gives up a character of `room`. -/
def passString : List Char → List Char → Except Fault (List Char)
  | _, [] => stop .endInString [] 0
  | [], cs => stop .endInString cs 0
  | _ :: room, c :: rest =>
    if c = '"' then .ok rest
    else if c = '\\' then
      match rest with
      | [] => stop .endInString [] 0
      | d :: rest =>
        if (shortEscape? d).isSome then passString room rest
        else if d = 'u' then
          match codeUnit rest with
          | .ok (_, rest) => passString room rest
          | .error fault => .error fault
        else stop .badEscape (d :: rest) 1
    else if c.toNat < 0x20 then stop .controlCharacter (c :: rest) 0
    else passString room rest

def passScalar (cs : List Char) : Except Fault (List Char) :=
  match cs with
  | [] => stop .endInValue [] 0
  | c :: rest =>
    if c = 'n' then literal "ull".toList rest
    else if c = 't' then literal "rue".toList rest
    else if c = 'f' then literal "alse".toList rest
    else if c = '"' then passString rest rest
    else if c = '-' then passNumeral rest
    else if c.isDigit then passNumeral cs
    else stop .noValue cs 1

def passKey (cs : List Char) : Except Fault (List Char) :=
  match skipSpace cs with
  | [] => stop .endInObject [] 0
  | c :: rest =>
    if c = '"' then do colon (← passString rest rest)
    else stop .keyNotString (c :: rest) 1

def Container.opened? (c : Char) : Option Container :=
  if c = '[' then some .list else if c = '\x7b' then some .object else none

def Container.closing : Container → Char
  | .list => ']'
  | .object => '\x7d'

/-- The problem when a part of a container is not followed by another one or the end. -/
def Container.noEnd : Container → Problem
  | .list => .noListEnd
  | .object => .noObjectEnd

/-- The problem when a text ends in a container. -/
def Container.ended : Container → Problem
  | .list => .endInList
  | .object => .endInObject

/-- The start of the next part of a container: in an object, its key is passed over. -/
def Container.nextPart (container : Container) (cs : List Char) : Except Fault (List Char) :=
  match container with
  | .list => .ok cs
  | .object => passKey cs

/-- What is looked for next. -/
inductive Turn where
  | value
  | following
deriving DecidableEq

/-- Pass over what is left of a value whose open containers are given, the innermost one first;
every turn gives up a character of `room`. -/
def passFrom : List Char → Turn → List Container → List Char → Except Fault (List Char)
  | _, .following, [], cs => .ok cs
  | [], .value, _, cs => stop .endInValue cs 0
  | [], .following, container :: _, cs => stop container.ended cs 0
  | _ :: room, .value, outer, cs =>
    match skipSpace cs with
    | [] => stop .endInValue [] 0
    | c :: rest =>
      match Container.opened? c with
      | none =>
        match passScalar (c :: rest) with
        | .ok rest => passFrom room .following outer rest
        | .error fault => .error fault
      | some container =>
        match skipSpace rest with
        | [] => stop container.ended [] 0
        | d :: more =>
          if d = container.closing then passFrom room .following outer more
          else
            match container.nextPart (d :: more) with
            | .ok rest => passFrom room .value (container :: outer) rest
            | .error fault => .error fault
  | _ :: room, .following, container :: outer, cs =>
    match skipSpace cs with
    | [] => stop container.ended [] 0
    | c :: rest =>
      if c = container.closing then passFrom room .following outer rest
      else if c = ',' then
        match container.nextPart rest with
        | .ok rest => passFrom room .value (container :: outer) rest
        | .error fault => .error fault
      else stop container.noEnd (c :: rest) 1

def pass (cs : List Char) : Except Fault (List Char) := passFrom cs .value [] cs

end TelemetryHub.Json
