import TelemetryHub.Json.Scan

/-!
# Reading documents

`value` reads one value with at most a given number of containers inside each other, by recursion
on that number. A list or an object is read by a loop that takes a comma in every turn, so the
room of the text is enough. `read` takes a whole text.
-/

namespace TelemetryHub.Json

/-- The items of a list behind the first one; `taken` has the items so far, the last one first. -/
def moreItems (item : List Char → Outcome Json) (taken : List Json) :
    List Char → List Char → Outcome (List Json)
  | [], cs => stop .endInList cs 0
  | _ :: room, cs =>
    match skipSpace cs with
    | [] => stop .endInList [] 0
    | c :: rest =>
      if c = ']' then .ok (taken.reverse, rest)
      else if c = ',' then
        match skipSpace rest with
        | [] => stop .endInValue [] 0
        | ']' :: rest => stop .trailingComma (']' :: rest) 1
        | rest =>
          match item rest with
          | .ok (value, rest) => moreItems item (value :: taken) room rest
          | .error fault => .error fault
      else stop .noListEnd (c :: rest) 1

/-- The items of a list, after its opening bracket. -/
def items (item : List Char → Outcome Json) (cs : List Char) : Outcome (List Json) :=
  match skipSpace cs with
  | [] => stop .endInList [] 0
  | ']' :: rest => .ok ([], rest)
  | rest =>
    match item rest with
    | .ok (value, rest) => moreItems item [value] rest rest
    | .error fault => .error fault

def colon (cs : List Char) : Except Fault (List Char) :=
  match skipSpace cs with
  | [] => stop .endInObject [] 0
  | ':' :: rest => .ok rest
  | rest => stop .noColon rest 1

def member (item : List Char → Outcome Json) (cs : List Char) : Outcome (String × Json) :=
  match string cs with
  | .error fault => .error fault
  | .ok (key, rest) =>
    match colon rest with
    | .error fault => .error fault
    | .ok rest =>
      match item rest with
      | .error fault => .error fault
      | .ok (value, rest) => .ok ((key, value), rest)

/-- The members of an object behind the first one, put to those read so far. -/
def moreMembers (item : List Char → Outcome Json) (taken : Members) :
    List Char → List Char → Outcome Members
  | [], cs => stop .endInObject cs 0
  | _ :: room, cs =>
    match skipSpace cs with
    | [] => stop .endInObject [] 0
    | c :: rest =>
      if c = '\x7d' then .ok (taken, rest)
      else if c = ',' then
        match skipSpace rest with
        | [] => stop .endInValue [] 0
        | c :: rest =>
          if c = '"' then
            match member item rest with
            | .ok ((key, value), rest) =>
              moreMembers item (Members.insert key value taken) room rest
            | .error fault => .error fault
          else if c = '\x7d' then stop .trailingComma (c :: rest) 1
          else stop .keyNotString (c :: rest) 1
      else stop .noObjectEnd (c :: rest) 1

def members (item : List Char → Outcome Json) (cs : List Char) : Outcome Members :=
  match skipSpace cs with
  | [] => stop .endInObject [] 0
  | c :: rest =>
    if c = '\x7d' then .ok ([], rest)
    else if c = '"' then
      match member item rest with
      | .ok (first, rest) => moreMembers item [first] rest rest
      | .error fault => .error fault
    else stop .keyNotString (c :: rest) 1

/-- A value that begins with `cs`, blanks aside, and has at most `depth` containers inside each
other. -/
def value : Nat → List Char → Outcome Json
  | 0, cs =>
    match skipSpace cs with
    | [] => stop .endInValue [] 0
    | c :: rest => if c = '[' || c = '\x7b' then stop .tooDeep (c :: rest) 1 else scalar (c :: rest)
  | depth + 1, cs =>
    match skipSpace cs with
    | [] => stop .endInValue [] 0
    | c :: rest =>
      if c = '[' then
        match items (value depth) rest with
        | .ok (items, rest) => .ok (.arr items, rest)
        | .error fault => .error fault
      else if c = '\x7b' then
        match members (value depth) rest with
        | .ok (members, rest) => .ok (.obj members, rest)
        | .error fault => .error fault
      else scalar (c :: rest)

/-- How many containers may be open at once. -/
def depthLimit : Nat := 127

/-- What a reader makes of a whole text: only blanks may follow. -/
def whole {α : Type} (reader : List Char → Outcome α) (text : List Char) : Except Fault α :=
  match reader text with
  | .error fault => .error fault
  | .ok (result, rest) =>
    match skipSpace rest with
    | [] => .ok result
    | rest => stop .trailingCharacters rest 1

def Fault.mistake (fault : Fault) (text : List Char) : Mistake :=
  ⟨fault.problem, some (fault.position text)⟩

def read (text : String) : Except Mistake Json :=
  (whole (value depthLimit) text.toList).mapError (·.mistake text.toList)

def list (cs : List Char) : Outcome (List Json) :=
  match skipSpace cs with
  | [] => stop .endInValue [] 0
  | c :: rest =>
    if c = '[' then items (value (depthLimit - 1)) rest
    else if c = '\x7b' then stop (.wrongKind .object .list) (c :: rest) 0
    else
      match scalar (c :: rest) with
      | .ok (other, rest) => stop (.wrongKind (kind other) .list) rest 0
      | .error fault => .error fault

def readList (text : String) : Except Mistake (List Json) :=
  (whole list text.toList).mapError (·.mistake text.toList)

/-- A message as a value: what it reads as, or else the text itself. -/
def ofMessage (text : String) : Json :=
  match read text with
  | .ok value => value
  | .error _ => .str text

end TelemetryHub.Json
