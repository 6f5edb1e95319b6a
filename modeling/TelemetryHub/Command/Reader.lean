import TelemetryHub.Command.Basic
import TelemetryHub.Json.Skip
import TelemetryHub.Text.Basic

/-!
# Reading commands

A message is an object, or a list of its fields in their order. It is read from a text, where
members that are no fields are passed over by their syntax, or from a document. Both ways use the
same conversions of a field's value, and a field may be given only once.
-/

namespace TelemetryHub

namespace Message

open Json (Problem Fault Outcome Mistake stop skipSpace kind)

inductive Field where
  | functionality
  | command
  | sampleRate
  | time
deriving DecidableEq

namespace Field

def name : Field → String
  | .functionality => "functionality"
  | .command => "command"
  | .sampleRate => "sampleRate"
  | .time => "time"

def named? (key : String) : Option Field :=
  if key = "functionality" then some .functionality
  else if key = "command" then some .command
  else if key = "sampleRate" then some .sampleRate
  else if key = "time" then some .time
  else none

def wanted : Field → Json.Wanted
  | .functionality | .command => .text
  | .sampleRate => .signed
  | .time => .unsigned

end Field

def asText : Json → Except Problem String
  | .str s => .ok s
  | other => .error (.wrongKind (kind other) .text)

/-- A signed number that may be absent. -/
def asRate : Json → Except Problem (Option Int64)
  | .null => .ok none
  | .num (.whole n) =>
    match n.toInt64? with
    | some rate => .ok (some rate)
    | none => .error (.outOfRange n .signed)
  | other => .error (.wrongKind (kind other) .signed)

/-- An unsigned number that may be absent. -/
def asTime : Json → Except Problem (Option UInt64)
  | .null => .ok none
  | .num (.whole n) =>
    match n.toUInt64? with
    | some time => .ok (some time)
    | none => .error (.outOfRange n .unsigned)
  | other => .error (.wrongKind (kind other) .unsigned)

structure Fields where
  functionality : Option String
  command : Option String
  sampleRate : Option (Option Int64)
  time : Option (Option UInt64)
deriving DecidableEq

namespace Fields

def empty : Fields := ⟨none, none, none, none⟩

def has (fields : Fields) : Field → Bool
  | .functionality => fields.functionality.isSome
  | .command => fields.command.isSome
  | .sampleRate => fields.sampleRate.isSome
  | .time => fields.time.isSome

def put (fields : Fields) (field : Field) (value : Json) : Except Problem Fields :=
  match field with
  | .functionality => (asText value).map fun s => { fields with functionality := some s }
  | .command => (asText value).map fun s => { fields with command := some s }
  | .sampleRate => (asRate value).map fun rate => { fields with sampleRate := some rate }
  | .time => (asTime value).map fun time => { fields with time := some time }

def message (fields : Fields) : Except Problem Message :=
  match fields.functionality, fields.command with
  | none, _ => .error (.missingField Field.functionality.name)
  | some _, none => .error (.missingField Field.command.name)
  | some functionality, some command =>
    .ok ⟨functionality, command, fields.sampleRate.getD none, fields.time.getD none⟩

end Fields

/-! ## From a document -/

/-- The fields among the members of an object. -/
def ofMembers (fields : Fields) : Json.Members → Except Problem Fields
  | [] => .ok fields
  | (key, value) :: rest =>
    match Field.named? key with
    | none => ofMembers fields rest
    | some field =>
      if fields.has field then .error (.duplicateField field.name)
      else
        match fields.put field value with
        | .ok fields => ofMembers fields rest
        | .error problem => .error problem

def listed : List Field := [.functionality, .command, .sampleRate, .time]

/-- The fields in a list; `count` items have been read, and only the first two are necessary. -/
def ofItems (fields : Fields) (count : Nat) : List Field → List Json → Except Problem Fields
  | [], [] => .ok fields
  | [], more => .error (.tooLong (count + more.length))
  | _, [] => if count < 2 then .error (.tooShort count) else .ok fields
  | field :: rest, item :: items =>
    match fields.put field item with
    | .ok fields => ofItems fields (count + 1) rest items
    | .error problem => .error problem

def ofJson (value : Json) : Except Problem Message :=
  match value with
  | .obj members => do (← ofMembers .empty members).message
  | .arr items => do (← ofItems .empty 0 listed items).message
  | other => .error (.wrongKind (kind other) .message)

/-! ## From a text -/

/-- The value of a field. A container is refused in front of its bracket, another value that does
not fit behind its end. -/
def fieldValue (fields : Fields) (field : Field) (cs : List Char) : Outcome Fields :=
  match skipSpace cs with
  | [] => stop .endInValue [] 0
  | c :: rest =>
    if c = '[' then stop (.wrongKind .list field.wanted) (c :: rest) 0
    else if c = '\x7b' then stop (.wrongKind .object field.wanted) (c :: rest) 0
    else
      match Json.scalar (c :: rest) with
      | .error fault => .error fault
      | .ok (value, rest) =>
        match fields.put field value with
        | .ok fields => .ok (fields, rest)
        | .error problem => stop problem rest 0

/-- A problem behind the closing bracket `closing` if it comes next, and else where it would be. -/
def stopBehind {α : Type} (problem : Problem) (closing : Char) (cs : List Char) : Outcome α :=
  match skipSpace cs with
  | c :: rest => if c = closing then stop problem rest 0 else stop problem (c :: rest) 0
  | [] => stop problem [] 0

/-- A member, after the opening quote of its key. -/
def memberOf (fields : Fields) (cs : List Char) : Outcome Fields :=
  match Json.string cs with
  | .error fault => .error fault
  | .ok (key, rest) =>
    match Field.named? key with
    | some field =>
      if fields.has field then stopBehind (.duplicateField field.name) '\x7d' rest
      else
        match Json.colon rest with
        | .ok rest => fieldValue fields field rest
        | .error fault => .error fault
    | none =>
      match Json.colon rest with
      | .ok rest => (Json.pass rest).map fun rest => (fields, rest)
      | .error fault => .error fault

/-- The members behind the first one; every turn gives up a character of `room`. -/
def moreMembers (fields : Fields) : List Char → List Char → Outcome Fields
  | [], cs => stop .endInObject cs 0
  | _ :: room, cs =>
    match skipSpace cs with
    | [] => stop .endInObject [] 0
    | c :: rest =>
      if c = '\x7d' then .ok (fields, rest)
      else if c = ',' then
        match skipSpace rest with
        | [] => stop .endInValue [] 0
        | c :: rest =>
          if c = '"' then
            match memberOf fields rest with
            | .ok (fields, rest) => moreMembers fields room rest
            | .error fault => .error fault
          else if c = '\x7d' then stop .trailingComma (c :: rest) 1
          else stop .keyNotString (c :: rest) 1
      else stop .noObjectEnd (c :: rest) 1

def fieldsOf (cs : List Char) : Outcome Fields :=
  match skipSpace cs with
  | [] => stop .endInObject [] 0
  | c :: rest =>
    if c = '\x7d' then .ok (.empty, rest)
    else if c = '"' then
      match memberOf .empty rest with
      | .ok (fields, rest) => moreMembers fields rest rest
      | .error fault => .error fault
    else stop .keyNotString (c :: rest) 1

/-- The start of the next item of a list of which `count` items have been read, or `none` at the end
of the list, in front of its bracket. -/
def nextItem (count : Nat) (cs : List Char) : Except Fault (Option (List Char)) :=
  match skipSpace cs with
  | [] => stop .endInList [] 0
  | c :: rest =>
    if c = ']' then .ok none
    else if count = 0 then .ok (some (c :: rest))
    else if c = ',' then
      match skipSpace rest with
      | [] => stop .endInValue [] 0
      | d :: more =>
        if d = ']' then stop .trailingComma (d :: more) 1 else .ok (some (d :: more))
    else stop .noListEnd (c :: rest) 1

/-- The end of a list that has all the fields. -/
def listEnd (cs : List Char) : Except Fault (List Char) :=
  match skipSpace cs with
  | [] => stop .endInList [] 0
  | c :: rest =>
    if c = ']' then .ok rest
    else if c = ',' then
      match skipSpace rest with
      | d :: more =>
        stop (if d = ']' then .trailingComma else .trailingCharacters) (d :: more) 1
      | [] => stop .trailingCharacters [] 0
    else stop .trailingCharacters (c :: rest) 1

/-- The items of a list, after its opening bracket, of which `count` have been read. -/
def itemsOf (fields : Fields) (count : Nat) : List Field → List Char → Outcome Fields
  | [], cs => (listEnd cs).map fun rest => (fields, rest)
  | field :: more, cs =>
    match nextItem count cs with
    | .error fault => .error fault
    | .ok none =>
      if count < 2 then stopBehind (.tooShort count) ']' cs
      else (listEnd cs).map fun rest => (fields, rest)
    | .ok (some cs) =>
      match fieldValue fields field cs with
      | .ok (fields, rest) => itemsOf fields (count + 1) more rest
      | .error fault => .error fault

def finish (fields : Fields) (rest : List Char) : Outcome Message :=
  match fields.message with
  | .ok message => .ok (message, rest)
  | .error problem => stop problem rest 0

def reader (cs : List Char) : Outcome Message :=
  match skipSpace cs with
  | [] => stop .endInValue [] 0
  | c :: rest =>
    if c = '\x7b' then
      match fieldsOf rest with
      | .ok (fields, rest) => finish fields rest
      | .error fault => .error fault
    else if c = '[' then
      match itemsOf .empty 0 listed rest with
      | .ok (fields, rest) => finish fields rest
      | .error fault => .error fault
    else
      match Json.scalar (c :: rest) with
      | .ok (other, rest) => stop (.wrongKind (kind other) .message) rest 0
      | .error fault => .error fault

def read (text : List Char) : Except Mistake Message :=
  (Json.whole reader text).mapError (·.mistake text)

end Message

namespace Command

/-- The command in a text; blanks around it do not matter. -/
def parse (text : String) : Except CommandError Command :=
  match Message.read (Text.trim text.toList) with
  | .ok message => message.toCommand
  | .error mistake => .error (.malformed mistake)

def ofJson (value : Json) : Except CommandError Command :=
  match Message.ofJson value with
  | .ok message => message.toCommand
  | .error problem => .error (.malformed ⟨problem, none⟩)

end Command
end TelemetryHub
