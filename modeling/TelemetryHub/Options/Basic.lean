/-!
# Command lines

How the words of a command line are taken: long options with `--`, short ones with `-` and several of
them in one word, values behind `=`, in the same word or in the next one, and positional words, to
which everything behind `--` belongs. An option may be given once.

A word with a value is held back until the next one is understood, since only then it is clear that
the value is complete; `resolve` is where it is checked. So of two mistakes the one that is seen first
need not be the one that is written first.
-/

namespace TelemetryHub.Options

/-- What a value has to be. -/
inductive ValueKind where
  | text
  /-- A text that is not empty. -/
  | path
  /-- A number up to a limit; a sign is allowed, so that `-0` is a number. -/
  | ranged (limit : Nat)
  /-- A number up to a limit, perhaps with a plus sign. -/
  | unsigned (limit : Nat)
deriving DecidableEq

inductive ParameterKind where
  | value (kind : ValueKind)
  | flag
  | help
deriving DecidableEq

structure Parameter where
  name : String
  short : Option Char
  kind : ParameterKind
deriving DecidableEq

/-- The parameters of a program: its options, its positional parameters in order, and the pairs of
options that exclude each other. -/
structure Interface where
  options : List Parameter
  positionals : List Parameter
  conflicts : List (String × String)

/-- Why a command line is not taken. Asking for help is one of the reasons. -/
inductive UsageError where
  | displayHelp
  | valueValidation
  | unknownArgument
  | invalidValue
  | argumentConflict
  | tooManyValues
deriving DecidableEq

namespace UsageError

def exitCode : UsageError → Nat
  | .displayHelp => 0
  | _ => 2

def name : UsageError → String
  | .displayHelp => "DisplayHelp"
  | .valueValidation => "ValueValidation"
  | .unknownArgument => "UnknownArgument"
  | .invalidValue => "InvalidValue"
  | .argumentConflict => "ArgumentConflict"
  | .tooManyValues => "TooManyValues"

def phrase : UsageError → String
  | .displayHelp => "help was asked for"
  | .valueValidation => "a value is not valid"
  | .unknownArgument => "an argument is not known"
  | .invalidValue => "a value is missing"
  | .argumentConflict => "arguments exclude each other"
  | .tooManyValues => "a value is given where none is taken"

end UsageError

/-! ## Values -/

/-- A numeral with one more digit, if that is one and the value stays within a limit. -/
def extended? (limit value : Nat) (c : Char) : Option Nat :=
  let longer := value * 10 + (c.toNat - '0'.toNat)
  if c.isDigit && longer ≤ limit then some longer else none

def digits? (limit : Nat) (cs : List Char) : Option Nat :=
  if cs.isEmpty then none else cs.foldlM (extended? limit) 0

def unsigned? (limit : Nat) (text : String) : Option Nat :=
  match text.toList with
  | '+' :: rest => digits? limit rest
  | cs => digits? limit cs

/-- A natural number within a limit, with any sign; below zero there is only zero itself. -/
def signed? (limit : Nat) (text : String) : Option Nat :=
  match text.toList with
  | '-' :: rest => digits? 0 rest
  | _ => unsigned? limit text

/-- The number that a value is, if it is one in the limits. -/
def ValueKind.number? (kind : ValueKind) (text : String) : Option Nat :=
  match kind with
  | .ranged limit => signed? limit text
  | .unsigned limit => unsigned? limit text
  | _ => none

def ValueKind.error? (kind : ValueKind) (text : String) : Option UsageError :=
  match kind with
  | .text => none
  | .path => if text.isEmpty then some .invalidValue else none
  | _ => if (kind.number? text).isNone then some .valueValidation else none

/-! ## Words -/

/-- A parameter whose value is held back. -/
structure Pending where
  parameter : Parameter
  value : Option String

structure State where
  /-- The parameters that have been given, with their values. -/
  given : List (String × Option String)
  pending : Option Pending
  /-- Whether the next word can be the value of the pending option. -/
  awaiting : Bool
  /-- Whether all further words are positional. -/
  trailing : Bool
  /-- The positional parameters that are left. -/
  positionals : List Parameter

def record (state : State) (parameter : Parameter) (value : Option String) :
    Except UsageError State :=
  match parameter.kind with
  | .help => .error .displayHelp
  | .flag =>
    if state.given.any (·.1 = parameter.name) then .error .argumentConflict
    else .ok { state with given := state.given ++ [(parameter.name, none)] }
  | .value kind =>
    match value with
    | none => .error .invalidValue
    | some text =>
      if state.given.any (·.1 = parameter.name) then .error .argumentConflict
      else
        match kind.error? text with
        | some error => .error error
        | none => .ok { state with given := state.given ++ [(parameter.name, some text)] }

def resolve (state : State) : Except UsageError State :=
  match state.pending with
  | none => .ok state
  | some pending => record { state with pending := none } pending.parameter pending.value

/-- Take a parameter after the one that is held back. -/
def react (state : State) (parameter : Parameter) (value : Option String) :
    Except UsageError State := do
  let state ← resolve { state with awaiting := false }
  record state parameter value

def await (state : State) (parameter : Parameter) : Except UsageError State := do
  let state ← resolve state
  return { state with pending := some ⟨parameter, none⟩, awaiting := true }

/-- An option, perhaps with a value in the same word. -/
def option (state : State) (parameter : Parameter) (attached : Option String) :
    Except UsageError State :=
  match parameter.kind with
  | .value _ =>
    match attached with
    | some value => react state parameter (some value)
    | none => await state parameter
  | _ => react state parameter none

def long (interface : Interface) (state : State) (word : List Char) : Except UsageError State :=
  let (name, rest) := word.span (· ≠ '=')
  let attached := match rest with
    | _ :: value => some (String.ofList value)
    | [] => none
  match interface.options.find? (·.name = String.ofList name) with
  | none => .error .unknownArgument
  | some parameter =>
    match parameter.kind, attached with
    | .value _, _ => option state parameter attached
    | _, some _ => .error .tooManyValues
    | _, none => option state parameter none

/-- The value behind a short option in the same word. -/
def attachedValue (rest : List Char) : Option String :=
  match rest with
  | [] => none
  | '=' :: value => some (String.ofList value)
  | value => some (String.ofList value)

def shorts (interface : Interface) (state : State) : List Char → Except UsageError State
  | [] => .ok state
  | c :: rest =>
    match interface.options.find? (·.short = some c) with
    | none => .error .unknownArgument
    | some parameter =>
      match parameter.kind with
      | .value _ => option state parameter (attachedValue rest)
      | _ => do shorts interface (← option state parameter none) rest

def positional (state : State) (word : String) : Except UsageError State :=
  match state.positionals with
  | [] => .error .unknownArgument
  | parameter :: rest => do
    let state ← resolve { state with awaiting := false }
    return { state with pending := some ⟨parameter, some word⟩, positionals := rest }

/-- A word that is no option: the value of the option that waits for one, or a positional word. -/
def plain (state : State) (word : String) : Except UsageError State :=
  match state.awaiting, state.pending with
  | true, some pending =>
    .ok { state with pending := some { pending with value := some word }, awaiting := false }
  | _, _ => positional state word

def word (interface : Interface) (state : State) (text : String) : Except UsageError State :=
  if state.trailing then positional state text
  else
    match text.toList with
    | ['-', '-'] => .ok { state with trailing := true }
    | '-' :: '-' :: rest => long interface state rest
    | ['-'] => plain state text
    | '-' :: rest => shorts interface state rest
    | _ => plain state text

/-- The words of a command line, one after the other. -/
def words (interface : Interface) (state : State) : List String → Except UsageError State
  | [] => .ok state
  | text :: rest => do words interface (← word interface state text) rest

structure Arguments where
  given : List (String × Option String)

namespace Arguments

def has (arguments : Arguments) (name : String) : Bool := arguments.given.any (·.1 = name)

def value? (arguments : Arguments) (name : String) : Option String :=
  (arguments.given.lookup name).join

def number? (arguments : Arguments) (name : String) (kind : ValueKind) : Option Nat :=
  (arguments.value? name).bind kind.number?

end Arguments

def parse (interface : Interface) (commandLine : List String) : Except UsageError Arguments := do
  let state ← words interface ⟨[], none, false, false, interface.positionals⟩ commandLine
  let state ← resolve state
  let arguments : Arguments := ⟨state.given⟩
  if interface.conflicts.any fun (one, other) => arguments.has one && arguments.has other then
    .error .argumentConflict
  else .ok arguments

end TelemetryHub.Options
