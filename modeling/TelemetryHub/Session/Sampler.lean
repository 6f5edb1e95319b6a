import TelemetryHub.Failure
import TelemetryHub.Text.Basic
import TelemetryHub.Text.Utf8

/-!
# The external sampler

A sampler records a process until it is told to stop, and makes a report afterwards. What a sampler
does is given by its answers: whether its process can be started, how that process takes the signal to
stop, and what the report is. `PerfProgram` is the sampler that is run as a program of its own, with
its command lines and what becomes of its output.
-/

namespace TelemetryHub

/-- The name of a process in diagnostics. -/
def processName (pid : Nat) : String := "PID:" ++ toString pid

inductive SessionError where
  | spawn (program : String) (failure : Failure)
  | signal (pid : Nat) (failure : Failure)
  | stuck (pid : Nat)
  | report (message : String)
  | waiting (failure : Failure)
deriving DecidableEq

def SessionError.name : SessionError → String
  | .spawn _ _ => "Spawn"
  | .signal _ _ => "Terminate"
  | .stuck _ => "StuckChild"
  | .report _ => "Report"
  | .waiting _ => "Io"

def SessionError.phrase : SessionError → String
  | .spawn program failure => "Failed to spawn sampler " ++ program ++ ": " ++ failure.phrase
  | .signal pid failure => "Failed to signal sampler " ++ processName pid ++ ": " ++ failure.phrase
  | .stuck pid => "Sampler " ++ processName pid ++ " did not exit after SIGTERM"
  | .report message => "Sampler report failed: " ++ message
  | .waiting failure => failure.phrase

/-- What becomes of a process within the time it has after the signal to stop. -/
inductive Ending where
  | exits
  | stays
  /-- It cannot be found out. -/
  | unknown (failure : Failure)
deriving DecidableEq

/-- The recording process. -/
structure Child where
  pid : Nat
  /-- Why it cannot be sent the signal to stop, if it cannot. -/
  refusal : Option Failure
  ending : Ending
deriving DecidableEq

/-- Why the process does not end in time when it is stopped, if it does not. -/
def Child.stopError? (child : Child) : Option SessionError :=
  match child.refusal with
  | some failure => some (.signal child.pid failure)
  | none =>
    match child.ending with
    | .exits => none
    | .stays => some (.stuck child.pid)
    | .unknown failure => some (.waiting failure)

/-- A sampler, by its answers. -/
structure Sampler where
  child : Except SessionError Child
  report : Except SessionError String

/-! ## The sampler as a program -/

inductive ExitStatus where
  | exited (code : Nat)
  | signalled (number : Nat)
deriving DecidableEq

/-- The names of the signals, from the first one on. -/
def signalNames : List String :=
  ["SIGHUP", "SIGINT", "SIGQUIT", "SIGILL", "SIGTRAP", "SIGABRT", "SIGBUS", "SIGFPE", "SIGKILL",
    "SIGUSR1", "SIGSEGV", "SIGUSR2", "SIGPIPE", "SIGALRM", "SIGTERM", "SIGSTKFLT", "SIGCHLD",
    "SIGCONT", "SIGSTOP", "SIGTSTP", "SIGTTIN", "SIGTTOU", "SIGURG", "SIGXCPU", "SIGXFSZ",
    "SIGVTALRM", "SIGPROF", "SIGWINCH", "SIGIO", "SIGPWR", "SIGSYS"]

def signalName (number : Nat) : String :=
  if number = 0 then ""
  else (signalNames[number - 1]?).elim "" fun name => " (" ++ name ++ ")"

/-- The end of a program with a code, of which the last eight bits are kept. -/
def ExitStatus.ofCode (code : Nat) : ExitStatus := .exited (code % 256)

/-- The signals that a program outlives without doing anything about them. -/
def harmlessSignals : List Nat := [0, 17, 18, 23, 28]

/-- The end of a program that is sent a signal as the last thing. -/
def ExitStatus.ofSignal (number : Nat) : ExitStatus :=
  if harmlessSignals.contains number then .exited 0 else .signalled number

def ExitStatus.phrase : ExitStatus → String
  | .exited code => "exit status: " ++ toString code
  | .signalled number => "signal: " ++ toString number ++ signalName number

/-- What a program that has ended leaves. -/
structure ProgramOutput where
  status : ExitStatus
  output : List UInt8
  errors : List UInt8
deriving DecidableEq

def below (directory name : String) : String :=
  if directory.isEmpty then name
  else if directory.endsWith "/" then directory ++ name
  else directory ++ "/" ++ name

/-- The sampler that is run as a program. -/
structure PerfProgram where
  program : String
  dataFile : String
deriving DecidableEq

namespace PerfProgram

/-- The program at a path, run by the process `own`, with its data below a directory. -/
def new (program directory : String) (own : String) : PerfProgram :=
  ⟨program, below directory ("perfagent-" ++ own ++ ".data")⟩

def recordArguments (perf : PerfProgram) (target : Nat) : List String :=
  ["record", "-p", toString target, "-o", perf.dataFile]

def reportArguments (perf : PerfProgram) : List String := ["script", "-i", perf.dataFile]

/-- What starting the program comes to. -/
def started {α : Type} (perf : PerfProgram) (answer : Except Failure α) : Except SessionError α :=
  answer.mapError (.spawn perf.program)

def report (perf : PerfProgram) (answer : Except Failure ProgramOutput) :
    Except SessionError String := do
  let left ← perf.started answer
  if left.status = .exited 0 then .ok (String.ofList (Text.decodeLossy left.output))
  else
    .error (.report (perf.program ++ " script exited with " ++ left.status.phrase ++ ": " ++
      String.ofList (Text.trim (Text.decodeLossy left.errors))))

/-- The program as a sampler, by the answers to running it. -/
def sampler (perf : PerfProgram) (child : Except Failure Child)
    (answer : Except Failure ProgramOutput) : Sampler :=
  ⟨perf.started child, perf.report answer⟩

end PerfProgram
end TelemetryHub
