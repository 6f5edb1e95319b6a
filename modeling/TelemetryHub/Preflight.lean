import TelemetryHub.Config
import TelemetryHub.Failure
import TelemetryHub.Session.Sampler

/-!
# Checks before the start

The optional parts of the server are checked before it starts: a part that cannot work is left out
with a warning. The only thing that keeps the server from starting is a process to be sampled that
does not exist.
-/

namespace TelemetryHub.Preflight

inductive Entry where
  | file (mode : Nat)
  | directory
deriving DecidableEq

/-- What the checks find. -/
structure Findings where
  sampler : Except Failure Entry
  commands : Option Failure
  /-- Whether there is a directory for the log file. -/
  hasLogDirectory : Bool
  /-- How far the kernel restricts sampling, if it does for this user. -/
  restriction : Option Int

/-! ## Paths -/

/-- A path without separators and idle steps at its end; last character first. -/
def withoutIdle : List Char → List Char
  | '/' :: rest => withoutIdle rest
  | '.' :: '/' :: rest => withoutIdle rest
  | cs => cs

def parent? (path : String) : Option String :=
  match withoutIdle path.toList.reverse with
  | [] => none
  | name =>
    match withoutIdle (name.dropWhile (· ≠ '/')) with
    | [] => some (if path.startsWith "/" then "/" else "")
    | directory => some (String.ofList directory.reverse)

/-- The directory that has to exist for a log file. -/
def logDirectory? (path : String) : Option String := (parent? path).filter (· ≠ "")

def failure? : Except Failure Entry → Option Failure
  | .ok _ => none
  | .error failure => some failure

def isDirectory : Except Failure Entry → Bool
  | .ok .directory => true
  | _ => false

def commandFile? (config : Config) : Option String :=
  match config.commands with
  | .script path => some path
  | _ => none

/-- The directory that has to exist for the log file of the settings. -/
def requiredDirectory? (config : Config) : Option String := config.logFile.bind logDirectory?

def paths (config : Config) : List String :=
  [config.sampler, commandFile? config, requiredDirectory? config].filterMap id

/-- What the checks find, by what there is at a path. -/
def Findings.of (entryAt : String → Except Failure Entry) (config : Config)
    (restriction : Option Int) : Findings where
  sampler := entryAt (config.sampler.getD "")
  commands := (commandFile? config).bind fun path => failure? (entryAt path)
  hasLogDirectory := (requiredDirectory? config).all fun path => isDirectory (entryAt path)
  restriction := restriction

/-! ## Checks -/

/-- A mode with a right to execute. -/
def isExecutable (mode : Nat) : Bool := mode &&& 0o111 ≠ 0

def samplerFault? (path : String) (found : Except Failure Entry) : Option String :=
  match found with
  | .error failure => some ("Sampler not found: " ++ path ++ ": " ++ failure.phrase)
  | .ok .directory => some ("Not a file: " ++ path)
  | .ok (.file mode) =>
    if isExecutable mode then none else some ("Sampler is not executable: " ++ path)

def commandsFault? (path : String) (found : Option Failure) : Option String :=
  found.map fun failure => "Cannot read command file " ++ path ++ ": " ++ failure.phrase

def logFault? (path : String) (hasDirectory : Bool) : Option String :=
  match logDirectory? path with
  | some directory =>
    if hasDirectory then none else some ("Log directory does not exist: " ++ directory)
  | none => none

/-- A warning, and what it is that does not work. -/
def warning (fault consequence : String) : String :=
  "warning: " ++ fault ++ "\n" ++ consequence ++ "\n"

def restrictionWarning (level : Int) : String :=
  "warning: perf_event_paranoid is " ++ toString level ++
    "; sampling sessions may fail.\nRun as root or lower /proc/sys/kernel/perf_event_paranoid.\n"

/-- The warning about sampling when the sampler itself is in order. -/
def restrictionWarning? (quiet : Bool) (restriction : Option Int) : String :=
  match restriction with
  | some level => if !quiet && 1 < level then restrictionWarning level else ""
  | none => ""

def checkSampler (config : Config) (findings : Findings) (quiet : Bool) : Config × String :=
  match config.sampler with
  | none => (config, "")
  | some path =>
    match samplerFault? path findings.sampler with
    | none => (config, restrictionWarning? quiet findings.restriction)
    | some fault => ({ config with sampler := none }, warning fault "Sampling sessions are disabled.")

def checkCommands (config : Config) (findings : Findings) : Config × String :=
  match config.commands with
  | .script path =>
    match commandsFault? path findings.commands with
    | none => (config, "")
    | some fault =>
      ({ config with commands := .none }, warning fault "Scripted commands are disabled.")
  | _ => (config, "")

def checkLog (config : Config) (findings : Findings) : Config × String :=
  match config.logFile with
  | none => (config, "")
  | some path =>
    match logFault? path findings.hasLogDirectory with
    | none => (config, "")
    | some fault => ({ config with logFile := none }, warning fault "The telemetry log is disabled.")

/-- Check all optional parts: the settings without those that cannot work, and the warnings. -/
def check (config : Config) (findings : Findings) (quiet : Bool) : Config × String :=
  let (config, sampler) := checkSampler config findings quiet
  let (config, commands) := checkCommands config findings
  let (config, log) := checkLog config findings
  (config, sampler ++ commands ++ log)

def processNotFound (pid : Nat) : String :=
  "Process " ++ toString pid ++
    " not found.\n\nIs the process still running? Check with: ps -p " ++ toString pid

end TelemetryHub.Preflight
