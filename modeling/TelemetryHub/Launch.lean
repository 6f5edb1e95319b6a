import TelemetryHub.Options.Programs
import TelemetryHub.Preflight
import TelemetryHub.Relay
import TelemetryHub.Server.Loop

/-!
# Starting the programs

What the two programs do with their command lines before they get to work, and how they end: their
exit codes and what they print about it.
-/

namespace TelemetryHub

structure Exit where
  code : Nat
  output : String
  errors : String
deriving DecidableEq

namespace Exit

def help (text : String) : Exit := ⟨0, text, ""⟩

def usage (error : Options.UsageError) : Exit :=
  ⟨error.exitCode, "",
    "error: " ++ error.phrase ++ "\n\nFor more information, try '--help'.\n"⟩

/-- A program with a command line that is not taken; asking for help is no mistake. -/
def ofUsage (error : Options.UsageError) (helpText : String) : Exit :=
  if error = .displayHelp then help helpText else usage error

def failing (code : Nat) (warnings message : String) : Exit :=
  ⟨code, "", warnings ++ "error: " ++ message ++ "\n"⟩

end Exit

namespace Launch

/-- The server's command line, if the server is to go on: the process to be sampled has to exist. -/
def serverArguments (commandLine : List String) (processExists : Nat → Bool) :
    Except Exit Options.ServerArguments :=
  match Options.parseServer commandLine with
  | .error error => .error (.ofUsage error Options.serverHelp)
  | .ok arguments =>
    match arguments.config.samplerTarget with
    | some pid =>
      if processExists pid then .ok arguments
      else .error (.failing 2 "" (Preflight.processNotFound pid))
    | none => .ok arguments

/-- What the server finds when it starts. -/
structure Surroundings where
  logOpened : Except Failure Unit
  /-- Why the log's device takes nothing, if it takes nothing. -/
  logRefusal : Option Failure
  /-- The content of the command file. -/
  commands : Except Failure (List UInt8)
  input : Inbound
  /-- What the sampler answers. -/
  sampler : Sampler
  clock : Duration
  now : String

/-- The log, and the warning if it is left out. -/
def openLog (config : Config) (found : Surroundings) : Option Log × List String :=
  match config.logFile with
  | none => (none, [])
  | some path =>
    match Log.create path found.logOpened found.logRefusal with
    | .ok log => (some log, [])
    | .error error => (none, [error.phrase ++ "; continuing without a log"])

/-- The command source, and the warnings about it. -/
def openSource (config : Config) (found : Surroundings) : Option Source × List String :=
  match config.commands with
  | .none => (none, [])
  | .interactive => (some (.interactive (.new Interactive.ownLabel found.input)), [])
  | .script path =>
    match Script.load path found.commands (.new config.commandInterval config.pollInterval) with
    | .ok (replay, warnings) => (some (.script replay), warnings)
    | .error error => (none, [error.phrase ++ "; continuing without scripted commands"])

/-- The server with its settings, once it listens, and the warnings about what is left out. -/
def server (config : Config) (found : Surroundings) : Server × List String :=
  let (log, logWarnings) := openLog config found
  let (source, sourceWarnings) := openSource config found
  let sampler := config.sampler.map fun _ => found.sampler
  let deadline : Deadline := ⟨found.clock, config.terminateGrace⟩
  (.new config.maxClients log source sampler deadline found.now, logWarnings ++ sourceWarnings)

/-- The server when it cannot listen; `warnings` is what it has printed before. -/
def cannotListen (warnings : String) (port : Nat) (failure : Failure) : Exit :=
  .failing 1 warnings
    ("Failed to start server: " ++ (ServerError.bind port failure).phrase ++ ": " ++ failure.phrase)

def clientArguments (commandLine : List String) : Except Exit Options.ClientArguments :=
  match Options.parseClient commandLine with
  | .error error => .error (.ofUsage error Options.clientHelp)
  | .ok arguments => .ok arguments

def cannotConnect (arguments : Options.ClientArguments) (failure : Failure) : Exit :=
  .failing 1 ""
    ("Failed to connect to " ++ arguments.hostname ++ ":" ++ toString arguments.port ++ ": " ++
      failure.phrase)

def clientEnded (reason : RelayEnd) (output : String) : Exit :=
  match reason with
  | .done => ⟨0, output, ""⟩
  | .serverClosed => ⟨0, output, "Server closed the connection\n"⟩
  | .failed failure => ⟨1, output, "error: Connection failed: " ++ failure.phrase ++ "\n"⟩

end Launch
end TelemetryHub
