import TelemetryHub.Clock
import TelemetryHub.Command.Basic

/-!
# Settings

The settings of the server, and their defaults.
-/

namespace TelemetryHub

/-- Where the server takes commands from apart from the network. -/
inductive CommandInput where
  | none
  | interactive
  | script (path : String)
deriving DecidableEq

def CommandInput.name : CommandInput → String
  | .none => "none"
  | .interactive => "interactive"
  | .script _ => "script"

structure Config where
  bindAddress : String
  /-- Zero lets the system choose a port. -/
  port : Nat
  maxClients : Nat
  pollInterval : Duration
  /-- The countdown between two commands of a script. -/
  commandInterval : Duration
  commands : CommandInput
  logFile : Option String
  sampler : Option String
  /-- The process that is sampled, if it is not the server itself. -/
  samplerTarget : Option Nat
  /-- Where the sampler's data goes, if it is not the system's temporary directory. -/
  sessionDirectory : Option String
  /-- How long a sampler that has been told to stop may take. -/
  terminateGrace : Duration
deriving DecidableEq

namespace Config

def defaultHost : String := "localhost"

def defaultPort : Nat := 9003

def defaultClients : Nat := 8

/-- How long the loop waits, in milliseconds. -/
def defaultPollMillis : Nat := 100

/-- The countdown between two commands of a script, in milliseconds. -/
def defaultCommandMillis : Nat := 3000

/-- The time that a sampler has to stop, in seconds. -/
def defaultGraceSeconds : Nat := 5

/-- The defaults: no commands, no log and no sampler. -/
def default : Config where
  bindAddress := "0.0.0.0"
  port := defaultPort
  maxClients := defaultClients
  pollInterval := .ofMillis defaultPollMillis
  commandInterval := .ofMillis defaultCommandMillis
  commands := .none
  logFile := .none
  sampler := .none
  samplerTarget := .none
  sessionDirectory := .none
  terminateGrace := .ofSeconds defaultGraceSeconds

end Config
end TelemetryHub
