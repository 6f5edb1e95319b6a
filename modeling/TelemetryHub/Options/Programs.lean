import TelemetryHub.Config
import TelemetryHub.Options.Basic

/-!
# The command lines of the programs

What the server and the client can be told, and what they answer to those who ask for help.
-/

namespace TelemetryHub.Options

/-! ## The server -/

def portKind : ValueKind := .ranged 65535

def pidKind : ValueKind := .ranged 4294967295

def wordKind : ValueKind := .unsigned 18446744073709551615

def helpOption : Parameter := ⟨"help", some 'h', .help⟩

def serverInterface : Interface where
  options :=
    [⟨"commands", some 'c', .value .path⟩,
      ⟨"interactive", some 'i', .flag⟩,
      ⟨"log-file", none, .value .path⟩,
      ⟨"no-log", none, .flag⟩,
      ⟨"max-clients", none, .value wordKind⟩,
      ⟨"poll-interval-ms", none, .value wordKind⟩,
      ⟨"command-interval-ms", none, .value wordKind⟩,
      ⟨"sampler", none, .value .path⟩,
      ⟨"sampler-pid", none, .value pidKind⟩,
      ⟨"session-dir", none, .value .path⟩,
      ⟨"quiet", some 'q', .flag⟩,
      helpOption]
  positionals := [⟨"PORT", none, .value portKind⟩]
  conflicts := [("commands", "interactive"), ("no-log", "log-file")]

/-- The log file that is written unless another one is given. -/
def defaultLogFile : String := "logs.txt"

/-- The sampler that is used unless another one is given. -/
def defaultSampler : String := "/usr/bin/perf"

structure ServerArguments where
  config : Config
  /-- Whether warnings that are not essential are left out. -/
  quiet : Bool
deriving DecidableEq

def commandInput (arguments : Arguments) : CommandInput :=
  match arguments.value? "commands" with
  | some path => .script path
  | none => if arguments.has "interactive" then .interactive else .none

/-- The settings that arguments describe. -/
def serverConfig (arguments : Arguments) : Config :=
  { Config.default with
    port := (arguments.number? "PORT" portKind).getD Config.defaultPort
    maxClients := (arguments.number? "max-clients" wordKind).getD Config.defaultClients
    pollInterval :=
      .ofMillis ((arguments.number? "poll-interval-ms" wordKind).getD Config.defaultPollMillis)
    commandInterval :=
      .ofMillis
        ((arguments.number? "command-interval-ms" wordKind).getD Config.defaultCommandMillis)
    commands := commandInput arguments
    logFile :=
      if arguments.has "no-log" then none
      else some ((arguments.value? "log-file").getD defaultLogFile)
    sampler := some ((arguments.value? "sampler").getD defaultSampler)
    samplerTarget := arguments.number? "sampler-pid" pidKind
    sessionDirectory := arguments.value? "session-dir" }

def parseServer (commandLine : List String) : Except UsageError ServerArguments := do
  let arguments ← parse serverInterface commandLine
  return ⟨serverConfig arguments, arguments.has "quiet"⟩

def serverHelp : String :=
  "\n".intercalate
    ["Multiplex profiling telemetry to network observers",
      "",
      "Usage: perfagent [OPTIONS] [PORT]",
      "",
      "Arguments:",
      "  [PORT]  TCP port to listen on [default: 9003]",
      "",
      "Options:",
      "  -c, --commands <FILE>",
      "          JSON array of commands to replay",
      "  -i, --interactive",
      "          Read operator commands from stdin",
      "      --log-file <FILE>",
      "          Telemetry log file [default: logs.txt]",
      "      --no-log",
      "          Do not write a telemetry log",
      "      --max-clients <MAX_CLIENTS>",
      "          Maximum number of connected clients [default: 8]",
      "      --poll-interval-ms <POLL_INTERVAL_MS>",
      "          Poll timeout in milliseconds [default: 100]",
      "      --command-interval-ms <COMMAND_INTERVAL_MS>",
      "          Countdown between scripted commands in milliseconds [default: 3000]",
      "      --sampler <PATH>",
      "          Sampling profiler binary [default: /usr/bin/perf]",
      "      --sampler-pid <PID>",
      "          Process to sample (defaults to the server itself)",
      "      --session-dir <DIR>",
      "          Directory for sampler data files",
      "  -q, --quiet",
      "          Skip non-essential preflight warnings",
      "  -h, --help",
      "          Print help",
      "",
      "EXAMPLES:",
      "    perfagent                                   Listen on port 9003, log to logs.txt",
      "    perfagent 9100 --interactive                Take commands from stdin as well",
      "    perfagent --commands session.json           Replay a command file every 3s",
      "    perfagent --sampler-pid 1234                Sample PID 1234 on \x7b\"functionality\":\"perf\"\x7d",
      ""]

/-! ## The client -/

def clientInterface : Interface where
  options := [⟨"listen-only", some 'l', .flag⟩, helpOption]
  positionals := [⟨"HOSTNAME", none, .value .text⟩, ⟨"PORT", none, .value portKind⟩]
  conflicts := []

structure ClientArguments where
  hostname : String
  port : Nat
  /-- Whether nothing is forwarded to the server. -/
  listenOnly : Bool
deriving DecidableEq

def parseClient (commandLine : List String) : Except UsageError ClientArguments := do
  let arguments ← parse clientInterface commandLine
  return {
    hostname := (arguments.value? "HOSTNAME").getD Config.defaultHost
    port := (arguments.number? "PORT" portKind).getD Config.defaultPort
    listenOnly := arguments.has "listen-only" }

def clientHelp : String :=
  "\n".intercalate
    ["Send commands to a perfagent server and print its telemetry",
      "",
      "Usage: perfagent-client [OPTIONS] [HOSTNAME] [PORT]",
      "",
      "Arguments:",
      "  [HOSTNAME]  Server host [default: localhost]",
      "  [PORT]      Server port [default: 9003]",
      "",
      "Options:",
      "  -l, --listen-only  Only print telemetry; do not read commands from stdin",
      "  -h, --help         Print help",
      ""]

end TelemetryHub.Options
