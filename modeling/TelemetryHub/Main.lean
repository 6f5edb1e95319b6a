import TelemetryHub.Host.Converse
import TelemetryHub.Host.Serve

/-!
# The command line

A program whose name ends with `client` is the operator's client, every other one is the server.
-/

namespace TelemetryHub.Host

def finish (ended : Exit) : IO UInt32 := do
  IO.print ended.output
  IO.eprint ended.errors
  return ended.code.toUInt32

/-- What the checks before the start find. -/
def findings (config : Config) : IO Preflight.Findings := do
  let entries ← (Preflight.paths config).mapM fun path => return (path, ← entryAt path)
  let entryOf (path : String) : Except Failure Preflight.Entry :=
    (entries.lookup path).getD (.error (.system .noEntry))
  return .of entryOf config (← restriction)

def serverMain (words : List String) : IO UInt32 := do
  let target := (Options.parseServer words).toOption.bind (·.config.samplerTarget)
  let found ← target.mapM processExists
  match Launch.serverArguments words fun _ => found.getD true with
  | .error ended => finish ended
  | .ok arguments =>
    let config := arguments.config
    let (config, warnings) := Preflight.check config (← findings config) arguments.quiet
    IO.eprint warnings
    match ← attempt (listen config) with
    | .error failure => finish (Launch.cannotListen "" config.port failure)
    | .ok listener =>
      serve config listener
      return 0

def clientMain (words : List String) : IO UInt32 := do
  match Launch.clientArguments words with
  | .error ended => finish ended
  | .ok arguments =>
    match ← attempt (connect arguments) with
    | .error failure => finish (Launch.cannotConnect arguments failure)
    | .ok socket => finish (Launch.clientEnded (← converse socket arguments.listenOnly) "")

end TelemetryHub.Host

def main (words : List String) : IO UInt32 := do
  if (← IO.appPath).toString.endsWith "client" then TelemetryHub.Host.clientMain words
  else TelemetryHub.Host.serverMain words
