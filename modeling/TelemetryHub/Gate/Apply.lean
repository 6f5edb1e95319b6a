import TelemetryHub.Command.Basic
import TelemetryHub.Gate.Registry

/-!
# Commands on gates

What a command does to the gate it addresses:

| action      | rate    | delivery | backtraces | stored rate |
|-------------|---------|----------|------------|-------------|
| `start`     | none    | on       | on         | unchanged   |
| `start`     | `0`     | on       | off        | unchanged   |
| `start`     | `n > 0` | on       | on         | `n`         |
| `stop`      | any     | off      | off        | unchanged   |
| `configure` | `n > 0` | –        | on         | `n`         |
| `configure` | `0`     | –        | off        | unchanged   |

A command with a negative rate, one without a gate, and `configure` without a rate are refused.
-/

namespace TelemetryHub

/-- Why a command had no effect. -/
inductive Refusal where
  | unknownCategory (category : String)
  | negativeRate (category : String) (rate : Int64)
  | missingRate (category : String)
  | sessionActive
  | noSession
  | samplerUnavailable
  | notACommand (error : CommandError)
  | shuttingDown
deriving DecidableEq

def Refusal.name : Refusal → String
  | .unknownCategory _ => "UnknownCategory"
  | .negativeRate _ _ => "NegativeRate"
  | .missingRate _ => "MissingRate"
  | .sessionActive => "SessionActive"
  | .noSession => "NoSession"
  | .samplerUnavailable => "SamplerUnavailable"
  | .notACommand error => error.name
  | .shuttingDown => "ShuttingDown"

def Refusal.phrase : Refusal → String
  | .unknownCategory category => "Invalid function '" ++ category ++ "'"
  | .negativeRate category rate =>
    "Invalid rate " ++ String.ofList (Text.integer rate.toInt) ++ " for '" ++ category ++ "'"
  | .missingRate category => "'configure' for '" ++ category ++ "' carries no sampleRate"
  | .sessionActive => "A sampling session is already running"
  | .noSession => "No sampling session is running"
  | .samplerUnavailable => "No sampler available on this host"
  | .notACommand error => error.phrase
  | .shuttingDown => "Server is shutting down"

namespace Gate

/-- Start a gate, and its delivery too if the command addresses all of it. -/
def start (gate : Gate) (rate : Option Int64) (delivery : Bool) : Gate :=
  let gate := match rate with
    | some rate => gate.configure rate
    | none => gate.setBacktrace true
  if delivery then gate.setActive true else gate

/-- Stop a gate, and its delivery too if the command addresses all of it. -/
def stop (gate : Gate) (delivery : Bool) : Gate :=
  (if delivery then gate.setActive false else gate).setBacktrace false

end Gate

namespace Registry

def applyTo (gates : Registry) (target : Target) (command : Command) : Except Refusal Registry :=
  match command.action with
  | .start =>
    .ok (gates.modify target.category (·.start command.rate target.switchesDelivery))
  | .stop => .ok (gates.modify target.category (·.stop target.switchesDelivery))
  | .configure =>
    match command.rate with
    | some rate => .ok (gates.modify target.category (·.configure rate))
    | none => .error (.missingRate command.category)
  | .sessionStart _ | .sessionStop => .error (.unknownCategory command.category)

/-- A rate that no gate takes. -/
def negativeRate? (rate : Option Int64) : Option Int64 := rate.filter (· < 0)

def apply (gates : Registry) (command : Command) : Except Refusal Registry :=
  match Target.named? command.category with
  | none => .error (.unknownCategory command.category)
  | some target =>
    match negativeRate? command.rate with
    | some rate => .error (.negativeRate command.category rate)
    | none => gates.applyTo target command

end Registry
end TelemetryHub
