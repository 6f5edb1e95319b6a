import Std.Time
import TelemetryHub.Net.Inbound
import TelemetryHub.Preflight

/-!
# The system

What the programs ask the system, answered in the terms of the library: its failures, what there is
at a path, which processes exist, and reads that go on in the background until they have brought
something.
-/

namespace TelemetryHub.Host

/-- The number of an error; the network's errors come with a minus sign. -/
def number (code : UInt32) : Nat := code.toInt32.toInt.natAbs

def code? : IO.Error → Option Nat
  | .alreadyExists _ code _ | .otherError code _ | .resourceBusy code _
  | .resourceVanished code _ | .unsupportedOperation code _ | .hardwareFault code _
  | .unsatisfiedConstraints code _ | .illegalOperation code _ | .protocolError code _
  | .timeExpired code _ | .interrupted _ code _ | .noFileOrDirectory _ code _
  | .invalidArgument _ code _ | .permissionDenied _ code _ | .resourceExhausted _ code _
  | .inappropriateType _ code _ | .noSuchThing _ code _ => some (number code)
  | .unexpectedEof | .userError _ => none

def failureOf (error : IO.Error) : Failure :=
  (((code? error).bind SystemError.ofCode?).map Failure.system).getD (.plain .other)

def attempt {α : Type} (action : IO α) : IO (Except Failure α) := do
  try
    return .ok (← action)
  catch error =>
    return .error (failureOf error)

def fileContent (path : String) : IO (Except Failure (List UInt8)) :=
  attempt do return (← IO.FS.readBinFile path).toList

/-- What there is at a path. The mode of a file is not asked for; it counts as executable. -/
def entryAt (path : String) : IO (Except Failure Preflight.Entry) :=
  attempt do
    let handle ← IO.FS.Handle.mk path .read
    match ← attempt (handle.read 1) with
    | .error (.system .isDirectory) => return .directory
    | _ => return .file 0o755

def clock : IO Duration := return ⟨← IO.monoNanosNow⟩

def processExists (pid : Nat) : IO Bool := do
  return (← entryAt ("/proc/" ++ toString pid)).toBool

def restriction : IO (Option Int) := do
  match ← attempt (IO.FS.readFile "/proc/sys/kernel/perf_event_paranoid") with
  | .ok text => return text.trimAscii.toString.toInt?
  | .error _ => return none

def timestamp : IO String := do
  let now := Std.Time.DateTime.ofTimestampWithZone (← Std.Time.Timestamp.now) .UTC
  return now.format "uuuu-MM-dd'T'HH:mm:ss.SSSSSSSSSxxx"

/-! ## Reads in the background -/

/-- A read that is under way; it brings no bytes at the end. -/
abbrev Read := Task (Except IO.Error ByteArray)

/-- A descriptor that is read in the background. -/
structure Reader where
  start : IO Read
  /-- The read that is under way; there is none behind the end. -/
  pending : Option Read

def Reader.begin (start : IO Read) : IO Reader := return ⟨start, some (← start)⟩

/-- What has happened on a descriptor since the last time, and the reader with its next read. -/
def Reader.collect (reader : Reader) : IO ((Inbound → Inbound) × Reader) := do
  match reader.pending with
  | none => return (id, reader)
  | some read =>
    if !(← IO.hasFinished read) then return (id, reader)
    match ← IO.wait read with
    | .error error => return ((·.broken (failureOf error)), { reader with pending := none })
    | .ok bytes =>
      if bytes.isEmpty then return (Inbound.close, { reader with pending := none })
      else return ((·.arrive bytes.toList), { reader with pending := some (← reader.start) })

/-- The program's own input, line by line. A program that has ended waits for the line that is being
read. -/
def ownInput : IO Reader := do
  let input ← IO.getStdin
  Reader.begin (IO.asTask (do return (← input.getLine).toUTF8) .dedicated)

end TelemetryHub.Host
