/-!
# Failures of the environment

What the operating system answers when something does not work, and how a diagnostic shows it.
-/

namespace TelemetryHub

/-- A numbered error of the operating system. -/
inductive SystemError where
  | noEntry
  | tryAgain
  | accessDenied
  | notDirectory
  | isDirectory
  | noSpace
  | brokenPipe
  | nameTooLong
  | addressInUse
  | networkUnreachable
  | connectionReset
  | connectionRefused
deriving DecidableEq

namespace SystemError

/-- The number and the text of an error. -/
def describe : SystemError → Nat × String
  | .noEntry => (2, "No such file or directory")
  | .tryAgain => (11, "Resource temporarily unavailable")
  | .accessDenied => (13, "Permission denied")
  | .notDirectory => (20, "Not a directory")
  | .isDirectory => (21, "Is a directory")
  | .noSpace => (28, "No space left on device")
  | .brokenPipe => (32, "Broken pipe")
  | .nameTooLong => (36, "File name too long")
  | .addressInUse => (98, "Address already in use")
  | .networkUnreachable => (101, "Network is unreachable")
  | .connectionReset => (104, "Connection reset by peer")
  | .connectionRefused => (111, "Connection refused")

def code (error : SystemError) : Nat := error.describe.1

def all : List SystemError :=
  [.noEntry, .tryAgain, .accessDenied, .notDirectory, .isDirectory, .noSpace, .brokenPipe,
    .nameTooLong, .addressInUse, .networkUnreachable, .connectionReset, .connectionRefused]

def ofCode? (code : Nat) : Option SystemError := all.find? (·.code = code)

def phrase (error : SystemError) : String :=
  error.describe.2 ++ " (os error " ++ toString error.code ++ ")"

end SystemError

inductive FailureKind where
  | notFound
  | permissionDenied
  | connectionRefused
  | connectionReset
  | networkUnreachable
  | connectionAborted
  | notConnected
  | addressInUse
  | brokenPipe
  | alreadyExists
  | wouldBlock
  | notADirectory
  | isADirectory
  | invalidFilename
  | invalidInput
  | invalidData
  | timedOut
  | writeZero
  | storageFull
  | interrupted
  | unexpectedEnd
  | other
deriving DecidableEq

namespace FailureKind

/-- The name and the diagnostic of a kind of failure. -/
def describe : FailureKind → String × String
  | .notFound => ("NotFound", "entity not found")
  | .permissionDenied => ("PermissionDenied", "permission denied")
  | .connectionRefused => ("ConnectionRefused", "connection refused")
  | .connectionReset => ("ConnectionReset", "connection reset")
  | .networkUnreachable => ("NetworkUnreachable", "network unreachable")
  | .connectionAborted => ("ConnectionAborted", "connection aborted")
  | .notConnected => ("NotConnected", "not connected")
  | .addressInUse => ("AddrInUse", "address in use")
  | .brokenPipe => ("BrokenPipe", "broken pipe")
  | .alreadyExists => ("AlreadyExists", "entity already exists")
  | .wouldBlock => ("WouldBlock", "operation would block")
  | .notADirectory => ("NotADirectory", "not a directory")
  | .isADirectory => ("IsADirectory", "is a directory")
  | .invalidFilename => ("InvalidFilename", "invalid filename")
  | .invalidInput => ("InvalidInput", "invalid input parameter")
  | .invalidData => ("InvalidData", "invalid data")
  | .timedOut => ("TimedOut", "timed out")
  | .writeZero => ("WriteZero", "write zero")
  | .storageFull => ("StorageFull", "no storage space")
  | .interrupted => ("Interrupted", "operation interrupted")
  | .unexpectedEnd => ("UnexpectedEof", "unexpected end of file")
  | .other => ("Other", "other error")

def name (kind : FailureKind) : String := kind.describe.1

def phrase (kind : FailureKind) : String := kind.describe.2

def all : List FailureKind :=
  [.notFound, .permissionDenied, .connectionRefused, .connectionReset, .networkUnreachable,
    .connectionAborted, .notConnected, .addressInUse, .brokenPipe, .alreadyExists,
    .wouldBlock, .notADirectory, .isADirectory, .invalidFilename, .invalidInput, .invalidData,
    .timedOut, .writeZero, .storageFull, .interrupted, .unexpectedEnd, .other]

def named? (name : String) : Option FailureKind := all.find? (·.name = name)

end FailureKind

def SystemError.kind : SystemError → FailureKind
  | .noEntry => .notFound
  | .tryAgain => .wouldBlock
  | .accessDenied => .permissionDenied
  | .notDirectory => .notADirectory
  | .isDirectory => .isADirectory
  | .noSpace => .storageFull
  | .brokenPipe => .brokenPipe
  | .nameTooLong => .invalidFilename
  | .addressInUse => .addressInUse
  | .networkUnreachable => .networkUnreachable
  | .connectionReset => .connectionReset
  | .connectionRefused => .connectionRefused

/-- Why an operation on the environment did not work. -/
inductive Failure where
  | system (error : SystemError)
  | plain (kind : FailureKind)
  /-- What was read is not UTF-8. -/
  | notUtf8
deriving DecidableEq

namespace Failure

def phrase : Failure → String
  | .system error => error.phrase
  | .plain kind => kind.phrase
  | .notUtf8 => "stream did not contain valid UTF-8"

def kind : Failure → FailureKind
  | .system error => error.kind
  | .plain kind => kind
  | .notUtf8 => .invalidData

/-- Whether the operation may simply be tried again later. -/
def isTransient (failure : Failure) : Bool :=
  failure.kind = .wouldBlock || failure.kind = .interrupted

def isInterruption (failure : Failure) : Bool := failure.kind = .interrupted

end Failure
end TelemetryHub
