import TelemetryHub.Preflight

/-!
# Trees of files

What a path leads to when the files are given: a path is followed name by name, and every step has to
start from a directory, also the idle step behind a last separator. So a file with a separator behind
it is not found, and neither is anything below a file.
-/

namespace TelemetryHub

/-- The files of a tree. A place is given by the names that lead to it from the root. -/
structure Files where
  entries : List (List String × Preflight.Entry)

namespace Files

/-- What there is at a place. The root, and whatever lies on the way to an entry, is a directory. -/
def find (files : Files) (place : List String) : Except Failure Preflight.Entry :=
  match files.entries.lookup place with
  | some entry => .ok entry
  | none =>
    if place.isEmpty || files.entries.any (place.isPrefixOf ·.1) then .ok .directory
    else .error (.system .noEntry)

def step (place : List String) (name : String) : List String :=
  match name with
  | "" | "." => place
  | ".." => place.dropLast
  | _ => place ++ [name]

def nameLimit : Nat := 255

def pathLimit : Nat := 4095

/-- Where names lead to from a place. -/
def follow (files : Files) : List String → List String → Except Failure Preflight.Entry
  | place, [] => files.find place
  | place, name :: names => do
    match ← files.find place with
    | .file _ => .error (.system .notDirectory)
    | .directory =>
      if nameLimit < name.utf8ByteSize then .error (.system .nameTooLong)
      else files.follow (step place name) names

/-- What there is at a path, which starts from the root or from a given place. -/
def entryAt (files : Files) (home : List String) (path : String) : Except Failure Preflight.Entry :=
  if path = "" then .error (.system .noEntry)
  else if pathLimit < path.utf8ByteSize then .error (.system .nameTooLong)
  else files.follow (if path.startsWith "/" then [] else home) (path.splitOn "/")

/-- Below a file there is nothing. -/
theorem follow_file {files : Files} {place : List String} {mode : Nat}
    (found : files.find place = .ok (.file mode)) (name : String) (names : List String) :
    files.follow place (name :: names) = .error (.system .notDirectory) := by
  rw [follow, found]; rfl

theorem follow_idle {files : Files} {place : List String}
    (found : files.find place = .ok .directory) (names : List String) :
    files.follow place ("." :: names) = files.follow place names := by
  rw [follow, found]; rfl

end Files
end TelemetryHub
