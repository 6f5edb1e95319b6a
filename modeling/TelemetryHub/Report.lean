import TelemetryHub.Telemetry
import TelemetryHub.Text.Basic

/-!
# Reports of a sampler

The samples of a report are those of its lines, numbered from zero. A line has a sample if the pattern

    ^\s*(?P<prog>\S.*?)\s+(?P<pid>\d+)(?:/(?P<tid>\d+))?\s+(?:\[(?P<cpu>\d+)\]\s+)?(?P<time>\d+\.\d+):
    \s+(?P<cycles>\d+)\s+cycles(?::[A-Za-z]+)?:\s+(?P<ip>[0-9a-fA-F]+)\s+(?P<symbol>.+?)\s+
    \((?P<dso>[^()]*)\)\s*$

matches it, which is one expression cut here into three: a program name, the process and perhaps `/` and
the thread, perhaps the processor in square brackets, the time and a colon, the number of cycles,
`cycles` perhaps with a modifier, and a colon, the instruction's address, its symbol, and in parentheses
the object it is from, all of them apart from each other by blanks. A blank `\s` is any character of
`White_Space`, a digit `\d` one of any script, and `.` is anything but the end of a line.

Of several matches the first one counts, where what is greedy is tried from the longest on and what is
lazy from the shortest. Names and symbols may have blanks and anything else inside, so there can be
several: the one with the shortest name is taken, and in it the symbol starts behind as many blanks as
possible and is as short as possible. Nothing else has a choice, since what may follow a run of digits,
letters or blanks cannot be a part of it. `line?` does not go back and forth as the pattern would. It
finds the object from the end of the line (`object?`), since there is only one place for it, the figures
between the name and the symbol in one pass (`figures?`), and tries names from the shortest one on, each
by what is behind it (`remainder?`), as far as one can follow at all (`leastName`).
-/

namespace TelemetryHub.Report

open Text (isBlank isDigit)

/-- What is behind the blanks at the front of a text: `\s+`. -/
def blanks? : List Char → Option (List Char)
  | c :: rest => if isBlank c then some (rest.dropWhile isBlank) else none
  | [] => none

/-- The characters of a class at the front of a text, of which there must be one, as in `\d+`. -/
def run? (inClass : Char → Bool) (cs : List Char) : Option (List Char × List Char) :=
  match cs.span inClass with
  | ([], _) => none
  | (run, rest) => some (run, rest)

/-- A text without the given front. -/
def after? : List Char → List Char → Option (List Char)
  | [], cs => some cs
  | c :: word, d :: rest => if c = d then after? word rest else none
  | _ :: _, [] => none

/-- The class `[0-9a-fA-F]`. -/
def isHex (c : Char) : Bool :=
  ('0' ≤ c && c ≤ '9') || ('a' ≤ c && c ≤ 'f') || ('A' ≤ c && c ≤ 'F')

/-- The class `[A-Za-z]`. -/
def isLetter (c : Char) : Bool := ('a' ≤ c && c ≤ 'z') || ('A' ≤ c && c ≤ 'Z')

structure Figures where
  pid : List Char
  tid : Option (List Char)
  cpu : Option (List Char)
  time : List Char
  cycles : List Char
  ip : List Char
deriving DecidableEq

/-- The thread behind the process, if there is one: `(?:/(?P<tid>\d+))?`. A text that begins with `/` has to
have one, because no blank can follow the process then. -/
def thread? (cs : List Char) : Option (Option (List Char) × List Char) :=
  match cs with
  | '/' :: rest => (run? isDigit rest).map fun (tid, rest) => (some tid, rest)
  | _ => some (none, cs)

/-- The processor and the blanks behind it, if there is one: `(?:\[(?P<cpu>\d+)\]\s+)?`. A text that begins
with a bracket has to have one, because it does not begin with a time. -/
def processor? (cs : List Char) : Option (Option (List Char) × List Char) :=
  match cs with
  | '[' :: rest => do
    let (cpu, rest) ← run? isDigit rest
    let rest ← after? [']'] rest
    return (some cpu, ← blanks? rest)
  | _ => some (none, cs)

/-- The time: `(?P<time>\d+\.\d+)`. -/
def time? (cs : List Char) : Option (List Char × List Char) := do
  let (whole, rest) ← run? isDigit cs
  let rest ← after? ['.'] rest
  let (part, rest) ← run? isDigit rest
  return (whole ++ '.' :: part, rest)

/-- What is behind the modifier of the event, if there is one: `(?::[A-Za-z]+)?`. -/
def withoutModifier (cs : List Char) : List Char :=
  match cs with
  | ':' :: rest =>
    match run? isLetter rest with
    | some (_, rest) => rest
    | none => cs
  | _ => cs

/-- The fields between the name and the symbol, and what follows them: all from `(?P<pid>\d+)` to
`(?P<ip>[0-9a-fA-F]+)`. -/
def figures? (cs : List Char) : Option (Figures × List Char) := do
  let (pid, rest) ← run? isDigit cs
  let (tid, rest) ← thread? rest
  let rest ← blanks? rest
  let (cpu, rest) ← processor? rest
  let (time, rest) ← time? rest
  let rest ← after? [':'] rest
  let rest ← blanks? rest
  let (cycles, rest) ← run? isDigit rest
  let rest ← blanks? rest
  let rest ← after? "cycles".toList rest
  let rest ← after? [':'] (withoutModifier rest)
  let rest ← blanks? rest
  let (ip, rest) ← run? isHex rest
  return (⟨pid, tid, cpu, time, cycles, ip⟩, rest)

/-- A line is cut in front of its object, `\((?P<dso>[^()]*)\)\s*$`: what is before the parenthesis, where
there has to be a blank, and the object inside. Behind the object there are only blanks, and it has no
parentheses of its own, so there is at most one such cut. -/
def object? (cs : List Char) : Option (List Char × List Char) :=
  match cs.reverse.dropWhile isBlank with
  | ')' :: rest =>
    match rest.span fun c => c ≠ '(' && c ≠ ')' with
    | (object, '(' :: blank :: front) =>
      if isBlank blank then some ((blank :: front).reverse, object.reverse) else none
    | _ => none
  | _ => none

/-- The symbol, `(?P<symbol>.+?)`, in a text between two blanks, without the other blanks around it; from
nothing but blanks it is the last one between the two. No line ends inside a symbol. -/
def symbol? (cs : List Char) : Option (List Char) :=
  match Text.trim cs with
  | [] => (cs.reverse.find? (· ≠ '\n')).map ([·])
  | symbol => if '\n' ∈ symbol then none else some symbol

/-- What follows the name: blanks, figures, and the symbol between blanks, the last of which ends the
text. These are all the parts from the `\s+` behind the name to the one in front of the object. -/
def remainder? (cs : List Char) : Option (Figures × List Char) := do
  let rest ← blanks? cs
  let (figures, rest) ← figures? rest
  match rest with
  | c :: rest => if isBlank c then (symbol? rest.dropLast).map (figures, ·) else none
  | [] => none

/-- Whether the character that was taken last is a blank. -/
def isBehindBlank (taken : List Char) : Bool := taken.head?.any isBlank

/-- The shortest name, `(?P<prog>\S.*?)`, that begins with the characters taken so far, the last one
first. If a name can end at a blank, it can end before all the blanks in front of that one, so it does
not end behind a blank. -/
def nameFrom (taken : List Char) (cs : List Char) : Option (List Char × Figures × List Char) :=
  match if isBehindBlank taken then none else remainder? cs with
  | some found => some (taken.reverse, found)
  | none =>
    match cs with
    | c :: rest => if c = '\n' then none else nameFrom (c :: taken) rest
    | [] => none

def withoutWord (cs : List Char) : List Char :=
  (cs.dropWhile isBlank).dropWhile fun c => !isBlank c

/-- What the name has to begin with, the last character first. A line end that is not at the end of
the text cannot be inside the name or the symbol, so there are at most the six words of the figures
between the name and the last one. -/
def leastName (front : List Char) : List Char :=
  let upToLineEnd := (front.reverse.dropWhile isBlank).dropWhile (· ≠ '\n')
  (Nat.repeat withoutWord 6 upToLineEnd).dropWhile isBlank

/-- The shortest name that a text begins with, and what follows it. -/
def name? (front : List Char) : Option (List Char × Figures × List Char) :=
  match leastName front with
  | [] =>
    match front with
    | c :: rest => nameFrom [c] rest
    | [] => none
  | least => if '\n' ∈ least then none else nameFrom least (front.drop least.length)

/-- The sample of a line, if it has one. The blanks in front are `^\s*`. -/
def line? (line : String) (id : Nat) : Option Sample := do
  let (front, dso) ← object? (line.toList.dropWhile isBlank)
  let (prog, figures, symbol) ← name? front
  return {
    id := id
    prog := String.ofList prog
    pid := String.ofList figures.pid
    tid := figures.tid.map String.ofList
    cpu := figures.cpu.map String.ofList
    time := String.ofList figures.time
    cycles := String.ofList figures.cycles
    ip := String.ofList figures.ip
    symbol := String.ofList symbol
    dso := String.ofList dso
    record := line }

/-! ## Reports -/

/-- Give samples the numbers from `next` on. -/
def numbered (next : Nat) : List Sample → List Sample
  | [] => []
  | sample :: rest => { sample with id := next } :: numbered (next + 1) rest

/-- The samples in a report. -/
def samples (report : String) : List Sample :=
  numbered 0
    ((Text.lines report.toList).filterMap fun line => line? (String.ofList line) 0)

theorem length_numbered (next : Nat) (samples : List Sample) :
    (numbered next samples).length = samples.length := by
  induction samples generalizing next with
  | nil => rfl
  | cons sample rest ih => simp [numbered, ih]

theorem numbered_append (next : Nat) (first second : List Sample) :
    numbered next (first ++ second) =
      numbered next first ++ numbered (next + first.length) second := by
  induction first generalizing next with
  | nil => rfl
  | cons sample rest ih => simp [numbered, ih, Nat.add_assoc, Nat.add_comm 1]

end TelemetryHub.Report
