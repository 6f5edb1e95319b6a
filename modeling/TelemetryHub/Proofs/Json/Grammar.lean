import TelemetryHub.Json.Skip

/-!
# The grammar of documents

What a text must look like, said without a reader. Every notion is a relation between a text and what
it stands for: `StringBody` for the inside of a string, `Divided` and `Enclosed` for the parts of a
container, `Keyed` for a member. `Valid` is the syntax alone, as it suffices for values that nobody
needs: a string may hold half of a surrogate pair, a numeral may be of any size, and containers may be
inside each other to any depth.
-/

namespace TelemetryHub.Json

open Text (hexValue?)

/-- Nothing but blanks. -/
def Blank (text : List Char) : Prop := ∀ c ∈ text, isSpace c = true

theorem Blank.nil : Blank [] := fun _ member => by cases member

theorem Blank.append {first second : List Char} (left : Blank first) (right : Blank second) :
    Blank (first ++ second) := by
  intro c member
  rcases List.mem_append.mp member with inFirst | inSecond
  · exact left c inFirst
  · exact right c inSecond

/-- Blanks in front of a text are skipped. -/
theorem skipSpace_append {blanks : List Char} (blank : Blank blanks) (rest : List Char) :
    skipSpace (blanks ++ rest) = skipSpace rest := by
  unfold skipSpace
  rw [List.dropWhile_append_of_pos blank]

theorem skipSpace_cons {c : Char} (visible : isSpace c = false) (rest : List Char) :
    skipSpace (c :: rest) = c :: rest := by
  simp [skipSpace, visible]

/-- Behind blanks, a text that begins with another character is found as it is. -/
theorem skipSpace_blank {blanks : List Char} (blank : Blank blanks) {c : Char}
    (visible : isSpace c = false) (rest : List Char) : skipSpace (blanks ++ c :: rest) = c :: rest := by
  rw [skipSpace_append blank, skipSpace_cons visible]

/-- From its end, a text is found without the blanks there. -/
theorem skipSpace_reverse (front : List Char) {blanks : List Char} (blank : Blank blanks) {c : Char}
    (visible : isSpace c = false) :
    skipSpace (front ++ c :: blanks).reverse = c :: front.reverse := by
  have blankReverse : Blank blanks.reverse := fun c isIn => blank c (List.mem_reverse.mp isIn)
  rw [List.reverse_append, List.reverse_cons, List.append_assoc, List.singleton_append,
    skipSpace_blank blankReverse visible]

/-- What is skipped are blanks. -/
theorem exists_blank_skipSpace (cs : List Char) : ∃ blanks, Blank blanks ∧ cs = blanks ++ skipSpace cs :=
  ⟨cs.takeWhile isSpace, List.all_eq_true.mp List.all_takeWhile,
    (List.takeWhile_append_dropWhile).symm⟩

theorem blank_of_skipSpace {cs : List Char} (nothing : skipSpace cs = []) : Blank cs := by
  obtain ⟨blanks, blank, same⟩ := exists_blank_skipSpace cs
  rw [nothing, List.append_nil] at same
  exact same ▸ blank

/-- A text in front of which a value ends: there is nothing, a blank, or what divides or closes
containers. -/
def Ends (rest : List Char) : Prop :=
  ∀ c, rest.head? = some c → isSpace c = true ∨ c = ',' ∨ c = ']' ∨ c = '\x7d'

theorem Ends.blank {blanks rest : List Char} (ends : Ends rest) (blank : Blank blanks) :
    Ends (blanks ++ rest) := by
  intro c first
  cases blanks with
  | nil => exact ends c first
  | cons d more =>
    cases first
    exact .inl (blank _ List.mem_cons_self)

theorem ends_comma (rest : List Char) : Ends (',' :: rest) := by
  intro c first
  cases first
  exact .inr (.inl rfl)

/-! ## Strings -/

/-- Four hexadecimal digits and their value. -/
def CodeUnit (text : List Char) (unit : Nat) : Prop :=
  ∃ a b c d i j k l, text = [a, b, c, d] ∧ hexValue? a = some i ∧ hexValue? b = some j ∧
    hexValue? c = some k ∧ hexValue? d = some l ∧ unit = ((i * 16 + j) * 16 + k) * 16 + l

/-- The characters that stand for themselves in a string. -/
def Plain (c : Char) : Prop := c ≠ '"' ∧ c ≠ '\\' ∧ 0x20 ≤ c.toNat

/-- What may stand behind a backslash, and the character it stands for. -/
inductive EscapeText : List Char → Char → Prop where
  | short {c d : Char} (known : shortEscape? c = some d) : EscapeText [c] d
  | unit {digits : List Char} {n : Nat} (reads : CodeUnit digits n) (notTrailing : isTrailing n = false)
      (notLeading : isLeading n = false) : EscapeText ('u' :: digits) (Char.ofNat n)
  | pair {high low : List Char} {m n : Nat} (first : CodeUnit high m) (leading : isLeading m = true)
      (second : CodeUnit low n) (trailing : isTrailing n = true) :
      EscapeText ('u' :: (high ++ '\\' :: 'u' :: low)) (pairChar m n)

/-- The inside of a string and the characters it stands for. -/
inductive StringBody : List Char → List Char → Prop where
  | nil : StringBody [] []
  | plain {c : Char} {text value : List Char} (visible : Plain c) (more : StringBody text value) :
      StringBody (c :: text) (c :: value)
  | escaped {d : Char} {escape text value : List Char} (reads : EscapeText escape d)
      (more : StringBody text value) : StringBody ('\\' :: (escape ++ text)) (d :: value)

/-- What may stand behind a backslash by its syntax alone: any code unit may be escaped. -/
inductive LooseEscape : List Char → Prop where
  | short {c : Char} (known : (shortEscape? c).isSome = true) : LooseEscape [c]
  | unit {digits : List Char} {n : Nat} (reads : CodeUnit digits n) : LooseEscape ('u' :: digits)

/-- The inside of a string by its syntax alone. -/
inductive LooseBody : List Char → Prop where
  | nil : LooseBody []
  | plain {c : Char} {text : List Char} (visible : Plain c) (more : LooseBody text) :
      LooseBody (c :: text)
  | escaped {escape text : List Char} (reads : LooseEscape escape) (more : LooseBody text) :
      LooseBody ('\\' :: (escape ++ text))

/-- A string and its characters. -/
def StringText (s : String) (text : List Char) : Prop :=
  ∃ body, text = '"' :: (body ++ ['"']) ∧ StringBody body s.toList

/-! ## Numerals -/

/-- Digits, and at least one. -/
def Digits (text : List Char) : Prop := text ≠ [] ∧ ∀ c ∈ text, c.isDigit = true

/-- The integer part of a numeral: no needless zero at its front. -/
def IntegerPart (text : List Char) : Prop :=
  text = ['0'] ∨ Digits text ∧ text.head? ≠ some '0'

/-- The fraction of a numeral, if it has one. -/
def FractionPart (text : List Char) : Prop :=
  text = [] ∨ ∃ digits, text = '.' :: digits ∧ Digits digits

/-- The exponent of a numeral, if it has one. -/
def ExponentPart (text : List Char) : Prop :=
  text = [] ∨ ∃ letter sign digits, text = letter :: (sign ++ digits) ∧
    (letter = 'e' ∨ letter = 'E') ∧ (sign = [] ∨ sign = ['-'] ∨ sign = ['+']) ∧ Digits digits

/-- A numeral of any size. -/
def NumeralText (text : List Char) : Prop :=
  ∃ sign integer fraction exponent, text = sign ++ (integer ++ (fraction ++ exponent)) ∧
    (sign = [] ∨ sign = ['-']) ∧ IntegerPart integer ∧ FractionPart fraction ∧
    ExponentPart exponent

/-! ## Containers -/

section Containers

variable {α κ : Type}

/-- Parts that are divided by commas, with blanks around each of them. -/
inductive Divided (part : α → List Char → Prop) : List α → List Char → Prop where
  | one {x : α} {before text behind : List Char} (blank : Blank before) (reads : part x text)
      (blank' : Blank behind) : Divided part [x] (before ++ (text ++ behind))
  | more {x : α} {xs : List α} {before text behind rest : List Char} (blank : Blank before)
      (reads : part x text) (blank' : Blank behind) (tail : Divided part xs rest) :
      Divided part (x :: xs) (before ++ (text ++ (behind ++ ',' :: rest)))

/-- What stands behind a part of a container, up to `tail`: blanks, or a comma and further parts. -/
inductive Followed (part : α → List Char → Prop) (tail : List Char) : List α → List Char → Prop where
  | done {blanks : List Char} (blank : Blank blanks) : Followed part tail [] (blanks ++ tail)
  | next {x : α} {xs : List α} {blanks before text cs : List Char} (blank : Blank blanks)
      (blank' : Blank before) (reads : part x text) (more : Followed part tail xs cs) :
      Followed part tail (x :: xs) (blanks ++ ',' :: (before ++ (text ++ cs)))

theorem Followed.ends {part : α → List Char → Prop} {tail : List Char} (ends : Ends tail)
    {xs : List α} {cs : List Char} (followed : Followed part tail xs cs) : Ends cs := by
  cases followed with
  | done blank => exact ends.blank blank
  | next blank => exact (ends_comma _).blank blank

/-- Divided parts are a first one and what stands behind it. -/
theorem Divided.followed {part : α → List Char → Prop} {xs : List α} {body : List Char}
    (divided : Divided part xs body) (tail : List Char) :
    ∃ x others before text cs, xs = x :: others ∧ body ++ tail = before ++ (text ++ cs) ∧
      Blank before ∧ part x text ∧ Followed part tail others cs := by
  induction divided with
  | @one x before text behind blank reads blank' =>
    exact ⟨x, [], before, text, behind ++ tail, rfl, by simp, blank, reads, .done blank'⟩
  | @more x xs before text behind rest blank reads blank' _ ih =>
    obtain ⟨y, others, before', text', cs, rfl, same, blank'', reads', followed⟩ := ih
    refine ⟨x, _, before, text, behind ++ ',' :: (before' ++ (text' ++ cs)), rfl, ?_, blank, reads,
      .next blank' blank'' reads' followed⟩
    rw [← same]
    simp

theorem Followed.divided {part : α → List Char → Prop} {tail : List Char} {x : α} {xs : List α}
    {before text cs : List Char} (followed : Followed part tail xs cs) (blank : Blank before)
    (reads : part x text) :
    ∃ body, before ++ (text ++ cs) = body ++ tail ∧ Divided part (x :: xs) body := by
  induction followed generalizing x before text with
  | @done blanks blank' => exact ⟨before ++ (text ++ blanks), by simp, .one blank reads blank'⟩
  | @next y ys blanks before' text' cs blank' blank'' reads' _ ih =>
    obtain ⟨body, same, divided⟩ := ih blank'' reads'
    refine ⟨before ++ (text ++ (blanks ++ ',' :: body)), ?_, .more blank reads blank' divided⟩
    rw [same]
    simp

/-- Parts between two brackets. -/
inductive Enclosed (opening closing : Char) (part : α → List Char → Prop) :
    List α → List Char → Prop where
  | none {blanks : List Char} (blank : Blank blanks) :
      Enclosed opening closing part [] (opening :: (blanks ++ [closing]))
  | some {xs : List α} {body : List Char} (parts : Divided part xs body) :
      Enclosed opening closing part xs (opening :: (body ++ [closing]))

/-- A member: a key, a colon and a value. -/
def Keyed (key : κ → List Char → Prop) (part : α → List Char → Prop) (member : κ × α)
    (text : List Char) : Prop :=
  ∃ name behind before value, text = name ++ (behind ++ ':' :: (before ++ value)) ∧
    key member.1 name ∧ Blank behind ∧ Blank before ∧ part member.2 value

end Containers

/-! ## Syntax -/

/-- A value without parts, by its syntax alone. -/
def ValidScalar (text : List Char) : Prop :=
  text = "null".toList ∨ text = "true".toList ∨ text = "false".toList ∨ NumeralText text ∨
    ∃ body, text = '"' :: (body ++ ['"']) ∧ LooseBody body

/-- A key by its syntax alone. -/
def ValidKey (_ : Unit) (text : List Char) : Prop :=
  ∃ body, text = '"' :: (body ++ ['"']) ∧ LooseBody body

/-- The bracket that begins a container. -/
def Container.opening : Container → Char
  | .list => '['
  | .object => '\x7b'

/-- A part of a container by its syntax alone: a value, which has a key in an object. -/
def Container.Part (container : Container) (value : List Char → Prop) (_ : Unit)
    (text : List Char) : Prop :=
  match container with
  | .list => value text
  | .object => Keyed ValidKey (fun _ => value) ((), ()) text

/-- A value with at most `depth` containers inside each other, by its syntax alone. -/
def ValidAt : Nat → List Char → Prop
  | 0, text => ValidScalar text
  | depth + 1, text =>
    ValidScalar text ∨ ∃ (container : Container) (parts : List Unit),
      Enclosed container.opening container.closing (container.Part (ValidAt depth)) parts text

/-- A value by its syntax alone, with containers inside each other to any depth. -/
def Valid (text : List Char) : Prop := ∃ depth, ValidAt depth text

end TelemetryHub.Json
