import TelemetryHub.Proofs.Json.Numerals
import TelemetryHub.Proofs.Json.Strings

/-!
# Values are passed over by their syntax alone

`pass_ok_iff`: what is passed over is blanks and one value of the grammar, at any depth. The machine
works on a list of open containers, so both directions follow a value through the machine until the
containers that were open before it are on top again.
-/

namespace TelemetryHub.Json

/-! ## Values without parts -/

theorem literal_ok_iff (word cs rest : List Char) : literal word cs = .ok rest ↔ cs = word ++ rest := by
  induction word generalizing cs with
  | nil => simp [literal]
  | cons c word ih =>
    cases cs with
    | nil => simp [literal, stop]
    | cons d cs =>
      by_cases same : c = d
      · simp [literal, same, ih]
      · have other : d ≠ c := fun h => same h.symm
        simp [literal, same, other, stop]

/-- The first character of a value: no blank, and nothing that closes a container. -/
def Starts (text : List Char) : Prop :=
  ∃ c more, text = c :: more ∧ isSpace c = false ∧ c ≠ ']' ∧ c ≠ '\x7d'

theorem IntegerPart.exists_cons {text : List Char} (whole : IntegerPart text) :
    ∃ c more, text = c :: more ∧ c.isDigit = true := by
  rcases whole with rfl | ⟨⟨nonempty, all⟩, -⟩
  · exact ⟨'0', [], rfl, by decide⟩
  · cases text with
    | nil => exact absurd rfl nonempty
    | cons c more => exact ⟨c, more, rfl, all c List.mem_cons_self⟩

theorem opened?_of_digit {c : Char} (digit : c.isDigit = true) :
    isSpace c = false ∧ c ≠ ']' ∧ c ≠ '\x7d' ∧ Container.opened? c = none := by
  have bounds := isDigit_bounds digit
  have other : ∀ d : Char, d.toNat < 48 ∨ 57 < d.toNat → c ≠ d := by
    rintro d outside rfl
    omega
  have notSpace : isSpace c = false := by
    simp [isSpace, other ' ' (by decide), other '\n' (by decide), other '\t' (by decide),
      other '\r' (by decide)]
  refine ⟨notSpace, other ']' (by decide), other '\x7d' (by decide), ?_⟩
  simp [Container.opened?, other '[' (by decide), other '\x7b' (by decide)]

/-- The first character of a value without parts opens no container. -/
theorem ValidScalar.exists_cons {text : List Char} (scalar : ValidScalar text) :
    ∃ c more, text = c :: more ∧ isSpace c = false ∧ c ≠ ']' ∧ c ≠ '\x7d' ∧
      Container.opened? c = none := by
  rcases scalar with rfl | rfl | rfl | numeral | ⟨body, rfl, _⟩
  · exact ⟨'n', "ull".toList, rfl, by decide⟩
  · exact ⟨'t', "rue".toList, rfl, by decide⟩
  · exact ⟨'f', "alse".toList, rfl, by decide⟩
  · obtain ⟨sign, integer, fraction, exponent, rfl, isSign, whole, -⟩ := numeral
    rcases isSign with rfl | rfl
    · obtain ⟨c, more, rfl, digit⟩ := whole.exists_cons
      exact ⟨c, _, rfl, opened?_of_digit digit⟩
    · exact ⟨'-', _, rfl, by decide⟩
  · exact ⟨'"', _, rfl, by decide⟩

theorem ValidScalar.starts {text : List Char} (scalar : ValidScalar text) : Starts text := by
  obtain ⟨c, more, same, visible, notList, notObject, -⟩ := scalar.exists_cons
  exact ⟨c, more, same, visible, notList, notObject⟩

theorem passScalar_append {text rest : List Char} (scalar : ValidScalar text) (ends : Ends rest) :
    passScalar (text ++ rest) = .ok rest := by
  rcases scalar with rfl | rfl | rfl | numeral | ⟨body, rfl, reads⟩
  · exact (literal_ok_iff "ull".toList _ rest).mpr rfl
  · exact (literal_ok_iff "rue".toList _ rest).mpr rfl
  · exact (literal_ok_iff "alse".toList _ rest).mpr rfl
  · exact passScalar_numeral numeral ends
  · have read := (passString_ok_iff (body ++ '"' :: rest) rest).mpr ⟨body, rfl, reads⟩
    simpa [passScalar] using read

theorem scalar_of_passScalar {cs rest : List Char} (accepted : passScalar cs = .ok rest) :
    ∃ text, cs = text ++ rest ∧ ValidScalar text := by
  unfold passScalar at accepted
  split at accepted
  · cases accepted
  · next c more =>
    split at accepted
    · next isN =>
      have behind := (literal_ok_iff _ _ _).mp accepted
      exact ⟨"null".toList, by rw [isN, behind]; rfl, .inl rfl⟩
    split at accepted
    · next isT =>
      have behind := (literal_ok_iff _ _ _).mp accepted
      exact ⟨"true".toList, by rw [isT, behind]; rfl, .inr (.inl rfl)⟩
    split at accepted
    · next isF =>
      have behind := (literal_ok_iff _ _ _).mp accepted
      exact ⟨"false".toList, by rw [isF, behind]; rfl, .inr (.inr (.inl rfl))⟩
    split at accepted
    · next isQuote =>
      obtain ⟨body, rfl, reads⟩ := (passString_ok_iff _ _).mp accepted
      exact ⟨'"' :: (body ++ ['"']), by simp [isQuote], .inr (.inr (.inr (.inr ⟨body, rfl, reads⟩)))⟩
    split at accepted
    · next isMinus =>
      obtain ⟨text, same, numeral⟩ := numeral_of_passNumeral (.inr rfl) accepted
      exact ⟨text, by rw [← same, isMinus]; rfl, .inr (.inr (.inr (.inl numeral)))⟩
    split at accepted
    · obtain ⟨text, same, numeral⟩ := numeral_of_passNumeral (.inl rfl) accepted
      exact ⟨text, same, .inr (.inr (.inr (.inl numeral)))⟩
    · cases accepted

/-! ## Parts of containers -/

theorem Starts.skipSpace {text : List Char} (starts : Starts text) {blanks : List Char}
    (blank : Blank blanks) (rest : List Char) :
    skipSpace (blanks ++ (text ++ rest)) = text ++ rest := by
  obtain ⟨c, more, rfl, visible, -⟩ := starts
  exact skipSpace_blank blank visible (more ++ rest)

theorem Divided.starts {α : Type} {part : α → List Char → Prop}
    (start : ∀ x text, part x text → Starts text) {xs : List α} {body : List Char}
    (parts : Divided part xs body) :
    ∃ before body', body = before ++ body' ∧ Blank before ∧ Starts body' ∧ Divided part xs body' := by
  cases parts with
  | @one x before text behind blank reads blank' =>
    obtain ⟨c, more, rfl, first⟩ := start _ _ reads
    exact ⟨before, _, rfl, blank, ⟨c, _, rfl, first⟩, .one .nil reads blank'⟩
  | @more x xs before text behind rest blank reads blank' tail =>
    obtain ⟨c, more, rfl, first⟩ := start _ _ reads
    exact ⟨before, _, rfl, blank, ⟨c, _, rfl, first⟩, .more .nil reads blank' tail⟩

theorem Divided.blank {α : Type} {part : α → List Char → Prop} {xs : List α} {body : List Char}
    (parts : Divided part xs body) {blanks : List Char} (blank : Blank blanks) :
    Divided part xs (blanks ++ body) := by
  cases parts with
  | one blank' reads blank'' =>
    rw [← List.append_assoc]
    exact .one (blank.append blank') reads blank''
  | more blank' reads blank'' tail =>
    rw [← List.append_assoc]
    exact .more (blank.append blank') reads blank'' tail

theorem Divided.mono {α : Type} {part part' : α → List Char → Prop}
    (weaker : ∀ x text, part x text → part' x text) {xs : List α} {body : List Char}
    (parts : Divided part xs body) : Divided part' xs body := by
  induction parts with
  | one blank reads blank' => exact .one blank (weaker _ _ reads) blank'
  | more blank reads blank' _ ih => exact .more blank (weaker _ _ reads) blank' ih

theorem Enclosed.mono {α : Type} {opening closing : Char} {part part' : α → List Char → Prop}
    (weaker : ∀ x text, part x text → part' x text) {xs : List α} {text : List Char}
    (parts : Enclosed opening closing part xs text) : Enclosed opening closing part' xs text := by
  cases parts with
  | none blank => exact .none blank
  | some parts => exact .some (parts.mono weaker)

/-- The parts of a container as parts of another kind. -/
theorem Enclosed.map {α β : Type} {opening closing : Char} {part : α → List Char → Prop}
    {part' : β → List Char → Prop} {xs : List α} {text : List Char}
    (parts : Enclosed opening closing part xs text) (f : α → β)
    (weaker : ∀ x text, part x text → part' (f x) text) :
    Enclosed opening closing part' (xs.map f) text := by
  cases parts with
  | none blank => exact .none blank
  | some divided =>
    refine .some ?_
    induction divided with
    | one blank reads blank' => exact .one blank (weaker _ _ reads) blank'
    | more blank reads blank' _ ih => exact .more blank (weaker _ _ reads) blank' ih

theorem Keyed.mono {α κ : Type} {key : κ → List Char → Prop} {part part' : α → List Char → Prop}
    (weaker : ∀ x text, part x text → part' x text) {member : κ × α} {text : List Char}
    (keyed : Keyed key part member text) : Keyed key part' member text := by
  obtain ⟨name, behind, before, value, same, named, blank, blank', reads⟩ := keyed
  exact ⟨name, behind, before, value, same, named, blank, blank', weaker _ _ reads⟩

theorem Container.Part.mono {container : Container} {value value' : List Char → Prop}
    (weaker : ∀ text, value text → value' text) {u : Unit} {text : List Char}
    (part : container.Part value u text) : container.Part value' u text := by
  cases container with
  | list => exact weaker _ part
  | object => exact Keyed.mono (fun _ => weaker) part

theorem Container.Part.starts {container : Container} {value : List Char → Prop}
    (start : ∀ text, value text → Starts text) {u : Unit} {text : List Char}
    (part : container.Part value u text) : Starts text := by
  cases container with
  | list => exact start _ part
  | object =>
    obtain ⟨_, behind, before, value, rfl, ⟨body, rfl, _⟩, _⟩ := part
    exact ⟨'"', _, rfl, by decide, by decide, by decide⟩

theorem ValidAt.starts {depth : Nat} {text : List Char} (valid : ValidAt depth text) :
    Starts text := by
  cases depth with
  | zero => exact ValidScalar.starts valid
  | succ depth =>
    rcases valid with scalar | ⟨container, parts, enclosed⟩
    · exact scalar.starts
    · have bracket : ∀ more, Starts (container.opening :: more) := by
        intro more
        cases container <;> exact ⟨_, more, rfl, by decide, by decide, by decide⟩
      cases enclosed with
      | none blank => exact bracket _
      | some parts => exact bracket _

/-- A value that begins with a bracket is a list. -/
theorem Valid.list {more : List Char} (valid : Valid ('[' :: more)) :
    ∃ depth parts, Enclosed '[' ']' (Container.list.Part (ValidAt depth)) parts ('[' :: more) := by
  have notScalar : ¬ValidScalar ('[' :: more) := by
    intro scalar
    obtain ⟨c, rest, same, -, -, -, unopened⟩ := scalar.exists_cons
    rw [← (List.cons.inj same).1] at unopened
    exact absurd unopened (by decide)
  obtain ⟨depth, valid⟩ := valid
  cases depth with
  | zero => exact absurd valid notScalar
  | succ depth =>
    rcases valid with scalar | ⟨container, parts, enclosed⟩
    · exact absurd scalar notScalar
    · cases container with
      | list => exact ⟨depth, parts, enclosed⟩
      | object =>
        generalize whole : '[' :: more = text at enclosed
        cases enclosed <;> exact absurd (List.cons.inj whole).1 (by decide)

theorem Valid.list_end {more : List Char} (valid : Valid ('[' :: more)) :
    ∃ inside, more = inside ++ [']'] := by
  obtain ⟨depth, parts, enclosed⟩ := valid.list
  generalize whole : '[' :: more = text at enclosed
  cases enclosed <;> exact ⟨_, (List.cons.inj whole).2⟩

/-- A valid text that begins with a bracket ends with one, behind which there is what else there is. -/
theorem Valid.exists_inside {more before text behind : List Char} (valid : Valid text) (blank : Blank before)
    (same : '[' :: more = before ++ (text ++ behind)) :
    ∃ inside, text = '[' :: (inside ++ [']']) ∧ more = inside ++ ']' :: behind := by
  obtain ⟨c, rest, rfl, visible, -⟩ := valid.elim fun _ valid => valid.starts
  have atStart : before = [] := by
    cases before with
    | nil => rfl
    | cons b before =>
      have isBracket : b = '[' := (List.cons.inj same).1.symm
      have blankBracket := blank b List.mem_cons_self
      rw [isBracket] at blankBracket
      exact absurd blankBracket (by decide)
  subst atStart
  obtain ⟨rfl, rfl⟩ := List.cons.inj same
  obtain ⟨inside, rfl⟩ := valid.list_end
  exact ⟨inside, rfl, by simp⟩

theorem ValidAt.succ {depth : Nat} {text : List Char} (valid : ValidAt depth text) :
    ValidAt (depth + 1) text := by
  induction depth generalizing text with
  | zero => exact .inl valid
  | succ depth ih =>
    rcases valid with scalar | ⟨container, parts, enclosed⟩
    · exact .inl scalar
    · exact .inr ⟨container, parts, enclosed.mono fun _ _ part => Container.Part.mono (fun _ => ih) part⟩

theorem ValidAt.mono {depth depth' : Nat} {text : List Char} (valid : ValidAt depth text)
    (le : depth ≤ depth') : ValidAt depth' text := by
  induction le with
  | refl => exact valid
  | step _ ih => exact ih.succ

/-- The parts of one container are all valid at one depth. -/
theorem exists_depth {container : Container} {parts : List Unit} {body : List Char}
    (divided : Divided (container.Part Valid) parts body) :
    ∃ depth, Divided (container.Part (ValidAt depth)) parts body := by
  have one : ∀ {u : Unit} {text : List Char}, container.Part Valid u text →
      ∃ depth, container.Part (ValidAt depth) u text := by
    intro u text part
    cases container with
    | list => exact part
    | object =>
      obtain ⟨name, behind, before, value, same, named, blank, blank', depth, reads⟩ := part
      exact ⟨depth, name, behind, before, value, same, named, blank, blank', reads⟩
  induction divided with
  | one blank reads blank' =>
    obtain ⟨depth, reads⟩ := one reads
    exact ⟨depth, .one blank reads blank'⟩
  | more blank reads blank' _ ih =>
    obtain ⟨first, reads⟩ := one reads
    obtain ⟨others, tail⟩ := ih
    have left : first ≤ max first others := Nat.le_max_left first others
    have right : others ≤ max first others := Nat.le_max_right first others
    exact ⟨max first others,
      .more blank (Container.Part.mono (fun _ valid => valid.mono left) reads) blank'
        (tail.mono fun _ _ part => Container.Part.mono (fun _ valid => valid.mono right) part)⟩

theorem Valid.container {container : Container} {parts : List Unit} {text : List Char}
    (enclosed : Enclosed container.opening container.closing (container.Part Valid) parts text) :
    Valid text := by
  cases enclosed with
  | none blank => exact ⟨1, .inr ⟨container, [], .none blank⟩⟩
  | some divided =>
    obtain ⟨depth, divided⟩ := exists_depth divided
    exact ⟨depth + 1, .inr ⟨container, parts, .some divided⟩⟩

/-! ## Colons and keys -/

theorem colon_ok_iff (cs rest : List Char) :
    colon cs = .ok rest ↔ ∃ blanks, Blank blanks ∧ cs = blanks ++ ':' :: rest := by
  constructor
  · intro accepted
    obtain ⟨blanks, blank, same⟩ := exists_blank_skipSpace cs
    unfold colon at accepted
    split at accepted
    · cases accepted
    · next found =>
      cases accepted
      exact ⟨blanks, blank, by rw [← found]; exact same⟩
    · cases accepted
  · rintro ⟨blanks, blank, rfl⟩
    have found : skipSpace (blanks ++ ':' :: rest) = ':' :: rest := skipSpace_blank blank (by decide) rest
    simp [colon, found]

theorem passKey_ok_iff (cs rest : List Char) :
    passKey cs = .ok rest ↔ ∃ before name behind, Blank before ∧ ValidKey () name ∧ Blank behind ∧
      cs = before ++ (name ++ (behind ++ ':' :: rest)) := by
  constructor
  · intro accepted
    obtain ⟨before, blank, same⟩ := exists_blank_skipSpace cs
    unfold passKey at accepted
    split at accepted
    · cases accepted
    · next c more found =>
      split at accepted
      · next isQuote =>
        cases read : passString more more with
        | error fault => simp [read, bind, Except.bind] at accepted
        | ok left =>
          rw [read] at accepted
          obtain ⟨body, rfl, reads⟩ := (passString_ok_iff _ _).mp read
          obtain ⟨behind, blank', rfl⟩ := (colon_ok_iff _ _).mp accepted
          refine ⟨before, _, behind, blank, ⟨body, rfl, reads⟩, blank', ?_⟩
          rw [same, found, isQuote]
          simp
      · cases accepted
  · rintro ⟨before, _, behind, blank, ⟨body, rfl, reads⟩, blank', rfl⟩
    have found : skipSpace (before ++ ('"' :: (body ++ ['"']) ++ (behind ++ ':' :: rest))) =
        '"' :: (body ++ '"' :: (behind ++ ':' :: rest)) := by
      rw [skipSpace_append blank, List.cons_append, skipSpace_cons (by decide)]
      simp
    have read := (passString_ok_iff (body ++ '"' :: (behind ++ ':' :: rest)) _).mpr ⟨body, rfl, reads⟩
    have atColon := (colon_ok_iff (behind ++ ':' :: rest) rest).mpr ⟨behind, blank', rfl⟩
    unfold passKey
    rw [found]
    simp only [if_true, read, bind, Except.bind]
    exact atColon

/-! ## A value goes through the machine -/

/-- The part is passed over, whatever is open around it; the room that is left is enough for what is
left of the text. -/
def Container.Passes (container : Container) (text : List Char) : Prop :=
  ∀ before rest, Blank before → Ends rest → ∃ cs,
    container.nextPart (before ++ (text ++ rest)) = .ok cs ∧
    cs.length ≤ (before ++ (text ++ rest)).length ∧
    ∀ outer room, cs.length ≤ room.length → ∃ room', rest.length ≤ room'.length ∧
      passFrom room .value outer cs = passFrom room' .following outer rest

theorem Container.passes_part {container : Container} {value : List Char → Prop}
    (passes : ∀ text, value text → Container.list.Passes text) {u : Unit} {text : List Char}
    (part : container.Part value u text) : container.Passes text := by
  cases container with
  | list => exact passes text part
  | object =>
    intro before rest blank ends
    obtain ⟨name, behind, between, value, rfl, named, blank', blank'', reads⟩ := part
    obtain ⟨cs, found, _, machine⟩ := passes _ reads between rest blank'' ends
    cases found
    have key := (passKey_ok_iff (before ++ (name ++ (behind ++ ':' :: (between ++ (value ++ rest))))) _).mpr
      ⟨before, name, behind, blank, named, blank', rfl⟩
    refine ⟨between ++ (value ++ rest), ?_, ?_, machine⟩
    · simpa [Container.nextPart] using key
    · simp only [List.length_append, List.length_cons]
      omega

theorem Container.isSpace_closing (container : Container) : isSpace container.closing = false := by
  cases container <;> decide

theorem ends_closing (container : Container) (rest : List Char) :
    Ends (container.closing :: rest) := by
  intro c first
  cases first
  cases container with
  | list => exact .inr (.inr (.inl rfl))
  | object => exact .inr (.inr (.inr rfl))

theorem passFrom_closing (container : Container) (outer : List Container) {blanks : List Char}
    (blank : Blank blanks) {room rest : List Char}
    (enough : (blanks ++ container.closing :: rest).length ≤ room.length) :
    ∃ room', rest.length ≤ room'.length ∧
      passFrom room .following (container :: outer) (blanks ++ container.closing :: rest) =
        passFrom room' .following outer rest := by
  cases room with
  | nil => simp at enough
  | cons x room =>
    refine ⟨room, by simp at enough; omega, ?_⟩
    have found := skipSpace_blank blank container.isSpace_closing rest
    simp [passFrom, found]

theorem passFrom_comma (container : Container) (outer : List Container) {blanks : List Char}
    (blank : Blank blanks) {x : Char} {room more cs : List Char}
    (next : container.nextPart more = .ok cs) :
    passFrom (x :: room) .following (container :: outer) (blanks ++ ',' :: more) =
      passFrom room .value (container :: outer) cs := by
  have found : skipSpace (blanks ++ ',' :: more) = ',' :: more := skipSpace_blank blank (by decide) more
  have other : ',' ≠ container.closing := by cases container <;> decide
  simp [passFrom, found, other, next]

/-- The parts of a container are passed over together with the closing bracket. -/
theorem Container.passes_divided {container : Container} {value : List Char → Prop}
    (each : ∀ u text, container.Part value u text → container.Passes text) {parts : List Unit}
    {body : List Char} (divided : Divided (container.Part value) parts body) (rest : List Char) :
    ∃ cs, container.nextPart (body ++ container.closing :: rest) = .ok cs ∧
      cs.length ≤ (body ++ container.closing :: rest).length ∧
      ∀ outer room, cs.length ≤ room.length → ∃ room', rest.length ≤ room'.length ∧
        passFrom room .value (container :: outer) cs = passFrom room' .following outer rest := by
  induction divided with
  | @one u before text behind blank reads blank' =>
    obtain ⟨cs, found, shorter, machine⟩ :=
      each u text reads before _ blank ((ends_closing container rest).blank blank')
    refine ⟨cs, by simpa using found, by simpa using shorter, ?_⟩
    intro outer room enough
    obtain ⟨room', left, same⟩ := machine (container :: outer) room enough
    obtain ⟨room'', left', same'⟩ := passFrom_closing container outer blank' left
    exact ⟨room'', left', same.trans same'⟩
  | @more u us before text behind tail blank reads blank' _ ih =>
    obtain ⟨next, nextFound, nextShorter, nextMachine⟩ := ih
    obtain ⟨cs, found, shorter, machine⟩ := each u text reads before
      (behind ++ ',' :: (tail ++ container.closing :: rest)) blank ((ends_comma _).blank blank')
    refine ⟨cs, by simpa using found, by simpa using shorter, ?_⟩
    intro outer room enough
    obtain ⟨room', left, same⟩ := machine (container :: outer) room enough
    cases room' with
    | nil => simp at left
    | cons x room' =>
      rw [passFrom_comma container outer blank' nextFound] at same
      have stillEnough : next.length ≤ room'.length := by
        simp only [List.length_append, List.length_cons] at left nextShorter
        omega
      obtain ⟨room'', left', same'⟩ := nextMachine outer room' stillEnough
      exact ⟨room'', left', same.trans same'⟩

theorem Container.opened?_opening (container : Container) :
    Container.opened? container.opening = some container := by
  cases container <;> decide

theorem Container.eq_opening {c : Char} {container : Container}
    (opened : Container.opened? c = some container) : c = container.opening := by
  unfold Container.opened? at opened
  split at opened
  · next isList =>
    cases opened
    exact isList
  · split at opened
    · next isObject =>
      cases opened
      exact isObject
    · cases opened

theorem Container.isSpace_opening (container : Container) : isSpace container.opening = false := by
  cases container <;> decide

theorem passFrom_scalar {cs rest : List Char} {c : Char} {more : List Char}
    (found : skipSpace cs = c :: more) (notOpened : Container.opened? c = none)
    (read : passScalar (c :: more) = .ok rest) (outer : List Container) (x : Char)
    (room : List Char) : passFrom (x :: room) .value outer cs = passFrom room .following outer rest := by
  simp only [passFrom, found, notOpened, read]

theorem passFrom_empty {container : Container} {cs inside rest : List Char}
    (found : skipSpace cs = container.opening :: inside)
    (closes : skipSpace inside = container.closing :: rest) (outer : List Container) (x : Char)
    (room : List Char) : passFrom (x :: room) .value outer cs = passFrom room .following outer rest := by
  simp only [passFrom, found, container.opened?_opening, closes, if_true]

theorem passFrom_open {container : Container} {cs inside more cs' : List Char} {d : Char}
    (found : skipSpace cs = container.opening :: inside) (first : skipSpace inside = d :: more)
    (notClosed : d ≠ container.closing) (next : container.nextPart (d :: more) = .ok cs')
    (outer : List Container) (x : Char) (room : List Char) :
    passFrom (x :: room) .value outer cs = passFrom room .value (container :: outer) cs' := by
  simp only [passFrom, found, container.opened?_opening, first, notClosed, if_false, next]

theorem passes_scalar {text : List Char} (scalar : ValidScalar text) :
    Container.list.Passes text := by
  intro before rest blank ends
  refine ⟨_, rfl, Nat.le_refl _, ?_⟩
  intro outer room enough
  have found := scalar.starts.skipSpace blank rest
  have read := passScalar_append scalar ends
  obtain ⟨c, more, rfl, _, _, _, notOpened⟩ := scalar.exists_cons
  cases room with
  | nil => simp at enough
  | cons x room => exact ⟨room, by simp at enough; omega, passFrom_scalar found notOpened read outer x room⟩

theorem passes_container {container : Container} {value : List Char → Prop}
    (start : ∀ text, value text → Starts text)
    (each : ∀ u text, container.Part value u text → container.Passes text) {parts : List Unit}
    {text : List Char}
    (enclosed : Enclosed container.opening container.closing (container.Part value) parts text) :
    Container.list.Passes text := by
  intro before rest blank ends
  refine ⟨_, rfl, Nat.le_refl _, ?_⟩
  intro outer room enough
  have found : ∀ inside : List Char, skipSpace (before ++ (container.opening :: (inside ++
      [container.closing]) ++ rest)) = container.opening :: (inside ++ container.closing :: rest) := by
    intro inside
    rw [skipSpace_append blank, List.cons_append, skipSpace_cons container.isSpace_opening]
    simp
  cases room with
  | nil => cases enclosed <;> simp at enough
  | cons x room =>
    cases enclosed with
    | @none blanks blank' =>
      have closes := skipSpace_blank blank' container.isSpace_closing rest
      exact ⟨room, by simp at enough; omega, passFrom_empty (found blanks) closes outer x room⟩
    | @some _ body divided =>
      obtain ⟨skipped, body', rfl, blank', starts, divided'⟩ :=
        divided.starts fun _ _ part => Container.Part.starts start part
      obtain ⟨cs, next, shorter, machine⟩ := Container.passes_divided each divided' rest
      have first := starts.skipSpace blank' (container.closing :: rest)
      rw [← List.append_assoc] at first
      obtain ⟨d, more, rfl, visible, notList, notObject⟩ := starts
      have notClosed : d ≠ container.closing := by
        cases container with
        | list => exact notList
        | object => exact notObject
      have stillEnough : cs.length ≤ room.length := by
        simp at enough shorter
        omega
      obtain ⟨room', left, same⟩ := machine outer room stillEnough
      exact ⟨room', left, (passFrom_open (found _) first notClosed next outer x room).trans same⟩

/-- A value is passed over. The induction is on its depth: the parts of its containers are passed
over with the container open. -/
theorem ValidAt.passes {depth : Nat} {text : List Char} (valid : ValidAt depth text) :
    Container.list.Passes text := by
  induction depth generalizing text with
  | zero => exact passes_scalar valid
  | succ depth ih =>
    rcases valid with scalar | ⟨container, parts, enclosed⟩
    · exact passes_scalar scalar
    · exact passes_container (fun _ valid => valid.starts)
        (fun _ _ part => Container.passes_part (fun _ => ih) part) enclosed

/-! ## Nothing else goes through the machine -/

/-- What follows a part of a container, up to the closing bracket. -/
def Container.Tail (container : Container) (text : List Char) : Prop :=
  ∃ blanks, Blank blanks ∧ (text = blanks ++ [container.closing] ∨ ∃ parts body,
    text = blanks ++ ',' :: (body ++ [container.closing]) ∧
      Divided (container.Part Valid) parts body)

theorem Container.Tail.divided {container : Container} {before text tail : List Char}
    (follows : container.Tail tail) (blank : Blank before) (part : container.Part Valid () text) :
    ∃ parts body, before ++ (text ++ tail) = body ++ [container.closing] ∧
      Divided (container.Part Valid) parts body := by
  obtain ⟨blanks, blank', rfl | ⟨parts, body, rfl, others⟩⟩ := follows
  · exact ⟨[()], before ++ (text ++ blanks), by simp, .one blank part blank'⟩
  · exact ⟨() :: parts, before ++ (text ++ (blanks ++ ',' :: body)), by simp,
      .more blank part blank' others⟩

theorem part_of_nextPart {container : Container} {cs before text behind : List Char}
    (next : container.nextPart cs = .ok (before ++ (text ++ behind))) (blank : Blank before)
    (valid : Valid text) :
    ∃ before' text', cs = before' ++ (text' ++ behind) ∧ Blank before' ∧
      container.Part Valid () text' := by
  cases container with
  | list =>
    cases next
    exact ⟨before, text, rfl, blank, valid⟩
  | object =>
    obtain ⟨before', name, between, blank', named, blank'', rfl⟩ := (passKey_ok_iff _ _).mp next
    exact ⟨before', name ++ (between ++ ':' :: (before ++ text)), by simp, blank',
      name, between, before, text, rfl, named, blank'', blank, valid⟩

/-- With this room the machine takes a value where it looks for one. -/
def TakesValue (room : List Char) : Prop :=
  ∀ outer cs rest, passFrom room .value outer cs = .ok rest → ∃ before text behind room',
    room'.length < room.length ∧ cs = before ++ (text ++ behind) ∧ Blank before ∧ Valid text ∧
      passFrom room' .following outer behind = .ok rest

/-- With this room the machine takes the rest of the innermost container. -/
def TakesTail (room : List Char) : Prop :=
  ∀ (container : Container) outer cs rest,
    passFrom room .following (container :: outer) cs = .ok rest → ∃ tail behind room',
      room'.length < room.length ∧ cs = tail ++ behind ∧ container.Tail tail ∧
        passFrom room' .following outer behind = .ok rest

section Taken

variable {room : List Char} (values : ∀ room' : List Char, room'.length ≤ room.length → TakesValue room')
  (tails : ∀ room' : List Char, room'.length ≤ room.length → TakesTail room')

include values tails

theorem divided_of_passFrom {container : Container} {outer : List Container}
    {cs cs' rest : List Char} (next : container.nextPart cs = .ok cs')
    (accepted : passFrom room .value (container :: outer) cs' = .ok rest) :
    ∃ parts body behind room', room'.length < room.length ∧
      cs = body ++ container.closing :: behind ∧ Divided (container.Part Valid) parts body ∧
        passFrom room' .following outer behind = .ok rest := by
  obtain ⟨before, text, behind, room', less, rfl, blank, valid, accepted⟩ :=
    values room (Nat.le_refl _) _ _ _ accepted
  obtain ⟨tail, behind', room'', less', rfl, follows, accepted⟩ :=
    tails room' (Nat.le_of_lt less) _ _ _ _ accepted
  obtain ⟨before', text', rfl, blank', part⟩ := part_of_nextPart next blank valid
  obtain ⟨parts, body, same, divided⟩ := follows.divided blank' part
  refine ⟨parts, body, behind', room'', Nat.lt_trans less' less, ?_, divided, accepted⟩
  calc before' ++ (text' ++ (tail ++ behind'))
      = before' ++ (text' ++ tail) ++ behind' := by simp
    _ = body ++ container.closing :: behind' := by simp [same]

theorem takesTail_cons (x : Char) : TakesTail (x :: room) := by
  intro container outer cs rest accepted
  obtain ⟨blanks, blank, same⟩ := exists_blank_skipSpace cs
  unfold passFrom at accepted
  split at accepted
  · cases accepted
  · next c more found =>
    rw [found] at same
    split at accepted
    · next closes =>
      exact ⟨blanks ++ [c], more, room, by simp, by simp [same],
        ⟨blanks, blank, .inl (by rw [closes])⟩, accepted⟩
    · split at accepted
      · next isComma =>
        split at accepted
        · next cs' next =>
          obtain ⟨parts, body, behind, room', less, rfl, divided, accepted⟩ :=
            divided_of_passFrom values tails next accepted
          exact ⟨blanks ++ ',' :: (body ++ [container.closing]), behind, room',
            Nat.lt_succ_of_lt less, by simp [same, isComma],
            ⟨blanks, blank, .inr ⟨parts, body, rfl, divided⟩⟩, accepted⟩
        · cases accepted
      · cases accepted

theorem takesValue_cons (x : Char) : TakesValue (x :: room) := by
  intro outer cs rest accepted
  obtain ⟨blanks, blank, same⟩ := exists_blank_skipSpace cs
  unfold passFrom at accepted
  split at accepted
  · cases accepted
  · next c more found =>
    rw [found] at same
    split at accepted
    · split at accepted
      · next behind read =>
        obtain ⟨text, taken, scalar⟩ := scalar_of_passScalar read
        exact ⟨blanks, text, behind, room, by simp, by rw [same, taken], blank, ⟨0, scalar⟩, accepted⟩
      · cases accepted
    · next container opened =>
      have opens : c = container.opening := Container.eq_opening opened
      split at accepted
      · cases accepted
      · next d inside first =>
        obtain ⟨skipped, blank', rest'⟩ := exists_blank_skipSpace more
        rw [first] at rest'
        split at accepted
        · next closes =>
          exact ⟨blanks, c :: (skipped ++ [d]), inside, room, by simp, by simp [same, rest'], blank,
            Valid.container (by rw [opens, closes]; exact .none blank'), accepted⟩
        · split at accepted
          · next cs' next =>
            obtain ⟨parts, body, behind, room', less, taken, divided, accepted⟩ :=
              divided_of_passFrom values tails next accepted
            refine ⟨blanks, c :: (skipped ++ body ++ [container.closing]), behind, room',
              Nat.lt_succ_of_lt less, by simp [same, rest', taken], blank, ?_, accepted⟩
            rw [opens]
            exact Valid.container (.some (divided.blank blank'))
          · cases accepted

end Taken

theorem takes (room : List Char) : TakesValue room ∧ TakesTail room := by
  induction size : room.length using Nat.strongRecOn generalizing room with
  | ind n ih =>
    cases room with
    | nil =>
      refine ⟨?_, ?_⟩
      · intro outer cs rest accepted
        cases accepted
      · intro container outer cs rest accepted
        cases accepted
    | cons x room =>
      have smaller : ∀ room' : List Char, room'.length ≤ room.length →
          TakesValue room' ∧ TakesTail room' := by
        intro room' le
        exact ih room'.length (by simp at size; omega) room' rfl
      have values := fun room' le => (smaller room' le).1
      have tails := fun room' le => (smaller room' le).2
      exact ⟨takesValue_cons values tails x, takesTail_cons values tails x⟩

/-! ## Passing over a value -/

/-- What is passed over is one value, with blanks in front of it. -/
theorem valid_of_pass {cs rest : List Char} (accepted : pass cs = .ok rest) :
    ∃ before text, cs = before ++ (text ++ rest) ∧ Blank before ∧ Valid text := by
  obtain ⟨before, text, behind, room, _, rfl, blank, valid, left⟩ := (takes cs).1 [] cs rest accepted
  have same : behind = rest := by
    cases room <;> simpa [passFrom] using left
  exact ⟨before, text, by rw [same], blank, valid⟩

/-- Every value is passed over as a whole. -/
theorem pass_valid {before text rest : List Char} (blank : Blank before) (valid : Valid text)
    (ends : Ends rest) : pass (before ++ (text ++ rest)) = .ok rest := by
  obtain ⟨depth, valid⟩ := valid
  obtain ⟨cs, found, _, machine⟩ := valid.passes before rest blank ends
  cases found
  obtain ⟨room, _, same⟩ := machine [] (before ++ (text ++ rest)) (Nat.le_refl _)
  unfold pass
  rw [same]
  cases room <;> simp [passFrom]

end TelemetryHub.Json
