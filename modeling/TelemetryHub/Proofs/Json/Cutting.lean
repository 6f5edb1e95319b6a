import TelemetryHub.Proofs.Json.Documents

/-!
# Where a document can be cut

A text is followed from the left: whether a character stands in a string, and in how many containers
(`track`). Behind everything that is valid the track is where it was before (`balanced_of_valid`), and in
between it is never further out (`Balanced.exists_deeper`). So a container that is cut in two is a
container neither in front of the cut (`Bracketed.not_front`) nor behind it (`Bracketed.not_back`): behind
a cut in a string, the rest of the text would have strings where the whole has none.
-/

namespace TelemetryHub.Json

open Text (hexValue?)

/-- Where a character stands. -/
inductive Region where
  | outside
  | quoted
  /-- behind a backslash -/
  | escaped

/-- What a character does to the region and to the number of open containers, if it can stand there. -/
def next : Region × Nat → Char → Option (Region × Nat)
  | (.outside, depth), c =>
    if c = '"' then some (.quoted, depth)
    else if c = '[' ∨ c = '\x7b' then some (.outside, depth + 1)
    else if c = ']' ∨ c = '\x7d' then
      match depth with
      | 0 => none
      | depth + 1 => some (.outside, depth)
    else if c = '\\' then none
    else some (.outside, depth)
  | (.quoted, depth), c =>
    if c = '"' then some (.outside, depth)
    else if c = '\\' then some (.escaped, depth)
    else some (.quoted, depth)
  | (.escaped, depth), c => if (shortEscape? c).isSome ∨ c = 'u' then some (.quoted, depth) else none

def track (state : Region × Nat) : List Char → Option (Region × Nat)
  | [] => some state
  | c :: cs => (next state c).bind (track · cs)

theorem track_append (state : Region × Nat) (first second : List Char) :
    track state (first ++ second) = (track state first).bind (track · second) := by
  induction first generalizing state with
  | nil => rfl
  | cons c first ih =>
    rw [List.cons_append, track, track, Option.bind_assoc]
    exact Option.bind_congr fun state' _ => ih state'

/-! ## Further in -/

theorem next_deeper {region region' : Region} {depth depth' : Nat} {c : Char}
    (steps : next (region, depth) c = some (region', depth')) (more : Nat) :
    next (region, depth + more) c = some (region', depth' + more) := by
  cases region with
  | outside =>
    unfold next at steps ⊢
    dsimp only at steps ⊢
    split at steps
    · next quote =>
      cases steps
      rw [if_pos quote]
    split at steps
    · next quote opens =>
      cases steps
      rw [if_neg quote, if_pos opens, Nat.add_right_comm]
    split at steps
    · next quote opens closes =>
      cases depth with
      | zero => cases steps
      | succ depth =>
        cases steps
        rw [if_neg quote, if_neg opens, if_pos closes, Nat.add_right_comm]
    split at steps
    · cases steps
    · next quote opens closes backslash =>
      cases steps
      rw [if_neg quote, if_neg opens, if_neg closes, if_neg backslash]
  | quoted =>
    unfold next at steps ⊢
    dsimp only at steps ⊢
    split at steps
    · next quote =>
      cases steps
      rw [if_pos quote]
    split at steps
    · next quote backslash =>
      cases steps
      rw [if_neg quote, if_pos backslash]
    · next quote backslash =>
      cases steps
      rw [if_neg quote, if_neg backslash]
  | escaped =>
    unfold next at steps ⊢
    dsimp only at steps ⊢
    split at steps
    · next known =>
      cases steps
      rw [if_pos known]
    · cases steps

/-- Further in, a text does the same. -/
theorem track_deeper {region region' : Region} {depth depth' : Nat} {text : List Char}
    (tracked : track (region, depth) text = some (region', depth')) (more : Nat) :
    track (region, depth + more) text = some (region', depth' + more) := by
  induction text generalizing region depth with
  | nil =>
    cases tracked
    rfl
  | cons c text ih =>
    obtain ⟨⟨between, height⟩, steps, rest⟩ := Option.bind_eq_some_iff.mp tracked
    rw [track, next_deeper steps more]
    exact ih rest

/-! ## Texts that leave the track as it was -/

/-- Every string and every container that begins in the text ends in it, and no other one does. -/
def Balanced (text : List Char) : Prop := track (.outside, 0) text = some (.outside, 0)

namespace Balanced

variable {first second text : List Char}

theorem track (balanced : Balanced text) (depth : Nat) :
    track (.outside, depth) text = some (.outside, depth) := by
  simpa using track_deeper balanced depth

theorem nil : Balanced [] := rfl

theorem append (left : Balanced first) (right : Balanced second) : Balanced (first ++ second) := by
  unfold Balanced
  rw [track_append, left]
  exact right

/-- Up to any place, the text is not further out than at its front. -/
theorem exists_deeper (balanced : Balanced (first ++ second)) (depth : Nat) :
    ∃ region more, Json.track (.outside, depth) first = some (region, more + depth) := by
  unfold Balanced at balanced
  rw [track_append] at balanced
  obtain ⟨⟨region, more⟩, tracked, -⟩ := Option.bind_eq_some_iff.mp balanced
  have deeper := track_deeper tracked depth
  rw [Nat.zero_add] at deeper
  exact ⟨region, more, deeper⟩

end Balanced

/-- A character that does nothing outside strings. -/
def Ordinary (c : Char) : Prop := ∀ special ∈ ['"', '[', '\x7b', ']', '\x7d', '\\'], c ≠ special

theorem balanced_of_ordinary {text : List Char} (ordinary : ∀ c ∈ text, Ordinary c) : Balanced text := by
  induction text with
  | nil => exact .nil
  | cons c text ih =>
    have one := ordinary c List.mem_cons_self
    simp only [Ordinary, List.forall_mem_cons] at one
    have stays : next (.outside, 0) c = some (.outside, 0) := by simp [next, one]
    unfold Balanced track
    rw [stays]
    exact ih fun d isIn => ordinary d (List.mem_cons_of_mem c isIn)

theorem Blank.balanced {blanks : List Char} (blank : Blank blanks) : Balanced blanks := by
  refine balanced_of_ordinary fun c isIn => ?_
  have space := blank c isIn
  simp only [isSpace, Bool.or_eq_true, decide_eq_true_eq] at space
  rcases space with ((rfl | rfl) | rfl) | rfl <;> simp [Ordinary]

/-! ## Strings and numerals -/

theorem quoted_hex {c : Char} {n : Nat} (reads : hexValue? c = some n) (depth : Nat) :
    next (.quoted, depth) c = some (.quoted, depth) := by
  have notQuote : c ≠ '"' := by
    rintro rfl
    cases reads
  have notBackslash : c ≠ '\\' := by
    rintro rfl
    cases reads
  simp [next, notQuote, notBackslash]

/-- The inside of a string stays in it. -/
theorem LooseBody.track {body : List Char} (reads : LooseBody body) (depth : Nat) :
    track (.quoted, depth) body = some (.quoted, depth) := by
  induction reads with
  | nil => rfl
  | @plain c text visible _ ih =>
    have stays : next (.quoted, depth) c = some (.quoted, depth) := by simp [next, visible.1, visible.2.1]
    rw [Json.track, stays]
    exact ih
  | @escaped escape text escapes _ ih =>
    have through : Json.track (.escaped, depth) escape = some (.quoted, depth) := by
      cases escapes with
      | short known => simp [Json.track, next, known]
      | unit digits =>
        obtain ⟨a, b, c, d, i, j, k, l, rfl, first, second, third, fourth, -⟩ := digits
        have begins : next (.escaped, depth) 'u' = some (.quoted, depth) := by simp [next]
        simp [Json.track, begins, quoted_hex first, quoted_hex second, quoted_hex third, quoted_hex fourth]
    have opens : next (.quoted, depth) '\\' = some (.escaped, depth) := rfl
    rw [Json.track, opens, Option.bind_some, track_append, through]
    exact ih

theorem balanced_quoted {body : List Char} (reads : LooseBody body) : Balanced ('"' :: (body ++ ['"'])) := by
  have opens : next (.outside, 0) '"' = some (.quoted, 0) := rfl
  unfold Balanced
  rw [track, opens, Option.bind_some, track_append, reads.track]
  rfl

theorem Digits.ordinary {digits : List Char} (all : Digits digits) : ∀ c ∈ digits, Ordinary c := by
  intro c isIn special among
  rintro rfl
  have digit := all.2 c isIn
  simp only [List.mem_cons, List.not_mem_nil, or_false] at among
  rcases among with rfl | rfl | rfl | rfl | rfl | rfl <;> exact absurd digit (by decide)

theorem NumeralText.balanced {text : List Char} (numeral : NumeralText text) : Balanced text := by
  obtain ⟨sign, integer, fraction, exponent, rfl, signed, whole, fractional, exponential⟩ := numeral
  have one : ∀ {c : Char}, Ordinary c → ∀ {cs : List Char}, (∀ d ∈ cs, Ordinary d) →
      ∀ d ∈ c :: cs, Ordinary d := fun ordinary _ others => List.forall_mem_cons.mpr ⟨ordinary, others⟩
  refine .append ?_ (.append ?_ (.append ?_ ?_)) <;> refine balanced_of_ordinary ?_
  · rcases signed with rfl | rfl
    · exact List.forall_mem_nil _
    · exact one (by simp [Ordinary]) (List.forall_mem_nil _)
  · rcases whole with rfl | ⟨digits, -⟩
    · exact one (by simp [Ordinary]) (List.forall_mem_nil _)
    · exact digits.ordinary
  · rcases fractional with rfl | ⟨digits, rfl, all⟩
    · exact List.forall_mem_nil _
    · exact one (by simp [Ordinary]) all.ordinary
  · rcases exponential with rfl | ⟨letter, sign, digits, rfl, isLetter, signed, all⟩
    · exact List.forall_mem_nil _
    · refine one (by rcases isLetter with rfl | rfl <;> simp [Ordinary]) ?_
      rcases signed with rfl | rfl | rfl
      · exact all.ordinary
      · exact one (by simp [Ordinary]) all.ordinary
      · exact one (by simp [Ordinary]) all.ordinary

theorem ValidScalar.balanced {text : List Char} (valid : ValidScalar text) : Balanced text := by
  rcases valid with rfl | rfl | rfl | numeral | ⟨body, rfl, reads⟩
  · rfl
  · rfl
  · rfl
  · exact numeral.balanced
  · exact balanced_quoted reads

/-! ## Containers -/

/-- A container by its ends, with something balanced in it. -/
def Bracketed (text : List Char) : Prop :=
  ∃ (container : Container) (inner : List Char),
    text = container.opening :: (inner ++ [container.closing]) ∧ Balanced inner

theorem next_opening (container : Container) (depth : Nat) :
    next (.outside, depth) container.opening = some (.outside, depth + 1) := by
  cases container <;> rfl

theorem next_closing (container : Container) (depth : Nat) :
    next (.outside, depth + 1) container.closing = some (.outside, depth) := by
  cases container <;> rfl

theorem Bracketed.balanced {text : List Char} (bracketed : Bracketed text) : Balanced text := by
  obtain ⟨container, inner, rfl, balanced⟩ := bracketed
  unfold Balanced
  rw [track, next_opening, Option.bind_some, track_append, balanced.track, Option.bind_some, track,
    next_closing]
  rfl

theorem balanced_comma : Balanced [','] := rfl

theorem Divided.balanced {α : Type} {part : α → List Char → Prop}
    (each : ∀ x text, part x text → Balanced text) {xs : List α} {body : List Char}
    (parts : Divided part xs body) : Balanced body := by
  induction parts with
  | one blank reads blank' => exact blank.balanced.append ((each _ _ reads).append blank'.balanced)
  | more blank reads blank' _ ih =>
    exact blank.balanced.append ((each _ _ reads).append (blank'.balanced.append (balanced_comma.append ih)))

theorem Enclosed.bracketed {α : Type} (container : Container) {part : α → List Char → Prop}
    (each : ∀ x text, part x text → Balanced text) {xs : List α} {text : List Char}
    (parts : Enclosed container.opening container.closing part xs text) : Bracketed text := by
  cases parts with
  | none blank => exact ⟨container, _, rfl, blank.balanced⟩
  | some parts => exact ⟨container, _, rfl, parts.balanced each⟩

theorem Keyed.balanced {α κ : Type} {key : κ → List Char → Prop} {part : α → List Char → Prop}
    (keys : ∀ k text, key k text → Balanced text) (each : ∀ x text, part x text → Balanced text)
    {member : κ × α} {text : List Char} (keyed : Keyed key part member text) : Balanced text := by
  obtain ⟨name, behind, before, value, rfl, named, blank, blank', reads⟩ := keyed
  have colon : Balanced [':'] := rfl
  exact (keys _ _ named).append (blank.balanced.append (colon.append (blank'.balanced.append (each _ _ reads))))

theorem ValidAt.balanced {depth : Nat} {text : List Char} (valid : ValidAt depth text) : Balanced text := by
  induction depth generalizing text with
  | zero => exact ValidScalar.balanced valid
  | succ depth ih =>
    rcases valid with scalar | ⟨container, parts, enclosed⟩
    · exact scalar.balanced
    · refine (enclosed.bracketed container fun _ text part => ?_).balanced
      cases container with
      | list => exact ih part
      | object =>
        refine Keyed.balanced (fun _ text key => ?_) (fun _ _ => ih) part
        obtain ⟨body, rfl, reads⟩ := key
        exact balanced_quoted reads

theorem balanced_of_valid {text : List Char} (valid : Valid text) : Balanced text :=
  have ⟨_, validAt⟩ := valid
  validAt.balanced

/-! ## Cuts -/

/-- One is in a string and the other is outside. -/
inductive Opposite : Region → Region → Prop where
  | quoted : Opposite .outside .quoted
  | outside : Opposite .quoted .outside

theorem Opposite.symm {region region' : Region} (opposite : Opposite region region') :
    Opposite region' region := by
  cases opposite
  · exact .outside
  · exact .quoted

/-- A quote is the only character that leaves the outside, and a backslash cannot stand there. -/
theorem of_next_outside {after : Region} {depth height : Nat} {c : Char} (notQuote : c ≠ '"')
    (steps : next (.outside, depth) c = some (after, height)) : after = .outside ∧ c ≠ '\\' := by
  unfold next at steps
  dsimp only at steps
  rw [if_neg notQuote] at steps
  split at steps
  · next opens =>
    cases steps
    exact ⟨rfl, by rcases opens with rfl | rfl <;> decide⟩
  split at steps
  · next closes =>
    cases depth with
    | zero => cases steps
    | succ depth =>
      cases steps
      exact ⟨rfl, by rcases closes with rfl | rfl <;> decide⟩
  split at steps
  · cases steps
  · next backslash =>
    cases steps
    exact ⟨rfl, backslash⟩

/-- Regions that are opposite stay so. -/
theorem Opposite.next {region region' after after' : Region} {depth depth' height height' : Nat} {c : Char}
    (opposite : Opposite region region') (steps : next (region, depth) c = some (after, height))
    (steps' : next (region', depth') c = some (after', height')) : Opposite after after' := by
  have inString : ∀ {after after' : Region} {depth depth' height height' : Nat},
      Json.next (.outside, depth) c = some (after, height) →
      Json.next (.quoted, depth') c = some (after', height') → Opposite after after' := by
    intro after after' depth depth' height height' steps steps'
    by_cases quote : c = '"'
    · subst quote
      cases steps
      cases steps'
      exact .outside
    · obtain ⟨rfl, notBackslash⟩ := of_next_outside quote steps
      unfold Json.next at steps'
      dsimp only at steps'
      rw [if_neg quote, if_neg notBackslash] at steps'
      cases steps'
      exact .quoted
  cases opposite with
  | quoted => exact inString steps steps'
  | outside => exact (inString steps' steps).symm

theorem Opposite.track {region region' after after' : Region} {depth depth' height height' : Nat}
    {text : List Char} (opposite : Opposite region region')
    (tracked : track (region, depth) text = some (after, height))
    (tracked' : track (region', depth') text = some (after', height')) : Opposite after after' := by
  induction text generalizing region region' depth depth' with
  | nil =>
    cases tracked
    cases tracked'
    exact opposite
  | cons c text ih =>
    obtain ⟨⟨between, level⟩, steps, rest⟩ := Option.bind_eq_some_iff.mp tracked
    obtain ⟨⟨between', level'⟩, steps', rest'⟩ := Option.bind_eq_some_iff.mp tracked'
    exact ih (opposite.next steps steps') rest rest'

namespace Bracketed

variable {front back : List Char}

theorem ne_nil {text : List Char} (bracketed : Bracketed text) : text ≠ [] := by
  obtain ⟨container, inner, rfl, -⟩ := bracketed
  exact List.cons_ne_nil _ _

theorem exists_ends {text : List Char} (bracketed : Bracketed text) :
    ∃ container : Container, text.head? = some container.opening ∧ text.getLast? = some container.closing := by
  obtain ⟨container, inner, rfl, -⟩ := bracketed
  refine ⟨container, rfl, ?_⟩
  rw [← List.cons_append, List.getLast?_append]
  rfl

/-- Between its ends the text is in its container. -/
theorem exists_inside (bracketed : Bracketed (front ++ back)) (begun : front ≠ []) (more : back ≠ []) :
    ∃ region depth, track (.outside, 0) front = some (region, depth + 1) := by
  obtain ⟨container, inner, same, balanced⟩ := bracketed
  obtain ⟨c, front, rfl⟩ := List.exists_cons_of_ne_nil begun
  obtain ⟨back, d, rfl⟩ := (List.eq_nil_or_concat back).resolve_left more
  rw [List.cons_append, List.cons.injEq, List.concat_eq_append, ← List.append_assoc] at same
  obtain ⟨rfl, same⟩ := same
  obtain ⟨rfl, -⟩ := List.append_inj' same rfl
  obtain ⟨region, depth, tracked⟩ := balanced.exists_deeper 1
  refine ⟨region, depth, ?_⟩
  rw [track, next_opening, Option.bind_some]
  exact tracked

/-- A container that is cut is no container in front of the cut. -/
theorem not_front (bracketed : Bracketed (front ++ back)) (more : back ≠ []) : ¬Bracketed front := by
  intro bracketed'
  obtain ⟨region, depth, tracked⟩ := bracketed.exists_inside bracketed'.ne_nil more
  cases bracketed'.balanced.symm.trans tracked

/-- A container that is cut is no container behind the cut. -/
theorem not_back (bracketed : Bracketed (front ++ back)) (begun : front ≠ []) : ¬Bracketed back := by
  intro bracketed'
  obtain ⟨region, depth, tracked⟩ := bracketed.exists_inside begun bracketed'.ne_nil
  have whole := bracketed.balanced
  unfold Balanced at whole
  rw [track_append, tracked, Option.bind_some] at whole
  cases region with
  | outside => cases (bracketed'.balanced.track (depth + 1)).symm.trans whole
  | quoted => cases Opposite.outside.track whole bracketed'.balanced
  | escaped =>
    obtain ⟨container, inner, rfl, -⟩ := bracketed'
    have stuck : next (.escaped, depth + 1) container.opening = none := by cases container <;> rfl
    rw [Json.track, stuck] at whole
    cases whole

end Bracketed
end TelemetryHub.Json
