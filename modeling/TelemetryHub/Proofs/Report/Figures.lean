import Mathlib.Data.List.TakeDrop
import TelemetryHub.Report

/-!
# The figures of a line

What stands between the name and the symbol of a line is a row of words with gaps between them (`Spaced`),
and which words these are is fixed by the figures and the modifier of the event (`Figures.words`). The
reader takes only such texts (`exists_spaced_of_figures?`), and it takes each of them as the figures that it
was written from (`figures?_of_spaced`): a number ends where its digits do, so nothing is left to choose.
-/

namespace TelemetryHub

namespace Text

/-- The numbers of the blank characters. -/
def blanks : List Nat :=
  [9, 10, 11, 12, 13, 0x20, 0x85, 0xA0, 0x1680, 0x2000, 0x2001, 0x2002, 0x2003, 0x2004, 0x2005, 0x2006,
    0x2007, 0x2008, 0x2009, 0x200A, 0x2028, 0x2029, 0x202F, 0x205F, 0x3000]

/-- A class with none of the characters of the table has no blank. -/
theorem of_isBlank {inClass : Char → Bool} (none : ∀ n ∈ blanks, inClass (Char.ofNat n) = false) {c : Char}
    (blank : isBlank c = true) : inClass c = false := by
  have isIn : c.toNat ∈ blanks := by
    simp only [isBlank, Bool.or_eq_true, Bool.and_eq_true, decide_eq_true_eq, beq_iff_eq] at blank
    simp only [blanks, List.mem_cons, List.not_mem_nil, or_false]
    omega
  have same := none c.toNat isIn
  rwa [Char.ofNat_toNat] at same

theorem isDigit_of_isBlank {c : Char} (blank : isBlank c = true) : isDigit c = false :=
  of_isBlank (by decide) blank

theorem isBlank_of_isDigit {c : Char} (digit : isDigit c = true) : isBlank c = false :=
  Bool.eq_false_iff.mpr fun blank => absurd digit (by simp [isDigit_of_isBlank blank])

end Text

namespace Report

open Text (isBlank isDigit isDigit_of_isBlank)

/-! ## Runs and gaps -/

/-- Characters of a class, of which there is at least one. -/
structure Run (inClass : Char → Bool) (cs : List Char) : Prop where
  nonempty : cs ≠ []
  all : ∀ c ∈ cs, inClass c = true

/-- The text does not begin with a character of the class. -/
def Stops (inClass : Char → Bool) (cs : List Char) : Prop := ∀ c, cs.head? = some c → inClass c = false

section Runs

variable {inClass : Char → Bool}

/-- A given text is tested as a whole. -/
theorem run_of_all {cs : List Char} (nonempty : cs ≠ []) (all : cs.all inClass = true) : Run inClass cs :=
  ⟨nonempty, List.all_eq_true.mp all⟩

theorem Run.mono {other : Char → Bool} {cs : List Char} (run : Run inClass cs)
    (wider : ∀ c, inClass c = true → other c = true) : Run other cs :=
  ⟨run.nonempty, fun c isIn => wider c (run.all c isIn)⟩

theorem stops_cons {c : Char} {cs : List Char} (other : inClass c = false) : Stops inClass (c :: cs) := by
  rintro d ⟨⟩
  exact other

/-- A text behind a run stops one class if the other one has nothing in common with it. -/
theorem Run.stops {other : Char → Bool} {cs : List Char} (run : Run other cs)
    (apart : ∀ c, other c = true → inClass c = false) (rest : List Char) : Stops inClass (cs ++ rest) := by
  obtain ⟨c, cs, rfl⟩ := List.exists_cons_of_ne_nil run.nonempty
  exact stops_cons (apart c (run.all c List.mem_cons_self))

theorem Run.head?_ne {cs : List Char} (run : Run inClass cs) {c : Char} (other : inClass c = false)
    (rest : List Char) : (cs ++ rest).head? ≠ some c := by
  obtain ⟨d, cs, rfl⟩ := List.exists_cons_of_ne_nil run.nonempty
  rintro ⟨⟩
  exact absurd (run.all c List.mem_cons_self) (by simp [other])

theorem takeWhile_append_of_stops {run rest : List Char} (all : ∀ c ∈ run, inClass c = true)
    (stops : Stops inClass rest) : (run ++ rest).takeWhile inClass = run := by
  rw [List.takeWhile_append_of_pos all]
  cases rest with
  | nil => exact List.append_nil run
  | cons c rest => rw [List.takeWhile_cons_of_neg (by simp [stops c rfl]), List.append_nil]

theorem dropWhile_append_of_stops {run rest : List Char} (all : ∀ c ∈ run, inClass c = true)
    (stops : Stops inClass rest) : (run ++ rest).dropWhile inClass = rest := by
  rw [List.dropWhile_append_of_pos all]
  cases rest with
  | nil => rfl
  | cons c rest => exact List.dropWhile_cons_of_neg (by simp [stops c rfl])

theorem stops_dropWhile (inClass : Char → Bool) (cs : List Char) : Stops inClass (cs.dropWhile inClass) := by
  intro c first
  have := List.head?_dropWhile_not inClass cs
  rw [first] at this
  simpa using this

theorem run?_eq_some_iff {cs run rest : List Char} :
    run? inClass cs = some (run, rest) ↔ cs = run ++ rest ∧ Run inClass run ∧ Stops inClass rest := by
  unfold run?
  rw [List.span_eq_takeWhile_dropWhile]
  constructor
  · intro found
    split at found
    · cases found
    · next nonempty same =>
      cases found
      obtain ⟨rfl, rfl⟩ := Prod.mk.inj same
      refine ⟨List.takeWhile_append_dropWhile.symm, ⟨fun nothing => ?_, fun c isIn => ?_⟩,
        stops_dropWhile inClass cs⟩
      · exact nonempty nothing
      · exact List.all_eq_true.mp List.all_takeWhile c isIn
  · rintro ⟨rfl, run, stops⟩
    rw [takeWhile_append_of_stops run.all stops, dropWhile_append_of_stops run.all stops]
    split
    · next same => exact absurd (Prod.mk.inj same).1 run.nonempty
    · next same =>
      obtain ⟨rfl, rfl⟩ := Prod.mk.inj same
      rfl

theorem blanks?_eq_some_iff {cs rest : List Char} :
    blanks? cs = some rest ↔ ∃ gap, cs = gap ++ rest ∧ Run isBlank gap ∧ Stops isBlank rest := by
  constructor
  · intro found
    unfold blanks? at found
    split at found
    · next c cs =>
      split at found
      · next blank =>
        cases found
        refine ⟨c :: cs.takeWhile isBlank, ?_, ⟨List.cons_ne_nil _ _, ?_⟩, stops_dropWhile isBlank cs⟩
        · rw [List.cons_append, List.takeWhile_append_dropWhile]
        · intro d isIn
          rcases List.mem_cons.mp isIn with rfl | isIn
          · exact blank
          · exact List.all_eq_true.mp List.all_takeWhile d isIn
      · cases found
    · cases found
  · rintro ⟨gap, rfl, run, stops⟩
    obtain ⟨c, gap, rfl⟩ := List.exists_cons_of_ne_nil run.nonempty
    rw [List.cons_append, blanks?, if_pos (run.all c List.mem_cons_self),
      dropWhile_append_of_stops (fun d isIn => run.all d (List.mem_cons_of_mem c isIn)) stops]

theorem after?_eq_some_iff {word cs rest : List Char} : after? word cs = some rest ↔ cs = word ++ rest := by
  induction word generalizing cs with
  | nil => simp [after?]
  | cons c word ih =>
    cases cs with
    | nil => simp [after?]
    | cons d cs =>
      rw [after?]
      split
      · next same => simp [ih, same]
      · next other => simp [Ne.symm other]

end Runs

/-! ## Words with gaps between them -/

/-- A text of words, each two of which have a gap of such blanks between them. -/
inductive Spaced (gap : Char → Bool) : List (List Char) → List Char → Prop where
  | last (word : List Char) : Spaced gap [word] word
  | more {words : List (List Char)} {text between : List Char} (word : List Char) (apart : Run gap between)
    (rest : Spaced gap words text) : Spaced gap (word :: words) (word ++ (between ++ text))

namespace Spaced

variable {gap : Char → Bool} {text : List Char}

theorem mono {other : Char → Bool} {words : List (List Char)} (spaced : Spaced gap words text)
    (wider : ∀ c, gap c = true → other c = true) : Spaced other words text := by
  induction spaced with
  | last word => exact .last word
  | more word apart _ ih => exact .more word (apart.mono wider) ih

theorem eq_of_last {word : List Char} (spaced : Spaced gap [word] text) : text = word := by
  cases spaced with
  | last => rfl
  | more _ _ rest => cases rest

theorem exists_more {word next : List Char} {words : List (List Char)}
    (spaced : Spaced gap (word :: next :: words) text) :
    ∃ between text', text = word ++ (between ++ text') ∧ Run gap between ∧ Spaced gap (next :: words) text' := by
  cases spaced with
  | more _ apart rest => exact ⟨_, _, rfl, apart, rest⟩

/-- Words in two groups are two texts with a gap between them. -/
theorem exists_append {words words' : List (List Char)} (spaced : Spaced gap (words ++ words') text)
    (nonempty : words ≠ []) (nonempty' : words' ≠ []) :
    ∃ front between back, text = front ++ (between ++ back) ∧ Run gap between ∧
      Spaced gap words front ∧ Spaced gap words' back := by
  induction words generalizing text with
  | nil => exact absurd rfl nonempty
  | cons word words ih =>
    cases words with
    | nil =>
      obtain ⟨next, others, rfl⟩ := List.exists_cons_of_ne_nil nonempty'
      obtain ⟨between, text', same, apart, rest⟩ := spaced.exists_more
      exact ⟨word, between, text', same, apart, .last word, rest⟩
    | cons next words =>
      obtain ⟨between, text', rfl, apart, rest⟩ := spaced.exists_more
      obtain ⟨front, between', back, rfl, apart', left, right⟩ := ih rest (List.cons_ne_nil _ _)
      exact ⟨word ++ (between ++ front), between', back, by simp only [List.append_assoc], apart',
        .more word apart left, right⟩

end Spaced

/-! ## The words of figures -/

/-- An optional part, behind its sign. -/
def marked (sign : Char) (part : Option (List Char)) : List Char := part.elim [] (sign :: ·)

/-- The words that figures are written with, in a line whose event has a modifier or none. -/
def Figures.words (figures : Figures) (modifier : Option (List Char)) : List (List Char) :=
  (figures.pid ++ marked '/' figures.tid) ::
    ((figures.cpu.map fun cpu => '[' :: cpu ++ [']']).toList ++
      [figures.time ++ [':'], figures.cycles, "cycles".toList ++ (marked ':' modifier ++ [':']), figures.ip])

/-- Figures are numbers: decimal ones, the time with a point inside, and a hexadecimal address. -/
structure Figures.Proper (figures : Figures) : Prop where
  pid : Run isDigit figures.pid
  tid : ∀ tid, figures.tid = some tid → Run isDigit tid
  cpu : ∀ cpu, figures.cpu = some cpu → Run isDigit cpu
  time : ∃ whole part, figures.time = whole ++ '.' :: part ∧ Run isDigit whole ∧ Run isDigit part
  cycles : Run isDigit figures.cycles
  ip : Run isHex figures.ip

/-- A modifier is a word of letters, or there is none. -/
def Modifies (modifier : Option (List Char)) : Prop := ∀ letters, modifier = some letters → Run isLetter letters

/-! ## The parts of figures -/

theorem isHex_of_isBlank {c : Char} (blank : isBlank c = true) : isHex c = false :=
  Text.of_isBlank (by decide) blank

theorem isLetter_of_isBlank {c : Char} (blank : isBlank c = true) : isLetter c = false :=
  Text.of_isBlank (by decide) blank

theorem thread?_eq_some_iff {cs rest : List Char} {tid : Option (List Char)} :
    thread? cs = some (tid, rest) ↔ cs = marked '/' tid ++ rest ∧
      (∀ digits, tid = some digits → Run isDigit digits ∧ Stops isDigit rest) ∧
      (tid = none → rest.head? ≠ some '/') := by
  unfold thread?
  split
  · next digits =>
    simp only [Option.map_eq_some_iff, Prod.exists, Prod.mk.injEq, run?_eq_some_iff]
    constructor
    · rintro ⟨run, _, ⟨rfl, isRun, stops⟩, rfl, rfl⟩
      exact ⟨rfl, by rintro _ ⟨⟩; exact ⟨isRun, stops⟩, nofun⟩
    · rintro ⟨same, isRun, apart⟩
      cases tid with
      | none => exact absurd (by rw [← show '/' :: digits = rest from same]; rfl) (apart rfl)
      | some run =>
        cases same
        exact ⟨run, rest, ⟨rfl, isRun run rfl⟩, rfl, rfl⟩
  · next other =>
    simp only [Option.some.injEq, Prod.mk.injEq]
    constructor
    · rintro ⟨rfl, rfl⟩
      refine ⟨rfl, nofun, fun _ first => ?_⟩
      cases cs with
      | nil => cases first
      | cons c cs =>
        cases first
        exact other cs rfl
    · rintro ⟨same, -, -⟩
      cases tid with
      | none => exact ⟨rfl, same⟩
      | some run => exact absurd same (other _)

/-- The processor in its brackets, and the gap behind it. -/
def bracketed (cpu : Option (List Char)) (gap : List Char) : List Char :=
  cpu.elim [] fun cpu => '[' :: (cpu ++ ']' :: gap)

theorem processor?_eq_some_iff {cs rest : List Char} {cpu : Option (List Char)} :
    processor? cs = some (cpu, rest) ↔ ∃ gap, cs = bracketed cpu gap ++ rest ∧
      (∀ digits, cpu = some digits → Run isDigit digits ∧ Run isBlank gap ∧ Stops isBlank rest) ∧
      (cpu = none → rest.head? ≠ some '[') := by
  unfold processor?
  split
  · next digits =>
    simp only [Option.bind_eq_bind, Option.bind_eq_some_iff, Option.pure_def, Option.some.injEq, Prod.exists,
      Prod.mk.injEq, run?_eq_some_iff, after?_eq_some_iff, blanks?_eq_some_iff]
    constructor
    · rintro ⟨run, _, ⟨rfl, isRun, -⟩, _, rfl, rest, ⟨gap, rfl, isGap, stops⟩, rfl, rfl⟩
      refine ⟨gap, ?_, by rintro _ ⟨⟩; exact ⟨isRun, isGap, stops⟩, nofun⟩
      simp only [bracketed, Option.elim, List.append_assoc, List.cons_append, List.nil_append]
    · rintro ⟨gap, same, isRun, apart⟩
      cases cpu with
      | none => exact absurd (by rw [← show '[' :: digits = rest from same]; rfl) (apart rfl)
      | some run =>
        obtain ⟨isRun, isGap, stops⟩ := isRun run rfl
        simp only [bracketed, Option.elim, List.cons_append, List.append_assoc, List.cons.injEq,
          true_and] at same
        exact ⟨run, ']' :: (gap ++ rest), ⟨same, isRun, stops_cons (by decide)⟩, gap ++ rest, rfl, rest,
          ⟨gap, rfl, isGap, stops⟩, rfl, rfl⟩
  · next other =>
    simp only [Option.some.injEq, Prod.mk.injEq]
    constructor
    · rintro ⟨rfl, rfl⟩
      refine ⟨[], rfl, nofun, fun _ first => ?_⟩
      cases cs with
      | nil => cases first
      | cons c cs =>
        cases first
        exact other cs rfl
    · rintro ⟨gap, same, -, -⟩
      cases cpu with
      | none => exact ⟨rfl, same⟩
      | some run => exact absurd same (other _)

theorem time?_eq_some_iff {cs time rest : List Char} :
    time? cs = some (time, rest) ↔ cs = time ++ rest ∧
      (∃ whole part, time = whole ++ '.' :: part ∧ Run isDigit whole ∧ Run isDigit part) ∧
      Stops isDigit rest := by
  unfold time?
  simp only [Option.bind_eq_bind, Option.bind_eq_some_iff, Option.pure_def, Option.some.injEq, Prod.exists,
    Prod.mk.injEq, run?_eq_some_iff, after?_eq_some_iff]
  constructor
  · rintro ⟨whole, _, ⟨rfl, isRun, -⟩, _, rfl, part, _, ⟨rfl, isRun', stops⟩, rfl, rfl⟩
    exact ⟨by simp only [List.append_assoc, List.cons_append, List.nil_append],
      ⟨whole, part, rfl, isRun, isRun'⟩, stops⟩
  · rintro ⟨rfl, ⟨whole, part, rfl, isRun, isRun'⟩, stops⟩
    refine ⟨whole, '.' :: part ++ rest, ⟨by simp only [List.append_assoc], isRun, stops_cons (by decide)⟩,
      part ++ rest, rfl, part, rest, ⟨rfl, isRun', stops⟩, rfl, rfl⟩

theorem withoutModifier_colon (rest : List Char) :
    withoutModifier (':' :: rest) = ((run? isLetter rest).elim (':' :: rest) Prod.snd) := by
  unfold withoutModifier
  split
  · next same =>
    cases same
    cases run? isLetter rest <;> rfl
  · next other => exact absurd rfl (other rest)

theorem exists_modifier (cs : List Char) :
    ∃ modifier, cs = marked ':' modifier ++ withoutModifier cs ∧ Modifies modifier := by
  unfold withoutModifier
  split
  · next rest =>
    split
    · next letters rest found =>
      obtain ⟨rfl, isRun, -⟩ := run?_eq_some_iff.mp found
      exact ⟨some letters, rfl, by rintro _ ⟨⟩; exact isRun⟩
    · exact ⟨none, rfl, nofun⟩
  · exact ⟨none, rfl, nofun⟩

theorem withoutModifier_marked {modifier : Option (List Char)} (modifies : Modifies modifier)
    {rest : List Char} (behind : Stops isLetter rest) :
    withoutModifier (marked ':' modifier ++ ':' :: rest) = ':' :: rest := by
  cases modifier with
  | none =>
    have none : run? isLetter rest = none := by
      cases read : run? isLetter rest with
      | none => rfl
      | some found =>
        obtain ⟨rfl, isRun, -⟩ := run?_eq_some_iff.mp (show run? isLetter rest = some (found.1, found.2) from read)
        obtain ⟨c, run, same⟩ := List.exists_cons_of_ne_nil isRun.nonempty
        have letter := isRun.all c (same ▸ List.mem_cons_self)
        have := behind c (by rw [same]; rfl)
        rw [letter] at this
        cases this
    change withoutModifier (':' :: rest) = _
    rw [withoutModifier_colon, none]
    rfl
  | some letters =>
    have read : run? isLetter (letters ++ ':' :: rest) = some (letters, ':' :: rest) :=
      run?_eq_some_iff.mpr ⟨rfl, modifies letters rfl, stops_cons (by decide)⟩
    change withoutModifier (':' :: (letters ++ ':' :: rest)) = _
    rw [withoutModifier_colon, read]
    rfl

/-! ## The reader of figures -/

/-- What is read as figures is the text of their words. -/
theorem exists_spaced_of_figures? {cs rest : List Char} {figures : Figures}
    (read : figures? cs = some (figures, rest)) :
    ∃ modifier text, cs = text ++ rest ∧ Spaced isBlank (figures.words modifier) text ∧ figures.Proper ∧
      Modifies modifier ∧ Stops isHex rest := by
  simp only [figures?, Option.bind_eq_bind, Option.bind_eq_some_iff, Option.pure_def, Option.some.injEq,
    Prod.exists, Prod.mk.injEq, run?_eq_some_iff, after?_eq_some_iff, blanks?_eq_some_iff,
    thread?_eq_some_iff, processor?_eq_some_iff, time?_eq_some_iff] at read
  obtain ⟨pid, _, ⟨rfl, isPid, -⟩, tid, _, ⟨rfl, isTid, -⟩, _, ⟨first, rfl, isFirst, -⟩, cpu, _,
    ⟨second, rfl, isCpu, -⟩, time, _, ⟨rfl, isTime, -⟩, _, rfl, _, ⟨third, rfl, isThird, -⟩, cycles, _,
    ⟨rfl, isCycles, -⟩, _, ⟨fourth, rfl, isFourth, -⟩, event, rfl, _, behind, _, ⟨fifth, rfl, isFifth, -⟩,
    ip, _, ⟨rfl, isIp, stops⟩, rfl, rfl⟩ := read
  obtain ⟨modifier, same, modifies⟩ := exists_modifier event
  rw [same, behind]
  have tail : Spaced isBlank [time ++ [':'], cycles, "cycles".toList ++ (marked ':' modifier ++ [':']), ip]
      (time ++ [':'] ++ (third ++ (cycles ++ (fourth ++
        ("cycles".toList ++ (marked ':' modifier ++ [':']) ++ (fifth ++ ip)))))) :=
    .more _ isThird (.more _ isFourth (.more _ isFifth (.last ip)))
  have proper : Figures.Proper ⟨pid, tid, cpu, time, cycles, ip⟩ :=
    ⟨isPid, fun digits found => (isTid digits found).1, fun digits found => (isCpu digits found).1, isTime,
      isCycles, isIp⟩
  cases cpu with
  | none =>
    refine ⟨modifier, _, ?_, .more _ isFirst tail, proper, modifies, stops⟩
    simp only [bracketed, Option.elim, List.append_assoc, List.nil_append, List.cons_append]
  | some digits =>
    refine ⟨modifier, _, ?_, .more _ isFirst (.more _ (isCpu digits rfl).2.1 tail), proper, modifies, stops⟩
    simp only [bracketed, Option.elim, List.append_assoc, List.nil_append, List.cons_append]

/-- The text of the words of figures, part by part. -/
theorem exists_parts_of_spaced {figures : Figures} {modifier : Option (List Char)} {text : List Char}
    (spaced : Spaced isBlank (figures.words modifier) text) :
    ∃ first second third fourth fifth, Run isBlank first ∧ (figures.cpu ≠ none → Run isBlank second) ∧
      Run isBlank third ∧ Run isBlank fourth ∧ Run isBlank fifth ∧
      text = figures.pid ++ (marked '/' figures.tid ++ (first ++ (bracketed figures.cpu second ++
        (figures.time ++ ([':'] ++ (third ++ (figures.cycles ++ (fourth ++ ("cycles".toList ++
          (marked ':' modifier ++ ([':'] ++ (fifth ++ figures.ip)))))))))))) := by
  obtain ⟨pid, tid, cpu, time, cycles, ip⟩ := figures
  have tail : ∀ {tail : List Char}, Spaced isBlank [time ++ [':'], cycles,
      "cycles".toList ++ (marked ':' modifier ++ [':']), ip] tail →
      ∃ third fourth fifth, Run isBlank third ∧ Run isBlank fourth ∧ Run isBlank fifth ∧
        tail = time ++ ([':'] ++ (third ++ (cycles ++ (fourth ++ ("cycles".toList ++
          (marked ':' modifier ++ ([':'] ++ (fifth ++ ip)))))))) := by
    intro tail spaced
    obtain ⟨third, _, rfl, isThird, spaced⟩ := spaced.exists_more
    obtain ⟨fourth, _, rfl, isFourth, spaced⟩ := spaced.exists_more
    obtain ⟨fifth, _, rfl, isFifth, spaced⟩ := spaced.exists_more
    rw [spaced.eq_of_last]
    exact ⟨third, fourth, fifth, isThird, isFourth, isFifth, by simp only [List.append_assoc]⟩
  cases cpu with
  | none =>
    obtain ⟨first, _, rfl, isFirst, spaced⟩ := Spaced.exists_more spaced
    obtain ⟨third, fourth, fifth, isThird, isFourth, isFifth, rfl⟩ := tail spaced
    exact ⟨first, [], third, fourth, fifth, isFirst, fun none => absurd rfl none, isThird, isFourth, isFifth,
      List.append_assoc ..⟩
  | some digits =>
    obtain ⟨first, _, rfl, isFirst, spaced⟩ := Spaced.exists_more spaced
    obtain ⟨second, _, rfl, isSecond, spaced⟩ := Spaced.exists_more spaced
    obtain ⟨third, fourth, fifth, isThird, isFourth, isFifth, rfl⟩ := tail spaced
    refine ⟨first, second, third, fourth, fifth, isFirst, fun _ => isSecond, isThird, isFourth, isFifth, ?_⟩
    simp only [bracketed, Option.elim, List.append_assoc, List.cons_append, List.nil_append]

/-- The text of the words of figures is read as these, in front of anything that does not go on with the
address. -/
theorem figures?_of_spaced {figures : Figures} {modifier : Option (List Char)} {text rest : List Char}
    (spaced : Spaced isBlank (figures.words modifier) text) (proper : figures.Proper)
    (modifies : Modifies modifier) (stops : Stops isHex rest) :
    figures? (text ++ rest) = some (figures, rest) := by
  obtain ⟨first, second, third, fourth, fifth, isFirst, isSecond, isThird, isFourth, isFifth, rfl⟩ :=
    exists_parts_of_spaced spaced
  obtain ⟨pid, tid, cpu, time, cycles, ip⟩ := figures
  obtain ⟨isPid, isTid, isCpu, isTime, isCycles, isIp⟩ := proper
  obtain ⟨whole, part, rfl, isWhole, isPart⟩ := isTime
  have undigited : ∀ {gap : List Char}, Run isBlank gap → ∀ rest, Stops isDigit (gap ++ rest) :=
    fun isGap => isGap.stops fun _ => isDigit_of_isBlank
  have visible : ∀ c, isDigit c = true → isBlank c = false := fun _ => Text.isBlank_of_isDigit
  simp only [figures?, Option.bind_eq_bind, Option.bind_eq_some_iff, Option.pure_def, Option.some.injEq,
    Prod.exists, Prod.mk.injEq, run?_eq_some_iff, after?_eq_some_iff, blanks?_eq_some_iff,
    thread?_eq_some_iff, processor?_eq_some_iff, time?_eq_some_iff]
  simp only [List.append_assoc]
  refine ⟨pid, _, ⟨rfl, isPid, ?_⟩, tid, _, ⟨rfl, fun _ found => ⟨isTid _ found, undigited isFirst _⟩, ?_⟩, _,
    ⟨first, rfl, isFirst, ?_⟩, cpu, _, ⟨second, rfl, fun _ found => ⟨isCpu _ found, isSecond ?_, ?_⟩, ?_⟩,
    whole ++ '.' :: part, _, ⟨(List.append_assoc ..).symm, ⟨whole, part, rfl, isWhole, isPart⟩, ?_⟩, _, rfl, _,
    ⟨third, rfl, isThird, ?_⟩, cycles, _, ⟨rfl, isCycles, undigited isFourth _⟩, _, ⟨fourth, rfl, isFourth, ?_⟩, _, rfl, _,
    withoutModifier_marked modifies ?_, _, ⟨fifth, rfl, isFifth, ?_⟩, ip, _, ⟨rfl, isIp, stops⟩, rfl, rfl⟩
  · cases tid with
    | none => exact undigited isFirst _
    | some digits => exact stops_cons (by decide)
  · exact fun _ => isFirst.head?_ne (by decide) _
  · cases cpu with
    | none => exact isWhole.stops visible _
    | some digits => exact stops_cons (by decide)
  · exact fun none => Option.some_ne_none _ (found.symm.trans none)
  · exact isWhole.stops visible _
  · exact fun _ => isWhole.head?_ne (by decide) _
  · exact stops_cons (by decide)
  · exact isCycles.stops visible _
  · exact stops_cons (by decide)
  · exact isFifth.stops (fun _ => isLetter_of_isBlank) _
  · exact isIp.stops (fun c hex => Bool.eq_false_iff.mpr fun blank => absurd hex (by
      simp [isHex_of_isBlank blank])) _

end Report
end TelemetryHub
