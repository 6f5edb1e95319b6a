import Mathlib.Data.List.TakeWhile
import TelemetryHub.Proofs.Report.Figures
import TelemetryHub.Proofs.Text.Cutting

/-!
# Lines are read as what they were written from

A line is written from a name, figures, a symbol and an object with gaps between them. The name and the
symbol may have blanks and anything else inside, so that such a line can often be cut in other places too,
but no cut in front of the end of the name leaves figures behind it: the word `cycles` would stand in the
wrong place (`remainder?_eq_none`), as long as the name does not have it. So the line is read as what it was
written from (`line?_of_spaced`).
-/

namespace TelemetryHub.Report

open Text (isBlank isDigit)

/-! ## Words -/

def isVisible (c : Char) : Bool := !isBlank c

theorem Run.visible {inClass : Char → Bool} {cs : List Char} (run : Run inClass cs)
    (apart : ∀ c, isBlank c = true → inClass c = false) : Run isVisible cs := by
  refine run.mono fun c isIn => ?_
  cases blank : isBlank c with
  | false => simp [isVisible, blank]
  | true => exact absurd isIn (by simp [apart c blank])

theorem Run.append {inClass : Char → Bool} {front back : List Char} (run : Run inClass front)
    (all : ∀ c ∈ back, inClass c = true) : Run inClass (front ++ back) := by
  refine ⟨List.append_ne_nil_of_left_ne_nil run.nonempty _, fun c isIn => ?_⟩
  rcases List.mem_append.mp isIn with isIn | isIn
  · exact run.all c isIn
  · exact all c isIn

theorem all_marked {inClass : Char → Bool} {sign : Char} {part : Option (List Char)}
    (isSign : inClass sign = true) (isRun : ∀ run, part = some run → Run inClass run) :
    ∀ c ∈ marked sign part, inClass c = true := by
  intro c isIn
  cases part with
  | none => cases isIn
  | some run =>
    rcases List.mem_cons.mp isIn with rfl | isIn
    · exact isSign
    · exact (isRun run rfl).all c isIn

/-- The words of a text: what stands between its blanks. -/
def wordsOf (cs : List Char) : List (List Char) := (cs.splitOnP isBlank).filter (· ≠ [])

theorem wordsOf_append_cons {c : Char} (blank : isBlank c = true) (cs rest : List Char) :
    wordsOf (cs ++ c :: rest) = wordsOf cs ++ wordsOf rest := by
  unfold wordsOf
  rw [List.splitOnP_append_cons cs rest blank, List.filter_append]

theorem wordsOf_append_gap {gap : List Char} (isGap : Run isBlank gap) (cs rest : List Char) :
    wordsOf (cs ++ (gap ++ rest)) = wordsOf cs ++ wordsOf rest := by
  obtain ⟨nonempty, blank⟩ := isGap
  induction gap generalizing cs with
  | nil => exact absurd rfl nonempty
  | cons c gap ih =>
    rw [List.cons_append, wordsOf_append_cons (blank c List.mem_cons_self)]
    cases gap with
    | nil => rfl
    | cons d gap =>
      have later := ih [] (List.cons_ne_nil d gap) fun c isIn => blank c (List.mem_cons_of_mem _ isIn)
      exact congrArg (wordsOf cs ++ ·) later

theorem wordsOf_word {word : List Char} (nonempty : word ≠ []) (visible : ∀ c ∈ word, isBlank c = false) :
    wordsOf word = [word] := by
  unfold wordsOf
  rw [List.splitOnP_eq_singleton visible]
  simp [nonempty]

/-- The first piece of a text is its front, and all other pieces stand in it. -/
theorem infix_of_mem_splitOnP {cs piece : List Char} {pieces : List (List Char)}
    (same : cs.splitOnP isBlank = piece :: pieces) : piece <+: cs ∧ ∀ other ∈ pieces, other <:+: cs := by
  induction cs generalizing piece pieces with
  | nil =>
    rw [List.splitOnP_nil] at same
    cases same
    exact ⟨List.nil_prefix, nofun⟩
  | cons c cs ih =>
    obtain ⟨first, others, split⟩ := List.exists_cons_of_ne_nil (List.splitOnP_ne_nil isBlank cs)
    obtain ⟨front, inside⟩ := ih split
    rw [List.splitOnP_cons_eq_if_modifyHead] at same
    split at same
    · rw [split] at same
      cases same
      refine ⟨List.nil_prefix, fun other isIn => ?_⟩
      rcases List.mem_cons.mp isIn with rfl | isIn
      · exact front.isInfix.trans (List.infix_cons List.infix_rfl)
      · exact (inside other isIn).trans (List.infix_cons List.infix_rfl)
    · rw [split] at same
      cases same
      exact ⟨(List.prefix_cons_inj c).mpr front,
        fun other isIn => (inside other isIn).trans (List.infix_cons List.infix_rfl)⟩

theorem infix_of_mem_wordsOf {cs word : List Char} (isIn : word ∈ wordsOf cs) : word <:+: cs := by
  obtain ⟨first, others, split⟩ := List.exists_cons_of_ne_nil (List.splitOnP_ne_nil isBlank cs)
  obtain ⟨front, inside⟩ := infix_of_mem_splitOnP split
  have isPiece := (List.mem_filter.mp isIn).1
  rw [split] at isPiece
  rcases List.mem_cons.mp isPiece with rfl | isPiece
  · exact front.isInfix
  · exact inside word isPiece

/-- A text with a visible character has a word. -/
theorem wordsOf_ne_nil {cs : List Char} {c : Char} (isIn : c ∈ cs) (visible : isBlank c = false) :
    wordsOf cs ≠ [] := by
  induction cs with
  | nil => cases isIn
  | cons d cs ih =>
    unfold wordsOf at ih ⊢
    rw [List.splitOnP_cons_eq_if_modifyHead]
    split
    · next blank =>
      rcases List.mem_cons.mp isIn with rfl | later
      · exact absurd blank (by simp [visible])
      · simpa using ih later
    · obtain ⟨first, others, split⟩ := List.exists_cons_of_ne_nil (List.splitOnP_ne_nil isBlank cs)
      rw [split]
      simp

/-- A text of visible words with gaps between them has just these words. -/
theorem Spaced.wordsOf_eq {words : List (List Char)} {text : List Char} (spaced : Spaced isBlank words text)
    (visible : ∀ word ∈ words, Run isVisible word) : wordsOf text = words := by
  have single : ∀ {word : List Char}, Run isVisible word → wordsOf word = [word] :=
    fun run => wordsOf_word run.nonempty fun c isIn => by simpa [isVisible] using run.all c isIn
  induction spaced with
  | last word => exact single (visible word List.mem_cons_self)
  | more word apart _ ih =>
    rw [wordsOf_append_gap apart, single (visible word List.mem_cons_self),
      ih fun other isIn => visible other (List.mem_cons_of_mem _ isIn)]
    rfl

/-! ## Where the cycles stand -/

/-- Whether a word begins with `cycles`. -/
def isCounted (word : List Char) : Bool := "cycles".toList.isPrefixOf word

section Figures

variable {figures : Figures} {modifier : Option (List Char)} (proper : figures.Proper)

include proper

theorem visible_words (modifies : Modifies modifier) :
    ∀ word ∈ figures.words modifier, Run isVisible word := by
  obtain ⟨pid, tid, cpu, time, cycles, ip⟩ := figures
  obtain ⟨isPid, isTid, isCpu, ⟨whole, part, rfl, isWhole, isPart⟩, isCycles, isIp⟩ := proper
  have digits : ∀ {run : List Char}, Run isDigit run → Run isVisible run :=
    fun isRun => isRun.visible fun _ => Text.isDigit_of_isBlank
  have colon : ∀ c ∈ [':'], isVisible c = true := List.all_eq_true.mp (by decide)
  have bracket : Run isVisible ['['] := run_of_all (by decide) (by decide)
  have event : Run isVisible "cycles".toList := run_of_all (by decide) (by decide)
  have fraction : ∀ c ∈ marked '.' (some part), isVisible c = true := all_marked (by decide) (by
    rintro _ ⟨⟩
    exact digits isPart)
  intro word isIn
  simp only [Figures.words, List.mem_cons, List.mem_append, Option.mem_toList,
    Option.map_eq_some_iff, List.not_mem_nil, or_false] at isIn
  rcases isIn with rfl | ⟨number, found, rfl⟩ | rfl | rfl | rfl | rfl
  · exact (digits isPid).append (all_marked (by decide) fun run found => digits (isTid run found))
  · exact bracket.append ((digits (isCpu _ found)).append (List.all_eq_true.mp (by decide))).all
  · exact ((digits isWhole).append fraction).append colon
  · exact digits isCycles
  · refine event.append fun c isIn => ?_
    rcases List.mem_append.mp isIn with isIn | isIn
    · exact all_marked (by decide)
        (fun run found => (modifies run found).visible fun _ => isLetter_of_isBlank) c isIn
    · exact colon c isIn
  · exact isIp.visible fun _ => isHex_of_isBlank

/-- The event is the word behind the process, the processor if there is one, the time and the number. -/
theorem findIdx_words (others : List (List Char)) :
    (figures.words modifier ++ others).findIdx isCounted = 3 + figures.cpu.elim 0 fun _ => 1 := by
  obtain ⟨pid, tid, cpu, time, cycles, ip⟩ := figures
  obtain ⟨isPid, isTid, isCpu, ⟨whole, part, rfl, isWhole, isPart⟩, isCycles, isIp⟩ := proper
  have number : ∀ {run : List Char}, Run isDigit run → ∀ rest, isCounted (run ++ rest) = false := by
    intro run isRun rest
    obtain ⟨c, run, rfl⟩ := List.exists_cons_of_ne_nil isRun.nonempty
    have other : 'c' ≠ c := fun same => absurd (isRun.all c List.mem_cons_self) (by rw [← same]; decide)
    simp [isCounted, List.isPrefixOf, other]
  have event : ∀ rest, isCounted ('c' :: 'y' :: 'c' :: 'l' :: 'e' :: 's' :: rest) = true := fun rest => by
    simp [isCounted, List.isPrefixOf]
  have cycles' : isCounted cycles = false := by simpa using number isCycles []
  have bracket : ∀ rest, isCounted ('[' :: rest) = false := fun rest => by simp [isCounted, List.isPrefixOf]
  cases cpu with
  | none =>
    simp [Figures.words, List.findIdx_cons, number isPid, number isWhole, cycles', event]
  | some cpu =>
    simp [Figures.words, List.findIdx_cons, number isPid, number isWhole, cycles', event, bracket]

end Figures

/-! ## The end of the name -/

theorem exists_of_remainder? {cs symbol : List Char} {figures : Figures}
    (read : remainder? cs = some (figures, symbol)) :
    ∃ gap c rest behind, cs = gap ++ rest ∧ Run isBlank gap ∧ figures? rest = some (figures, c :: behind) ∧
      isBlank c = true := by
  unfold remainder? at read
  simp only [Option.bind_eq_bind, Option.bind_eq_some_iff, blanks?_eq_some_iff] at read
  obtain ⟨rest, ⟨gap, same, isGap, -⟩, ⟨figures', behind⟩, found, after⟩ := read
  cases behind with
  | nil => cases after
  | cons c behind =>
    dsimp only at after
    split at after
    · next blank =>
      obtain ⟨symbol', -, same'⟩ := Option.map_eq_some_iff.mp after
      cases same'
      exact ⟨gap, c, rest, behind, same, isGap, found, blank⟩
    · cases after

/-- The words of figures do not stand behind other words without `cycles` and begin with these at the same
time. -/
theorem Figures.words_not_behind {figures figures' : Figures} (proper : figures.Proper)
    (proper' : figures'.Proper) {modifier modifier' : Option (List Char)} {front : List (List Char)}
    (nonempty : front ≠ []) (uncounted : ∀ word ∈ front, isCounted word = false)
    (others others' : List (List Char)) :
    front ++ (figures.words modifier ++ others) ≠ figures'.words modifier' ++ others' := by
  intro words
  have places := congrArg (List.findIdx isCounted) words
  rw [findIdx_words proper', List.findIdx_append, List.findIdx_eq_length.mpr uncounted,
    if_neg (Nat.lt_irrefl _), findIdx_words proper] at places
  have begun : 0 < front.length := List.length_pos_iff.mpr nonempty
  -- so the number of the process would stand in the place of a processor
  obtain ⟨pid, tid, cpu, time, cycles, ip⟩ := figures
  obtain ⟨pid', tid', cpu', time', cycles', ip'⟩ := figures'
  cases cpu' with
  | none => cases cpu <;> simp only [Option.elim] at places <;> omega
  | some digits =>
    cases cpu with
    | some _ =>
      simp only [Option.elim] at places
      omega
    | none =>
      have one : front.length = 1 := by
        simp only [Option.elim] at places
        omega
      obtain ⟨word, rfl⟩ := List.length_eq_one_iff.mp one
      have second : pid ++ marked '/' tid = '[' :: (digits ++ [']']) := by
        have tails := (List.cons.inj words).2
        exact (List.cons.inj tails).1
      have first := proper.pid.head?_ne (c := '[') (by decide) (marked '/' tid)
      rw [show pid ++ marked '/' tid = _ from second] at first
      exact absurd rfl first

/-- In front of words without `cycles` that stand before figures no other figures begin. -/
theorem remainder?_eq_none {figures : Figures} {modifier : Option (List Char)} {text gap gap' before : List Char}
    (proper : figures.Proper) (modifies : Modifies modifier)
    (spaced : Spaced isBlank (figures.words modifier) text) (isGap : Run isBlank gap) (isGap' : Run isBlank gap')
    {c : Char} (isIn : c ∈ before) (visible : isBlank c = false) (uncounted : ¬ "cycles".toList <:+: before)
    (behind : List Char) : remainder? (before ++ (gap ++ (text ++ (gap' ++ behind)))) = none := by
  cases read : remainder? (before ++ (gap ++ (text ++ (gap' ++ behind)))) with
  | none => rfl
  | some found =>
    obtain ⟨figures', symbol⟩ := found
    obtain ⟨gap'', d, rest, behind', same, isGap'', found, blank⟩ := exists_of_remainder? read
    obtain ⟨modifier', text', rfl, spaced', proper', modifies', -⟩ := exists_spaced_of_figures? found
    -- the same text as two rows of words
    have words : wordsOf before ++ (figures.words modifier ++ wordsOf behind) =
        figures'.words modifier' ++ wordsOf behind' := by
      have front := wordsOf_append_gap isGap before (text ++ (gap' ++ behind))
      rw [same] at front
      rw [← spaced.wordsOf_eq (visible_words proper modifies), ← wordsOf_append_gap isGap', ← front,
        ← spaced'.wordsOf_eq (visible_words proper' modifies'), ← wordsOf_append_cons blank]
      exact wordsOf_append_gap isGap'' [] (text' ++ d :: behind')
    refine absurd words (Figures.words_not_behind proper proper' (wordsOf_ne_nil isIn visible) ?_ _ _)
    intro word isWord
    refine Bool.eq_false_iff.mpr fun counted => uncounted ?_
    exact (List.isPrefixOf_iff_prefix.mp counted).isInfix.trans (infix_of_mem_wordsOf isWord)

/-- A name ends at the first place behind which the rest of the line is read. -/
theorem nameFrom_of_passes {taken back rest : List Char} {found : Figures × List Char}
    (passes : ∀ before after, back = before ++ after → after ≠ [] → remainder? (after ++ rest) = none)
    (oneLine : '\n' ∉ back) (last : isBehindBlank (back.reverse ++ taken) = false)
    (ends : remainder? rest = some found) :
    nameFrom taken (back ++ rest) = some (taken.reverse ++ back, found) := by
  induction back generalizing taken with
  | nil =>
    unfold nameFrom
    rw [show isBehindBlank taken = false from last, if_neg Bool.false_ne_true, List.nil_append, ends,
      List.append_nil]
  | cons c back ih =>
    have passed : (if isBehindBlank taken then none else remainder? (c :: back ++ rest)) = none := by
      rw [passes [] (c :: back) rfl (List.cons_ne_nil c back), ite_self]
    have goesOn := @ih (c :: taken)
      (fun before after same => passes (c :: before) after (congrArg (c :: ·) same))
      (fun isIn => oneLine (List.mem_cons_of_mem c isIn))
      (by rwa [List.reverse_cons, List.append_assoc] at last)
    have notEnd : c ≠ '\n' := fun same => oneLine (same ▸ List.mem_cons_self)
    unfold nameFrom
    rw [passed]
    change (if c = '\n' then none else nameFrom (c :: taken) (back ++ rest)) = _
    rw [if_neg notEnd, goesOn, List.reverse_cons, List.append_assoc]
    rfl

/-! ## The other parts of a line -/

/-- A name or a symbol: it begins and ends with a visible character, and no line ends inside. -/
structure Phrase (cs : List Char) : Prop where
  oneLine : '\n' ∉ cs
  first : ∃ c, cs.head? = some c ∧ isBlank c = false
  last : ∃ c, cs.getLast? = some c ∧ isBlank c = false

/-- A blank inside of a line. -/
def isSpace (c : Char) : Bool := isBlank c && c ≠ '\n'

theorem isBlank_of_isSpace (c : Char) (space : isSpace c = true) : isBlank c = true :=
  (Bool.and_eq_true_iff.mp space).1

theorem Phrase.ne_nil {cs : List Char} (phrase : Phrase cs) : cs ≠ [] := by
  rintro rfl
  obtain ⟨c, first, -⟩ := phrase.first
  cases first

/-- What is left of a phrase at any place has its last character. -/
theorem Phrase.exists_visible {cs before after : List Char} (phrase : Phrase cs) (same : cs = before ++ after)
    (nonempty : after ≠ []) : ∃ c ∈ after, isBlank c = false := by
  obtain ⟨c, last, visible⟩ := phrase.last
  rw [same, List.getLast?_append, List.getLast?_eq_some_getLast nonempty, Option.some_or,
    ← List.getLast?_eq_some_getLast nonempty] at last
  exact ⟨c, List.mem_of_getLast? last, visible⟩

theorem Phrase.trim_around {cs before behind : List Char} (phrase : Phrase cs)
    (blank : ∀ c ∈ before, isBlank c = true) (blank' : ∀ c ∈ behind, isBlank c = true) :
    Text.trim (before ++ (cs ++ behind)) = cs := by
  obtain ⟨c, first, visible⟩ := phrase.first
  obtain ⟨d, last, visible'⟩ := phrase.last
  rw [← List.append_assoc, Text.trim_append_blanks _ blank']
  unfold Text.trim
  rw [List.dropWhile_append_of_pos blank]
  exact Text.trim_eq_self first visible last visible'

theorem symbol?_around {cs before behind : List Char} (phrase : Phrase cs)
    (blank : ∀ c ∈ before, isBlank c = true) (blank' : ∀ c ∈ behind, isBlank c = true) :
    symbol? (before ++ (cs ++ behind)) = some cs := by
  unfold symbol?
  rw [phrase.trim_around blank blank']
  split
  · exact absurd rfl phrase.ne_nil
  · exact if_neg phrase.oneLine

/-- Behind the gap and the figures the symbol is looked for between two blanks. -/
theorem remainder?_eq_map {figures : Figures} {modifier : Option (List Char)} {text gap : List Char}
    (proper : figures.Proper) (modifies : Modifies modifier)
    (spaced : Spaced isBlank (figures.words modifier) text) (isGap : Run isBlank gap) {c : Char}
    (blank : isBlank c = true) (back : List Char) :
    remainder? (gap ++ (text ++ c :: back)) = (symbol? back.dropLast).map (figures, ·) := by
  have visible : Stops isBlank (text ++ c :: back) := by
    obtain ⟨_, _, _, _, _, _, _, _, _, _, rfl⟩ := exists_parts_of_spaced spaced
    rw [List.append_assoc]
    exact proper.pid.stops (fun _ => Text.isBlank_of_isDigit) _
  have front : blanks? (gap ++ (text ++ c :: back)) = some (text ++ c :: back) :=
    blanks?_eq_some_iff.mpr ⟨gap, rfl, isGap, visible⟩
  have read : figures? (text ++ c :: back) = some (figures, c :: back) :=
    figures?_of_spaced spaced proper modifies (stops_cons (isHex_of_isBlank blank))
  unfold remainder?
  rw [front]
  change (figures? _).bind _ = _
  rw [read]
  exact if_pos blank

theorem remainder?_of_spaced {figures : Figures} {modifier : Option (List Char)}
    {text symbol gap gap' gap'' : List Char} (proper : figures.Proper) (modifies : Modifies modifier)
    (spaced : Spaced isBlank (figures.words modifier) text) (phrase : Phrase symbol) (isGap : Run isBlank gap)
    (isGap' : Run isBlank gap') (isGap'' : Run isBlank gap'') :
    remainder? (gap ++ (text ++ (gap' ++ (symbol ++ gap'')))) = some (figures, symbol) := by
  obtain ⟨c, gap', rfl⟩ := List.exists_cons_of_ne_nil isGap'.nonempty
  have behind : (gap' ++ (symbol ++ gap'')).dropLast = gap' ++ (symbol ++ gap''.dropLast) := by
    rw [← List.append_assoc, List.dropLast_append_of_ne_nil isGap''.nonempty, List.append_assoc]
  have found : symbol? (gap' ++ (symbol ++ gap''.dropLast)) = some symbol :=
    symbol?_around phrase (fun d isIn => isGap'.all d (List.mem_cons_of_mem c isIn))
      fun d isIn => isGap''.all d (List.dropLast_subset _ isIn)
  have read := remainder?_eq_map proper modifies spaced isGap (isGap'.all c List.mem_cons_self)
    (gap' ++ (symbol ++ gap''))
  rw [behind, found] at read
  exact read

/-- The object is what stands in the last parentheses. -/
theorem object?_append {front object trail : List Char} {c : Char} (last : front.getLast? = some c)
    (blank : isBlank c = true) (plain : ∀ d ∈ object, d ≠ '(' ∧ d ≠ ')')
    (blanks : ∀ d ∈ trail, isBlank d = true) :
    object? (front ++ ('(' :: (object ++ ')' :: trail))) = some (front, object) := by
  have reversed : (front ++ ('(' :: (object ++ ')' :: trail))).reverse.dropWhile isBlank =
      ')' :: (object.reverse ++ '(' :: front.reverse) := by
    simp only [List.reverse_append, List.reverse_cons, List.append_assoc, List.cons_append, List.nil_append]
    exact dropWhile_append_of_stops (fun d isIn => blanks d (List.mem_reverse.mp isIn)) (stops_cons (by decide))
  have inside : ∀ d ∈ object.reverse, (decide (d ≠ '(') && decide (d ≠ ')')) = true := fun d isIn => by
    simpa using plain d (List.mem_reverse.mp isIn)
  have opening : Stops (fun d => decide (d ≠ '(') && decide (d ≠ ')')) ('(' :: front.reverse) :=
    stops_cons (by decide)
  obtain ⟨rest, same⟩ : ∃ rest, front.reverse = c :: rest := by
    rw [← List.head?_reverse] at last
    exact List.head?_eq_some_iff.mp last
  unfold object?
  rw [reversed]
  split
  · next closed =>
    obtain rfl := (List.cons.inj closed).2
    rw [List.span_eq_takeWhile_dropWhile, takeWhile_append_of_stops inside opening,
      dropWhile_append_of_stops inside opening, same]
    change (if isBlank c then some ((c :: rest).reverse, object.reverse.reverse) else none) = _
    rw [if_pos blank, ← same, List.reverse_reverse, List.reverse_reverse]
  · next other => exact absurd rfl (other _)

theorem leastName_of_oneLine {front : List Char} (oneLine : '\n' ∉ front) : leastName front = [] := by
  have nothing : (front.reverse.dropWhile isBlank).dropWhile (fun c => decide (c ≠ '\n')) = [] := by
    refine List.dropWhile_eq_nil_iff.mpr fun c isIn => ?_
    have inFront := List.mem_reverse.mp ((List.dropWhile_sublist isBlank).subset isIn)
    exact decide_eq_true fun same => oneLine (same ▸ inFront)
  unfold leastName
  dsimp only
  rw [nothing]
  rfl

/-! ## Whole lines -/

/-- What a line is written from. -/
structure Parts where
  prog : List Char
  figures : Figures
  modifier : Option (List Char)
  symbol : List Char
  dso : List Char

namespace Parts

/-- The words of a line and its phrases. -/
def words (parts : Parts) : List (List Char) :=
  parts.prog :: (parts.figures.words parts.modifier ++ [parts.symbol, '(' :: parts.dso ++ [')']])

/-- The name does not have the word that the number of cycles is told from, and the object has no
parentheses. -/
structure Proper (parts : Parts) : Prop where
  prog : Phrase parts.prog
  uncounted : ¬ "cycles".toList <:+: parts.prog
  figures : parts.figures.Proper
  modifies : Modifies parts.modifier
  symbol : Phrase parts.symbol
  dso : ∀ c ∈ parts.dso, c ≠ '(' ∧ c ≠ ')'

def sample (parts : Parts) (id : Nat) (record : String) : Sample where
  id := id
  prog := String.ofList parts.prog
  pid := String.ofList parts.figures.pid
  tid := parts.figures.tid.map String.ofList
  cpu := parts.figures.cpu.map String.ofList
  time := String.ofList parts.figures.time
  cycles := String.ofList parts.figures.cycles
  ip := String.ofList parts.figures.ip
  symbol := String.ofList parts.symbol
  dso := String.ofList parts.dso
  record := record

end Parts

theorem Spaced.oneLine {words : List (List Char)} {text : List Char} (spaced : Spaced isSpace words text)
    (oneLine : ∀ word ∈ words, '\n' ∉ word) : '\n' ∉ text := by
  induction spaced with
  | last word => exact oneLine word List.mem_cons_self
  | more word apart _ ih =>
    simp only [List.mem_append, not_or]
    exact ⟨oneLine word List.mem_cons_self, fun isIn => absurd (apart.all _ isIn) (by decide),
      ih fun other isIn => oneLine other (List.mem_cons_of_mem _ isIn)⟩

/-- The front of a line is cut where its name ends. -/
theorem name?_of_spaced {parts : Parts} (proper : parts.Proper) {text gap gap' gap'' : List Char}
    (spaced : Spaced isSpace (parts.figures.words parts.modifier) text) (isGap : Run isSpace gap)
    (isGap' : Run isSpace gap') (isGap'' : Run isSpace gap'') :
    name? (parts.prog ++ (gap ++ (text ++ (gap' ++ (parts.symbol ++ gap''))))) =
      some (parts.prog, parts.figures, parts.symbol) := by
  obtain ⟨prog, figures, modifier, symbol, dso⟩ := parts
  have noEnd : ∀ {gap}, Run isSpace gap → '\n' ∉ gap := fun isGap isIn =>
    absurd (isGap.all _ isIn) (by decide)
  have oneLine : '\n' ∉ prog ++ (gap ++ (text ++ (gap' ++ (symbol ++ gap'')))) := by
    have figures := spaced.oneLine fun word isIn newline =>
      absurd ((visible_words proper.figures proper.modifies word isIn).all _ newline) (by decide)
    simp only [List.mem_append, not_or]
    exact ⟨proper.prog.oneLine, noEnd isGap, figures, noEnd isGap', proper.symbol.oneLine, noEnd isGap''⟩
  have spaced' := spaced.mono isBlank_of_isSpace
  have gapped := isGap.mono isBlank_of_isSpace
  have gapped' := isGap'.mono isBlank_of_isSpace
  have ends : remainder? (gap ++ (text ++ (gap' ++ (symbol ++ gap'')))) = some (figures, symbol) :=
    remainder?_of_spaced proper.figures proper.modifies spaced' proper.symbol gapped gapped'
      (isGap''.mono isBlank_of_isSpace)
  obtain ⟨c, back, rfl⟩ := List.exists_cons_of_ne_nil proper.prog.ne_nil
  unfold name?
  rw [leastName_of_oneLine oneLine]
  have passes : ∀ before after, back = before ++ after → after ≠ [] →
      remainder? (after ++ (gap ++ (text ++ (gap' ++ (symbol ++ gap''))))) = none := by
    intro before after same nonempty
    have suffix : c :: back = (c :: before) ++ after := congrArg (c :: ·) same
    obtain ⟨d, isIn, visible⟩ := proper.prog.exists_visible suffix nonempty
    refine remainder?_eq_none proper.figures proper.modifies spaced' gapped gapped' isIn visible ?_ _
    exact fun counted => proper.uncounted (counted.trans (suffix ▸ (List.suffix_append _ after).isInfix))
  have last : isBehindBlank (back.reverse ++ [c]) = false := by
    obtain ⟨d, isLast, visible⟩ := proper.prog.last
    rw [← List.reverse_cons, isBehindBlank, List.head?_reverse, show (c :: back).getLast? = some d from isLast]
    exact visible
  exact nameFrom_of_passes passes (fun isIn => proper.prog.oneLine (List.mem_cons_of_mem c isIn)) last ends

/-- **Recovery.** A line that is written from proper parts, in any layout of blanks, is read as these
parts. -/
theorem line?_of_spaced {parts : Parts} (proper : parts.Proper) {lead text trail : List Char}
    (blank : ∀ c ∈ lead, isBlank c = true) (spaced : Spaced isSpace parts.words text)
    (blank' : ∀ c ∈ trail, isBlank c = true) (id : Nat) :
    line? (String.ofList (lead ++ (text ++ trail))) id =
      some (parts.sample id (String.ofList (lead ++ (text ++ trail)))) := by
  obtain ⟨front, gap, back, rfl, isGap, spacedName, spacedRest⟩ :=
    @Spaced.exists_append _ _ [parts.prog] _ spaced (List.cons_ne_nil _ _) (List.cons_ne_nil _ _)
  obtain ⟨text, gap', back, rfl, isGap', spacedFigures, spacedEnd⟩ :=
    spacedRest.exists_append (List.cons_ne_nil _ _) (List.cons_ne_nil _ _)
  obtain ⟨gap'', object, rfl, isGap'', spacedObject⟩ := spacedEnd.exists_more
  obtain rfl := spacedName.eq_of_last
  obtain rfl := spacedObject.eq_of_last
  have dropped : (lead ++ (parts.prog ++ (gap ++ (text ++ (gap' ++ (parts.symbol ++ (gap'' ++
      ('(' :: parts.dso ++ [')'])))))) ++ trail)).dropWhile isBlank =
      parts.prog ++ (gap ++ (text ++ (gap' ++ (parts.symbol ++ gap'')))) ++
        ('(' :: (parts.dso ++ ')' :: trail)) := by
    obtain ⟨c, first, visible⟩ := proper.prog.first
    obtain ⟨prog, same⟩ := List.head?_eq_some_iff.mp first
    rw [dropWhile_append_of_stops blank (by rw [same]; exact stops_cons visible)]
    simp only [List.append_assoc, List.cons_append, List.nil_append]
  obtain ⟨c, last⟩ : ∃ c, gap''.getLast? = some c := ⟨_, List.getLast?_eq_some_getLast isGap''.nonempty⟩
  have cut := @object?_append (parts.prog ++ (gap ++ (text ++ (gap' ++ (parts.symbol ++ gap''))))) _ _ c
    (by simp only [List.getLast?_append, last, Option.some_or])
    (isBlank_of_isSpace c (isGap''.all c (List.mem_of_getLast? last))) proper.dso blank'
  unfold line?
  rw [String.toList_ofList, dropped, cut]
  simp only [Option.bind_eq_bind, Option.bind_some, name?_of_spaced proper spacedFigures isGap isGap' isGap'']
  rfl

/-- Parts whose name and symbol look like figures and objects themselves. -/
def ambiguous : Parts where
  prog := "C2 12/3 [4] 5.6: 7 cycle".toList
  figures :=
    { pid := "8".toList, tid := none, cpu := some "9".toList, time := "10.11".toList, cycles := "12".toList,
      ip := "fF0".toList }
  modifier := some "uppp".toList
  symbol := "f (g) 1 cycles: 2 h (i)".toList
  dso := "[kernel] ".toList

theorem line?_of_spaced_ambiguous : ambiguous.Proper ∧
    line? "  C2 12/3 [4] 5.6: 7 cycle 8\t[9] 10.11:  12 cycles:uppp: fF0 f (g) 1 cycles: 2 h (i) \t([kernel] )\r" 3 =
      some (ambiguous.sample 3
        "  C2 12/3 [4] 5.6: 7 cycle 8\t[9] 10.11:  12 cycles:uppp: fF0 f (g) 1 cycles: 2 h (i) \t([kernel] )\r") := by
  have proper : ambiguous.Proper :=
    { prog := ⟨by decide, ⟨'C', rfl, by decide⟩, ⟨'e', rfl, by decide⟩⟩
      uncounted := by decide +kernel
      figures :=
        { pid := run_of_all (by decide) (by decide)
          tid := nofun
          cpu := by
            rintro _ ⟨⟩
            exact run_of_all (by decide) (by decide)
          time := ⟨"10".toList, "11".toList, rfl, run_of_all (by decide) (by decide),
            run_of_all (by decide) (by decide)⟩
          cycles := run_of_all (by decide) (by decide)
          ip := run_of_all (by decide) (by decide) }
      modifies := by
        rintro _ ⟨⟩
        exact run_of_all (by decide) (by decide)
      symbol := ⟨by decide, ⟨'f', rfl, by decide⟩, ⟨')', rfl, by decide⟩⟩
      dso := fun c isIn => by
        have plain : "[kernel] ".toList.all (fun c => c != '(' && c != ')') = true := by decide
        simpa using List.all_eq_true.mp plain c isIn }
  have spaced : Spaced isSpace ambiguous.words _ :=
    .more _ (run_of_all (by decide) (by decide) : Run isSpace [' ']) <|
    .more _ (run_of_all (by decide) (by decide) : Run isSpace ['\t']) <|
    .more _ (run_of_all (by decide) (by decide) : Run isSpace [' ']) <|
    .more _ (run_of_all (by decide) (by decide) : Run isSpace [' ', ' ']) <|
    .more _ (run_of_all (by decide) (by decide) : Run isSpace [' ']) <|
    .more _ (run_of_all (by decide) (by decide) : Run isSpace [' ']) <|
    .more _ (run_of_all (by decide) (by decide) : Run isSpace [' ']) <|
    .more _ (run_of_all (by decide) (by decide) : Run isSpace [' ', '\t']) <|
    .last _
  exact ⟨proper, line?_of_spaced proper (List.all_eq_true.mp (by decide : [' ', ' '].all isBlank = true)) spaced
    (List.all_eq_true.mp (by decide : ['\r'].all isBlank = true)) 3⟩

end TelemetryHub.Report
