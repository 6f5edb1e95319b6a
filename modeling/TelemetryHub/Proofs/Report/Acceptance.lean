import Mathlib.Data.List.Basic
import Mathlib.Data.List.Induction
import TelemetryHub.Proofs.Report.Recovery
import TelemetryHub.Proofs.Text.Lines
import TelemetryHub.Report

/-!
# Which lines have a sample

A line has a sample exactly when it can be cut into the parts of one (`Cut`): the name begins with a
visible character and the symbol is not empty, and otherwise both may be anything. Such a line can often be
cut in several ways. The sample is made from one with the shortest name (`ShortestCut`), since names are
tried from the shortest one on and a name behind which the rest of the line cannot be read is passed over
(`exists_nameFrom`). A name that ends with blanks need not be tried: without them it is a name as well, the
gap behind it being longer (`exists_name?`).

So a report has just the samples of its lines that can be cut, in their order (`collected_numbered`).
-/

namespace TelemetryHub.Report

open Text (isBlank isDigit)

/-! ## Cuts of a line -/

/-- What the parts of a line have to be. -/
structure Parts.Legal (parts : Parts) : Prop where
  prog : ∃ c, parts.prog.head? = some c ∧ isBlank c = false
  figures : parts.figures.Proper
  modifies : Modifies parts.modifier
  symbol : parts.symbol ≠ []
  dso : ∀ c ∈ parts.dso, c ≠ '(' ∧ c ≠ ')'

/-- A line is made of the words of parts with gaps between them, and perhaps blanks around. -/
structure Cut (line : List Char) (parts : Parts) : Prop where
  legal : parts.Legal
  layout : ∃ lead text trail, line = lead ++ (text ++ trail) ∧ (∀ c ∈ lead, isBlank c = true) ∧
    Spaced isBlank parts.words text ∧ ∀ c ∈ trail, isBlank c = true

/-- No other cut of the line has a shorter name. -/
structure ShortestCut (line : List Char) (parts : Parts) : Prop where
  cut : Cut line parts
  shortest : ∀ other, Cut line other → parts.prog.length ≤ other.prog.length

theorem Spaced.append {gap : Char → Bool} {words words' : List (List Char)} {front between back : List Char}
    (left : Spaced gap words front) (apart : Run gap between) (right : Spaced gap words' back) :
    Spaced gap (words ++ words') (front ++ (between ++ back)) := by
  induction left with
  | last word => exact .more word apart right
  | more word apart' _ ih =>
    rw [List.append_assoc, List.append_assoc]
    exact .more word apart' ih

/-- What stands behind the name of a cut, in front of its object: the figures and the symbol between gaps. -/
structure Behind (rest : List Char) (figures : Figures) (modifier : Option (List Char)) (symbol : List Char) :
    Prop where
  proper : figures.Proper
  modifies : Modifies modifier
  nonempty : symbol ≠ []
  layout : ∃ gap text gap' gap'', rest = gap ++ (text ++ (gap' ++ (symbol ++ gap''))) ∧ Run isBlank gap ∧
    Spaced isBlank (figures.words modifier) text ∧ Run isBlank gap' ∧ Run isBlank gap''

namespace Behind

variable {rest : List Char} {figures : Figures} {modifier : Option (List Char)} {symbol : List Char}

/-- Blanks in front make the first gap longer. -/
theorem append_blanks (behind : Behind rest figures modifier symbol) {blanks : List Char}
    (blank : ∀ c ∈ blanks, isBlank c = true) : Behind (blanks ++ rest) figures modifier symbol := by
  obtain ⟨gap, text, gap', gap'', rfl, isGap, spaced, isGap', isGap''⟩ := behind.layout
  refine ⟨behind.proper, behind.modifies, behind.nonempty, blanks ++ gap, text, gap', gap'',
    (List.append_assoc ..).symm, ⟨?_, ?_⟩, spaced, isGap', isGap''⟩
  · exact List.append_ne_nil_of_right_ne_nil blanks isGap.nonempty
  · exact List.forall_mem_append.mpr ⟨blank, isGap.all⟩

/-- It ends with a blank, which stands in front of the object. -/
theorem getLast? (behind : Behind rest figures modifier symbol) (front : List Char) :
    ∃ c, (front ++ rest).getLast? = some c ∧ isBlank c = true := by
  obtain ⟨gap, text, gap', gap'', rfl, -, -, -, isGap''⟩ := behind.layout
  have last := List.getLast?_eq_some_getLast isGap''.nonempty
  refine ⟨gap''.getLast isGap''.nonempty, ?_, isGap''.all _ (List.getLast_mem _)⟩
  simp only [List.getLast?_append, last, Option.some_or]

end Behind

/-- The parts of a cut in their places: blanks, the name, what is behind it, and the object. -/
theorem cut_iff {line : List Char} {parts : Parts} :
    Cut line parts ↔ (∃ c, parts.prog.head? = some c ∧ isBlank c = false) ∧
      (∀ c ∈ parts.dso, c ≠ '(' ∧ c ≠ ')') ∧
      ∃ lead rest trail, line = lead ++ (parts.prog ++ rest ++ ('(' :: (parts.dso ++ ')' :: trail))) ∧
        (∀ c ∈ lead, isBlank c = true) ∧ Behind rest parts.figures parts.modifier parts.symbol ∧
        ∀ c ∈ trail, isBlank c = true := by
  constructor
  · rintro ⟨legal, lead, text, trail, rfl, blank, spaced, blank'⟩
    obtain ⟨front, gap, back, rfl, isGap, spacedName, spacedRest⟩ :=
      @Spaced.exists_append _ _ [parts.prog] _ spaced (List.cons_ne_nil _ _) (List.cons_ne_nil _ _)
    obtain ⟨text, gap', back, rfl, isGap', spacedFigures, spacedEnd⟩ :=
      spacedRest.exists_append (List.cons_ne_nil _ _) (List.cons_ne_nil _ _)
    obtain ⟨gap'', object, rfl, isGap'', spacedObject⟩ := spacedEnd.exists_more
    obtain rfl := spacedName.eq_of_last
    obtain rfl := spacedObject.eq_of_last
    refine ⟨legal.prog, legal.dso, lead, gap ++ (text ++ (gap' ++ (parts.symbol ++ gap''))), trail, ?_, blank,
      ⟨legal.figures, legal.modifies, legal.symbol, gap, text, gap', gap'', rfl, isGap, spacedFigures, isGap',
        isGap''⟩, blank'⟩
    simp only [List.append_assoc, List.cons_append, List.nil_append]
  · rintro ⟨first, plain, lead, rest, trail, rfl, blank, behind, blank'⟩
    obtain ⟨gap, text, gap', gap'', rfl, isGap, spaced, isGap', isGap''⟩ := behind.layout
    have object : Spaced isBlank [parts.symbol, '(' :: parts.dso ++ [')']] _ := .more _ isGap'' (.last _)
    refine ⟨⟨first, behind.proper, behind.modifies, behind.nonempty, plain⟩, lead, _, trail, ?_, blank,
      .more parts.prog isGap (spaced.append isGap' object), blank'⟩
    simp only [List.append_assoc, List.cons_append, List.nil_append]

/-! ## The object -/

/-- What is read as the object stands in parentheses behind a blank, with nothing but blanks after it. -/
theorem exists_of_object? {cs front object : List Char} (read : object? cs = some (front, object)) :
    (∀ c ∈ object, c ≠ '(' ∧ c ≠ ')') ∧ (∃ c, front.getLast? = some c ∧ isBlank c = true) ∧
      ∃ trail, cs = front ++ ('(' :: (object ++ ')' :: trail)) ∧ ∀ c ∈ trail, isBlank c = true := by
  unfold object? at read
  split at read
  · next rest closed =>
    rw [List.span_eq_takeWhile_dropWhile] at read
    split at read
    · next inside blank before opened =>
      split at read
      · next blank' =>
        cases read
        obtain ⟨rfl, behind⟩ := Prod.mk.inj opened
        have reversed : cs.reverse = cs.reverse.takeWhile isBlank ++ ')' :: (rest.takeWhile (fun c =>
            decide (c ≠ '(') && decide (c ≠ ')')) ++ '(' :: blank :: before) := by
          rw [← behind, List.takeWhile_append_dropWhile, ← closed, List.takeWhile_append_dropWhile]
        refine ⟨fun c isIn => ?_, ⟨blank, by simp, blank'⟩, (cs.reverse.takeWhile isBlank).reverse, ?_,
          fun c isIn => List.all_eq_true.mp List.all_takeWhile c (List.mem_reverse.mp isIn)⟩
        · simpa using List.all_eq_true.mp List.all_takeWhile c (List.mem_reverse.mp isIn)
        · have same := congrArg List.reverse reversed
          rw [List.reverse_reverse] at same
          simpa using same
      · cases read
    · cases read
  · cases read

/-! ## The symbol and the figures -/

theorem exists_of_symbol? {cs symbol : List Char} (read : symbol? cs = some symbol) :
    symbol ≠ [] ∧ ∃ before behind, cs = before ++ (symbol ++ behind) ∧ (∀ c ∈ before, isBlank c = true) ∧
      ∀ c ∈ behind, isBlank c = true := by
  unfold symbol? at read
  split at read
  · next nothing =>
    obtain ⟨c, found, rfl⟩ := Option.map_eq_some_iff.mp read
    have blank := (Text.trim_eq_nil_iff cs).mp nothing
    obtain ⟨before, behind, rfl⟩ := List.append_of_mem (List.mem_reverse.mp (List.mem_of_find?_eq_some found))
    exact ⟨List.cons_ne_nil _ _, before, behind, rfl, fun d isIn => blank d (List.mem_append_left _ isIn),
      fun d isIn => blank d (List.mem_append_right _ (List.mem_cons_of_mem _ isIn))⟩
  · next nonempty =>
    split at read
    · cases read
    · cases read
      exact ⟨nonempty, Text.exists_trim cs⟩

/-- A text that is not empty has a symbol, be it a blank. -/
theorem exists_symbol? {cs : List Char} (nonempty : cs ≠ []) (oneLine : '\n' ∉ cs) :
    ∃ symbol, symbol? cs = some symbol := by
  unfold symbol?
  split
  · obtain ⟨front, c, rfl⟩ := List.eq_nil_or_concat' cs |>.resolve_left nonempty
    have inside : c ≠ '\n' := fun same => oneLine (by simp [same])
    exact ⟨[c], by simp [inside]⟩
  · have inside : '\n' ∉ Text.trim cs := by
      obtain ⟨before, behind, same, -, -⟩ := Text.exists_trim cs
      exact fun isIn => oneLine (same ▸ List.mem_append_right _ (List.mem_append_left _ isIn))
    exact ⟨_, if_neg inside⟩

/-- What is read behind a name is what has to stand there. -/
theorem behind_of_remainder? {cs symbol : List Char} {figures : Figures}
    (read : remainder? cs = some (figures, symbol)) {c : Char} (last : cs.getLast? = some c)
    (blank : isBlank c = true) : ∃ modifier, Behind cs figures modifier symbol := by
  unfold remainder? at read
  simp only [Option.bind_eq_bind, Option.bind_eq_some_iff, blanks?_eq_some_iff] at read
  obtain ⟨rest, ⟨gap, rfl, isGap, -⟩, ⟨figures', behind⟩, found, after⟩ := read
  obtain ⟨modifier, text, rfl, spaced, proper, modifies, -⟩ := exists_spaced_of_figures? found
  cases behind with
  | nil => cases after
  | cons d behind =>
    dsimp only at after
    split at after
    · next blank' =>
      obtain ⟨symbol', found', same⟩ := Option.map_eq_some_iff.mp after
      cases same
      obtain ⟨nonempty, before, behind', same, blanks, blanks'⟩ := exists_of_symbol? found'
      have ends : behind ≠ [] := by
        rintro rfl
        simp only [List.dropLast_nil, List.nil_eq, List.append_eq_nil_iff] at same
        exact nonempty same.2.1
      -- the blank that is cut off in front of the object belongs to the last gap
      obtain ⟨front, e, rfl⟩ := List.eq_nil_or_concat' behind |>.resolve_left ends
      have isLast : e = c := by
        rw [← List.cons_append, ← List.append_assoc, ← List.append_assoc, List.getLast?_concat] at last
        exact Option.some.inj last
      rw [List.dropLast_concat] at same
      refine ⟨modifier, proper, modifies, nonempty, gap, text, d :: before, behind' ++ [e], ?_, isGap, spaced,
        ⟨List.cons_ne_nil _ _, List.forall_mem_cons.mpr ⟨blank', blanks⟩⟩,
        ⟨List.append_ne_nil_of_right_ne_nil _ (List.cons_ne_nil _ _), ?_⟩⟩
      · rw [same]
        simp only [List.append_assoc, List.cons_append]
      · exact List.forall_mem_append.mpr ⟨blanks', by simpa [isLast] using blank⟩
    · cases after

/-- What has to stand behind a name is read, though perhaps with another symbol. -/
theorem exists_remainder? {rest symbol : List Char} {figures : Figures} {modifier : Option (List Char)}
    (behind : Behind rest figures modifier symbol) (oneLine : '\n' ∉ rest) :
    ∃ found, remainder? rest = some found := by
  obtain ⟨proper, modifies, nonempty, gap, text, gap', gap'', rfl, isGap, spaced, isGap', isGap''⟩ := behind
  obtain ⟨c, gap', rfl⟩ := List.exists_cons_of_ne_nil isGap'.nonempty
  have between : (gap' ++ (symbol ++ gap'')).dropLast = gap' ++ (symbol ++ gap''.dropLast) := by
    rw [← List.append_assoc, List.dropLast_append_of_ne_nil isGap''.nonempty, List.append_assoc]
  obtain ⟨symbol', found⟩ : ∃ symbol', symbol? (gap' ++ (symbol ++ gap'')).dropLast = some symbol' := by
    refine exists_symbol? ?_ fun isIn => oneLine ?_
    · rw [between]
      exact List.append_ne_nil_of_right_ne_nil _ (List.append_ne_nil_of_left_ne_nil nonempty _)
    · have inside := List.mem_cons_of_mem c (List.dropLast_subset _ isIn)
      exact List.mem_append_right _ (List.mem_append_right _ inside)
  have read := remainder?_eq_map proper modifies spaced isGap (isGap'.all c List.mem_cons_self)
    (gap' ++ (symbol ++ gap''))
  rw [found] at read
  exact ⟨_, read⟩

/-! ## The name -/

/-- What is found as the name ends where the rest of the line is read. -/
theorem exists_of_nameFrom {taken cs name : List Char} {found : Figures × List Char}
    (read : nameFrom taken cs = some (name, found)) :
    ∃ back rest, cs = back ++ rest ∧ name = taken.reverse ++ back ∧ remainder? rest = some found := by
  induction cs generalizing taken with
  | nil =>
    unfold nameFrom at read
    split at read
    · next found' here =>
      cases read
      refine ⟨[], [], rfl, (List.append_nil _).symm, ?_⟩
      split at here
      · cases here
      · exact here
    · cases read
  | cons c cs ih =>
    unfold nameFrom at read
    split at read
    · next found' here =>
      cases read
      refine ⟨[], c :: cs, rfl, (List.append_nil _).symm, ?_⟩
      split at here
      · cases here
      · exact here
    · dsimp only at read
      split at read
      · cases read
      · obtain ⟨back, rest, rfl, rfl, ends⟩ := ih read
        exact ⟨c :: back, rest, rfl, by rw [List.reverse_cons, List.append_assoc]; rfl, ends⟩

/-- A name is found no later than where the rest of the line is read behind a visible character. -/
theorem exists_nameFrom {taken back rest : List Char} {found : Figures × List Char} (oneLine : '\n' ∉ back)
    (last : isBehindBlank (back.reverse ++ taken) = false) (ends : remainder? rest = some found) :
    ∃ back' found', nameFrom taken (back ++ rest) = some (taken.reverse ++ back', found') ∧
      back'.length ≤ back.length := by
  induction back generalizing taken with
  | nil =>
    refine ⟨[], found, ?_, Nat.le_refl _⟩
    unfold nameFrom
    rw [show isBehindBlank taken = false from last, if_neg Bool.false_ne_true, List.nil_append, ends,
      List.append_nil]
  | cons c back ih =>
    cases here : if isBehindBlank taken then none else remainder? (c :: back ++ rest) with
    | some found' =>
      refine ⟨[], found', ?_, Nat.zero_le _⟩
      unfold nameFrom
      rw [here, List.append_nil]
    | none =>
      obtain ⟨back', found', goesOn, shorter⟩ := @ih (c :: taken)
        (fun isIn => oneLine (List.mem_cons_of_mem c isIn))
        (by rwa [List.reverse_cons, List.append_assoc] at last)
      have notEnd : c ≠ '\n' := fun same => oneLine (same ▸ List.mem_cons_self)
      refine ⟨c :: back', found', ?_, Nat.succ_le_succ shorter⟩
      unfold nameFrom
      rw [here]
      change (if c = '\n' then none else nameFrom (c :: taken) (back ++ rest)) = _
      rw [if_neg notEnd, goesOn, List.reverse_cons, List.append_assoc]
      rfl

/-- A name that begins with a visible character is one that ends with such a character, and blanks. -/
theorem exists_visible_end {c : Char} (visible : isBlank c = false) (cs : List Char) :
    ∃ back blanks, cs = back ++ blanks ∧ (∀ d ∈ blanks, isBlank d = true) ∧
      isBehindBlank (back.reverse ++ [c]) = false := by
  induction cs using List.reverseRecOn with
  | nil => exact ⟨[], [], rfl, nofun, visible⟩
  | append_singleton cs d ih =>
    cases blank : isBlank d with
    | false => exact ⟨cs ++ [d], [], (List.append_nil _).symm, nofun, by simp [isBehindBlank, blank]⟩
    | true =>
      obtain ⟨back, blanks, rfl, allBlank, last⟩ := ih
      refine ⟨back, blanks ++ [d], List.append_assoc .., ?_, last⟩
      exact List.forall_mem_append.mpr ⟨allBlank, by simpa using blank⟩

theorem name?_of_oneLine {c : Char} {cs : List Char} (oneLine : '\n' ∉ c :: cs) :
    name? (c :: cs) = nameFrom [c] cs := by
  unfold name?
  rw [leastName_of_oneLine oneLine]

/-- The front of a line that has a name has one that is found, and it is not longer. -/
theorem exists_name? {name rest symbol : List Char} {figures : Figures} {modifier : Option (List Char)}
    (first : ∃ c, name.head? = some c ∧ isBlank c = false) (behind : Behind rest figures modifier symbol)
    (oneLine : '\n' ∉ name ++ rest) :
    ∃ name' found, name? (name ++ rest) = some (name', found) ∧ name'.length ≤ name.length := by
  obtain ⟨c, isFirst, visible⟩ := first
  obtain ⟨name, rfl⟩ := List.head?_eq_some_iff.mp isFirst
  obtain ⟨back, blanks, rfl, blank, last⟩ := exists_visible_end visible name
  rw [List.cons_append, List.append_assoc] at oneLine
  have inside : '\n' ∉ back ∧ '\n' ∉ blanks ++ rest := by
    simpa only [List.mem_cons, List.mem_append, not_or] using (List.not_mem_of_not_mem_cons oneLine)
  obtain ⟨found, ends⟩ := exists_remainder? (behind.append_blanks blank) inside.2
  obtain ⟨back', found', read, shorter⟩ := exists_nameFrom inside.1 last ends
  refine ⟨c :: back', found', ?_, ?_⟩
  · rw [List.cons_append, List.append_assoc, name?_of_oneLine oneLine]
    exact read
  · simp only [List.length_cons, List.length_append]
    omega

/-- What is found as the name of a front that ends with a blank has figures and a symbol behind it. -/
theorem behind_of_name? {front name symbol : List Char} {figures : Figures}
    (read : name? front = some (name, figures, symbol)) (oneLine : '\n' ∉ front) {c : Char}
    (last : front.getLast? = some c) (blank : isBlank c = true) :
    ∃ rest modifier, front = name ++ rest ∧ name.head? = front.head? ∧ Behind rest figures modifier symbol := by
  have nonempty : front ≠ [] := by
    rintro rfl
    cases last
  obtain ⟨d, front, rfl⟩ := List.exists_cons_of_ne_nil nonempty
  rw [name?_of_oneLine oneLine] at read
  obtain ⟨back, rest, rfl, rfl, ends⟩ := exists_of_nameFrom read
  have nonempty : rest ≠ [] := by
    rintro rfl
    cases ends
  rw [← List.cons_append, List.getLast?_append, List.getLast?_eq_some_getLast nonempty, Option.some_or,
    ← List.getLast?_eq_some_getLast nonempty] at last
  obtain ⟨modifier, behind⟩ := behind_of_remainder? ends last blank
  exact ⟨rest, modifier, rfl, rfl, behind⟩

/-! ## Lines -/

/-- The sample of a line is made from a cut of it. -/
theorem exists_cut_of_line? {line : String} (oneLine : '\n' ∉ line.toList) {id : Nat} {sample : Sample}
    (read : line? line id = some sample) :
    ∃ parts, Cut line.toList parts ∧ sample = parts.sample id line := by
  unfold line? at read
  simp only [Option.bind_eq_bind, Option.bind_eq_some_iff, Option.pure_def, Option.some.injEq,
    Prod.exists] at read
  obtain ⟨front, dso, object, prog, figures, symbol, named, rfl⟩ := read
  obtain ⟨plain, ⟨c, last, blank⟩, trail, dropped, blank'⟩ := exists_of_object? object
  have whole := List.takeWhile_append_dropWhile (p := isBlank) (l := line.toList)
  rw [dropped] at whole
  have inside : '\n' ∉ front := fun isIn =>
    oneLine (whole ▸ List.mem_append_right _ (List.mem_append_left _ isIn))
  obtain ⟨rest, modifier, rfl, sameFirst, behind⟩ := behind_of_name? named inside last blank
  obtain ⟨d, first⟩ : ∃ d, prog.head? = some d := by
    rw [sameFirst]
    exact ⟨_, List.head?_eq_some_head fun nothing => by rw [nothing] at last; cases last⟩
  have visible : isBlank d = false := by
    refine stops_dropWhile isBlank line.toList d ?_
    rw [dropped, List.head?_append, ← sameFirst, first, Option.some_or]
  refine ⟨⟨prog, figures, modifier, symbol, dso⟩, cut_iff.mpr ⟨⟨d, first, visible⟩, plain, _, rest, trail,
    whole.symm, List.all_eq_true.mp List.all_takeWhile, behind, blank'⟩, rfl⟩

/-- A line with a cut has a sample, whose name is not longer than that of the cut. -/
theorem exists_line?_of_cut {line : String} (oneLine : '\n' ∉ line.toList) {parts : Parts}
    (cut : Cut line.toList parts) (id : Nat) :
    ∃ found : Parts, line? line id = some (found.sample id line) ∧ found.prog.length ≤ parts.prog.length := by
  obtain ⟨⟨c, first, visible⟩, plain, lead, rest, trail, same, blank, behind, blank'⟩ := cut_iff.mp cut
  obtain ⟨d, last, isGap⟩ := behind.getLast? parts.prog
  have object := object?_append last isGap plain blank'
  have dropped : line.toList.dropWhile isBlank =
      parts.prog ++ rest ++ ('(' :: (parts.dso ++ ')' :: trail)) := by
    obtain ⟨prog, isProg⟩ := List.head?_eq_some_iff.mp first
    rw [same, dropWhile_append_of_stops blank (by rw [isProg]; exact stops_cons visible)]
  have inside : '\n' ∉ parts.prog ++ rest := fun isIn =>
    oneLine (same ▸ List.mem_append_right _ (List.mem_append_left _ isIn))
  obtain ⟨name, ⟨figures, symbol⟩, named, shorter⟩ := exists_name? ⟨c, first, visible⟩ behind inside
  refine ⟨⟨name, figures, none, symbol, parts.dso⟩, ?_, shorter⟩
  unfold line?
  rw [dropped, object]
  simp only [Option.bind_eq_bind, Option.bind_some, named]
  rfl

theorem isSome_line?_iff {line : String} (oneLine : '\n' ∉ line.toList) (id : Nat) :
    (line? line id).isSome ↔ ∃ parts, Cut line.toList parts := by
  constructor
  · intro isSome
    obtain ⟨sample, read⟩ := Option.isSome_iff_exists.mp isSome
    obtain ⟨parts, cut, -⟩ := exists_cut_of_line? oneLine read
    exact ⟨parts, cut⟩
  · rintro ⟨parts, cut⟩
    obtain ⟨found, read, -⟩ := exists_line?_of_cut oneLine cut id
    exact Option.isSome_of_eq_some read

theorem exists_shortestCut_of_line? {line : String} (oneLine : '\n' ∉ line.toList) {id : Nat}
    {sample : Sample} (read : line? line id = some sample) :
    ∃ parts, ShortestCut line.toList parts ∧ sample = parts.sample id line := by
  obtain ⟨parts, cut, rfl⟩ := exists_cut_of_line? oneLine read
  refine ⟨parts, ⟨cut, fun other cut' => ?_⟩, rfl⟩
  obtain ⟨found, read', shorter⟩ := exists_line?_of_cut oneLine cut' id
  have same := congrArg Sample.prog (Option.some.inj (read.symm.trans read'))
  rwa [show parts.prog = found.prog from String.ofList_injective same]

/-! ## Reports -/

/-- The samples of lines, numbered from `next` on. A line that can be cut gives the sample of a cut with the
shortest name; any other line gives nothing. -/
inductive Collected : Nat → List (List Char) → List Sample → Prop where
  | done (next : Nat) : Collected next [] []
  | skip {next : Nat} {line : List Char} {lines : List (List Char)} {samples : List Sample}
    (uncut : ∀ parts, ¬Cut line parts) (rest : Collected next lines samples) :
    Collected next (line :: lines) samples
  | take {next : Nat} {line : List Char} {lines : List (List Char)} {samples : List Sample} {parts : Parts}
    (cut : ShortestCut line parts) (rest : Collected (next + 1) lines samples) :
    Collected next (line :: lines) (parts.sample next (String.ofList line) :: samples)

theorem collected_numbered {lines : List (List Char)} (oneLine : ∀ line ∈ lines, '\n' ∉ line) (next : Nat) :
    Collected next lines
      (numbered next (lines.filterMap fun line => line? (String.ofList line) 0)) := by
  induction lines generalizing next with
  | nil => exact .done next
  | cons line lines ih =>
    have here : '\n' ∉ (String.ofList line).toList := by
      rw [String.toList_ofList]
      exact oneLine line List.mem_cons_self
    have others := ih fun other isIn => oneLine other (List.mem_cons_of_mem line isIn)
    cases read : line? (String.ofList line) 0 with
    | none =>
      simp only [List.filterMap_cons, read]
      refine .skip (fun parts cut => ?_) (others next)
      have isSome := (isSome_line?_iff here 0).mpr ⟨parts, by rwa [String.toList_ofList]⟩
      rw [read] at isSome
      cases isSome
    | some sample =>
      simp only [List.filterMap_cons, read]
      obtain ⟨parts, cut, rfl⟩ := exists_shortestCut_of_line? here read
      rw [String.toList_ofList] at cut
      exact .take cut (others (next + 1))

/-- **Acceptance.** A line has a sample exactly if it can be cut into the parts of one, and then its fields
are the parts of a cut with the shortest name. A report has the samples of its lines in order, each of which
is whole; the lines that cannot be cut leave nothing in it. -/
theorem accepts_exactly_cuts :
    (∀ (line : String) (id : Nat), '\n' ∉ line.toList →
      ((line? line id).isSome ↔ ∃ parts, Cut line.toList parts) ∧
      ∀ sample, line? line id = some sample →
        ∃ parts, ShortestCut line.toList parts ∧ sample = parts.sample id line) ∧
    ∀ report : String, Collected 0 (Text.lines report.toList) (samples report) :=
  ⟨fun _ id oneLine => ⟨isSome_line?_iff oneLine id, fun _ => exists_shortestCut_of_line? oneLine⟩,
    fun report => collected_numbered (Text.lineEnd_notIn_lines report.toList) 0⟩

/-- A line that can be cut behind `a` and behind `b`, with a symbol of blanks for the longer name. -/
def twoNames : String := "a 1 2.3: 4 cycles: 5 b 6/7 8.9: 10 cycles:k: f   (x)"

theorem accepts_exactly_cuts_two_names : '\n' ∉ twoNames.toList ∧
    ∃ parts, ShortestCut twoNames.toList parts ∧ parts.prog = ['a'] ∧
      parts.symbol = "b 6/7 8.9: 10 cycles:k: f".toList := by
  have oneLine : '\n' ∉ twoNames.toList := by decide
  have read : line? twoNames 3 = some ⟨3, "a", "1", none, none, "2.3", "4", "5",
      "b 6/7 8.9: 10 cycles:k: f", "x", twoNames⟩ := by decide +kernel
  obtain ⟨parts, cut, same⟩ := (accepts_exactly_cuts.1 twoNames 3 oneLine).2 _ read
  refine ⟨oneLine, parts, cut, ?_, ?_⟩
  · exact (String.ofList_injective (congrArg Sample.prog same)).symm
  · exact (String.ofList_injective (congrArg Sample.symbol same)).symm

end TelemetryHub.Report
