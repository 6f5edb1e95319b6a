import TelemetryHub.Proofs.Json.Doubles
import TelemetryHub.Proofs.Json.Printing

/-!
# What is printed is read again

A value of the format, with doubles or without, is printed as a text that the reader takes, up to the
depth of the value: it gives the value back with every double as it is reread (`taken_pretty`). Nothing
that the reader gives is deeper than it may be (`nested_value`), so a text that readers take for a value
when they go deep enough is read if and only if the value is not too deep (`read_iff_of_taken`).
-/

namespace TelemetryHub.Json

/-! ## Depth -/

/-- The value has at most `depth` containers inside each other. -/
def Nested : Nat → Json → Prop
  | 0, .arr _ => False
  | 0, .obj _ => False
  | depth + 1, .arr items => ∀ item ∈ items, Nested depth item
  | depth + 1, .obj members => ∀ member ∈ members, Nested depth member.2
  | _, _ => True

/-- Every double of the value is one of the format. -/
inductive Proper : Json → Prop where
  | null : Proper .null
  | bool (b : Bool) : Proper (.bool b)
  | num {n : Number} (proper : n.Proper) : Proper (.num n)
  | str (s : String) : Proper (.str s)
  | arr {items : List Json} (each : ∀ item ∈ items, Proper item) : Proper (.arr items)
  | obj {members : List (String × Json)} (each : ∀ member ∈ members, Proper member.2) :
      Proper (.obj members)

theorem nested_scalar {v : Json} {cs rest : List Char} (read : scalar cs = .ok (v, rest))
    (depth : Nat) : Nested depth v :=
  of_scalar (P := Nested depth) (by simp [Nested]) (by simp [Nested]) (by simp [Nested])
    (by simp [Nested]) read

/-- A value that is read is not deeper than the reader goes. -/
theorem nested_value {depth : Nat} {cs rest : List Char} {v : Json}
    (read : value depth cs = .ok (v, rest)) : Nested depth v :=
  of_value (P := Nested) (fun depth _ _ _ read => nested_scalar read depth)
    (fun _ _ each => each) (fun _ _ _ each => each) depth cs v rest read

/-- Every double that is read is one of the format. -/
theorem proper_value {depth : Nat} {cs rest : List Char} {v : Json}
    (read : value depth cs = .ok (v, rest)) : Proper v :=
  of_value (P := fun _ => Proper)
    (fun _ _ _ _ => of_scalar .null .bool .str fun _ _ _ read => .num (proper_numeral read))
    (fun _ _ => .arr) (fun _ _ _ => .obj) depth cs v rest read

theorem Nested.mono {low high : Nat} (le : low ≤ high) {v : Json} (nested : Nested low v) :
    Nested high v := by
  induction low generalizing high v with
  | zero =>
    cases v <;> simp [Nested] at nested ⊢
  | succ low ih =>
    obtain ⟨high, rfl⟩ : ∃ more, high = more + 1 := ⟨high - 1, by omega⟩
    cases v with
    | arr items => exact fun item isIn => ih (by omega) (nested item isIn)
    | obj members => exact fun member isIn => ih (by omega) (nested member isIn)
    | null | bool | num | str => simp [Nested]

/-- Every value has some depth. -/
theorem Proper.exists_nested {v : Json} (proper : Proper v) : ∃ depth, Nested depth v := by
  induction proper with
  | null | bool | num | str => exact ⟨0, by simp [Nested]⟩
  | arr _ ih =>
    obtain ⟨depth, nested⟩ := exists_bound (P := Nested) (fun le nested => nested.mono le) ih
    exact ⟨depth + 1, nested⟩
  | obj _ ih =>
    obtain ⟨depth, nested⟩ :=
      exists_bound (P := fun depth (member : String × Json) => Nested depth member.2)
        (fun le nested => nested.mono le) ih
    exact ⟨depth + 1, nested⟩

/-! ## Reading again -/

mutual

/-- The value with every double as it comes back when it is printed and read again. -/
def reread : Json → Json
  | .num (.real x) => .num (.real x.reread)
  | .arr items => .arr (rereadItems items)
  | .obj members => .obj (rereadMembers members)
  | other => other

def rereadItems : List Json → List Json
  | [] => []
  | item :: items => reread item :: rereadItems items

def rereadMembers : List (String × Json) → List (String × Json)
  | [] => []
  | member :: members => (member.1, reread member.2) :: rereadMembers members

end

theorem rereadItems_eq (items : List Json) : rereadItems items = items.map reread := by
  induction items with
  | nil => rfl
  | cons item items ih => rw [rereadItems, ih, List.map_cons]

theorem rereadMembers_eq (members : List (String × Json)) :
    rereadMembers members = members.map fun member => (member.1, reread member.2) := by
  induction members with
  | nil => rfl
  | cons member members ih => rw [rereadMembers, ih, List.map_cons]

/-- Reading again changes no depth. -/
theorem nested_reread (depth : Nat) (v : Json) : Nested depth (reread v) ↔ Nested depth v := by
  induction depth generalizing v with
  | zero =>
    cases v with
    | num n => cases n <;> simp [reread, Nested]
    | _ => simp [reread, Nested]
  | succ depth ih =>
    cases v with
    | num n => cases n <;> simp [reread, Nested]
    | null | bool | str => simp [reread, Nested]
    | arr items => simp [reread, rereadItems_eq, Nested, ih]
    | obj members => simp only [reread, rereadMembers_eq, Nested, List.forall_mem_map, ih]

/-! ## Printed texts -/

/-- A printed double is taken as the double that it is reread as. -/
theorem taken_real {x : Binary64} (proper : x.Proper) (depth : Nat) :
    Taken depth (.num (.real x.reread)) x.text := by
  obtain ⟨c, more, form, first⟩ := Binary64.text_starts proper
  refine .scalar ⟨c, more, form, ?_⟩ fun rest ends => ?_
  · rcases first with rfl | digit
    · decide
    · exact opened?_of_digit digit
  · have notLetter : c ≠ 'n' ∧ c ≠ 't' ∧ c ≠ 'f' ∧ c ≠ '"' := by
      rcases first with rfl | digit
      · decide
      · refine ⟨?_, ?_, ?_, ?_⟩ <;>
          rintro rfl <;> exact absurd digit (by decide)
    have read := Binary64.numeral_text proper ends
    rw [form, List.cons_append] at read ⊢
    simp [scalar, notLetter, first, read, Except.map]

theorem taken_scalar (v : Json) (spelled : ScalarText v (printCompact v)) (same : reread v = v)
    (level depth : Nat) (form : printPretty level v = printCompact v) :
    Taken depth (reread v) (printPretty level v) := by
  rw [same, form]
  exact (Spells.scalar spelled).taken

/-- The pretty form of a value is taken as the value with its doubles reread. -/
theorem taken_pretty {depth : Nat} {v : Json} (nested : Nested depth v) (proper : Proper v)
    (distinct : KeysDistinct v) (level : Nat) : Taken depth (reread v) (printPretty level v) := by
  have inside := blank_newline (level + 1)
  have outside := blank_newline level
  induction proper generalizing depth level with
  | null => exact taken_scalar .null rfl rfl level depth (by simp [printPretty, printCompact])
  | bool b =>
    refine taken_scalar (.bool b) ?_ rfl level depth (by simp [printPretty, printCompact])
    cases b <;> rfl
  | @num n proper =>
    cases n with
    | whole n => exact taken_scalar (.num (.whole n)) rfl rfl level depth (by simp [printPretty, printCompact])
    | real x =>
      rw [printPretty]
      exact taken_real proper depth
  | str s =>
    exact taken_scalar (.str s) (stringText_print s) rfl level depth (by simp [printPretty, printCompact])
  | @arr items _ ih =>
    obtain _ | _ | _ | _ | ⟨keysApart⟩ | _ := distinct
    cases depth with
    | zero => exact absurd nested (by simp [Nested])
    | succ depth =>
      rw [reread, rereadItems_eq]
      cases items with
      | nil => exact .list (.none .nil)
      | cons item items =>
        have each : ∀ x ∈ item :: items, Taken depth (reread x) (printPretty (level + 1) x) :=
          fun x isIn => ih x isIn (nested x isIn) (keysApart x isIn) (level + 1)
            (blank_newline _) (blank_newline _)
        have enclosed : Enclosed '[' ']' (fun x => Taken depth (reread x)) (item :: items) _ :=
          .some (Divided.ofPrinted inside outside each)
        have taken := Taken.list (enclosed.map reread fun _ _ taken => taken)
        rw [printPretty, printPrettyItems_eq]
        simpa using taken
  | @obj members _ ih =>
    obtain _ | _ | _ | _ | _ | ⟨nodup, keysApart⟩ := distinct
    cases depth with
    | zero => exact absurd nested (by simp [Nested])
    | succ depth =>
      have keys : ((members.map fun member => (member.1, reread member.2)).map Prod.fst).Nodup := by
        rw [List.map_map]
        exact nodup
      rw [reread, rereadMembers_eq, ← Members.ofList_self keys]
      cases members with
      | nil => exact .object (.none .nil)
      | cons member members =>
        have space : Blank [' '] := by
          intro c isIn
          rw [List.mem_singleton.mp isIn]
          decide
        have each : ∀ x ∈ member :: members,
            Keyed StringText (Taken depth) (x.1, reread x.2) (prettyMember (level + 1) x) := by
          intro x isIn
          exact ⟨printString x.1.toList, [], [' '], printPretty (level + 1) x.2, rfl,
            stringText_print x.1, .nil, space, ih x isIn (nested x isIn) (keysApart x isIn) (level + 1)
              (blank_newline _) (blank_newline _)⟩
        have enclosed : Enclosed '\x7b' '\x7d'
            (fun x : String × Json => Keyed StringText (Taken depth) (x.1, reread x.2))
            (member :: members) _ := .some (Divided.ofPrinted inside outside each)
        have taken := Taken.object (enclosed.map (fun x => (x.1, reread x.2)) fun _ _ keyed => keyed)
        rw [printPretty, printPrettyMembers_eq]
        simpa [prettyMember] using taken

/-! ## Deeper readers -/

section Wider

variable {item item' : List Char → Outcome Json}
  (wider : ∀ cs result, item cs = .ok result → item' cs = .ok result)

include wider

theorem moreItems_wider {taken : List Json} {room cs : List Char} {result : List Json × List Char}
    (accepted : moreItems item taken room cs = .ok result) :
    moreItems item' taken room cs = .ok result := by
  induction room generalizing taken cs with
  | nil => cases accepted
  | cons _ room ih =>
    unfold moreItems at accepted ⊢
    split at accepted
    · cases accepted
    · next c rest _ =>
      split at accepted
      · next closed => rwa [if_pos closed]
      next notClosed =>
      rw [if_neg notClosed]
      split at accepted
      · next comma =>
        rw [if_pos comma]
        split at accepted
        · cases accepted
        · cases accepted
        · split at accepted
          · next read =>
            rw [wider _ _ read]
            exact ih accepted
          · cases accepted
      · cases accepted

theorem items_wider {cs : List Char} {result : List Json × List Char}
    (accepted : items item cs = .ok result) : items item' cs = .ok result := by
  unfold items at accepted ⊢
  split at accepted
  · cases accepted
  · exact accepted
  · split at accepted
    · next read =>
      rw [wider _ _ read]
      exact moreItems_wider wider accepted
    · cases accepted

theorem member_wider {cs : List Char} {result : (String × Json) × List Char}
    (accepted : member item cs = .ok result) : member item' cs = .ok result := by
  unfold member at accepted ⊢
  split at accepted
  · cases accepted
  split at accepted
  · cases accepted
  split at accepted
  · cases accepted
  · next read =>
    rw [wider _ _ read]
    exact accepted

theorem moreMembers_wider {taken : Members} {room cs : List Char} {result : Members × List Char}
    (accepted : moreMembers item taken room cs = .ok result) :
    moreMembers item' taken room cs = .ok result := by
  induction room generalizing taken cs with
  | nil => cases accepted
  | cons _ room ih =>
    unfold moreMembers at accepted ⊢
    split at accepted
    · cases accepted
    · next c rest _ =>
      split at accepted
      · next closed => rwa [if_pos closed]
      next notClosed =>
      rw [if_neg notClosed]
      split at accepted
      · next comma =>
        rw [if_pos comma]
        split at accepted
        · cases accepted
        · next c rest _ =>
          split at accepted
          · next quote =>
            rw [if_pos quote]
            split at accepted
            · next read =>
              rw [member_wider wider read]
              exact ih accepted
            · cases accepted
          · split at accepted <;> cases accepted
      · cases accepted

theorem members_wider {cs : List Char} {result : Members × List Char}
    (accepted : members item cs = .ok result) : members item' cs = .ok result := by
  unfold members at accepted ⊢
  split at accepted
  · cases accepted
  · next c rest _ =>
    split at accepted
    · next closed => rwa [if_pos closed]
    next notClosed =>
    rw [if_neg notClosed]
    split at accepted
    · next quote =>
      rw [if_pos quote]
      split at accepted
      · next read =>
        rw [member_wider wider read]
        exact moreMembers_wider wider accepted
      · cases accepted
    · cases accepted

end Wider

/-- A reader that goes deeper reads the same. -/
theorem value_succ {depth : Nat} {cs : List Char} {result : Json × List Char}
    (accepted : value depth cs = .ok result) : value (depth + 1) cs = .ok result := by
  induction depth generalizing cs result with
  | zero =>
    unfold value at accepted ⊢
    split at accepted
    · cases accepted
    · next c rest _ =>
      split at accepted
      · cases accepted
      · next unopened =>
        rw [Bool.not_eq_true, Bool.or_eq_false_iff, decide_eq_false_iff_not,
          decide_eq_false_iff_not] at unopened
        rwa [if_neg unopened.1, if_neg unopened.2]
  | succ depth ih =>
    have wider : ∀ cs result, value depth cs = .ok result → value (depth + 1) cs = .ok result :=
      fun cs result => ih
    rw [value] at accepted ⊢
    split at accepted
    · cases accepted
    · next c rest _ =>
      split at accepted
      · next isList =>
        rw [if_pos isList]
        split at accepted
        · next read =>
          rw [items_wider wider read]
          exact accepted
        · cases accepted
      next notList =>
      rw [if_neg notList]
      split at accepted
      · next isObject =>
        rw [if_pos isObject]
        split at accepted
        · next read =>
          rw [members_wider wider read]
          exact accepted
        · cases accepted
      next notObject =>
      rwa [if_neg notObject]

theorem value_mono {low high : Nat} (le : low ≤ high) {cs : List Char} {result : Json × List Char}
    (accepted : value low cs = .ok result) : value high cs = .ok result := by
  induction le with
  | refl => exact accepted
  | step _ ih => exact value_succ ih

/-- If readers that go deep enough take a text for a value, the text is read if and only if the value is
not too deep, and as nothing else. -/
theorem read_iff_of_taken {v v' : Json} (same : ∀ depth, Nested depth v' ↔ Nested depth v)
    (proper : Proper v) {text : List Char} (taken : ∀ depth, Nested depth v → Taken depth v' text)
    {before behind : List Char} (blank : Blank before) (blank' : Blank behind) (other : Json) :
    read (String.ofList (before ++ (text ++ behind))) = .ok other ↔
      Nested depthLimit v ∧ other = v' := by
  have ends : Ends behind := by
    have atEnd : Ends [] := fun c first => by cases first
    simpa using atEnd.blank blank'
  constructor
  · intro accepted
    rw [read_value_iff, String.toList_ofList] at accepted
    obtain ⟨rest, found, -⟩ := accepted
    obtain ⟨depth, nested⟩ := proper.exists_nested
    have deep := (taken _ (nested.mono (Nat.le_max_left depth depthLimit))).read before behind blank ends
    have found' := value_mono (Nat.le_max_right depth depthLimit) found
    obtain ⟨rfl, rfl⟩ := Prod.mk.inj (Except.ok.inj (found'.symm.trans deep))
    exact ⟨(same depthLimit).mp (nested_value found), rfl⟩
  · rintro ⟨nested, rfl⟩
    exact (taken depthLimit nested).read_whole blank blank'

end TelemetryHub.Json
