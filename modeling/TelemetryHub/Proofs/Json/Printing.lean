import TelemetryHub.Json.Printer
import TelemetryHub.Proofs.Json.Documents

/-!
# What is printed spells the value

Both printed forms of a value are spellings of it, so the reader gives the value back. A printed form
has every key of an object once, so that a value has to keep its keys apart (`KeysDistinct`), as all
values do that come out of the reader (`keysDistinct_ofMessage`), and it has no double (`Shallow`).
-/

namespace TelemetryHub.Json

open Text (hexDigit hexValue?_hexDigit)

/-! ## Strings -/

theorem controlUnit {c : Char} (small : c.toNat < 0x20) :
    CodeUnit ['0', '0', hexDigit (c.toNat / 16), hexDigit (c.toNat % 16)] c.toNat := by
  have zero : Text.hexValue? '0' = some 0 := by decide
  exact ⟨'0', '0', _, _, 0, 0, c.toNat / 16, c.toNat % 16, rfl, zero, zero,
    hexValue?_hexDigit (by omega), hexValue?_hexDigit (by omega), by omega⟩

theorem escaped_body (c : Char) {text value : List Char} (more : StringBody text value) :
    StringBody (escaped c ++ text) (c :: value) := by
  have short : ∀ {name d : Char}, shortEscape? name = some d →
      StringBody (['\\', name] ++ text) (d :: value) := by
    intro name d known
    exact .escaped (.short known) more
  have ofNat : ∀ d : Char, c.toNat = d.toNat → c = d := by
    intro d same
    rw [← Char.ofNat_toNat c, same, Char.ofNat_toNat]
  unfold escaped
  split
  · next same => rw [same]; exact short (by decide)
  next notQuote =>
  split
  · next same => rw [same]; exact short (by decide)
  next notBackslash =>
  split
  · next same => rw [same]; exact short (by decide)
  split
  · next same => rw [same]; exact short (by decide)
  split
  · next same => rw [same]; exact short (by decide)
  split
  · next same => rw [ofNat '\x08' same]; exact short (by decide)
  split
  · next same => rw [ofNat '\x0c' same]; exact short (by decide)
  split
  · next small =>
    have notTrailing : isTrailing c.toNat = false := by
      simp only [isTrailing, Bool.and_eq_false_iff, decide_eq_false_iff_not]
      omega
    have notLeading : isLeading c.toNat = false := by
      simp only [isLeading, Bool.and_eq_false_iff, decide_eq_false_iff_not]
      omega
    have unit := StringBody.escaped (.unit (controlUnit small) notTrailing notLeading) more
    rw [Char.ofNat_toNat] at unit
    exact unit
  · next large => exact .plain ⟨notQuote, notBackslash, by omega⟩ more

theorem stringBody_escaped (cs : List Char) : StringBody (cs.flatMap escaped) cs := by
  induction cs with
  | nil => exact .nil
  | cons c cs ih => exact escaped_body c ih

theorem stringText_print (s : String) : StringText s (printString s.toList) :=
  ⟨s.toList.flatMap escaped, rfl, stringBody_escaped s.toList⟩

/-! ## Containers -/

/-- Printed parts are divided by commas. -/
theorem Divided.ofPrinted {α : Type} {part : α → List Char → Prop} {print : α → List Char}
    {lead last : List Char} (blank : Blank lead) (blank' : Blank last) {x : α} {xs : List α}
    (each : ∀ y ∈ x :: xs, part y (print y)) :
    Divided part (x :: xs)
      (lead ++ print x ++ (xs.flatMap (fun y => ',' :: (lead ++ print y)) ++ last)) := by
  induction xs generalizing x with
  | nil =>
    rw [List.append_assoc]
    exact .one blank (each x List.mem_cons_self) blank'
  | cons y ys ih =>
    have others := ih fun z member => each z (List.mem_cons_of_mem x member)
    have first := Divided.more blank (each x List.mem_cons_self) .nil others
    simpa using first

/-- A member in the compact form. -/
def compactMember (member : String × Json) : List Char :=
  printString member.1.toList ++ ':' :: printCompact member.2

/-- A member in the pretty form, `level` containers deep. -/
def prettyMember (level : Nat) (member : String × Json) : List Char :=
  printString member.1.toList ++ ':' :: ' ' :: printPretty level member.2

theorem printCompactItems_eq (items : List Json) :
    printCompactItems items = items.flatMap (fun item => ',' :: printCompact item) ++ [']'] := by
  induction items with
  | nil => rfl
  | cons item items ih => simp [printCompactItems, ih]

theorem printCompactMembers_eq (members : List (String × Json)) :
    printCompactMembers members =
      members.flatMap (fun member => ',' :: compactMember member) ++ ['\x7d'] := by
  induction members with
  | nil => rfl
  | cons member members ih => simp [printCompactMembers, compactMember, ih]

theorem printPrettyItems_eq (level : Nat) (items : List Json) :
    printPrettyItems level items =
      items.flatMap (fun item => ',' :: (newline (level + 1) ++ printPretty (level + 1) item)) ++
        (newline level ++ [']']) := by
  induction items with
  | nil => simp [printPrettyItems]
  | cons item items ih => simp [printPrettyItems, ih]

theorem printPrettyMembers_eq (level : Nat) (members : List (String × Json)) :
    printPrettyMembers level members =
      members.flatMap (fun member => ',' :: (newline (level + 1) ++ prettyMember (level + 1) member)) ++
        (newline level ++ ['\x7d']) := by
  induction members with
  | nil => simp [printPrettyMembers]
  | cons member members ih => simp [printPrettyMembers, prettyMember, ih]

theorem blank_newline (level : Nat) : Blank (newline level) := by
  intro c member
  rcases List.mem_cons.mp member with rfl | space
  · decide
  · rw [(List.mem_replicate.mp space).2]
    decide

/-! ## Values -/

/-- A bound for each member of a list is one for all of them, if greater bounds are bounds. -/
theorem exists_bound {α : Type} {P : Nat → α → Prop}
    (mono : ∀ {low high : Nat} {x : α}, low ≤ high → P low x → P high x) {xs : List α}
    (each : ∀ x ∈ xs, ∃ bound, P bound x) : ∃ bound, ∀ x ∈ xs, P bound x := by
  induction xs with
  | nil => exact ⟨0, nofun⟩
  | cons x xs ih =>
    obtain ⟨first, isBound⟩ := each x List.mem_cons_self
    obtain ⟨others, all⟩ := ih fun y isIn => each y (List.mem_cons_of_mem x isIn)
    refine ⟨max first others, fun y isIn => ?_⟩
    rcases List.mem_cons.mp isIn with rfl | later
    · exact mono (Nat.le_max_left _ _) isBound
    · exact mono (Nat.le_max_right _ _) (all y later)

/-- The value has no double and at most `depth` containers inside each other. -/
def Shallow : Nat → Json → Prop
  | _, .num (.real _) => False
  | 0, .arr _ => False
  | 0, .obj _ => False
  | depth + 1, .arr items => ∀ item ∈ items, Shallow depth item
  | depth + 1, .obj members => ∀ member ∈ members, Shallow depth member.2
  | _, _ => True

theorem Spells.scalar {depth : Nat} {value : Json} {text : List Char}
    (spelled : ScalarText value text) : Spells depth value text := by
  cases depth with
  | zero => exact spelled
  | succ depth => exact .inl spelled

/-- The two printed forms of a value without parts are the same spelling of it. -/
theorem scalarText_print {depth : Nat} {value : Json} (shallow : Shallow depth value)
    (notList : ∀ items, value ≠ .arr items) (notObject : ∀ members, value ≠ .obj members)
    (level : Nat) :
    ScalarText value (printCompact value) ∧ printPretty level value = printCompact value := by
  cases value with
  | null => exact ⟨rfl, by simp [printPretty, printCompact]⟩
  | bool b => cases b <;> exact ⟨rfl, by simp [printPretty, printCompact]⟩
  | num n =>
    cases n with
    | whole w => exact ⟨rfl, by simp [printPretty, printCompact]⟩
    | real x => cases depth <;> simp [Shallow] at shallow
  | str s => exact ⟨stringText_print s, by simp [printPretty, printCompact]⟩
  | arr items => exact absurd rfl (notList items)
  | obj members => exact absurd rfl (notObject members)

/-- Printed items between brackets spell their list. -/
theorem spells_items {depth : Nat} {print : Json → List Char} {lead last : List Char}
    (blank : Blank lead) (blank' : Blank last) {item : Json} {items : List Json}
    (each : ∀ x ∈ item :: items, Spells depth x (print x)) :
    Spells (depth + 1) (.arr (item :: items))
      ('[' :: (lead ++ print item ++ (items.flatMap (fun x => ',' :: (lead ++ print x)) ++ last) ++
        [']'])) :=
  .inr (.inl ⟨item :: items, rfl, .some (Divided.ofPrinted blank blank' each)⟩)

/-- Printed members between braces spell their object, if their keys are different. -/
theorem spells_members {depth : Nat} {print : String × Json → List Char} {lead last : List Char}
    (blank : Blank lead) (blank' : Blank last) {member : String × Json}
    {members : List (String × Json)} (nodup : ((member :: members).map Prod.fst).Nodup)
    (each : ∀ x ∈ member :: members, Keyed StringText (Spells depth) x (print x)) :
    Spells (depth + 1) (.obj (member :: members))
      ('\x7b' :: (lead ++ print member ++ (members.flatMap (fun x => ',' :: (lead ++ print x)) ++ last) ++
        ['\x7d'])) :=
  .inr (.inr ⟨member :: members, by rw [Members.ofList_self nodup],
    .some (Divided.ofPrinted blank blank' each)⟩)

/-- The compact form of a value spells it. -/
theorem spells_compact {depth : Nat} {value : Json} (shallow : Shallow depth value)
    (distinct : KeysDistinct value) : Spells depth value (printCompact value) := by
  induction depth generalizing value with
  | zero =>
    refine .scalar (scalarText_print shallow ?_ ?_ 0).1
    · rintro items rfl
      simp [Shallow] at shallow
    · rintro members rfl
      simp [Shallow] at shallow
  | succ depth ih =>
    cases distinct with
    | null => exact .scalar rfl
    | bool b => exact .scalar (scalarText_print shallow nofun nofun 0).1
    | num n => exact .scalar (scalarText_print shallow nofun nofun 0).1
    | str s => exact .scalar (stringText_print s)
    | @arr items each =>
      cases items with
      | nil => exact .inr (.inl ⟨[], rfl, .none .nil⟩)
      | cons item items =>
        have spelled := spells_items .nil .nil fun x isIn => ih (shallow x isIn) (each x isIn)
        rw [printCompact, printCompactItems_eq]
        simpa using spelled
    | @obj members nodup each =>
      cases members with
      | nil => exact .inr (.inr ⟨[], rfl, .none .nil⟩)
      | cons member members =>
        have keyed : ∀ x ∈ member :: members, Keyed StringText (Spells depth) x (compactMember x) := by
          intro x isIn
          exact ⟨printString x.1.toList, [], [], printCompact x.2, rfl, stringText_print x.1, .nil,
            .nil, ih (shallow x isIn) (each x isIn)⟩
        have spelled := spells_members .nil .nil nodup keyed
        rw [printCompact, printCompactMembers_eq]
        simpa [compactMember] using spelled

/-- The pretty form of a value spells it, however far it is moved in. -/
theorem spells_pretty {depth : Nat} {value : Json} (shallow : Shallow depth value)
    (distinct : KeysDistinct value) (level : Nat) : Spells depth value (printPretty level value) := by
  induction depth generalizing value level with
  | zero =>
    have scalar := scalarText_print shallow (by rintro items rfl; simp [Shallow] at shallow)
      (by rintro members rfl; simp [Shallow] at shallow) level
    rw [scalar.2]
    exact .scalar scalar.1
  | succ depth ih =>
    have inside := blank_newline (level + 1)
    have outside := blank_newline level
    cases distinct with
    | null => exact .scalar (by rw [printPretty]; rfl)
    | bool b =>
      have scalar := scalarText_print shallow nofun nofun level
      rw [scalar.2]
      exact .scalar scalar.1
    | num n =>
      have scalar := scalarText_print shallow nofun nofun level
      rw [scalar.2]
      exact .scalar scalar.1
    | str s => exact .scalar (by rw [printPretty]; exact stringText_print s)
    | @arr items each =>
      cases items with
      | nil => exact .inr (.inl ⟨[], by rfl, .none .nil⟩)
      | cons item items =>
        have spelled := spells_items inside outside fun x isIn =>
          ih (shallow x isIn) (each x isIn) (level + 1)
        rw [printPretty, printPrettyItems_eq]
        simpa using spelled
    | @obj members nodup each =>
      cases members with
      | nil => exact .inr (.inr ⟨[], rfl, .none .nil⟩)
      | cons member members =>
        have space : Blank [' '] := by
          intro c isIn
          rw [List.mem_singleton.mp isIn]
          decide
        have keyed : ∀ x ∈ member :: members,
            Keyed StringText (Spells depth) x (prettyMember (level + 1) x) := by
          intro x isIn
          exact ⟨printString x.1.toList, [], [' '], printPretty (level + 1) x.2, rfl,
            stringText_print x.1, .nil, space, ih (shallow x isIn) (each x isIn) (level + 1)⟩
        have spelled := spells_members inside outside nodup keyed
        rw [printPretty, printPrettyMembers_eq]
        simpa [prettyMember] using spelled

end TelemetryHub.Json
