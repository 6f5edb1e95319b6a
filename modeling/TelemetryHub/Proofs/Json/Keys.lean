import TelemetryHub.Json.Reader

/-!
# Objects keep their keys apart

`KeysDistinct` says that no object inside a value has a key twice. Putting members together in their
order keeps it (`Members.insert`), so every value that is read has it (`keysDistinct_ofMessage`).
`of_value` is the induction behind this: what holds of values without parts and of containers whose
parts it holds of, holds of all that is read.
-/

namespace TelemetryHub.Json

/-- Every object of the value has each key once. -/
inductive KeysDistinct : Json → Prop where
  | null : KeysDistinct .null
  | bool (b : Bool) : KeysDistinct (.bool b)
  | num (n : Number) : KeysDistinct (.num n)
  | str (s : String) : KeysDistinct (.str s)
  | arr {items : List Json} (each : ∀ item ∈ items, KeysDistinct item) : KeysDistinct (.arr items)
  | obj {members : List (String × Json)} (nodup : (members.map Prod.fst).Nodup)
      (each : ∀ member ∈ members, KeysDistinct member.2) : KeysDistinct (.obj members)

/-- The members of an object, put together in their order. -/
def Members.ofList (members : List (String × Json)) : Members :=
  members.foldl (fun taken member => Members.insert member.1 member.2 taken) []

namespace Members

theorem insert_new {key : String} {value : Json} {members : Members}
    (new : key ∉ members.map Prod.fst) : insert key value members = members ++ [(key, value)] := by
  induction members with
  | nil => rfl
  | cons member members ih =>
    obtain ⟨k, v⟩ := member
    rw [List.map_cons, List.mem_cons, not_or] at new
    have other : k ≠ key := fun same => new.1 same.symm
    simp [insert, other, ih new.2]

theorem nodup_insert {key : String} {value : Json} {members : Members}
    (nodup : (members.map Prod.fst).Nodup) : ((insert key value members).map Prod.fst).Nodup := by
  rw [keys_insert]
  split
  · exact nodup
  · next new =>
    rw [List.nodup_append]
    refine ⟨nodup, List.pairwise_singleton _ _, ?_⟩
    intro a isIn b isKey same
    rw [List.mem_singleton.mp isKey] at same
    exact new (same ▸ isIn)

theorem of_mem_insert {key : String} {value : Json} {members : Members} {member : String × Json}
    (isIn : member ∈ insert key value members) : member = (key, value) ∨ member ∈ members := by
  induction members with
  | nil => exact .inl (List.mem_singleton.mp isIn)
  | cons first members ih =>
    obtain ⟨k, v⟩ := first
    unfold insert at isIn
    split at isIn
    · rcases List.mem_cons.mp isIn with same | later
      · exact .inl same
      · exact .inr (List.mem_cons_of_mem _ later)
    · rcases List.mem_cons.mp isIn with rfl | later
      · exact .inr List.mem_cons_self
      · rcases ih later with same | later
        · exact .inl same
        · exact .inr (List.mem_cons_of_mem _ later)

/-- Members with different keys are put together as they are. -/
theorem foldl_insert {members taken : Members} (nodup : ((taken ++ members).map Prod.fst).Nodup) :
    members.foldl (fun taken member => insert member.1 member.2 taken) taken = taken ++ members := by
  induction members generalizing taken with
  | nil => simp
  | cons member members ih =>
    have new : member.1 ∉ taken.map Prod.fst := by
      rw [List.map_append, List.map_cons] at nodup
      intro inTaken
      exact (List.nodup_append.mp nodup).2.2 _ inTaken _ List.mem_cons_self rfl
    rw [List.foldl_cons, insert_new new, ih (by simpa using nodup)]
    simp

theorem ofList_self {members : Members} (nodup : (members.map Prod.fst).Nodup) :
    ofList members = members := by
  unfold ofList
  rw [foldl_insert (by simpa using nodup), List.nil_append]

end Members

/-! ## What is read -/

section Loops

variable {P : Json → Prop} {item : List Char → Outcome Json}
  (reads : ∀ cs value rest, item cs = .ok (value, rest) → P value)

include reads

theorem each_moreItems {taken items : List Json} {room cs rest : List Char}
    (before : ∀ x ∈ taken, P x) (accepted : moreItems item taken room cs = .ok (items, rest)) :
    ∀ x ∈ items, P x := by
  induction room generalizing taken cs with
  | nil => cases accepted
  | cons _ room ih =>
    unfold moreItems at accepted
    split at accepted
    · cases accepted
    split at accepted
    · cases accepted
      intro x isIn
      exact before x (List.mem_reverse.mp isIn)
    split at accepted
    · split at accepted
      · cases accepted
      · cases accepted
      · split at accepted
        · next value left read =>
          refine ih ?_ accepted
          intro x isIn
          rcases List.mem_cons.mp isIn with rfl | earlier
          · exact reads _ _ _ read
          · exact before x earlier
        · cases accepted
    · cases accepted

theorem each_items {items : List Json} {cs rest : List Char}
    (accepted : Json.items item cs = .ok (items, rest)) : ∀ x ∈ items, P x := by
  unfold Json.items at accepted
  split at accepted
  · cases accepted
  · cases accepted
    exact fun x isIn => absurd isIn List.not_mem_nil
  · split at accepted
    · next value left read =>
      refine each_moreItems reads ?_ accepted
      intro x isIn
      rw [List.mem_singleton.mp isIn]
      exact reads _ _ _ read
    · cases accepted

theorem value_member {member : String × Json} {cs rest : List Char}
    (accepted : Json.member item cs = .ok (member, rest)) : P member.2 := by
  unfold Json.member at accepted
  split at accepted
  · cases accepted
  split at accepted
  · cases accepted
  split at accepted
  · cases accepted
  · next value left read =>
    cases accepted
    exact reads _ _ _ read

theorem each_moreMembers {taken members : Members} {room cs rest : List Char}
    (nodup : (taken.map Prod.fst).Nodup) (before : ∀ member ∈ taken, P member.2)
    (accepted : moreMembers item taken room cs = .ok (members, rest)) :
    (members.map Prod.fst).Nodup ∧ ∀ member ∈ members, P member.2 := by
  induction room generalizing taken cs with
  | nil => cases accepted
  | cons _ room ih =>
    unfold moreMembers at accepted
    split at accepted
    · cases accepted
    split at accepted
    · cases accepted
      exact ⟨nodup, before⟩
    split at accepted
    · split at accepted
      · cases accepted
      split at accepted
      · split at accepted
        · next key value left read =>
          refine ih (Members.nodup_insert nodup) ?_ accepted
          intro member isIn
          rcases Members.of_mem_insert isIn with rfl | earlier
          · exact value_member reads read
          · exact before member earlier
        · cases accepted
      · split at accepted <;> cases accepted
    · cases accepted

/-- Members that are read have different keys. -/
theorem each_members {members : Members} {cs rest : List Char}
    (accepted : Json.members item cs = .ok (members, rest)) :
    (members.map Prod.fst).Nodup ∧ ∀ member ∈ members, P member.2 := by
  unfold Json.members at accepted
  split at accepted
  · cases accepted
  split at accepted
  · cases accepted
    exact ⟨List.nodup_nil, fun x isIn => absurd isIn List.not_mem_nil⟩
  split at accepted
  · split at accepted
    · next first left read =>
      have alone : ([first].map Prod.fst).Nodup := List.pairwise_singleton _ _
      refine each_moreMembers reads alone ?_ accepted
      intro member isIn
      rw [List.mem_singleton.mp isIn]
      exact value_member reads read
    · cases accepted
  · cases accepted

end Loops

/-- What holds of the values without parts that are read, and of every container whose parts it holds
of, holds of every value that is read. -/
theorem of_value {P : Nat → Json → Prop}
    (scalar : ∀ depth cs v rest, Json.scalar cs = .ok (v, rest) → P depth v)
    (list : ∀ depth items, (∀ item ∈ items, P depth item) → P (depth + 1) (.arr items))
    (object : ∀ depth (members : Members), (members.map Prod.fst).Nodup →
      (∀ member ∈ members, P depth member.2) → P (depth + 1) (.obj members))
    (depth : Nat) (cs : List Char) (v : Json) (rest : List Char)
    (accepted : value depth cs = .ok (v, rest)) : P depth v := by
  induction depth generalizing cs v rest with
  | zero =>
    unfold value at accepted
    split at accepted
    · cases accepted
    split at accepted
    · cases accepted
    · exact scalar _ _ _ _ accepted
  | succ depth ih =>
    unfold value at accepted
    split at accepted
    · cases accepted
    split at accepted
    · split at accepted
      · next read =>
        cases accepted
        exact list depth _ (each_items ih read)
      · cases accepted
    split at accepted
    · split at accepted
      · next read =>
        cases accepted
        obtain ⟨nodup, each⟩ := each_members ih read
        exact object depth _ nodup each
      · cases accepted
    · exact scalar _ _ _ _ accepted

/-- A value without parts that is read is no container, and its number comes from a numeral. -/
theorem of_scalar {P : Json → Prop} (null : P .null) (bool : ∀ b, P (.bool b)) (str : ∀ s, P (.str s))
    (num : ∀ cs n rest, numeral cs = .ok (n, rest) → P (.num n)) {cs rest : List Char} {v : Json}
    (accepted : scalar cs = .ok (v, rest)) : P v := by
  have mapped : ∀ {α : Type} {result : Except Fault α} {f : α → Json × List Char},
      (∀ a, result = .ok a → P (f a).1) → result.map f = .ok (v, rest) → P v := by
    intro α result f each same
    cases result with
    | error fault => cases same
    | ok a =>
      have first := each a rfl
      rw [show f a = (v, rest) from Except.ok.inj same] at first
      exact first
  unfold scalar at accepted
  split at accepted
  · cases accepted
  split at accepted
  · exact mapped (fun _ _ => null) accepted
  split at accepted
  · exact mapped (fun _ _ => bool _) accepted
  split at accepted
  · exact mapped (fun _ _ => bool _) accepted
  split at accepted
  · exact mapped (fun _ _ => str _) accepted
  split at accepted
  · exact mapped (fun _ read => num _ _ _ read) accepted
  · cases accepted

/-- Every value that is read keeps its keys apart. -/
theorem keysDistinct_value {depth : Nat} {cs : List Char} {v : Json} {rest : List Char}
    (accepted : value depth cs = .ok (v, rest)) : KeysDistinct v :=
  of_value (P := fun _ => KeysDistinct)
    (fun _ _ _ _ => of_scalar .null .bool .str fun _ _ _ _ => .num _) (fun _ _ => .arr)
    (fun _ _ => .obj) depth cs v rest accepted

theorem keysDistinct_read {text : String} {v : Json} (accepted : read text = .ok v) :
    KeysDistinct v := by
  unfold read whole at accepted
  split at accepted
  · cases accepted
  · next found =>
    split at accepted
    · cases accepted
      exact keysDistinct_value found
    · cases accepted

/-- What a message is taken for keeps its keys apart. -/
theorem keysDistinct_ofMessage (text : String) : KeysDistinct (ofMessage text) := by
  unfold ofMessage
  split
  · next accepted => exact keysDistinct_read accepted
  · exact .str text

end TelemetryHub.Json
