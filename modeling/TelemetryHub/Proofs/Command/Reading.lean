import TelemetryHub.Proofs.Command.Grammar

/-!
# Messages are read by their grammar

`reader_ok_iff`: the reader takes blanks and a text that spells a message, and nothing else. Each loop
is followed in both directions over what stands behind a member or an item (`Json.Followed`).
-/

namespace TelemetryHub.Message

open Json (Blank Ends Followed Enclosed Keyed StringText ScalarText Valid skipSpace)

/-! ## Values -/

namespace Member

/-- The value of a field, as a document. -/
def value? : Member → Option Json
  | functionality s | command s => some (.str s)
  | sampleRate none | time none => some .null
  | sampleRate (some rate) => some (.ofInt64 rate)
  | time (some seconds) => some (.ofUInt64 seconds)
  | other _ _ => none

theorem valueText_iff {member : Member} {value : Json} (given : member.value? = some value)
    (text : List Char) : member.ValueText text ↔ ScalarText value text := by
  cases member with
  | functionality s => cases given; exact .rfl
  | command s => cases given; exact .rfl
  | sampleRate rate => cases rate <;> cases given <;> exact .rfl
  | time seconds => cases seconds <;> cases given <;> exact .rfl
  | other key unknown => cases given

theorem exists_value {member : Member} {field : Field} (given : member.field? = some field) :
    ∃ value, member.value? = some value := by
  cases member with
  | functionality s => exact ⟨_, rfl⟩
  | command s => exact ⟨_, rfl⟩
  | sampleRate rate => cases rate <;> exact ⟨_, rfl⟩
  | time seconds => cases seconds <;> exact ⟨_, rfl⟩
  | other key unknown => cases given

theorem key_of_named {key : String} {member : Member} {field : Field}
    (named : Field.named? key = some field) (given : member.field? = some field) :
    member.key = key := by
  unfold Field.named? at named
  split at named
  · next same => cases named; cases member <;> cases given; exact same.symm
  split at named
  · next same => cases named; cases member <;> cases given; exact same.symm
  split at named
  · next same => cases named; cases member <;> cases given; exact same.symm
  split at named
  · next same => cases named; cases member <;> cases given; exact same.symm
  · cases named

theorem named_key (member : Member) : Field.named? member.key = member.field? := by
  cases member with
  | other key unknown => exact unknown
  | _ => rfl

end Member

theorem toInt64?_eq_some_iff (n : Whole) (rate : Int64) :
    n.toInt64? = some rate ↔ n = .ofInt64 rate := by
  constructor
  · intro fits
    unfold Whole.toInt64? at fits
    split at fits
    · next below =>
      have least := n.least
      cases fits
      apply Whole.ext
      have same := Int64.toInt_ofInt_of_le least below
      exact same.symm
    · cases fits
  · rintro rfl
    exact Whole.toInt64?_ofInt64 rate

theorem toUInt64?_eq_some_iff (n : Whole) (seconds : UInt64) :
    n.toUInt64? = some seconds ↔ n = .ofUInt64 seconds := by
  constructor
  · intro fits
    unfold Whole.toUInt64? at fits
    split at fits
    · next notNegative =>
      have below := n.below
      cases fits
      apply Whole.ext
      have small : n.val.toNat < 2 ^ 64 := by omega
      simp only [Whole.ofUInt64, UInt64.toNat_ofNat', Nat.mod_eq_of_lt small]
      omega
    · cases fits
  · rintro rfl
    exact Whole.toUInt64?_ofUInt64 seconds

theorem asText_ok_iff (value : Json) (s : String) : asText value = .ok s ↔ value = .str s := by
  cases value <;> simp [asText]

theorem asRate_ok_iff (value : Json) (rate : Option Int64) :
    asRate value = .ok rate ↔ (Member.sampleRate rate).value? = some value := by
  cases value with
  | num n =>
    cases n with
    | real x => cases rate <;> simp [asRate, Member.value?, Json.ofInt64]
    | whole n =>
      have taken : asRate (.num (.whole n)) = .ok rate ↔
          ∃ given, n = .ofInt64 given ∧ rate = some given := by
        simp only [asRate, ← toInt64?_eq_some_iff]
        cases n.toInt64? <;> simp [eq_comm]
      rw [taken]
      cases rate with
      | none => simp [Member.value?]
      | some rate => simp [Member.value?, Json.ofInt64, eq_comm]
  | _ => cases rate <;> simp [asRate, Member.value?, Json.ofInt64]

theorem asTime_ok_iff (value : Json) (seconds : Option UInt64) :
    asTime value = .ok seconds ↔ (Member.time seconds).value? = some value := by
  cases value with
  | num n =>
    cases n with
    | real x => cases seconds <;> simp [asTime, Member.value?, Json.ofUInt64]
    | whole n =>
      have taken : asTime (.num (.whole n)) = .ok seconds ↔
          ∃ given, n = .ofUInt64 given ∧ seconds = some given := by
        simp only [asTime, ← toUInt64?_eq_some_iff]
        cases n.toUInt64? <;> simp [eq_comm]
      rw [taken]
      cases seconds with
      | none => simp [Member.value?]
      | some seconds => simp [Member.value?, Json.ofUInt64, eq_comm]
  | _ => cases seconds <;> simp [asTime, Member.value?, Json.ofUInt64]

/-- The value of a field is taken exactly if some member of the field has it. -/
theorem put_ok_iff (fields : Fields) (field : Field) (value : Json) (fields' : Fields) :
    fields.put field value = .ok fields' ↔
      ∃ member : Member, member.field? = some field ∧ member.value? = some value ∧
        fields' = fields.set member := by
  constructor
  · intro accepted
    cases field with
    | functionality =>
      obtain ⟨s, read, rfl⟩ := (Json.map_ok_iff _ _ _).mp accepted
      exact ⟨.functionality s, rfl, by rw [(asText_ok_iff value s).mp read]; rfl, rfl⟩
    | command =>
      obtain ⟨s, read, rfl⟩ := (Json.map_ok_iff _ _ _).mp accepted
      exact ⟨.command s, rfl, by rw [(asText_ok_iff value s).mp read]; rfl, rfl⟩
    | sampleRate =>
      obtain ⟨rate, read, rfl⟩ := (Json.map_ok_iff _ _ _).mp accepted
      exact ⟨.sampleRate rate, rfl, (asRate_ok_iff value rate).mp read, rfl⟩
    | time =>
      obtain ⟨seconds, read, rfl⟩ := (Json.map_ok_iff _ _ _).mp accepted
      exact ⟨.time seconds, rfl, (asTime_ok_iff value seconds).mp read, rfl⟩
  · rintro ⟨member, given, has, rfl⟩
    cases member with
    | functionality s =>
      cases given
      exact (Json.map_ok_iff _ _ _).mpr ⟨s, (asText_ok_iff value s).mpr (Option.some.inj has).symm, rfl⟩
    | command s =>
      cases given
      exact (Json.map_ok_iff _ _ _).mpr ⟨s, (asText_ok_iff value s).mpr (Option.some.inj has).symm, rfl⟩
    | sampleRate rate =>
      cases given
      exact (Json.map_ok_iff _ _ _).mpr ⟨rate, (asRate_ok_iff value rate).mpr has, rfl⟩
    | time seconds =>
      cases given
      exact (Json.map_ok_iff _ _ _).mpr ⟨seconds, (asTime_ok_iff value seconds).mpr has, rfl⟩
    | other key unknown => cases given

/-- The value of a field is read from blanks and a text for it. -/
theorem text_of_fieldValue {fields fields' : Fields} {field : Field} {cs rest : List Char}
    (accepted : fieldValue fields field cs = .ok (fields', rest)) :
    ∃ member before text, member.field? = some field ∧ cs = before ++ (text ++ rest) ∧
      Blank before ∧ member.ValueText text ∧ fields' = fields.set member := by
  obtain ⟨before, blank, same⟩ := Json.exists_blank_skipSpace cs
  unfold fieldValue at accepted
  split at accepted
  · cases accepted
  next c more found =>
  split at accepted
  · cases accepted
  split at accepted
  · cases accepted
  split at accepted
  · cases accepted
  next value left read =>
  split at accepted
  · next taken put =>
    cases accepted
    obtain ⟨member, given, has, rfl⟩ := (put_ok_iff _ _ _ _).mp put
    rcases Json.text_of_scalar read with ⟨x, rfl⟩ | ⟨text, spelled, scalar⟩
    · -- a double is the value of no field
      have noDouble : member.value? ≠ some (.num (.real x)) := by
        cases member with
        | sampleRate rate => cases rate <;> simp [Member.value?, Json.ofInt64]
        | time seconds => cases seconds <;> simp [Member.value?, Json.ofUInt64]
        | _ => simp [Member.value?]
      exact absurd has noDouble
    · refine ⟨member, before, text, given, ?_, blank, (Member.valueText_iff has text).mpr scalar, rfl⟩
      rw [same, found, spelled]
  · cases accepted

theorem fieldValue_text (fields : Fields) {field : Field} {member : Member}
    (given : member.field? = some field) {before text rest : List Char} (blank : Blank before)
    (spelled : member.ValueText text) (ends : Ends rest) :
    fieldValue fields field (before ++ (text ++ rest)) = .ok (fields.set member, rest) := by
  obtain ⟨value, has⟩ := Member.exists_value given
  have scalar := (Member.valueText_iff has text).mp spelled
  have found := scalar.valid.starts.skipSpace blank rest
  have read := Json.scalar_text scalar ends
  have put := (put_ok_iff fields field value _).mpr ⟨member, given, has, rfl⟩
  obtain ⟨c, more, rfl, -, -, -, unopened⟩ := scalar.valid.exists_cons
  have notList : c ≠ '[' := by
    rintro rfl
    exact absurd unopened (by decide)
  have notObject : c ≠ '\x7b' := by
    rintro rfl
    exact absurd unopened (by decide)
  unfold fieldValue
  rw [found]
  rw [List.cons_append] at read ⊢
  simp only [notList, notObject, if_false, read, put]

/-! ## Members -/

/-- The field is not among those that were taken. -/
def Fields.Free (fields : Fields) (member : Member) : Prop :=
  ∀ field, member.field? = some field → fields.has field = false

/-- A member is read from a text for it, of which the opening quote has been taken. -/
theorem text_of_memberOf {fields fields' : Fields} {cs rest : List Char}
    (accepted : memberOf fields cs = .ok (fields', rest)) :
    ∃ (member : Member) (text : List Char), '"' :: cs = text ++ rest ∧ member.Spelled text ∧
      fields.Free member ∧ fields' = fields.set member := by
  unfold memberOf at accepted
  split at accepted
  · cases accepted
  next key afterKey keyRead =>
  obtain ⟨body, rfl, reads⟩ := (Json.string_ok_iff _ _ _).mp keyRead
  have keyText : StringText key ('"' :: (body ++ ['"'])) := ⟨body, rfl, reads⟩
  split at accepted
  · next field named =>
    split at accepted
    · next duplicate =>
      unfold stopBehind at accepted
      split at accepted
      · split at accepted <;> cases accepted
      · cases accepted
    next free =>
    split at accepted
    · next afterColon atColon =>
      obtain ⟨behind, blank, rfl⟩ := (Json.colon_ok_iff _ _).mp atColon
      obtain ⟨member, before, text, given, rfl, blank', spelled, rfl⟩ := text_of_fieldValue accepted
      refine ⟨member, '"' :: (body ++ ['"']) ++ (behind ++ ':' :: (before ++ text)), by simp,
        ⟨_, behind, before, text, rfl, ?_, blank, blank', spelled⟩, ?_, rfl⟩
      · rw [Member.key_of_named named given]
        exact keyText
      · intro other given'
        rw [given] at given'
        rw [← Option.some.inj given']
        exact Bool.not_eq_true _ ▸ free
    · cases accepted
  · next unknown =>
    split at accepted
    · next afterColon atColon =>
      obtain ⟨behind, blank, rfl⟩ := (Json.colon_ok_iff _ _).mp atColon
      obtain ⟨left, passed, same⟩ := (Json.map_ok_iff _ _ _).mp accepted
      cases same
      obtain ⟨before, text, rfl, blank', valid⟩ := Json.valid_of_pass passed
      exact ⟨.other key unknown, '"' :: (body ++ ['"']) ++ (behind ++ ':' :: (before ++ text)),
        by simp, ⟨_, behind, before, text, rfl, keyText, blank, blank', valid⟩, nofun, rfl⟩
    · cases accepted

theorem memberOf_text {fields : Fields} {member : Member} {text rest : List Char}
    (spelled : member.Spelled text) (free : fields.Free member) (ends : Ends rest) :
    ∃ inside, text = '"' :: inside ∧ memberOf fields (inside ++ rest) = .ok (fields.set member, rest) := by
  obtain ⟨_, behind, before, value, rfl, ⟨body, rfl, reads⟩, blank, blank', valueText⟩ := spelled
  refine ⟨body ++ '"' :: (behind ++ ':' :: (before ++ value)), by simp, ?_⟩
  have regroup : body ++ '"' :: (behind ++ ':' :: (before ++ value)) ++ rest =
      body ++ '"' :: (behind ++ ':' :: (before ++ (value ++ rest))) := by simp
  have keyRead := (Json.string_ok_iff (body ++ '"' :: (behind ++ ':' :: (before ++ (value ++ rest)))) _
    member.key).mpr ⟨body, rfl, reads⟩
  have atColon := (Json.colon_ok_iff (behind ++ ':' :: (before ++ (value ++ rest))) _).mpr
    ⟨behind, blank, rfl⟩
  have named := member.named_key
  unfold memberOf
  rw [regroup, keyRead]
  cases given : member.field? with
  | some field =>
    rw [given] at named
    have read := fieldValue_text fields given blank' valueText ends
    simp only [named, free field given, atColon, read]
    rfl
  | none =>
    rw [given] at named
    cases member with
    | other key unknown =>
      have passed := Json.pass_valid blank' valueText ends
      simp only [named, atColon, passed]
      rfl
    | _ => cases given

/-! ## Objects -/

/-- Each field is given at most once, and none of them has been taken. -/
def Fields.FreeAll (fields : Fields) (members : List Member) : Prop :=
  (fieldsIn members).Nodup ∧ ∀ field ∈ fieldsIn members, fields.has field = false

theorem Fields.freeAll_cons (fields : Fields) (member : Member) (members : List Member) :
    fields.FreeAll (member :: members) ↔ fields.Free member ∧ (fields.set member).FreeAll members := by
  unfold Fields.FreeAll Fields.Free
  rw [fieldsIn_cons]
  simp only [Fields.has_set, Bool.or_eq_false_iff, decide_eq_false_iff_not]
  cases given : member.field? with
  | none => simp
  | some field =>
    simp only [Option.toList_some, List.singleton_append, List.nodup_cons, List.mem_cons,
      forall_eq_or_imp, Option.some.injEq, forall_eq']
    constructor
    · rintro ⟨⟨notIn, once⟩, free, others⟩
      refine ⟨free, once, fun other isIn => ⟨others other isIn, ?_⟩⟩
      rintro rfl
      exact notIn isIn
    · rintro ⟨free, once, others⟩
      exact ⟨⟨fun isIn => (others field isIn).2 rfl, once⟩, free, fun other isIn => (others other isIn).1⟩

theorem followed_of_moreMembers {fields fields' : Fields} {room cs rest : List Char}
    (accepted : moreMembers fields room cs = .ok (fields', rest)) :
    ∃ members, Followed Member.Spelled ('\x7d' :: rest) members cs ∧ fields.FreeAll members ∧
      fields' = fields.setAll members := by
  induction room generalizing fields cs with
  | nil => cases accepted
  | cons x room ih =>
    obtain ⟨blanks, blank, same⟩ := Json.exists_blank_skipSpace cs
    unfold moreMembers at accepted
    split at accepted
    · cases accepted
    next c more found =>
    rw [found] at same
    split at accepted
    · next isClosing =>
      cases accepted
      rw [same, isClosing]
      exact ⟨[], .done blank, ⟨List.nodup_nil, nofun⟩, rfl⟩
    split at accepted
    · next isComma =>
      obtain ⟨before, blank', same'⟩ := Json.exists_blank_skipSpace more
      split at accepted
      · cases accepted
      next d inside found' =>
      rw [found'] at same'
      split at accepted
      · next isQuote =>
        split at accepted
        · next taken left read =>
          obtain ⟨member, text, spelling, spelled, free, rfl⟩ := text_of_memberOf read
          obtain ⟨members, followed, freeAll, rfl⟩ := ih accepted
          refine ⟨member :: members, ?_, (fields.freeAll_cons member members).mpr ⟨free, freeAll⟩, rfl⟩
          rw [same, isComma, same', isQuote, spelling]
          exact .next blank blank' spelled followed
        · cases accepted
      · split at accepted <;> cases accepted
    · cases accepted

theorem moreMembers_followed {members : List Member} {cs rest : List Char}
    (followed : Followed Member.Spelled ('\x7d' :: rest) members cs) {fields : Fields}
    (free : fields.FreeAll members) {room : List Char} (enough : cs.length ≤ room.length) :
    moreMembers fields room cs = .ok (fields.setAll members, rest) := by
  have closing : Ends ('\x7d' :: rest) := Json.ends_closing .object rest
  induction followed generalizing fields room with
  | @done blanks blank =>
    cases room with
    | nil => simp at enough
    | cons x room =>
      have found := Json.skipSpace_blank blank (rfl : Json.isSpace '\x7d' = false) rest
      simp only [moreMembers, found, if_true]
      rfl
  | @next member members blanks before text cs blank blank' spelled followed ih =>
    cases room with
    | nil => simp at enough
    | cons x room =>
      obtain ⟨freeFirst, freeOthers⟩ := (fields.freeAll_cons member members).mp free
      obtain ⟨inside, rfl, read⟩ := memberOf_text spelled freeFirst (followed.ends closing)
      have found := Json.skipSpace_blank blank (rfl : Json.isSpace ',' = false)
        (before ++ ('"' :: inside ++ cs))
      have first := Json.skipSpace_blank blank' (rfl : Json.isSpace '"' = false) (inside ++ cs)
      have comma : ',' ≠ '\x7d' := by decide
      have stillEnough : cs.length ≤ room.length := by
        simp only [List.length_append, List.length_cons] at enough
        omega
      rw [List.cons_append] at found ⊢
      simp only [moreMembers, found, comma, if_false, if_true, first, read]
      exact ih freeOthers stillEnough

/-- The members of an object are read exactly if each field is given at most once. -/
theorem fieldsOf_ok_iff (cs rest : List Char) (fields : Fields) :
    fieldsOf cs = .ok (fields, rest) ↔
      ∃ members inside, cs = inside ++ rest ∧
        Enclosed '\x7b' '\x7d' Member.Spelled members ('\x7b' :: inside) ∧
        (fieldsIn members).Nodup ∧ fields = Fields.empty.setAll members := by
  have nothing : ∀ field, Fields.empty.has field = false := by
    intro field
    cases field <;> rfl
  constructor
  · intro accepted
    obtain ⟨before, blank, same⟩ := Json.exists_blank_skipSpace cs
    unfold fieldsOf at accepted
    split at accepted
    · cases accepted
    next c more found =>
    rw [found] at same
    split at accepted
    · next isClosing =>
      cases accepted
      refine ⟨[], before ++ ['\x7d'], by rw [same, isClosing]; simp, .none blank, List.nodup_nil, rfl⟩
    split at accepted
    · next isQuote =>
      split at accepted
      · next taken left read =>
        obtain ⟨member, text, spelling, spelled, free, rfl⟩ := text_of_memberOf read
        obtain ⟨members, followed, freeAll, rfl⟩ := followed_of_moreMembers accepted
        obtain ⟨body, whole, divided⟩ := followed.divided blank spelled
        refine ⟨member :: members, body ++ ['\x7d'], ?_, .some divided,
          ((Fields.empty.freeAll_cons member members).mpr ⟨free, freeAll⟩).1, rfl⟩
        rw [same, isQuote, spelling, whole]
        simp
      · cases accepted
    · cases accepted
  · rintro ⟨members, inside, rfl, enclosed, once, rfl⟩
    have free : Fields.empty.FreeAll members := ⟨once, fun field _ => nothing field⟩
    cases enclosed with
    | @none blanks blank =>
      have found := Json.skipSpace_blank blank (rfl : Json.isSpace '\x7d' = false) rest
      unfold fieldsOf
      rw [List.append_assoc, List.singleton_append, found]
      rfl
    | @some _ body divided =>
      obtain ⟨member, others, before, text, cs, rfl, whole, blank, spelled, followed⟩ :=
        divided.followed ('\x7d' :: rest)
      obtain ⟨freeFirst, freeOthers⟩ := (Fields.empty.freeAll_cons member others).mp free
      obtain ⟨inside, rfl, read⟩ :=
        memberOf_text spelled freeFirst (followed.ends (Json.ends_closing .object rest))
      have first := Json.skipSpace_blank blank (rfl : Json.isSpace '"' = false) (inside ++ cs)
      have quote : '"' ≠ '\x7d' := by decide
      unfold fieldsOf
      rw [List.append_assoc, List.singleton_append, whole, List.cons_append, first]
      simp only [quote, if_false, if_true, read]
      exact moreMembers_followed followed freeOthers (Nat.le_refl _)

/-! ## Lists -/

theorem stopBehind_ne_ok {α : Type} (problem : Json.Problem) (closing : Char) (cs : List Char)
    (result : α × List Char) : stopBehind problem closing cs ≠ .ok result := by
  unfold stopBehind
  split
  · split <;> exact nofun
  · exact nofun

theorem listEnd_ok_iff (cs rest : List Char) :
    listEnd cs = .ok rest ↔ ∃ blanks, Blank blanks ∧ cs = blanks ++ ']' :: rest := by
  constructor
  · intro accepted
    obtain ⟨blanks, blank, same⟩ := Json.exists_blank_skipSpace cs
    unfold listEnd at accepted
    split at accepted
    · cases accepted
    next c more found =>
    split at accepted
    · next isClosing =>
      cases accepted
      exact ⟨blanks, blank, by rw [same, found, isClosing]⟩
    split at accepted
    · split at accepted <;> cases accepted
    · cases accepted
  · rintro ⟨blanks, blank, rfl⟩
    have found := Json.skipSpace_blank blank (rfl : Json.isSpace ']' = false) rest
    simp [listEnd, found]

theorem ordered_cons (field : Field) (fields : List Field) (item : Member) (items : List Member) :
    Ordered (field :: fields) (item :: items) ↔ item.field? = some field ∧ Ordered fields items := by
  simp only [Ordered, List.length_cons, Nat.add_le_add_iff_right, List.map_cons, List.take_succ_cons,
    List.cons.injEq]
  exact and_left_comm

theorem starts_of_field {item : Member} {field : Field} (given : item.field? = some field)
    {text : List Char} (spelled : item.ValueText text) : Json.Starts text := by
  obtain ⟨value, has⟩ := Member.exists_value given
  exact ((Member.valueText_iff has text).mp spelled).valid.starts

/-- Behind an item, the next one is found behind a comma. -/
theorem comma_of_nextItem {count : Nat} (begun : count ≠ 0) {cs more : List Char}
    (atItem : nextItem count cs = .ok (some more)) :
    ∃ blanks between, Blank blanks ∧ Blank between ∧ cs = blanks ++ ',' :: (between ++ more) := by
  obtain ⟨blanks, blank, same⟩ := Json.exists_blank_skipSpace cs
  unfold nextItem at atItem
  split at atItem
  · cases atItem
  next c behind found =>
  rw [found] at same
  split at atItem
  · cases atItem
  split at atItem
  · next isComma =>
    obtain ⟨between, blank', same'⟩ := Json.exists_blank_skipSpace behind
    split at atItem
    · cases atItem
    next d inside found' =>
    split at atItem
    · cases atItem
    rw [found', Option.some.inj (Except.ok.inj atItem)] at same'
    exact ⟨blanks, between, blank, blank', by rw [same, isComma, same']⟩
  · cases atItem

/-- The rest of a list is read from what stands behind an item, if there are two items at least. -/
theorem followed_of_itemsOf {fields fields' : Fields} {count : Nat} {left : List Field}
    {cs rest : List Char} (begun : count ≠ 0) (all : count + left.length = 4)
    (accepted : itemsOf fields count left cs = .ok (fields', rest)) :
    ∃ items, Followed Member.ValueText (']' :: rest) items cs ∧ Ordered left items ∧
      2 ≤ count + items.length ∧ fields' = fields.setAll items := by
  have ended : ∀ {fields : Fields} {cs : List Char},
      (listEnd cs).map (fun rest => (fields, rest)) = .ok (fields', rest) →
        Followed Member.ValueText (']' :: rest) [] cs ∧ fields' = fields := by
    intro fields cs done
    obtain ⟨_, closed, same⟩ := (Json.map_ok_iff _ _ _).mp done
    cases same
    obtain ⟨blanks, blank, rfl⟩ := (listEnd_ok_iff _ _).mp closed
    exact ⟨.done blank, rfl⟩
  induction left generalizing fields count cs with
  | nil =>
    obtain ⟨followed, rfl⟩ := ended accepted
    have four : count = 4 := all
    exact ⟨[], followed, ⟨Nat.le_refl _, rfl⟩, by rw [four]; decide, rfl⟩
  | cons field left ih =>
    unfold itemsOf at accepted
    split at accepted
    · cases accepted
    · split at accepted
      · exact absurd accepted (stopBehind_ne_ok _ _ _ _)
      next least =>
      obtain ⟨followed, rfl⟩ := ended accepted
      exact ⟨[], followed, ⟨Nat.zero_le _, rfl⟩, Nat.le_of_not_lt least, rfl⟩
    · next more atItem =>
      split at accepted
      · next taken left' read =>
        obtain ⟨item, before, text, given, rfl, blank', spelled, rfl⟩ := text_of_fieldValue read
        have sum : count + 1 + left.length = 4 := by
          simp only [List.length_cons] at all
          omega
        obtain ⟨items, followed, ordered, least, rfl⟩ := ih (Nat.succ_ne_zero count) sum accepted
        refine ⟨item :: items, ?_, (ordered_cons field left item items).mpr ⟨given, ordered⟩, ?_, rfl⟩
        · obtain ⟨blanks, between, blank, blank'', rfl⟩ := comma_of_nextItem begun atItem
          rw [← List.append_assoc between]
          exact .next blank (blank''.append blank') spelled followed
        · simp only [List.length_cons]
          omega
      · cases accepted

theorem itemsOf_followed {items : List Member} {cs rest : List Char}
    (followed : Followed Member.ValueText (']' :: rest) items cs) {fields : Fields} {count : Nat}
    {left : List Field} (begun : count ≠ 0) (ordered : Ordered left items)
    (least : 2 ≤ count + items.length) :
    itemsOf fields count left cs = .ok (fields.setAll items, rest) := by
  have closing : Ends (']' :: rest) := Json.ends_closing .list rest
  induction followed generalizing fields count left with
  | @done blanks blank =>
    have closed := (listEnd_ok_iff (blanks ++ ']' :: rest) rest).mpr ⟨blanks, blank, rfl⟩
    cases left with
    | nil => exact (Json.map_ok_iff _ _ _).mpr ⟨rest, closed, rfl⟩
    | cons field left =>
      have found := Json.skipSpace_blank blank (rfl : Json.isSpace ']' = false) rest
      have atEnd : nextItem count (blanks ++ ']' :: rest) = .ok none := by
        simp [nextItem, found]
      have enough : ¬count < 2 := Nat.not_lt.mpr least
      unfold itemsOf
      simp only [atEnd, enough, if_false]
      exact (Json.map_ok_iff _ _ _).mpr ⟨rest, closed, rfl⟩
  | @next item items blanks before text cs blank blank' spelled followed ih =>
    cases left with
    | nil => exact absurd ordered.1 (Nat.not_succ_le_zero _)
    | cons field left =>
      obtain ⟨given, others⟩ := (ordered_cons field left item items).mp ordered
      have read := fieldValue_text fields given .nil spelled (followed.ends closing)
      have found := Json.skipSpace_blank blank (rfl : Json.isSpace ',' = false)
        (before ++ (text ++ cs))
      have starts := starts_of_field given spelled
      have first := starts.skipSpace blank' cs
      obtain ⟨c, more, rfl, -, notClosing, -⟩ := starts
      have atItem : nextItem count (blanks ++ ',' :: (before ++ (c :: more ++ cs))) =
          .ok (some (c :: more ++ cs)) := by
        have comma : ',' ≠ ']' := by decide
        rw [List.cons_append] at found first ⊢
        simp only [nextItem, found, comma, if_false, begun, if_true, first, notClosing]
      have stillLeast : 2 ≤ count + 1 + items.length := by
        simp only [List.length_cons] at least
        omega
      unfold itemsOf
      rw [List.nil_append] at read
      simp only [atItem, read]
      exact ih (Nat.succ_ne_zero count) others stillLeast

/-- The items of a list are read exactly if they are the values of the fields in their order, of the
first two at least. -/
theorem itemsOf_ok_iff (cs rest : List Char) (fields : Fields) :
    itemsOf .empty 0 listed cs = .ok (fields, rest) ↔
      ∃ items inside, cs = inside ++ rest ∧
        Enclosed '[' ']' Member.ValueText items ('[' :: inside) ∧ 2 ≤ items.length ∧
        Ordered listed items ∧ fields = Fields.empty.setAll items := by
  have nextFirst : ∀ {before text cs : List Char}, Blank before → Json.Starts text →
      nextItem 0 (before ++ (text ++ cs)) = .ok (some (text ++ cs)) := by
    intro before text cs blank starts
    have first := starts.skipSpace blank cs
    obtain ⟨c, more, rfl, -, notClosing, -⟩ := starts
    rw [List.cons_append] at first ⊢
    simp only [nextItem, first, notClosing, if_false, if_true]
  constructor
  · intro accepted
    rw [listed, itemsOf] at accepted
    split at accepted
    · cases accepted
    · exact absurd accepted (stopBehind_ne_ok _ _ _ _)
    · next more atItem =>
      split at accepted
      · next taken left read =>
        obtain ⟨item, before, text, given, rfl, blank', spelled, rfl⟩ := text_of_fieldValue read
        obtain ⟨items, followed, ordered, least, rfl⟩ :=
          followed_of_itemsOf (Nat.succ_ne_zero 0) rfl accepted
        obtain ⟨blanks, blank, same⟩ := Json.exists_blank_skipSpace cs
        have whole : cs = blanks ++ before ++ (text ++ left) := by
          unfold nextItem at atItem
          split at atItem
          · cases atItem
          next c behind found =>
          split at atItem
          · cases atItem
          rw [same, found, Option.some.inj (Except.ok.inj atItem), List.append_assoc]
        obtain ⟨body, same', divided⟩ := followed.divided (blank.append blank') spelled
        refine ⟨item :: items, body ++ [']'], ?_, .some divided, ?_,
          (ordered_cons _ _ item items).mpr ⟨given, ordered⟩, rfl⟩
        · rw [whole, same']
          simp
        · simp only [List.length_cons]
          omega
      · cases accepted
  · rintro ⟨items, inside, rfl, enclosed, least, ordered, rfl⟩
    cases enclosed with
    | none blank => exact absurd least (by decide)
    | @some _ body divided =>
      obtain ⟨item, others, before, text, cs, rfl, whole, blank, spelled, followed⟩ :=
        divided.followed (']' :: rest)
      obtain ⟨given, ordered⟩ := (ordered_cons _ _ item others).mp ordered
      have read := fieldValue_text .empty given .nil spelled
        (followed.ends (Json.ends_closing .list rest))
      have atItem : nextItem 0 (before ++ (text ++ cs)) = .ok (some (text ++ cs)) :=
        nextFirst blank (starts_of_field given spelled)
      rw [List.append_assoc, List.singleton_append, whole]
      rw [List.nil_append] at read
      rw [listed, itemsOf]
      simp only [atItem, read]
      refine itemsOf_followed followed (Nat.succ_ne_zero 0) ordered ?_
      simp only [List.length_cons] at least
      omega

/-! ## Messages -/

theorem finish_ok_iff (fields : Fields) (cs rest : List Char) (message : Message) :
    finish fields cs = .ok (message, rest) ↔ fields.message = .ok message ∧ cs = rest := by
  unfold finish
  cases fields.message with
  | error problem => simp [Json.stop]
  | ok made => simp

/-- The reader takes blanks and a text that spells a message, and nothing else. -/
theorem reader_ok_iff (cs rest : List Char) (message : Message) :
    reader cs = .ok (message, rest) ↔
      ∃ before text, Blank before ∧ cs = before ++ (text ++ rest) ∧ Spells text message := by
  have orderedOnce : ∀ {items : List Member}, Ordered listed items → (fieldsIn items).Nodup := by
    intro items ordered
    rw [fieldsIn_of_ordered ordered]
    exact (List.take_sublist _ listed).nodup (by decide)
  constructor
  · intro accepted
    obtain ⟨before, blank, same⟩ := Json.exists_blank_skipSpace cs
    unfold reader at accepted
    split at accepted
    · cases accepted
    next c more found =>
    rw [found] at same
    split at accepted
    · next isBrace =>
      split at accepted
      · next fields left read =>
        obtain ⟨made, rfl⟩ := (finish_ok_iff _ _ _ _).mp accepted
        obtain ⟨members, inside, rfl, enclosed, once, rfl⟩ := (fieldsOf_ok_iff _ _ _).mp read
        exact ⟨before, '\x7b' :: inside, blank, by rw [same, isBrace]; rfl, members, .object enclosed,
          (says_iff members message).mpr ⟨once, made⟩⟩
      · cases accepted
    split at accepted
    · next isBracket =>
      split at accepted
      · next fields left read =>
        obtain ⟨made, rfl⟩ := (finish_ok_iff _ _ _ _).mp accepted
        obtain ⟨items, inside, rfl, enclosed, least, ordered, rfl⟩ := (itemsOf_ok_iff _ _ _).mp read
        exact ⟨before, '[' :: inside, blank, by rw [same, isBracket]; rfl, items,
          .list enclosed least ordered, (says_iff items message).mpr ⟨orderedOnce ordered, made⟩⟩
      · cases accepted
    · split at accepted <;> cases accepted
  · rintro ⟨before, text, blank, rfl, members, gives, said⟩
    obtain ⟨once, made⟩ := (says_iff members message).mp said
    have finished := (finish_ok_iff (Fields.empty.setAll members) rest rest message).mpr ⟨made, rfl⟩
    cases gives with
    | object enclosed =>
      obtain ⟨inside, rfl⟩ : ∃ inside, text = '\x7b' :: inside := by
        cases enclosed <;> exact ⟨_, rfl⟩
      have found := Json.skipSpace_blank blank (rfl : Json.isSpace '\x7b' = false) (inside ++ rest)
      have read := (fieldsOf_ok_iff (inside ++ rest) rest _).mpr
        ⟨members, inside, rfl, enclosed, once, rfl⟩
      unfold reader
      rw [List.cons_append, found]
      simp only [if_true, read, finished]
    | list enclosed least ordered =>
      obtain ⟨inside, rfl⟩ : ∃ inside, text = '[' :: inside := by
        cases enclosed <;> exact ⟨_, rfl⟩
      have found := Json.skipSpace_blank blank (rfl : Json.isSpace '[' = false) (inside ++ rest)
      have read := (itemsOf_ok_iff (inside ++ rest) rest _).mpr
        ⟨members, inside, rfl, enclosed, least, ordered, rfl⟩
      have other : '[' ≠ '\x7b' := by decide
      unfold reader
      rw [List.cons_append, found]
      simp only [other, if_false, if_true, read, finished]

/-- A message is read from a text that spells it, with blanks around it or without. -/
theorem read_ok_iff (text : List Char) (message : Message) :
    read text = .ok message ↔ ∃ before document behind, Blank before ∧ Blank behind ∧
      text = before ++ (document ++ behind) ∧ Spells document message := by
  unfold read
  rw [Json.mapError_ok_iff, Json.whole_ok_iff]
  constructor
  · rintro ⟨rest, accepted, nothing⟩
    obtain ⟨before, document, blank, rfl, spells⟩ := (reader_ok_iff _ _ _).mp accepted
    exact ⟨before, document, rest, blank, Json.blank_of_skipSpace nothing, rfl, spells⟩
  · rintro ⟨before, document, behind, blank, blank', rfl, spells⟩
    refine ⟨behind, (reader_ok_iff _ _ _).mpr ⟨before, document, blank, rfl, spells⟩, ?_⟩
    rw [← List.append_nil behind, Json.skipSpace_append blank']
    rfl

end TelemetryHub.Message
