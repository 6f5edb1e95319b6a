import TelemetryHub.Proofs.Json.Keys
import TelemetryHub.Proofs.Json.Skipping

/-!
# Documents are read as they are spelled

`Spells depth value text` says that a text spells a value with at most `depth` containers inside each
other; the members of an object are put together in their order, the last value of a key in the place
of the first one. Doubles have no spelling here, since reading one rounds. `value_spells`: the reader of
documents takes every spelling as a whole.
-/

namespace TelemetryHub.Json

/-! ## Values without parts -/

/-- A text that spells a value without parts. -/
def ScalarText : Json → List Char → Prop
  | .null, text => text = "null".toList
  | .bool true, text => text = "true".toList
  | .bool false, text => text = "false".toList
  | .num (.whole n), text => text = Text.integer n.val
  | .str s, text => StringText s text
  | _, _ => False

theorem map_ok_iff {ε α β : Type} (result : Except ε α) (f : α → β) (b : β) :
    result.map f = .ok b ↔ ∃ a, result = .ok a ∧ f a = b := by
  cases result <;> simp [Except.map]

theorem mapError_ok_iff {ε ε' α : Type} (result : Except ε α) (f : ε → ε') (a : α) :
    result.mapError f = .ok a ↔ result = .ok a := by
  cases result with
  | error fault => exact ⟨nofun, nofun⟩
  | ok b =>
    constructor <;>
    · intro same
      cases same
      rfl

/-- A whole text is read if nothing but blanks is left of it. -/
theorem whole_ok_iff {α : Type} (reader : List Char → Outcome α) (text : List Char) (x : α) :
    whole reader text = .ok x ↔ ∃ rest, reader text = .ok (x, rest) ∧ skipSpace rest = [] := by
  unfold whole
  cases reader text with
  | error fault => simp
  | ok result =>
    obtain ⟨y, rest⟩ := result
    cases left : skipSpace rest with
    | nil =>
      simp only [left, Except.ok.injEq, Prod.mk.injEq]
      exact ⟨fun same => ⟨rest, ⟨same, rfl⟩, left⟩, fun ⟨_, both, _⟩ => both.1⟩
    | cons c more => simp [left, stop]

theorem read_value_iff (text : String) (v : Json) :
    read text = .ok v ↔
      ∃ rest, value depthLimit text.toList = .ok (v, rest) ∧ skipSpace rest = [] := by
  rw [read, mapError_ok_iff, whole_ok_iff]

/-- A value without parts is read from a spelling of it, unless it is a double. -/
theorem text_of_scalar {cs rest : List Char} {value : Json} (accepted : scalar cs = .ok (value, rest)) :
    (∃ x, value = .num (.real x)) ∨ ∃ text, cs = text ++ rest ∧ ScalarText value text := by
  unfold scalar at accepted
  split at accepted
  · cases accepted
  · next c more =>
    split at accepted
    · next isN =>
      obtain ⟨_, read, same⟩ := (map_ok_iff _ _ _).mp accepted
      cases same
      exact .inr ⟨"null".toList, by rw [isN, (literal_ok_iff _ _ _).mp read]; rfl, rfl⟩
    split at accepted
    · next isT =>
      obtain ⟨_, read, same⟩ := (map_ok_iff _ _ _).mp accepted
      cases same
      exact .inr ⟨"true".toList, by rw [isT, (literal_ok_iff _ _ _).mp read]; rfl, rfl⟩
    split at accepted
    · next isF =>
      obtain ⟨_, read, same⟩ := (map_ok_iff _ _ _).mp accepted
      cases same
      exact .inr ⟨"false".toList, by rw [isF, (literal_ok_iff _ _ _).mp read]; rfl, rfl⟩
    split at accepted
    · next isQuote =>
      obtain ⟨⟨s, left⟩, read, same⟩ := (map_ok_iff _ _ _).mp accepted
      cases same
      obtain ⟨body, rfl, reads⟩ := (string_ok_iff _ _ _).mp read
      exact .inr ⟨'"' :: (body ++ ['"']), by simp [isQuote], body, rfl, reads⟩
    split at accepted
    · obtain ⟨⟨n, left⟩, read, same⟩ := (map_ok_iff _ _ _).mp accepted
      cases same
      cases n with
      | real x => exact .inl ⟨x, rfl⟩
      | whole w => exact .inr ⟨Text.integer w.val, integer_of_numeral read, rfl⟩
    · cases accepted

/-- The decimal form of an integer begins with its sign or a digit. -/
theorem integer_cons (i : Int) :
    ∃ c more, Text.integer i = c :: more ∧ (c = '-' ∨ c.isDigit = true) := by
  cases i with
  | negSucc n => exact ⟨'-', _, rfl, .inl rfl⟩
  | ofNat n =>
    cases form : Text.digits n with
    | nil => exact absurd form Nat.toDigits_ne_nil
    | cons c more =>
      exact ⟨c, more, form, .inr (isDigit_of_mem_digits (by rw [form]; exact List.mem_cons_self))⟩

/-- Every spelling of a value without parts is read as a whole. -/
theorem scalar_text {value : Json} {text rest : List Char} (spelled : ScalarText value text)
    (ends : Ends rest) : scalar (text ++ rest) = .ok (value, rest) := by
  cases value with
  | null =>
    cases spelled
    have read := (literal_ok_iff "ull".toList ("ull".toList ++ rest) rest).mpr rfl
    exact (map_ok_iff _ _ _).mpr ⟨rest, read, rfl⟩
  | bool b =>
    cases b with
    | true =>
      cases spelled
      have read := (literal_ok_iff "rue".toList ("rue".toList ++ rest) rest).mpr rfl
      exact (map_ok_iff _ _ _).mpr ⟨rest, read, rfl⟩
    | false =>
      cases spelled
      have read := (literal_ok_iff "alse".toList ("alse".toList ++ rest) rest).mpr rfl
      exact (map_ok_iff _ _ _).mpr ⟨rest, read, rfl⟩
  | str s =>
    obtain ⟨body, rfl, reads⟩ := spelled
    have read := (string_ok_iff (body ++ '"' :: rest) rest s).mpr ⟨body, rfl, reads⟩
    simp [scalar, read, Except.map]
  | num n =>
    cases n with
    | real x => exact absurd spelled (by simp [ScalarText])
    | whole w =>
      cases spelled
      have read := numeral_integer w ends
      obtain ⟨c, more, form, first⟩ := integer_cons w.val
      rw [form] at read ⊢
      have notLetter : c ≠ 'n' ∧ c ≠ 't' ∧ c ≠ 'f' ∧ c ≠ '"' := by
        rcases first with rfl | digit
        · decide
        · refine ⟨?_, ?_, ?_, ?_⟩ <;>
            rintro rfl <;> exact absurd digit (by decide)
      simp only [List.cons_append] at read ⊢
      simp [scalar, notLetter, first, read, Except.map]
  | arr items => exact absurd spelled (by simp [ScalarText])
  | obj members => exact absurd spelled (by simp [ScalarText])

theorem StringBody.loose {text value : List Char} (body : StringBody text value) : LooseBody text := by
  induction body with
  | nil => exact .nil
  | plain visible _ ih => exact .plain visible ih
  | escaped reads _ ih =>
    cases reads with
    | short known => exact .escaped (.short (by rw [known]; rfl)) ih
    | unit reads => exact .escaped (.unit reads) ih
    | pair first _ second _ =>
      have halves := LooseBody.escaped (.unit first) (LooseBody.escaped (.unit second) ih)
      simpa using halves

theorem digits_integerPart (n : Nat) : IntegerPart (Text.digits n) := by
  rcases Nat.eq_zero_or_pos n with rfl | positive
  · exact .inl (Nat.toDigits_zero 10)
  · exact .inr ⟨⟨Nat.toDigits_ne_nil, fun _ member => isDigit_of_mem_digits member⟩,
      head?_digits positive⟩

theorem integer_numeralText (i : Int) : NumeralText (Text.integer i) := by
  cases i with
  | ofNat n => exact ⟨[], Text.digits n, [], [], by simp [Text.integer], .inl rfl, digits_integerPart n,
      .inl rfl, .inl rfl⟩
  | negSucc n => exact ⟨['-'], Text.digits (n + 1), [], [], by simp [Text.integer], .inr rfl,
      digits_integerPart (n + 1), .inl rfl, .inl rfl⟩

theorem ScalarText.valid {value : Json} {text : List Char} (spelled : ScalarText value text) :
    ValidScalar text := by
  cases value with
  | null => exact .inl spelled
  | bool b =>
    cases b with
    | true => exact .inr (.inl spelled)
    | false => exact .inr (.inr (.inl spelled))
  | str s =>
    obtain ⟨body, rfl, reads⟩ := spelled
    exact .inr (.inr (.inr (.inr ⟨body, rfl, reads.loose⟩)))
  | num n =>
    cases n with
    | real x => exact absurd spelled (by simp [ScalarText])
    | whole w =>
      cases spelled
      exact .inr (.inr (.inr (.inl (integer_numeralText w.val))))
  | arr items => exact absurd spelled (by simp [ScalarText])
  | obj members => exact absurd spelled (by simp [ScalarText])

/-! ## Spellings -/

/-- A text that spells a value with at most `depth` containers inside each other. -/
def Spells : Nat → Json → List Char → Prop
  | 0, value, text => ScalarText value text
  | depth + 1, value, text =>
    ScalarText value text ∨
      (∃ items, value = .arr items ∧ Enclosed '[' ']' (Spells depth) items text) ∨
      ∃ members, value = .obj (Members.ofList members) ∧
        Enclosed '\x7b' '\x7d' (Keyed StringText (Spells depth)) members text

theorem Spells.starts {depth : Nat} {value : Json} {text : List Char}
    (spelled : Spells depth value text) : Starts text := by
  cases depth with
  | zero => exact (ScalarText.valid spelled).starts
  | succ depth =>
    rcases spelled with scalar | ⟨items, _, enclosed⟩ | ⟨members, _, enclosed⟩
    · exact scalar.valid.starts
    · cases enclosed <;> exact ⟨'[', _, rfl, by decide⟩
    · cases enclosed <;> exact ⟨'\x7b', _, rfl, by decide⟩

/-! ## Lists -/

/-- The reader takes every text of the relation as a whole. -/
def Reads {α : Type} (reader : List Char → Outcome α) (part : α → List Char → Prop) : Prop :=
  ∀ x text, part x text → ∀ before rest, Blank before → Ends rest →
    reader (before ++ (text ++ rest)) = .ok (x, rest)

section Lists

variable {item : List Char → Outcome Json}

theorem moreItems_close (item : List Char → Outcome Json) {cs rest : List Char} (found : skipSpace cs = ']' :: rest)
    (taken : List Json) (x : Char) (room : List Char) :
    moreItems item taken (x :: room) cs = .ok (taken.reverse, rest) := by
  simp only [moreItems, found, if_true]

theorem moreItems_next {cs more inside left : List Char} {d : Char} {value : Json}
    (found : skipSpace cs = ',' :: more) (first : skipSpace more = d :: inside) (notClosed : d ≠ ']')
    (read : item (d :: inside) = .ok (value, left)) (taken : List Json) (x : Char)
    (room : List Char) :
    moreItems item taken (x :: room) cs = moreItems item (value :: taken) room left := by
  have comma : ',' ≠ ']' := by decide
  simp only [moreItems, found, comma, if_false, if_true, first]
  split
  · next impossible => cases impossible
  · next same => exact absurd (List.cons.inj same).1 notClosed
  · rw [read]

variable {part : Json → List Char → Prop} (reads : Reads item part)
  (start : ∀ x text, part x text → Starts text)

include reads start

/-- The loop takes the items that stand behind an item, and goes on behind them. -/
theorem moreItems_followed {xs : List Json} {tail cs : List Char} (followed : Followed part tail xs cs)
    (ends : Ends tail) (taken : List Json) {room : List Char} (enough : cs.length ≤ room.length) :
    ∃ room' behind, Blank behind ∧ (behind ++ tail).length ≤ room'.length ∧
      moreItems item taken room cs = moreItems item (xs.reverse ++ taken) room' (behind ++ tail) := by
  induction followed generalizing taken room with
  | @done blanks blank => exact ⟨room, blanks, blank, enough, rfl⟩
  | @next v vs blanks before text cs blank blank' spelled followed ih =>
    cases room with
    | nil => simp at enough
    | cons x room =>
      have found := skipSpace_blank blank (rfl : isSpace ',' = false) (before ++ (text ++ cs))
      have starts := start _ _ spelled
      have first := starts.skipSpace blank' cs
      have read := reads v text spelled [] cs .nil (followed.ends ends)
      obtain ⟨d, more, rfl, _, notList, _⟩ := starts
      have stillEnough : cs.length ≤ room.length := by
        simp only [List.length_append, List.length_cons] at enough
        omega
      obtain ⟨room', last, blankLast, left, same⟩ := ih (v :: taken) stillEnough
      refine ⟨room', last, blankLast, left, ?_⟩
      rw [moreItems_next found first notList read taken x room, same]
      simp

/-- The items of a list are taken, and the loop goes on behind them. -/
theorem items_divided {xs : List Json} {body : List Char} (divided : Divided part xs body)
    {tail : List Char} (ends : Ends tail) :
    ∃ room behind, Blank behind ∧ (behind ++ tail).length ≤ room.length ∧
      items item (body ++ tail) = moreItems item xs.reverse room (behind ++ tail) := by
  obtain ⟨v, others, before, text, cs, rfl, whole, blank, spelled, followed⟩ := divided.followed tail
  have starts := start _ _ spelled
  have first := starts.skipSpace blank cs
  have read := reads v text spelled [] cs .nil (followed.ends ends)
  obtain ⟨d, more, rfl, _, notList, _⟩ := starts
  have begun : items item (before ++ (d :: more ++ cs)) = moreItems item [v] cs cs := by
    unfold items
    rw [first]
    simp only [List.cons_append, List.nil_append] at read ⊢
    split
    · next impossible => cases impossible
    · next same => exact absurd (List.cons.inj same).1 notList
    · rw [read]
  obtain ⟨room, last, blankLast, left, same⟩ :=
    moreItems_followed reads start followed ends [v] (Nat.le_refl _)
  refine ⟨room, last, blankLast, left, ?_⟩
  rw [whole, begun, same, List.reverse_cons]

/-- The items of a list and its closing bracket are taken. -/
theorem items_enclosed {xs : List Json} {inside : List Char}
    (enclosed : Enclosed '[' ']' part xs ('[' :: inside)) (rest : List Char) :
    items item (inside ++ rest) = .ok (xs, rest) := by
  cases enclosed with
  | @none blanks blank =>
    have found := skipSpace_blank blank (rfl : isSpace ']' = false) rest
    unfold items
    simp [found]
  | @some _ body divided =>
    have ends : Ends (']' :: rest) := ends_closing .list rest
    obtain ⟨room, behind, blank, left, same⟩ := items_divided reads start divided ends
    have found := skipSpace_blank blank (rfl : isSpace ']' = false) rest
    cases room with
    | nil => simp at left
    | cons x room =>
      have closed := moreItems_close item found xs.reverse x room
      rw [List.reverse_reverse] at closed
      rw [List.append_assoc]
      exact same.trans closed

end Lists

/-! ## Objects -/

section Objects

variable {item : List Char → Outcome Json}

theorem moreMembers_close (item : List Char → Outcome Json) {cs rest : List Char}
    (found : skipSpace cs = '\x7d' :: rest) (taken : Members) (x : Char) (room : List Char) :
    moreMembers item taken (x :: room) cs = .ok (taken, rest) := by
  simp only [moreMembers, found, if_true]

theorem moreMembers_next {cs more inside left : List Char} {key : String} {value : Json}
    (found : skipSpace cs = ',' :: more) (first : skipSpace more = '"' :: inside)
    (read : member item inside = .ok ((key, value), left)) (taken : Members) (x : Char)
    (room : List Char) :
    moreMembers item taken (x :: room) cs =
      moreMembers item (Members.insert key value taken) room left := by
  have comma : ',' ≠ '\x7d' := by decide
  simp only [moreMembers, found, comma, if_false, if_true, first, read]

variable {part : Json → List Char → Prop} (reads : Reads item part)

include reads

/-- A member is read as a whole, once its opening quote is taken. -/
theorem member_keyed {entry : String × Json} {text : List Char}
    (keyed : Keyed StringText part entry text) {rest : List Char} (ends : Ends rest) :
    ∃ inside, text = '"' :: inside ∧ member item (inside ++ rest) = .ok (entry, rest) := by
  obtain ⟨key, value⟩ := entry
  obtain ⟨_, behind, before, spelled, rfl, ⟨body, rfl, key_reads⟩, blank, blank', value_reads⟩ := keyed
  refine ⟨body ++ '"' :: (behind ++ ':' :: (before ++ spelled)), by simp, ?_⟩
  have key_read := (string_ok_iff (body ++ '"' :: (behind ++ ':' :: (before ++ (spelled ++ rest)))) _
    key).mpr ⟨body, rfl, key_reads⟩
  have at_colon := (colon_ok_iff (behind ++ ':' :: (before ++ (spelled ++ rest))) _).mpr
    ⟨behind, blank, rfl⟩
  have value_read := reads value spelled value_reads before rest blank' ends
  have regroup : body ++ '"' :: (behind ++ ':' :: (before ++ spelled)) ++ rest =
      body ++ '"' :: (behind ++ ':' :: (before ++ (spelled ++ rest))) := by simp
  unfold member
  rw [regroup, key_read]
  simp only [at_colon, value_read]

/-- The loop takes the members that stand behind a member, and the closing bracket. -/
theorem moreMembers_followed {xs : List (String × Json)} {cs rest : List Char}
    (followed : Followed (Keyed StringText part) ('\x7d' :: rest) xs cs) (taken : Members)
    {room : List Char} (enough : cs.length ≤ room.length) :
    moreMembers item taken room cs =
      .ok (xs.foldl (fun taken entry => Members.insert entry.1 entry.2 taken) taken, rest) := by
  have closing : Ends ('\x7d' :: rest) := ends_closing .object rest
  induction followed generalizing taken room with
  | @done blanks blank =>
    cases room with
    | nil => simp at enough
    | cons x room =>
      have found := skipSpace_blank blank (rfl : isSpace '\x7d' = false) rest
      exact moreMembers_close item found taken x room
  | @next entry others blanks before text cs blank blank' keyed followed ih =>
    cases room with
    | nil => simp at enough
    | cons x room =>
      obtain ⟨inside, rfl, read⟩ := member_keyed reads keyed (followed.ends closing)
      have found := skipSpace_blank blank (rfl : isSpace ',' = false)
        (before ++ ('"' :: inside ++ cs))
      have first := skipSpace_blank blank' (rfl : isSpace '"' = false) (inside ++ cs)
      have stillEnough : cs.length ≤ room.length := by
        simp only [List.length_append, List.length_cons] at enough
        omega
      rw [moreMembers_next found first read taken x room, ih _ stillEnough]
      rfl

/-- The members of an object and its closing bracket are taken. -/
theorem members_enclosed {xs : List (String × Json)} {inside : List Char}
    (enclosed : Enclosed '\x7b' '\x7d' (Keyed StringText part) xs ('\x7b' :: inside))
    (rest : List Char) :
    members item (inside ++ rest) = .ok (Members.ofList xs, rest) := by
  cases enclosed with
  | none blank =>
    have found := skipSpace_blank blank (rfl : isSpace '\x7d' = false) rest
    unfold members
    rw [List.append_assoc, List.singleton_append, found]
    simp [Members.ofList]
  | @some _ body divided =>
    obtain ⟨entry, others, before, text, cs, rfl, whole, blank, keyed, followed⟩ :=
      divided.followed ('\x7d' :: rest)
    have closing : Ends ('\x7d' :: rest) := ends_closing .object rest
    obtain ⟨inside, rfl, read⟩ := member_keyed reads keyed (followed.ends closing)
    have found := skipSpace_blank blank (rfl : isSpace '"' = false) (inside ++ cs)
    have begun : members item (before ++ ('"' :: inside ++ cs)) =
        moreMembers item (Members.insert entry.1 entry.2 []) cs cs := by
      unfold members
      rw [List.cons_append, found]
      simp [read, Members.insert]
    rw [List.append_assoc, List.singleton_append, whole, begun,
      moreMembers_followed reads followed _ (Nat.le_refl _)]
    rfl

end Objects

/-! ## Documents -/

/-- A text that the reader of values with at most `depth` containers inside each other takes as a whole,
whatever follows. -/
structure Taken (depth : Nat) (v : Json) (text : List Char) : Prop where
  starts : Starts text
  read : ∀ before rest, Blank before → Ends rest →
    value depth (before ++ (text ++ rest)) = .ok (v, rest)

namespace Taken

/-- A text that opens no container is taken if it is taken for a value without parts. -/
theorem scalar {depth : Nat} {v : Json} {text : List Char}
    (first : ∃ c more, text = c :: more ∧ isSpace c = false ∧ c ≠ ']' ∧ c ≠ '\x7d' ∧
      Container.opened? c = none)
    (read : ∀ rest, Ends rest → Json.scalar (text ++ rest) = .ok (v, rest)) : Taken depth v text := by
  obtain ⟨c, more, rfl, visible, notList, notObject, unopened⟩ := first
  refine ⟨⟨c, more, rfl, visible, notList, notObject⟩, fun before rest blank ends => ?_⟩
  have found := skipSpace_blank blank visible (more ++ rest)
  have notOpening : c ≠ '[' ∧ c ≠ '\x7b' := by
    refine ⟨?_, ?_⟩ <;>
      rintro rfl <;> simp [Container.opened?] at unopened
  have read := read rest ends
  rw [List.cons_append] at read ⊢
  cases depth <;>
    simp [value, found, notOpening, read]

theorem list {depth : Nat} {items : List Json} {text : List Char}
    (enclosed : Enclosed '[' ']' (Taken depth) items text) : Taken (depth + 1) (.arr items) text := by
  obtain ⟨inside, rfl⟩ : ∃ inside, text = '[' :: inside := by
    cases enclosed <;> exact ⟨_, rfl⟩
  refine ⟨⟨'[', inside, rfl, by decide⟩, fun before rest blank _ => ?_⟩
  have found := skipSpace_blank blank (rfl : isSpace '[' = false) (inside ++ rest)
  have read := items_enclosed (fun _ _ taken => taken.read) (fun _ _ => Taken.starts) enclosed rest
  simp [value, found, read]

theorem object {depth : Nat} {members : List (String × Json)} {text : List Char}
    (enclosed : Enclosed '\x7b' '\x7d' (Keyed StringText (Taken depth)) members text) :
    Taken (depth + 1) (.obj (Members.ofList members)) text := by
  obtain ⟨inside, rfl⟩ : ∃ inside, text = '\x7b' :: inside := by
    cases enclosed <;> exact ⟨_, rfl⟩
  refine ⟨⟨'\x7b', inside, rfl, by decide⟩, fun before rest blank _ => ?_⟩
  have found := skipSpace_blank blank (rfl : isSpace '\x7b' = false) (inside ++ rest)
  have read := members_enclosed (fun _ _ taken => taken.read) enclosed rest
  simp [value, found, read]

/-- A whole text that is taken is read, with blanks around it or without. -/
theorem read_whole {v : Json} {before text behind : List Char} (taken : Taken depthLimit v text)
    (blank : Blank before) (blank' : Blank behind) :
    Json.read (String.ofList (before ++ (text ++ behind))) = .ok v := by
  have ends : Ends behind := by
    have atEnd : Ends [] := fun c first => by cases first
    simpa using atEnd.blank blank'
  have skipped : skipSpace behind = [] := by
    rw [← List.append_nil behind, skipSpace_append blank']
    rfl
  rw [read_value_iff, String.toList_ofList]
  exact ⟨behind, taken.read before behind blank ends, skipped⟩

end Taken

/-- Every spelling of a value is taken for it. -/
theorem Spells.taken {depth : Nat} {v : Json} {text : List Char} (spelled : Spells depth v text) :
    Taken depth v text := by
  have scalar : ∀ {depth v text}, ScalarText v text → Taken depth v text := fun spelled =>
    .scalar spelled.valid.exists_cons fun _ => scalar_text spelled
  induction depth generalizing v text with
  | zero => exact scalar spelled
  | succ depth ih =>
    rcases spelled with spelled | ⟨items, rfl, enclosed⟩ | ⟨members, rfl, enclosed⟩
    · exact scalar spelled
    · exact .list (enclosed.mono fun _ _ => ih)
    · exact .object (enclosed.mono fun _ _ keyed => keyed.mono fun _ _ => ih)

/-- Every spelling of a value is read as a whole. -/
theorem value_spells (depth : Nat) : Reads (value depth) (Spells depth) :=
  fun _ _ spelled => spelled.taken.read

/-- A text that spells a value is read as that value, with blanks around it or without. -/
theorem read_spells {value : Json} {before text behind : List Char}
    (spelled : Spells depthLimit value text) (blank : Blank before) (blank' : Blank behind) :
    read (String.ofList (before ++ (text ++ behind))) = .ok value :=
  spelled.taken.read_whole blank blank'

end TelemetryHub.Json
