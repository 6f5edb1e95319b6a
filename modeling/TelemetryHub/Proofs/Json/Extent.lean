import TelemetryHub.Proofs.Json.Documents

/-!
# How far a reader goes

Reading a value and passing over it take the same text. A numeral is left where its syntax ends,
however many of its digits count (`numeral_valid`). What the loop over a container has done is kept
turn by turn (`Turns`, `Inside`), so that another loop over the same text can be followed along it, and
every value that is read has a valid text (`value_valid`). Since a text is passed over in one way only,
a reader that finds a valid text stops at its end (`value_extent`).
-/

namespace TelemetryHub.Json

/-! ## Numerals -/

theorem dropDigits_cons_of_digit {c : Char} (digit : c.isDigit = true) (rest : List Char) :
    dropDigits (c :: rest) = dropDigits rest := List.dropWhile_cons_of_pos digit

/-- Digits that are gathered are dropped too. -/
theorem dropDigits_gather (significand count : Nat) (cs : List Char) :
    dropDigits (gather significand count cs).2.2 = dropDigits cs := by
  induction cs generalizing significand count with
  | nil => rfl
  | cons c cs ih =>
    unfold gather
    split
    · next taken =>
      simp only [Bool.and_eq_true, decide_eq_true_eq] at taken
      rw [ih, dropDigits_cons_of_digit taken.1]
    · rfl

/-- The digits of an exponent are dropped up to where gathering them ends. -/
theorem dropDigits_gatherExponent (power : Nat) (cs : List Char) :
    (∀ exponent rest, gatherExponent power cs = (some exponent, rest) → dropDigits cs = rest) ∧
      ∀ rest, gatherExponent power cs = (none, rest) → dropDigits cs = dropDigits rest := by
  induction cs generalizing power with
  | nil =>
    constructor
    · intro exponent rest gathered
      cases gathered
      rfl
    · intro rest gathered
      cases gathered
  | cons c cs ih =>
    unfold gatherExponent
    by_cases digit : c.isDigit = true
    · rw [if_pos digit, dropDigits_cons_of_digit digit]
      split
      · exact ih _
      · refine ⟨nofun, fun rest gathered => ?_⟩
        cases gathered
        rfl
    · rw [if_neg digit]
      refine ⟨fun exponent rest gathered => ?_, nofun⟩
      cases gathered
      exact List.dropWhile_cons_of_neg digit

theorem rest_of_real {negative : Bool} {significand : Nat} {power : Int} {cs rest : List Char}
    {n : Number} (accepted : real negative significand power cs = .ok (n, rest)) : cs = rest := by
  unfold real at accepted
  split at accepted <;> cases accepted
  rfl

theorem passExponent_of_exponentPart {negative : Bool} {significand : Nat} {power : Int}
    {cs rest : List Char} {n : Number}
    (accepted : exponentPart negative significand power cs = .ok (n, rest)) :
    passExponent cs = .ok rest := by
  unfold exponentPart at accepted
  split at accepted
  next signed down behind isSign =>
  split at accepted
  · cases accepted
  next c more =>
  split at accepted
  · next digit =>
    have left : dropDigits more = rest := by
      obtain ⟨whole, tooBig⟩ := dropDigits_gatherExponent (digitValue c) more
      split at accepted
      · next exponent left gathered => rw [whole _ _ gathered, rest_of_real accepted]
      · next left gathered =>
        rw [tooBig _ gathered]
        split at accepted <;> cases accepted
        rfl
    split at isSign
    · cases isSign
      simp only [passExponent, digit, if_true, left]
    · cases isSign
      simp only [passExponent, digit, if_true, left]
    · next noMinus noPlus =>
      cases isSign
      unfold passExponent
      split
      · next minus => exact absurd minus (noMinus _)
      · next plus => exact absurd plus (noPlus _)
      · simp only [digit, if_true, left]
  · cases accepted

theorem passFraction_of_fractionPart {negative : Bool} {significand : Nat} {power : Int}
    {cs rest : List Char} {n : Number}
    (accepted : fractionPart negative significand power cs = .ok (n, rest)) :
    passFraction ('.' :: cs) = .ok rest := by
  unfold fractionPart at accepted
  split at accepted
  · cases accepted
  next c more =>
  split at accepted
  · next digit =>
    have dropped := dropDigits_gather significand 0 (c :: more)
    rw [dropDigits_cons_of_digit digit] at dropped
    simp only [passFraction, digit, if_true]
    split at accepted
    next gathered =>
    rw [gathered] at dropped
    rw [← dropped]
    split at accepted
    · next found => rw [found]; exact passExponent_of_exponentPart accepted
    · next found => rw [found]; exact passExponent_of_exponentPart accepted
    · next noLower noUpper =>
      rw [← rest_of_real accepted]
      unfold passExponent?
      split
      · next found => exact absurd found (noLower _)
      · next found => exact absurd found (noUpper _)
      · rfl
  · cases accepted

theorem passFraction_of_afterInteger {negative : Bool} {significand extra : Nat}
    {cs rest : List Char} {n : Number}
    (accepted : afterInteger negative significand extra cs = .ok (n, rest)) :
    passFraction cs = .ok rest := by
  unfold afterInteger at accepted
  split at accepted
  · exact passFraction_of_fractionPart accepted
  · exact passExponent_of_exponentPart accepted
  · exact passExponent_of_exponentPart accepted
  · next noPoint noLower noUpper =>
    have same : cs = rest := by
      split at accepted
      · unfold integral at accepted
        dsimp only at accepted
        split at accepted
        · cases accepted
          rfl
        · exact rest_of_real accepted
      · exact rest_of_real accepted
    rw [same] at noPoint noLower noUpper ⊢
    unfold passFraction passExponent?
    split
    · exact absurd rfl (noPoint _)
    split
    · exact absurd rfl (noLower _)
    · exact absurd rfl (noUpper _)
    · rfl

theorem passNumeral_of_unsignedNumeral {negative : Bool} {cs rest : List Char} {n : Number}
    (accepted : unsignedNumeral negative cs = .ok (n, rest)) : passNumeral cs = .ok rest := by
  unfold unsignedNumeral at accepted
  unfold passNumeral
  split at accepted
  · cases accepted
  · next more =>
    simp only [if_true]
    split at accepted
    · split at accepted
      · cases accepted
      · next noDigit =>
        simp only [noDigit]
        exact passFraction_of_afterInteger accepted
    · exact passFraction_of_afterInteger accepted
  · next c more notZero =>
    have other : c ≠ '0' := fun same => notZero same
    split at accepted
    · next digit =>
      simp only [other, if_false, digit, if_true]
      rw [← dropDigits_gather (digitValue c) 1 more]
      exact passFraction_of_afterInteger accepted
    · cases accepted

/-- A numeral that is read is one by its syntax. -/
theorem numeral_valid {cs rest : List Char} {n : Number} (accepted : numeral cs = .ok (n, rest)) :
    ∃ text, cs = text ++ rest ∧ NumeralText text := by
  unfold numeral at accepted
  split at accepted
  · exact numeral_of_passNumeral (.inr rfl) (passNumeral_of_unsignedNumeral accepted)
  · exact numeral_of_passNumeral (.inl rfl) (passNumeral_of_unsignedNumeral accepted)

/-! ## Values without parts -/

theorem scalar_valid {cs rest : List Char} {value : Json} (accepted : scalar cs = .ok (value, rest)) :
    ∃ text, cs = text ++ rest ∧ ValidScalar text := by
  rcases text_of_scalar accepted with ⟨x, rfl⟩ | ⟨text, same, spelled⟩
  · -- only a numeral is read as a double
    unfold scalar at accepted
    split at accepted
    · cases accepted
    split at accepted
    · obtain ⟨_, _, same⟩ := (map_ok_iff _ _ _).mp accepted
      cases same
    split at accepted
    · obtain ⟨_, _, same⟩ := (map_ok_iff _ _ _).mp accepted
      cases same
    split at accepted
    · obtain ⟨_, _, same⟩ := (map_ok_iff _ _ _).mp accepted
      cases same
    split at accepted
    · obtain ⟨_, _, same⟩ := (map_ok_iff _ _ _).mp accepted
      cases same
    split at accepted
    · obtain ⟨⟨n, left⟩, read, same⟩ := (map_ok_iff _ _ _).mp accepted
      cases same
      obtain ⟨text, same, isNumeral⟩ := numeral_valid read
      exact ⟨text, same, .inr (.inr (.inr (.inl isNumeral)))⟩
    · cases accepted
  · exact ⟨text, same, spelled.valid⟩

/-- A value without parts is no container. -/
theorem scalar_ne_container {cs rest : List Char} {value : Json}
    (accepted : scalar cs = .ok (value, rest)) :
    (∀ items, value ≠ .arr items) ∧ ∀ members, value ≠ .obj members := by
  rcases text_of_scalar accepted with ⟨x, rfl⟩ | ⟨text, -, spelled⟩
  · exact ⟨nofun, nofun⟩
  · constructor
    · rintro items rfl
      exact absurd spelled (by simp [ScalarText])
    · rintro members rfl
      exact absurd spelled (by simp [ScalarText])

/-! ## Containers turn by turn -/

section Turns

variable {α : Type}

/-- What the loop over a container does behind a part: in every turn it finds a comma and takes another
part, and at last it finds the closing bracket. -/
inductive Turns (closing : Char) (takes : List Char → α → List Char → Prop) :
    List α → List Char → List Char → Prop where
  | close {cs rest : List Char} (found : skipSpace cs = closing :: rest) :
      Turns closing takes [] cs rest
  | next {x : α} {xs : List α} {cs more left rest : List Char} (found : skipSpace cs = ',' :: more)
      (took : takes (skipSpace more) x left) (others : Turns closing takes xs left rest) :
      Turns closing takes (x :: xs) cs rest

/-- What is done behind the opening bracket of a container. -/
inductive Inside (closing : Char) (takes : List Char → α → List Char → Prop) :
    List α → List Char → List Char → Prop where
  | empty {cs rest : List Char} (found : skipSpace cs = closing :: rest) :
      Inside closing takes [] cs rest
  | parts {x : α} {xs : List α} {cs left rest : List Char} (took : takes (skipSpace cs) x left)
      (others : Turns closing takes xs left rest) (enough : xs.length < left.length) :
      Inside closing takes (x :: xs) cs rest

/-- What is taken are blanks and a text of the part. -/
def TakesText (takes : List Char → α → List Char → Prop) (part : α → List Char → Prop) : Prop :=
  ∀ cs x left, takes cs x left →
    ∃ before text, Blank before ∧ cs = before ++ (text ++ left) ∧ part x text

variable {closing : Char} {takes : List Char → α → List Char → Prop} {part : α → List Char → Prop}
  (texts : TakesText takes part) {xs : List α} {cs rest : List Char}

theorem exists_blank_of_skipSpace {c : Char} {more : List Char} (found : skipSpace cs = c :: more) :
    ∃ blanks, Blank blanks ∧ cs = blanks ++ c :: more := by
  rw [← found]
  exact exists_blank_skipSpace cs

include texts

theorem Turns.followed (turns : Turns closing takes xs cs rest) :
    Followed part (closing :: rest) xs cs := by
  induction turns with
  | close found =>
    obtain ⟨blanks, blank, rfl⟩ := exists_blank_of_skipSpace found
    exact .done blank
  | @next x xs cs more left rest found took _ ih =>
    obtain ⟨blanks, blank, rfl⟩ := exists_blank_of_skipSpace found
    obtain ⟨between, blank', same⟩ := exists_blank_skipSpace more
    obtain ⟨before, text, blank'', same', reads⟩ := texts _ _ _ took
    rw [same, same', ← List.append_assoc between]
    exact .next blank (blank'.append blank'') reads ih

theorem Inside.enclosed (inside : Inside closing takes xs cs rest) (opening : Char) :
    ∃ text, cs = text ++ rest ∧ Enclosed opening closing part xs (opening :: text) := by
  cases inside with
  | empty found =>
    obtain ⟨blanks, blank, rfl⟩ := exists_blank_of_skipSpace found
    exact ⟨blanks ++ [closing], by simp, .none blank⟩
  | @parts x xs cs left rest took others _ =>
    obtain ⟨between, blank, same⟩ := exists_blank_skipSpace cs
    obtain ⟨before, text, blank', same', reads⟩ := texts _ _ _ took
    obtain ⟨body, whole, divided⟩ :=
      (others.followed texts).divided (blank.append blank') reads
    refine ⟨body ++ [closing], ?_, .some divided⟩
    rw [same, same', ← List.append_assoc between, whole]
    simp

end Turns

/-! ## Lists and objects -/

section Loops

variable {item : List Char → Outcome Json}

/-- An item of a list is taken. -/
def TakesItem (item : List Char → Outcome Json) (cs : List Char) (value : Json)
    (left : List Char) : Prop :=
  (∃ c more, cs = c :: more ∧ c ≠ ']') ∧ item cs = .ok (value, left)

/-- A member of an object is taken. -/
def TakesMember (item : List Char → Outcome Json) (cs : List Char) (entry : String × Json)
    (left : List Char) : Prop :=
  ∃ inside, cs = '"' :: inside ∧ member item inside = .ok (entry, left)

theorem turns_of_moreItems {taken values : List Json} {room cs rest : List Char}
    (accepted : moreItems item taken room cs = .ok (values, rest)) :
    ∃ others, values = taken.reverse ++ others ∧ Turns ']' (TakesItem item) others cs rest ∧
      others.length < room.length := by
  induction room generalizing taken cs with
  | nil => cases accepted
  | cons _ room ih =>
    unfold moreItems at accepted
    split at accepted
    · cases accepted
    next c more found =>
    split at accepted
    · next isClosing =>
      cases accepted
      rw [isClosing] at found
      exact ⟨[], (List.append_nil _).symm, .close found, Nat.succ_pos _⟩
    split at accepted
    · next isComma =>
      rw [isComma] at found
      split at accepted
      · cases accepted
      · cases accepted
      next notEnd notClosing =>
      split at accepted
      · next value left read =>
        obtain ⟨others, rfl, turns, less⟩ := ih accepted
        have begins : ∃ c inside, skipSpace more = c :: inside ∧ c ≠ ']' := by
          cases first : skipSpace more with
          | nil => exact absurd first notEnd
          | cons c inside =>
            refine ⟨c, inside, rfl, ?_⟩
            rintro rfl
            exact notClosing inside first
        exact ⟨value :: others, by simp, .next found ⟨begins, read⟩ turns,
          Nat.succ_lt_succ less⟩
      · cases accepted
    · cases accepted

theorem inside_of_items {values : List Json} {cs rest : List Char}
    (accepted : items item cs = .ok (values, rest)) :
    Inside ']' (TakesItem item) values cs rest := by
  unfold items at accepted
  split at accepted
  · cases accepted
  · next more found =>
    cases accepted
    exact .empty found
  next notEnd notClosing =>
  split at accepted
  · next value left read =>
    obtain ⟨others, rfl, turns, less⟩ := turns_of_moreItems accepted
    have begins : ∃ c more, skipSpace cs = c :: more ∧ c ≠ ']' := by
      cases first : skipSpace cs with
      | nil => exact absurd first notEnd
      | cons c more =>
        refine ⟨c, more, rfl, ?_⟩
        rintro rfl
        exact notClosing more first
    exact .parts ⟨begins, read⟩ turns less
  · cases accepted

theorem turns_of_moreMembers {taken members : Members} {room cs rest : List Char}
    (accepted : moreMembers item taken room cs = .ok (members, rest)) :
    ∃ others : List (String × Json),
      members = others.foldl (fun taken entry => Members.insert entry.1 entry.2 taken) taken ∧
      Turns '\x7d' (TakesMember item) others cs rest ∧ others.length < room.length := by
  induction room generalizing taken cs with
  | nil => cases accepted
  | cons _ room ih =>
    unfold moreMembers at accepted
    split at accepted
    · cases accepted
    next c more found =>
    split at accepted
    · next isClosing =>
      cases accepted
      rw [isClosing] at found
      exact ⟨[], rfl, .close found, Nat.succ_pos _⟩
    split at accepted
    · next isComma =>
      rw [isComma] at found
      split at accepted
      · cases accepted
      next d inside first =>
      split at accepted
      · next isQuote =>
        split at accepted
        · next key value left read =>
          obtain ⟨others, rfl, turns, less⟩ := ih accepted
          refine ⟨(key, value) :: others, rfl, .next found ⟨inside, ?_, read⟩ turns,
            Nat.succ_lt_succ less⟩
          rw [first, isQuote]
        · cases accepted
      · split at accepted <;> cases accepted
    · cases accepted

theorem inside_of_members {members : Members} {cs rest : List Char}
    (accepted : Json.members item cs = .ok (members, rest)) :
    ∃ entries, members = Members.ofList entries ∧
      Inside '\x7d' (TakesMember item) entries cs rest := by
  unfold Json.members at accepted
  split at accepted
  · cases accepted
  next c more found =>
  split at accepted
  · next isClosing =>
    cases accepted
    rw [isClosing] at found
    exact ⟨[], rfl, .empty found⟩
  split at accepted
  · next isQuote =>
    split at accepted
    · next first left read =>
      obtain ⟨others, rfl, turns, less⟩ := turns_of_moreMembers accepted
      refine ⟨first :: others, rfl, .parts ⟨more, ?_, read⟩ turns less⟩
      rw [found, isQuote]
    · cases accepted
  · cases accepted

end Loops

/-! ## Values -/

/-- What a value is read from, by its first character. -/
inductive Began (depth : Nat) (cs : List Char) (value : Json) (rest : List Char) : Prop where
  | list {inner : Nat} {more : List Char} {items : List Json} (isDepth : depth = inner + 1)
      (found : skipSpace cs = '[' :: more) (isList : value = .arr items)
      (inside : Inside ']' (TakesItem (Json.value inner)) items more rest)
  | object {inner : Nat} {more : List Char} {entries : List (String × Json)}
      (isDepth : depth = inner + 1) (found : skipSpace cs = '\x7b' :: more)
      (isObject : value = .obj (Members.ofList entries))
      (inside : Inside '\x7d' (TakesMember (Json.value inner)) entries more rest)
  | scalar {c : Char} {more : List Char} (found : skipSpace cs = c :: more) (notList : c ≠ '[')
      (notObject : c ≠ '\x7b') (read : Json.scalar (c :: more) = .ok (value, rest))

theorem value_began {depth : Nat} {cs rest : List Char} {v : Json}
    (accepted : value depth cs = .ok (v, rest)) : Began depth cs v rest := by
  cases depth with
  | zero =>
    unfold value at accepted
    split at accepted
    · cases accepted
    next c more found =>
    split at accepted
    · cases accepted
    · next unopened =>
      simp only [Bool.or_eq_true, decide_eq_true_eq, not_or] at unopened
      exact .scalar found unopened.1 unopened.2 accepted
  | succ depth =>
    unfold value at accepted
    split at accepted
    · cases accepted
    next c more found =>
    split at accepted
    · next isBracket =>
      split at accepted
      · next read =>
        cases accepted
        rw [isBracket] at found
        exact .list rfl found rfl (inside_of_items read)
      · cases accepted
    next notList =>
    split at accepted
    · next isBrace =>
      split at accepted
      · next read =>
        cases accepted
        rw [isBrace] at found
        obtain ⟨entries, rfl, inside⟩ := inside_of_members read
        exact .object rfl found rfl inside
      · cases accepted
    next notObject => exact .scalar found notList notObject accepted

/-- A member with a key, whose value is valid, whatever it is. -/
def KeyedValid (key : String) (text : List Char) : Prop :=
  Keyed StringText (fun _ : Unit => Valid) (key, ()) text

theorem KeyedValid.part {key : String} {text : List Char} (keyed : KeyedValid key text) :
    Container.object.Part Valid () text := by
  obtain ⟨name, behind, before, value, same, ⟨body, rfl, reads⟩, blank, blank', valid⟩ := keyed
  exact ⟨_, behind, before, value, same, ⟨body, rfl, reads.loose⟩, blank, blank', valid⟩

theorem KeyedValid.starts {key : String} {text : List Char} (keyed : KeyedValid key text) :
    Starts text := by
  obtain ⟨_, behind, before, value, rfl, ⟨body, rfl, -⟩, -⟩ := keyed
  exact ⟨'"', _, rfl, by decide, by decide, by decide⟩

section Texts

variable {item : List Char → Outcome Json}
  (reads : ∀ cs v left, item cs = .ok (v, left) →
    ∃ before text, Blank before ∧ cs = before ++ (text ++ left) ∧ Valid text)

include reads

theorem takesText_item : TakesText (TakesItem item) fun _ => Valid :=
  fun cs v left took => reads cs v left took.2

theorem takesText_member : TakesText (TakesMember item) fun entry => KeyedValid entry.1 := by
  rintro _ ⟨key, value⟩ left ⟨inside, rfl, read⟩
  unfold member at read
  split at read
  · cases read
  next key' afterKey keyRead =>
  split at read
  · cases read
  next afterColon atColon =>
  split at read
  · cases read
  next value' left' valueRead =>
  cases read
  obtain ⟨body, rfl, keyReads⟩ := (string_ok_iff _ _ _).mp keyRead
  obtain ⟨behind, blank, rfl⟩ := (colon_ok_iff _ _).mp atColon
  obtain ⟨before, text, blank', rfl, valid⟩ := reads _ _ _ valueRead
  exact ⟨[], '"' :: (body ++ ['"']) ++ (behind ++ ':' :: (before ++ text)), .nil, by simp,
    _, behind, before, text, rfl, ⟨body, rfl, keyReads⟩, blank, blank', valid⟩

end Texts

/-- Every value that is read has a valid text, behind blanks. -/
theorem value_valid (depth : Nat) : ∀ cs v rest, value depth cs = .ok (v, rest) →
    ∃ before text, Blank before ∧ cs = before ++ (text ++ rest) ∧ Valid text := by
  induction depth with
  | zero =>
    intro cs v rest accepted
    cases value_began accepted with
    | list isDepth => cases isDepth
    | object isDepth => cases isDepth
    | scalar found _ _ read =>
      obtain ⟨before, blank, rfl⟩ := exists_blank_of_skipSpace found
      obtain ⟨text, same, valid⟩ := scalar_valid read
      exact ⟨before, text, blank, by rw [same], 0, valid⟩
  | succ depth ih =>
    intro cs v rest accepted
    cases value_began accepted with
    | @list _ _ items isDepth found _ inside =>
      cases isDepth
      obtain ⟨before, blank, rfl⟩ := exists_blank_of_skipSpace found
      obtain ⟨text, rfl, enclosed⟩ := inside.enclosed (takesText_item ih) '['
      have each : Enclosed '[' ']' (Container.list.Part Valid) (items.map fun _ => ()) ('[' :: text) :=
        enclosed.map _ fun _ _ valid => valid
      exact ⟨before, '[' :: text, blank, rfl, @Valid.container .list _ _ each⟩
    | object isDepth found _ inside =>
      cases isDepth
      obtain ⟨before, blank, rfl⟩ := exists_blank_of_skipSpace found
      obtain ⟨text, rfl, enclosed⟩ := inside.enclosed (takesText_member ih) '\x7b'
      have each := enclosed.map (fun _ => ()) fun _ _ => KeyedValid.part
      exact ⟨before, '\x7b' :: text, blank, rfl, @Valid.container .object _ _ each⟩
    | scalar found _ _ read =>
      obtain ⟨before, blank, rfl⟩ := exists_blank_of_skipSpace found
      obtain ⟨text, same, valid⟩ := scalar_valid read
      exact ⟨before, text, blank, by rw [same], 0, valid⟩

/-- What is read is a document, with blanks around it or without. -/
theorem document_of_read {text : String} {value : Json} (accepted : read text = .ok value) :
    ∃ before document behind, Blank before ∧ Blank behind ∧
      text.toList = before ++ (document ++ behind) ∧ Valid document := by
  obtain ⟨rest, found, nothing⟩ := (read_value_iff text value).mp accepted
  obtain ⟨before, document, blank, parts, valid⟩ := value_valid _ _ _ _ found
  exact ⟨before, document, rest, blank, blank_of_skipSpace nothing, parts, valid⟩

/-- A value that is read and ends where values may end is passed over by its syntax. -/
theorem pass_of_value {depth : Nat} {cs rest : List Char} {v : Json}
    (accepted : value depth cs = .ok (v, rest)) (ends : Ends rest) : pass cs = .ok rest := by
  obtain ⟨before, text, blank, rfl, valid⟩ := value_valid depth cs v rest accepted
  exact pass_valid blank valid ends

/-- A value that is read from a valid text ends where the text ends. -/
theorem value_extent {depth : Nat} {before text rest left : List Char} {v : Json}
    (accepted : value depth (before ++ (text ++ rest)) = .ok (v, left)) (blank : Blank before)
    (valid : Valid text) (ends : Ends rest) (ends' : Ends left) : left = rest := by
  have here := pass_of_value accepted ends'
  rw [pass_valid blank valid ends] at here
  exact (Except.ok.inj here).symm

/-! ## The keys of an object -/

/-- Of two members that begin a text, both have the same key and end at the same place. -/
theorem KeyedValid.unique {key key' : String} {text text' rest rest' : List Char}
    (keyed : KeyedValid key text) (keyed' : KeyedValid key' text') (ends : Ends rest)
    (ends' : Ends rest') (same : text ++ rest = text' ++ rest') : key = key' ∧ rest = rest' := by
  have taken : ∀ {key : String} {text rest : List Char}, KeyedValid key text → Ends rest →
      ∃ inside afterKey value, text ++ rest = '"' :: inside ∧ string inside = .ok (key, afterKey) ∧
        colon afterKey = .ok value ∧ pass value = .ok rest := by
    intro key text rest keyed ends
    obtain ⟨_, behind, before, value, rfl, ⟨body, rfl, reads⟩, blank, blank', valid⟩ := keyed
    refine ⟨body ++ '"' :: (behind ++ ':' :: (before ++ (value ++ rest))),
      behind ++ ':' :: (before ++ (value ++ rest)), before ++ (value ++ rest), by simp,
      (string_ok_iff _ _ _).mpr ⟨body, rfl, reads⟩, (colon_ok_iff _ _).mpr ⟨behind, blank, rfl⟩,
      pass_valid blank' valid ends⟩
  obtain ⟨inside, afterKey, value, first, keyRead, atColon, passed⟩ := taken keyed ends
  obtain ⟨inside', afterKey', value', first', keyRead', atColon', passed'⟩ := taken keyed' ends'
  cases (List.cons.inj (first.symm.trans (same.trans first'))).2
  cases keyRead.symm.trans keyRead'
  cases atColon.symm.trans atColon'
  cases passed.symm.trans passed'
  exact ⟨rfl, rfl⟩

/-- What stands behind a member has the same keys, however far it goes. -/
theorem keys_unique_followed {left left' cs : List Char} {keys keys' : List String}
    (followed : Followed KeyedValid ('\x7d' :: left) keys cs)
    (followed' : Followed KeyedValid ('\x7d' :: left') keys' cs) : keys = keys' := by
  have closing : isSpace '\x7d' = false := rfl
  have comma : isSpace ',' = false := rfl
  induction followed generalizing keys' with
  | @done blanks blank =>
    have found := skipSpace_blank blank closing left
    generalize blanks ++ '\x7d' :: left = cs at followed' found
    cases followed' with
    | done => rfl
    | next blank' =>
      rw [skipSpace_blank blank' comma] at found
      exact absurd (List.cons.inj found).1 (by decide)
  | @next key keys blanks before text cs blank blank' keyed more ih =>
    have found := skipSpace_blank blank comma (before ++ (text ++ cs))
    generalize blanks ++ ',' :: (before ++ (text ++ cs)) = whole at followed' found
    cases followed' with
    | done blank'' =>
      rw [skipSpace_blank blank'' closing] at found
      exact absurd (List.cons.inj found).1 (by decide)
    | @next key' keys' _ before' text' cs' blank'' blank''' keyed' more' =>
      rw [skipSpace_blank blank'' comma] at found
      have atKey := congrArg skipSpace (List.cons.inj found).2
      rw [keyed'.starts.skipSpace blank''', keyed.starts.skipSpace blank'] at atKey
      obtain ⟨rfl, rfl⟩ := keyed'.unique keyed (more'.ends (ends_closing .object left'))
        (more.ends (ends_closing .object left)) atKey
      rw [ih more']

/-- An object has its keys and no others. -/
theorem keys_unique {keys keys' : List String} {text : List Char}
    (enclosed : Enclosed '\x7b' '\x7d' KeyedValid keys text)
    (enclosed' : Enclosed '\x7b' '\x7d' KeyedValid keys' text) : keys = keys' := by
  -- a first member is like one behind a comma
  have some : ∀ {keys : List String} {body : List Char}, Divided KeyedValid keys body →
      Followed KeyedValid ['\x7d'] keys (',' :: (body ++ ['\x7d'])) ∧
        skipSpace (body ++ ['\x7d']) ≠ ['\x7d'] := by
    intro keys body parts
    obtain ⟨key, others, before, text, cs, rfl, same, blank, keyed, followed⟩ :=
      parts.followed ['\x7d']
    rw [same]
    refine ⟨.next .nil blank keyed followed, ?_⟩
    rw [keyed.starts.skipSpace blank]
    obtain ⟨c, more, rfl, -, -, notClosing⟩ := keyed.starts
    exact fun closed => notClosing (List.cons.inj closed).1
  have none : ∀ {blanks : List Char}, Blank blanks →
      skipSpace (blanks ++ ['\x7d']) = ['\x7d'] := fun blank => skipSpace_blank blank rfl []
  cases enclosed with
  | none blank =>
    generalize same : '\x7b' :: (_ ++ ['\x7d']) = text at enclosed'
    cases enclosed' with
    | none => rfl
    | some parts => exact absurd ((List.cons.inj same).2 ▸ none blank) (some parts).2
  | some parts =>
    generalize same : '\x7b' :: (_ ++ ['\x7d']) = text at enclosed'
    cases enclosed' with
    | none blank => exact absurd ((List.cons.inj same).2 ▸ none blank) (some parts).2
    | some parts' =>
      have both := (some parts').1
      rw [← (List.cons.inj same).2] at both
      exact keys_unique_followed (some parts).1 both

end TelemetryHub.Json
