import TelemetryHub.Proofs.Command.Parsing
import TelemetryHub.Proofs.Json.Extent

/-!
# Messages in documents

A message is read from a text and from a document in two ways that share the conversions of a field's
value. Here both are followed along one text, turn by turn (`Agree`): where the reader of documents has
taken a part, the reader of messages takes it as well or refuses it for good. So the two agree on every
document (`reader_of_value`) whose fields are given once; of a field that is given twice the document
keeps the last value only, while the reader of messages accepts none.
-/

namespace TelemetryHub

namespace Message

open Json (Blank Ends Enclosed Inside KeyedValid Members Outcome Problem TakesItem TakesMember Turns
  Valid skipSpace)

/-- What is read from a text, up to `left`, and what is made of a document: both are the same, or
neither is anything. -/
inductive Agree {α : Type} (left : List Char) : Outcome α → Except Problem α → Prop where
  | taken (x : α) : Agree left (.ok (x, left)) (.ok x)
  | refused (fault : Json.Fault) (problem : Problem) : Agree left (.error fault) (.error problem)

theorem Agree.ok_iff {α : Type} {left : List Char} {outcome : Outcome α} {result : Except Problem α}
    (agree : Agree left outcome result) (x : α) : outcome = .ok (x, left) ↔ result = .ok x := by
  cases agree <;> simp

/-! ## Values -/

/-- A container is the value of no field. -/
theorem put_container (fields : Fields) (field : Field) {value : Json}
    (container : (∃ items, value = .arr items) ∨ ∃ members, value = .obj members) :
    ∃ problem, fields.put field value = .error problem := by
  rcases container with ⟨items, rfl⟩ | ⟨members, rfl⟩ <;> cases field <;> exact ⟨_, rfl⟩

/-- The value of a field is read where the document has one that the field takes. -/
theorem fieldValue_of_value {depth : Nat} {cs left : List Char} {value : Json}
    (read : Json.value depth cs = .ok (value, left)) (fields : Fields) (field : Field) :
    Agree left (fieldValue fields field cs) (fields.put field value) := by
  cases Json.value_began read with
  | list _ found isList _ =>
    obtain ⟨problem, refused⟩ := put_container fields field (.inl ⟨_, isList⟩)
    simp only [fieldValue, found, if_true, refused]
    exact .refused _ _
  | object _ found isObject _ =>
    obtain ⟨problem, refused⟩ := put_container fields field (.inr ⟨_, isObject⟩)
    have other : '\x7b' ≠ '[' := by decide
    simp only [fieldValue, found, other, if_false, if_true, refused]
    exact .refused _ _
  | scalar found notList notObject read =>
    simp only [fieldValue, found, notList, notObject, if_false, read]
    cases fields.put field value with
    | ok taken => exact .taken taken
    | error problem => exact .refused _ _

/-! ## Objects -/

theorem ofMembers_cons (fields : Fields) (entry : String × Json) (entries : Members) :
    ofMembers fields (entry :: entries) =
      (ofMembers fields [entry]).bind fun fields => ofMembers fields entries := by
  obtain ⟨key, value⟩ := entry
  simp only [ofMembers]
  cases Field.named? key with
  | none => rfl
  | some field =>
    dsimp only
    split
    · rfl
    · cases fields.put field value <;> rfl

/-- A member is read where the document has one that goes with the fields. -/
theorem memberOf_of_member {depth : Nat} {cs left : List Char} {entry : String × Json}
    (read : Json.member (Json.value depth) cs = .ok (entry, left)) (ends : Ends left)
    (fields : Fields) : Agree left (memberOf fields cs) (ofMembers fields [entry]) := by
  unfold Json.member at read
  split at read
  · cases read
  next key afterKey keyRead =>
  split at read
  · cases read
  next afterColon atColon =>
  split at read
  · cases read
  next value _ valueRead =>
  cases read
  simp only [memberOf, keyRead, ofMembers, atColon]
  cases Field.named? key with
  | none =>
    dsimp only
    rw [Json.pass_of_value valueRead ends]
    exact .taken fields
  | some field =>
    dsimp only
    split
    · -- the member is given twice, which is said behind its key
      cases stopped : stopBehind (.duplicateField field.name) '\x7d' afterKey with
      | ok result => exact absurd stopped (stopBehind_ne_ok _ _ _ result)
      | error fault => exact .refused _ _
    · have agree := fieldValue_of_value valueRead fields field
      generalize fieldValue fields field afterColon = outcome at agree ⊢
      generalize fields.put field value = result at agree ⊢
      cases agree with
      | taken fields => exact .taken fields
      | refused fault problem => exact .refused fault problem

theorem ends_of_turns {depth : Nat} {entries : Members} {cs left : List Char}
    (turns : Turns '\x7d' (TakesMember (Json.value depth)) entries cs left) : Ends cs :=
  (turns.followed (Json.takesText_member (Json.value_valid depth))).ends
    (Json.ends_closing .object left)

/-- The members behind the first one are read where those of the document go with the fields. -/
theorem moreMembers_of_turns {depth : Nat} {entries : Members} {cs left : List Char}
    (turns : Turns '\x7d' (TakesMember (Json.value depth)) entries cs left) (fields : Fields)
    {room : List Char} (enough : entries.length < room.length) :
    Agree left (moreMembers fields room cs) (ofMembers fields entries) := by
  induction turns generalizing fields room with
  | close found =>
    cases room with
    | nil => cases enough
    | cons x room =>
      simp only [moreMembers, found, if_true, ofMembers]
      exact .taken fields
  | @next entry entries cs more afterEntry left found took others ih =>
    cases room with
    | nil => cases enough
    | cons x room =>
      obtain ⟨inside, first, read⟩ := took
      have agree := memberOf_of_member read (ends_of_turns others) fields
      have comma : ',' ≠ '\x7d' := by decide
      rw [ofMembers_cons]
      simp only [moreMembers, found, comma, if_false, if_true, first]
      generalize memberOf fields inside = outcome at agree ⊢
      generalize ofMembers fields [entry] = result at agree ⊢
      cases agree with
      | taken fields => exact ih fields (Nat.lt_of_succ_lt_succ enough)
      | refused fault problem => exact .refused fault problem

/-- The fields of an object are read where the members of the document go together. -/
theorem fieldsOf_of_inside {depth : Nat} {entries : Members} {cs left : List Char}
    (inside : Inside '\x7d' (TakesMember (Json.value depth)) entries cs left) :
    Agree left (fieldsOf cs) (ofMembers .empty entries) := by
  cases inside with
  | empty found =>
    simp only [fieldsOf, found, if_true, ofMembers]
    exact .taken _
  | @parts entry others cs afterEntry left took turns enough =>
    obtain ⟨more, first, read⟩ := took
    have agree := memberOf_of_member read (ends_of_turns turns) .empty
    have quote : '"' ≠ '\x7d' := by decide
    rw [ofMembers_cons]
    simp only [fieldsOf, first, quote, if_false, if_true]
    generalize memberOf .empty more = outcome at agree ⊢
    generalize ofMembers .empty [entry] = result at agree ⊢
    cases agree with
    | taken fields => exact moreMembers_of_turns turns fields enough
    | refused fault problem => exact .refused fault problem

/-! ## Lists -/

theorem listEnd_comma {cs more : List Char} (found : skipSpace cs = ',' :: more) :
    ∃ fault, listEnd cs = .error fault := by
  have comma : ',' ≠ ']' := by decide
  simp only [listEnd, found, comma, if_false, if_true]
  split <;> exact ⟨_, rfl⟩

/-- The items behind one that was taken are read where those of the document are values of the fields
that are left. -/
theorem itemsOf_of_turns {depth : Nat} {items : List Json} {cs left : List Char}
    (turns : Turns ']' (TakesItem (Json.value depth)) items cs left) (fields : Fields) (count : Nat)
    (wanted : List Field) :
    Agree left (itemsOf fields (count + 1) wanted cs) (ofItems fields (count + 1) wanted items) := by
  induction turns generalizing fields count wanted with
  | @close cs left found =>
    have closed : listEnd cs = .ok left := by simp only [listEnd, found, if_true]
    cases wanted with
    | nil =>
      simp only [itemsOf, closed, ofItems]
      exact .taken fields
    | cons field wanted =>
      simp only [itemsOf, nextItem, found, if_true, ofItems]
      split
      · cases stopped : stopBehind (.tooShort (count + 1)) ']' cs with
        | ok result => exact absurd stopped (stopBehind_ne_ok _ _ _ result)
        | error fault => exact .refused _ _
      · rw [closed]
        exact .taken fields
  | @next item items cs more afterItem left found took others ih =>
    obtain ⟨⟨d, inside, first, notClosing⟩, read⟩ := took
    cases wanted with
    | nil =>
      obtain ⟨fault, stopped⟩ := listEnd_comma found
      simp only [itemsOf, stopped, ofItems]
      exact .refused _ _
    | cons field wanted =>
      have agree := fieldValue_of_value read fields field
      have comma : ',' ≠ ']' := by decide
      rw [first] at agree
      simp only [itemsOf, nextItem, found, comma, if_false, Nat.succ_ne_zero, if_true, first,
        notClosing, ofItems]
      generalize fieldValue fields field (d :: inside) = outcome at agree ⊢
      generalize fields.put field item = result at agree ⊢
      cases agree with
      | taken fields => exact ih fields (count + 1) wanted
      | refused fault problem => exact .refused fault problem

/-- The items of a list are read where those of the document are values of the fields. -/
theorem itemsOf_of_inside {depth : Nat} {items : List Json} {cs left : List Char}
    (inside : Inside ']' (TakesItem (Json.value depth)) items cs left) :
    Agree left (itemsOf .empty 0 listed cs) (ofItems .empty 0 listed items) := by
  cases inside with
  | empty found =>
    simp only [listed, itemsOf, nextItem, found, if_true, ofItems, Nat.zero_lt_two]
    cases stopped : stopBehind (.tooShort 0) ']' cs with
    | ok result => exact absurd stopped (stopBehind_ne_ok _ _ _ result)
    | error fault => exact .refused _ _
  | @parts item others cs afterItem left took turns _ =>
    obtain ⟨⟨d, more, first, notClosing⟩, read⟩ := took
    have agree := fieldValue_of_value read .empty .functionality
    rw [first] at agree
    simp only [listed, itemsOf, nextItem, first, notClosing, if_false, if_true, ofItems]
    generalize fieldValue .empty .functionality (d :: more) = outcome at agree ⊢
    generalize Fields.put .empty .functionality item = result at agree ⊢
    cases agree with
    | taken fields => exact itemsOf_of_turns turns fields 0 [.command, .sampleRate, .time]
    | refused fault problem => exact .refused fault problem

/-! ## Members put together -/

/-- The fields that are given by the members of an object. -/
def fieldsGiven (entries : Members) : List Field := entries.filterMap fun entry => Field.named? entry.1

/-- The members of an object that give fields. -/
def giving (entries : Members) : Members :=
  entries.filter fun entry => (Field.named? entry.1).isSome

theorem fieldsGiven_giving (entries : Members) : fieldsGiven (giving entries) = fieldsGiven entries := by
  unfold fieldsGiven giving
  rw [List.filterMap_filter]
  congr 1
  funext entry
  cases Field.named? entry.1 <;> rfl

/-- Members that give no field do not matter. -/
theorem ofMembers_giving (fields : Fields) (entries : Members) :
    ofMembers fields (giving entries) = ofMembers fields entries := by
  induction entries generalizing fields with
  | nil => rfl
  | cons entry entries ih =>
    obtain ⟨key, value⟩ := entry
    rw [ofMembers_cons fields (key, value) entries]
    cases named : Field.named? key with
    | none =>
      have passed : giving ((key, value) :: entries) = giving entries := by simp [giving, named]
      rw [passed, ih]
      simp [ofMembers, named, Except.bind]
    | some field =>
      have kept : giving ((key, value) :: entries) = (key, value) :: giving entries := by
        simp [giving, named]
      rw [kept, ofMembers_cons fields (key, value)]
      simp only [ih]

theorem giving_insert_other {key : String} (other : Field.named? key = none) (value : Json)
    (entries : Members) : giving (Members.insert key value entries) = giving entries := by
  induction entries with
  | nil => simp [Members.insert, giving, other]
  | cons entry entries ih =>
    obtain ⟨k, v⟩ := entry
    unfold giving at ih ⊢
    by_cases same : k = key
    · simp [Members.insert, same, other]
    · simp [Members.insert, same, List.filter_cons, ih]

/-- Putting members together leaves the fields, each of which is given once, in their order. -/
theorem giving_foldl {taken entries : Members} (once : (fieldsGiven (taken ++ entries)).Nodup) :
    giving (entries.foldl (fun taken entry => Members.insert entry.1 entry.2 taken) taken) =
      giving (taken ++ entries) := by
  induction entries generalizing taken with
  | nil => simp
  | cons entry entries ih =>
    obtain ⟨key, value⟩ := entry
    rw [List.foldl_cons]
    cases named : Field.named? key with
    | none =>
      have kept : giving (Members.insert key value taken ++ entries) =
          giving (taken ++ (key, value) :: entries) := by
        have inserted := giving_insert_other named value taken
        unfold giving at inserted ⊢
        simp [inserted, named]
      have once' : (fieldsGiven (Members.insert key value taken ++ entries)).Nodup := by
        rw [← fieldsGiven_giving, kept, fieldsGiven_giving]
        exact once
      rw [ih once', kept]
    | some field =>
      have new : key ∉ taken.map Prod.fst := by
        intro isIn
        obtain ⟨entry, inTaken, same⟩ := List.mem_map.mp isIn
        have first : field ∈ fieldsGiven taken :=
          List.mem_filterMap.mpr ⟨entry, inTaken, same ▸ named⟩
        have second : field ∈ fieldsGiven ((key, value) :: entries) :=
          List.mem_filterMap.mpr ⟨(key, value), List.mem_cons_self, named⟩
        unfold fieldsGiven at once first second
        rw [List.filterMap_append] at once
        exact (List.nodup_append.mp once).2.2 _ first _ second rfl
      have regroup : taken ++ (key, value) :: entries = taken ++ [(key, value)] ++ entries := by simp
      rw [Members.insert_new new, regroup, ih (regroup ▸ once)]

/-- Members whose fields are given once say the same when they have been put together. -/
theorem ofMembers_ofList (fields : Fields) {entries : Members} (once : (fieldsGiven entries).Nodup) :
    ofMembers fields (Members.ofList entries) = ofMembers fields entries := by
  have same : giving (Members.ofList entries) = giving ([] ++ entries) := giving_foldl once
  rw [← ofMembers_giving, same]
  exact ofMembers_giving fields entries

/-! ## Documents -/

/-- The text, if it is an object, gives no field twice. -/
def GivenOnce (text : List Char) : Prop :=
  ∀ keys, Enclosed '\x7b' '\x7d' KeyedValid keys text → (keys.filterMap Field.named?).Nodup

/-- Whatever a member is, its value is valid by its syntax. -/
theorem Member.ValueText.valid {member : Member} {text : List Char} (spelled : member.ValueText text) :
    Valid text := by
  cases given : member.field? with
  | some field =>
    obtain ⟨value, has⟩ := Member.exists_value given
    exact ⟨0, ((Member.valueText_iff has text).mp spelled).valid⟩
  | none =>
    cases member with
    | other => exact spelled
    | _ => cases given

/-- A text that is read as a message gives no field twice. -/
theorem givenOnce_of_spells {text : List Char} {message : Message} (spells : Spells text message) :
    GivenOnce text := by
  intro keys enclosed
  obtain ⟨members, gives, said⟩ := spells
  cases gives with
  | list listed =>
    -- a list does not begin like an object
    cases listed <;> cases enclosed
  | object spelled =>
    have keyed : ∀ (member : Member) text, member.Spelled text → KeyedValid member.key text := by
      rintro member _ ⟨name, behind, before, value, rfl, key, blank, blank', valueText⟩
      exact ⟨name, behind, before, value, rfl, key, blank, blank', valueText.valid⟩
    have named : Field.named? ∘ Member.key = Member.field? := funext Member.named_key
    rw [Json.keys_unique enclosed (spelled.map Member.key keyed), List.filterMap_map, named]
    exact said.once

theorem finish_message (fields : Fields) (left : List Char) :
    Agree left (finish fields left) fields.message := by
  unfold finish
  cases fields.message with
  | ok message => exact .taken message
  | error problem => exact .refused _ _

/-- **Two ways to a message**: a text of a document is read as a message exactly if the document is made
into it, and both take all of the text. -/
theorem reader_of_value {depth : Nat} {text left : List Char} {v : Json} (valid : Valid text)
    (read : Json.value depth (text ++ left) = .ok (v, left)) (once : GivenOnce text) :
    Agree left (reader (text ++ left)) (ofJson v) := by
  have atStart : skipSpace (text ++ left) = text ++ left := by
    obtain ⟨depth, valid⟩ := valid
    exact valid.starts.skipSpace .nil left
  cases Json.value_began read with
  | @list inner more items _ found isList inside =>
    have agree := itemsOf_of_inside inside
    have other : '[' ≠ '\x7b' := by decide
    rw [isList]
    simp only [reader, found, other, if_false, if_true]
    change Agree left _ ((ofItems .empty 0 listed items).bind Fields.message)
    generalize itemsOf .empty 0 listed more = outcome at agree ⊢
    generalize ofItems .empty 0 listed items = result at agree ⊢
    cases agree with
    | taken fields => exact finish_message fields left
    | refused fault problem => exact .refused fault problem
  | @object inner more entries _ found isObject inside =>
    have agree := fieldsOf_of_inside inside
    obtain ⟨body, same, enclosed⟩ :=
      inside.enclosed (Json.takesText_member (Json.value_valid inner)) '\x7b'
    have isText : text = '\x7b' :: body := by
      rw [found, same] at atStart
      exact (List.append_cancel_right (atStart : '\x7b' :: body ++ left = text ++ left)).symm
    have keys : Enclosed '\x7b' '\x7d' KeyedValid (entries.map Prod.fst) text := by
      rw [isText]
      exact enclosed.map Prod.fst fun _ _ keyed => keyed
    have given := once _ keys
    rw [List.filterMap_map] at given
    rw [isObject]
    simp only [reader, found, if_true]
    change Agree left _ ((ofMembers .empty (Members.ofList entries)).bind Fields.message)
    rw [ofMembers_ofList .empty given]
    generalize fieldsOf more = outcome at agree ⊢
    generalize ofMembers .empty entries = result at agree ⊢
    cases agree with
    | taken fields => exact finish_message fields left
    | refused fault problem => exact .refused fault problem
  | scalar found notList notObject read =>
    obtain ⟨noList, noObject⟩ := Json.scalar_ne_container read
    simp only [reader, found, notList, notObject, if_false, read]
    cases v with
    | arr items => exact absurd rfl (noList items)
    | obj members => exact absurd rfl (noObject members)
    | _ => exact .refused _ _

/-- A text that spells a message begins with a bracket. -/
theorem Spells.bracket {text : List Char} {message : Message} (spells : Spells text message) :
    ∃ c more, text = c :: more ∧ (c = '[' ∨ c = '\x7b') := by
  obtain ⟨members, gives, -⟩ := spells
  cases gives with
  | object enclosed => cases enclosed <;> exact ⟨_, _, rfl, .inr rfl⟩
  | list enclosed => cases enclosed <;> exact ⟨_, _, rfl, .inl rfl⟩

/-- Without blanks at its front, a text spells a message exactly if the reader takes all of it, whatever
follows. -/
theorem spells_iff_reader {c : Char} (visible : Json.isSpace c = false) (more left : List Char)
    (message : Message) :
    Spells (c :: more) message ↔ reader (c :: more ++ left) = .ok (message, left) := by
  rw [reader_ok_iff]
  constructor
  · intro spells
    exact ⟨[], c :: more, .nil, rfl, spells⟩
  · rintro ⟨before, text, blank, same, spells⟩
    rw [← List.append_assoc] at same
    have whole := List.append_cancel_right same
    cases before with
    | nil => exact whole ▸ spells
    | cons d before =>
      have space := blank d List.mem_cons_self
      rw [← (List.cons.inj whole).1, visible] at space
      cases space

end Message

/-! ## The blanks around a document -/

namespace Text

/-- Blanks are trimmed up to the first and the last visible character. -/
theorem trim_around {before behind inside : List Char} {c d : Char}
    (blank : ∀ c ∈ before, isBlank c = true) (blank' : ∀ c ∈ behind, isBlank c = true)
    (first : isBlank c = false) (last : isBlank d = false) :
    trim (before ++ (c :: (inside ++ [d]) ++ behind)) = c :: (inside ++ [d]) := by
  have reversed : ∀ c ∈ behind.reverse, isBlank c = true := fun c isIn =>
    blank' c (List.mem_reverse.mp isIn)
  unfold trim trimEnd
  rw [List.dropWhile_append_of_pos blank, List.cons_append, List.dropWhile_cons_of_neg (by simp [first])]
  rw [← List.cons_append, List.reverse_append, List.dropWhile_append_of_pos reversed]
  simp [last]

/-- Blanks are trimmed up to the first visible character. -/
theorem exists_trim_cons {before more : List Char} {c : Char}
    (blank : ∀ c ∈ before, isBlank c = true) (first : isBlank c = false) :
    ∃ rest, trim (before ++ c :: more) = c :: rest := by
  unfold trim trimEnd
  rw [List.dropWhile_append_of_pos blank, List.dropWhile_cons_of_neg (by simp [first])]
  rw [List.reverse_cons, List.dropWhile_append]
  split
  · exact ⟨[], by simp [first]⟩
  · exact ⟨(List.dropWhile isBlank more.reverse).reverse, by simp⟩

/-- A value without parts begins with a visible character. -/
theorem not_isBlank_of_scalar {c : Char} {more rest : List Char} {v : Json}
    (read : Json.scalar (c :: more) = .ok (v, rest)) : isBlank c = false := by
  unfold Json.scalar at read
  dsimp only at read
  split at read
  · next isN => rw [isN]; decide
  split at read
  · next isT => rw [isT]; decide
  split at read
  · next isF => rw [isF]; decide
  split at read
  · next isQuote => rw [isQuote]; decide
  split at read
  · next isNumeral =>
    rw [Bool.or_eq_true, decide_eq_true_eq] at isNumeral
    rcases isNumeral with rfl | digit
    · decide
    · have bounds := Json.isDigit_bounds digit
      unfold isBlank
      simp only [Bool.or_eq_false_iff, Bool.and_eq_false_iff, decide_eq_false_iff_not, beq_eq_false_iff_ne]
      omega
  · cases read

end Text

namespace Command

open Json (Blank Valid)
open Message (GivenOnce Spells)

/-- Two ways to a command come to the same, but for what is wrong with a text that is none. -/
inductive Alike : Except CommandError Command → Except CommandError Command → Prop where
  | same (outcome : Except CommandError Command) : Alike outcome outcome
  | malformed (mistake mistake' : Json.Mistake) :
      Alike (.error (.malformed mistake)) (.error (.malformed mistake'))

namespace Alike

variable {outcome outcome' : Except CommandError Command}

theorem symm (alike : Alike outcome outcome') : Alike outcome' outcome := by
  cases alike with
  | same => exact .same _
  | malformed => exact .malformed _ _

theorem toOption_eq (alike : Alike outcome outcome') : outcome'.toOption = outcome.toOption := by
  cases alike <;> rfl

theorem error (alike : Alike outcome outcome') {error : CommandError} (fails : outcome = .error error) :
    ∃ error', outcome' = .error error' := by
  cases alike with
  | same => exact ⟨error, fails⟩
  | malformed mistake mistake' => exact ⟨_, rfl⟩

end Alike

section Blanks

variable {depth : Nat} {before text behind left : List Char} {v : Json} (blank : Blank before)
  (blank' : Blank behind) (valid : Valid text)
  (read : Json.value depth (text ++ left) = .ok (v, left))

include blank blank' valid read

/-- What is left of a document without the blanks around it spells the message that the document is made
into, and no other. -/
theorem spells_trim_iff (once : GivenOnce text) (message : Message) :
    Spells (Text.trim (before ++ (text ++ behind))) message ↔ Message.ofJson v = .ok message := by
  have agree := Message.reader_of_value valid read once
  have blanks : ∀ {cs : List Char}, Blank cs → ∀ c ∈ cs, Text.isBlank c = true :=
    fun blank c isIn => Text.isBlank_of_isSpace (blank c isIn)
  have starts : Json.Starts text := by
    obtain ⟨depth, valid⟩ := valid
    exact valid.starts
  have atStart := starts.skipSpace .nil left
  -- a container is left as it is
  have container : ∀ {c d : Char} {inside : List Char}, text = c :: (inside ++ [d]) →
      Json.isSpace c = false → Text.isBlank c = false → Text.isBlank d = false →
        (Spells (Text.trim (before ++ (text ++ behind))) message ↔
          Message.ofJson v = .ok message) := by
    rintro c d inside rfl visible first last
    rw [Text.trim_around (blanks blank) (blanks blank') first last, ← agree.ok_iff]
    exact Message.spells_iff_reader visible _ left message
  have bracket : ∀ {c d : Char} {body : List Char} {α : Type} {part : α → List Char → Prop}
      {xs : List α}, Json.Enclosed c d part xs (c :: body) → ∃ inside, body = inside ++ [d] := by
    intro c d body α part xs enclosed
    cases enclosed <;> exact ⟨_, rfl⟩
  cases Json.value_began read with
  | list _ found _ inside =>
    obtain ⟨body, rfl, enclosed⟩ :=
      inside.enclosed (Json.takesText_item (Json.value_valid _)) '['
    obtain ⟨content, rfl⟩ := bracket enclosed
    have whole : '[' :: (content ++ [']']) ++ left = text ++ left := found.symm.trans atStart
    exact container (List.append_cancel_right whole).symm rfl (by decide) (by decide)
  | object _ found _ inside =>
    obtain ⟨body, rfl, enclosed⟩ :=
      inside.enclosed (Json.takesText_member (Json.value_valid _)) '\x7b'
    obtain ⟨content, rfl⟩ := bracket enclosed
    have whole : '\x7b' :: (content ++ ['\x7d']) ++ left = text ++ left := found.symm.trans atStart
    exact container (List.append_cancel_right whole).symm rfl (by decide) (by decide)
  | @scalar c more found notList notObject scalarRead =>
    obtain ⟨c', more', rfl, visible, -⟩ := starts
    have first : c = c' := (List.cons.inj (found.symm.trans atStart)).1
    subst first
    have noBracket : ∀ {rest : List Char}, ¬Spells (c :: rest) message := by
      intro rest spells
      obtain ⟨d, _, same, isBracket⟩ := spells.bracket
      rw [← (List.cons.inj same).1] at isBracket
      exact isBracket.elim notList notObject
    obtain ⟨rest, trimmed⟩ := @Text.exists_trim_cons before (more' ++ behind) c (blanks blank)
      (Text.not_isBlank_of_scalar scalarRead)
    rw [List.cons_append, trimmed, ← agree.ok_iff, ← Message.spells_iff_reader visible]
    exact ⟨fun spells => absurd spells noBracket, fun spells => absurd spells noBracket⟩

/-- **Two ways to a command**: the text of a document, blanks around it or not, is parsed as what the
document is made into. -/
theorem parse_of_value (once : GivenOnce text) :
    Alike (parse (String.ofList (before ++ (text ++ behind)))) (ofJson v) := by
  have spells := spells_trim_iff blank blank' valid read once
  unfold ofJson
  cases made : Message.ofJson v with
  | ok message =>
    have spelled : Spells (Text.trim (String.ofList (before ++ (text ++ behind))).toList) message := by
      rw [String.toList_ofList]
      exact (spells message).mpr made
    rw [parse_of_spells spelled]
    exact .same _
  | error problem =>
    have nothing : ∀ message,
        ¬Spells (Text.trim (String.ofList (before ++ (text ++ behind))).toList) message := by
      intro message spelled
      rw [String.toList_ofList, spells, made] at spelled
      cases spelled
    obtain ⟨mistake, malformed⟩ := parse_of_not_spells nothing
    rw [malformed]
    exact .malformed _ _

end Blanks

end Command

end TelemetryHub
