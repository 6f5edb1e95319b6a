import Mathlib.Data.List.Forall2
import TelemetryHub.Proofs.Command.Documents
import TelemetryHub.Proofs.Text.Utf8
import TelemetryHub.Source

/-!
# Scripts are loaded as their texts are parsed

The file of a script is a list of texts of documents (`listText`). Where it is read, item by item, the
values are those of the texts (`taken_of_inside`), so each item is made into the command that its text
is parsed as, or is refused as its text is (`load_texts`): nothing is lost, and the warnings name the
items that were refused by their indices.
-/

namespace TelemetryHub.Script

open Command (Alike)
open Json (Blank Divided Ends Followed Inside TakesItem Turns Valid skipSpace)
open Message (GivenOnce)

/-! ## The file -/

/-- A text of a document, with `text` between the blanks around it. -/
def Around (t : String) (text : List Char) : Prop :=
  Valid text ∧ ∃ before behind, Blank before ∧ Blank behind ∧ t.toList = before ++ (text ++ behind)

/-- A text of a document. -/
def DocumentText (t : String) : Prop := ∃ text, Around t text

/-- An object gives none of its fields twice. -/
def FieldsOnce (t : String) : Prop := ∀ text, Around t text → GivenOnce text

/-- A text that is passed over whole is one of a document. -/
theorem documentText_of_pass {t : String} (passed : Json.pass t.toList = .ok []) : DocumentText t := by
  obtain ⟨before, text, same, blank, valid⟩ := Json.valid_of_pass passed
  exact ⟨text, valid, before, [], blank, .nil, same⟩

/-- Without an opening brace there are no fields. -/
theorem fieldsOnce_of_noBrace {t : String} (noBrace : '\x7b' ∉ t.toList) : FieldsOnce t := by
  rintro text ⟨-, before, behind, -, -, whole⟩ keys enclosed
  refine absurd ?_ noBrace
  rw [whole]
  cases enclosed <;> simp

/-- A text that is a command gives no field twice. -/
theorem fieldsOnce_of_parse {t : String} {command : Command} (parsed : Command.parse t = .ok command) :
    FieldsOnce t := by
  rintro text ⟨-, before, behind, blank, blank', whole⟩ keys enclosed
  have isObject : ∃ inside, text = '\x7b' :: (inside ++ ['\x7d']) := by
    cases enclosed <;> exact ⟨_, rfl⟩
  obtain ⟨inside, rfl⟩ := isObject
  have blanks : ∀ {cs : List Char}, Blank cs → ∀ c ∈ cs, Text.isBlank c = true :=
    fun blank c isIn => Text.isBlank_of_isSpace (blank c isIn)
  have trimmed := @Text.trim_around before behind inside '\x7b' '\x7d' (blanks blank) (blanks blank')
    (by decide) (by decide)
  rw [← whole] at trimmed
  unfold Command.parse at parsed
  split at parsed
  · next message read =>
    have spells := (Message.read_trim_iff _ _).mp read
    rw [trimmed] at spells
    exact Message.givenOnce_of_spells spells keys enclosed
  · cases parsed

/-- The list of texts as one text. -/
def listText (texts : List String) : List Char :=
  '[' :: ([','].intercalate (texts.map String.toList) ++ [']'])

theorem divided_texts {t : String} {texts : List String}
    (documents : ∀ other ∈ t :: texts, DocumentText other) :
    Divided Around (t :: texts) ([','].intercalate ((t :: texts).map String.toList)) := by
  induction texts generalizing t with
  | nil =>
    obtain ⟨text, valid, before, behind, blank, blank', same⟩ := documents t List.mem_cons_self
    have alone : [','].intercalate ([t].map String.toList) = before ++ (text ++ behind) := by
      simp [List.intercalate, same]
    rw [alone]
    exact .one blank ⟨valid, before, behind, blank, blank', same⟩ blank'
  | cons next texts ih =>
    obtain ⟨text, valid, before, behind, blank, blank', same⟩ := documents t List.mem_cons_self
    have rest := ih fun other isIn => documents other (List.mem_cons_of_mem t isIn)
    have first : [','].intercalate ((t :: next :: texts).map String.toList) = before ++ (text ++
        (behind ++ ',' :: [','].intercalate ((next :: texts).map String.toList))) := by
      simp [List.intercalate, same]
    rw [first]
    exact .more blank ⟨valid, before, behind, blank, blank', same⟩ blank' rest

/-! ## Item by item -/

/-- The value is read from what stands between the blanks of the text. -/
def Taken (depth : Nat) (t : String) (v : Json) : Prop :=
  ∃ text left, Around t text ∧ Json.value depth (text ++ left) = .ok (v, left)

section Items

variable {depth : Nat}

theorem ends_of_turns {values : List Json} {cs left : List Char}
    (turns : Turns ']' (TakesItem (Json.value depth)) values cs left) : Ends cs :=
  (turns.followed (Json.takesText_item (Json.value_valid depth))).ends
    (Json.ends_closing .list left)

/-- An item that is read from the text of a document ends with it. -/
theorem left_of_item {t : String} {before text cs left : List Char} {v : Json}
    (around : Around t text) (blank : Blank before)
    (took : TakesItem (Json.value depth) (skipSpace (before ++ (text ++ cs))) v left)
    (ends : Ends cs) (ends' : Ends left) :
    left = cs ∧ Taken depth t v := by
  have starts : Json.Starts text := by
    obtain ⟨⟨depth, valid⟩, -⟩ := around
    exact valid.starts
  have read := took.2
  rw [starts.skipSpace blank cs] at read
  have extent := @Json.value_extent depth [] text cs left v read .nil around.1 ends ends'
  rw [extent] at read
  exact ⟨extent, text, cs, around, read⟩

/-- Behind an item, the values are those of the texts that are left. -/
theorem taken_of_turns {texts : List String} {cs rest : List Char}
    (followed : Followed Around (']' :: rest) texts cs) {values : List Json} {left : List Char}
    (turns : Turns ']' (TakesItem (Json.value depth)) values cs left) :
    List.Forall₂ (Taken depth) texts values := by
  induction followed generalizing values with
  | done blank =>
    have found := Json.skipSpace_blank blank (rfl : Json.isSpace ']' = false) rest
    cases turns with
    | close => exact .nil
    | next found' =>
      rw [found] at found'
      exact absurd (List.cons.inj found').1 (by decide)
  | @next t texts blanks before text cs blank blank' around followed ih =>
    have found := Json.skipSpace_blank blank (rfl : Json.isSpace ',' = false) (before ++ (text ++ cs))
    cases turns with
    | close found' =>
      rw [found] at found'
      exact absurd (List.cons.inj found').1 (by decide)
    | next found' took others =>
      rw [found] at found'
      obtain ⟨-, rfl⟩ := List.cons.inj found'
      have ends := followed.ends (Json.ends_closing .list rest)
      obtain ⟨rfl, taken⟩ := left_of_item around blank' took ends (ends_of_turns others)
      exact .cons taken (ih others)

/-- The values of the list are those of the texts. -/
theorem taken_of_inside {texts : List String} (documents : ∀ t ∈ texts, DocumentText t)
    {values : List Json} {left : List Char}
    (inside : Inside ']' (TakesItem (Json.value depth)) values
      ([','].intercalate (texts.map String.toList) ++ [']']) left) :
    List.Forall₂ (Taken depth) texts values := by
  cases texts with
  | nil =>
    cases inside with
    | empty => exact .nil
    | parts took =>
      obtain ⟨⟨c, more, first, notClosing⟩, -⟩ := took
      exact absurd (List.cons.inj first).1.symm notClosing
  | cons t texts =>
    obtain ⟨first, others, before, text, cs, same, whole, blank, around, followed⟩ :=
      (divided_texts documents).followed [']']
    cases same
    rw [whole] at inside
    cases inside with
    | empty found =>
      have starts : Json.Starts text := by
        obtain ⟨⟨depth, valid⟩, -⟩ := around
        exact valid.starts
      rw [starts.skipSpace blank cs] at found
      obtain ⟨c, more, rfl, -, notClosing, -⟩ := starts
      exact absurd (List.cons.inj found).1 notClosing
    | parts took turns =>
      have ends := followed.ends (Json.ends_closing .list [])
      obtain ⟨rfl, taken⟩ := left_of_item around blank took ends (ends_of_turns turns)
      exact .cons taken (taken_of_turns followed turns)

end Items

/-! ## The texts and the list -/

/-- A text and the value that is read from it are the same command, or are both refused. -/
theorem alike_of_taken {depth : Nat} {t : String} {v : Json} (taken : Taken depth t v)
    (once : FieldsOnce t) : Alike (Command.parse t) (Command.ofJson v) := by
  obtain ⟨text, left, around, read⟩ := taken
  have fields := once text around
  obtain ⟨valid, before, behind, blank, blank', whole⟩ := around
  have alike := Command.parse_of_value blank blank' valid read fields
  rw [← whole, String.ofList_toList] at alike
  exact alike

/-- The items of the file's list are the values of its texts, one by one. -/
theorem taken_of_readList {texts : List String} (documents : ∀ t ∈ texts, DocumentText t)
    {items : List Json} (isList : Json.readList (String.ofList (listText texts)) = .ok items) :
    List.Forall₂ (Taken (Json.depthLimit - 1)) texts items := by
  unfold Json.readList at isList
  rw [Json.mapError_ok_iff, Json.whole_ok_iff, String.toList_ofList] at isList
  obtain ⟨rest, read, -⟩ := isList
  have opens : skipSpace (listText texts) = listText texts := rfl
  unfold Json.list at read
  rw [opens] at read
  exact taken_of_inside documents (Json.inside_of_items read)

/-! ## What a script is made of -/

/-- The commands are the items that are made into one, in their order. -/
theorem commands_select (index : Nat) (items : List Json) :
    (select index items).1 = items.filterMap fun v => (Command.ofJson v).toOption := by
  induction items generalizing index with
  | nil => rfl
  | cons item items ih =>
    have others := ih (index + 1)
    unfold select
    cases made : Command.ofJson item with
    | ok command => simp [others, made, Except.toOption]
    | error error => simp [others, made, Except.toOption]

/-- An item is refused, with its index and the reason, if it is made into no command. -/
theorem mem_refused_select {index : Nat} {items : List Json} {refused : Nat × CommandError} :
    refused ∈ (select index items).2 ↔ ∃ k v, refused.1 = index + k ∧ items[k]? = some v ∧
      Command.ofJson v = .error refused.2 := by
  induction items generalizing index with
  | nil => simp [select]
  | cons item items ih =>
    have first : (∃ k v, refused.1 = index + k ∧ (item :: items)[k]? = some v ∧
          Command.ofJson v = .error refused.2) ↔
        (refused.1 = index ∧ Command.ofJson item = .error refused.2) ∨
          refused ∈ (select (index + 1) items).2 := by
      rw [ih]
      constructor
      · rintro ⟨k, v, place, found, fails⟩
        cases k with
        | zero =>
          cases found
          exact .inl ⟨place, fails⟩
        | succ k => exact .inr ⟨k, v, by omega, found, fails⟩
      · rintro (⟨place, fails⟩ | ⟨k, v, place, found, fails⟩)
        · exact ⟨0, item, place, rfl, fails⟩
        · exact ⟨k + 1, v, by omega, found, fails⟩
    rw [first, select]
    cases made : Command.ofJson item with
    | ok command => simp
    | error error =>
      obtain ⟨place, reason⟩ := refused
      simp [eq_comm]

/-- The refused items stand in the order of the file. -/
theorem increasing_select (index : Nat) (items : List Json) :
    (select index items).2.Pairwise fun first second => first.1 < second.1 := by
  induction items generalizing index with
  | nil => exact .nil
  | cons item items ih =>
    have others := ih (index + 1)
    unfold select
    cases Command.ofJson item with
    | ok command => exact others
    | error error =>
      refine .cons (fun refused isIn => ?_) others
      obtain ⟨k, v, place, -⟩ := mem_refused_select.mp isIn
      change index < refused.1
      omega

/-- The commands and the refused items of the texts of a file. -/
structure Loaded (texts : List String) (commands : List Command)
    (refused : List (Nat × CommandError)) : Prop where
  parsed : commands = texts.filterMap fun t => (Command.parse t).toOption
  increasing : refused.Pairwise fun first second => first.1 < second.1
  refused_iff : ∀ index, (∃ error, (index, error) ∈ refused) ↔
    ∃ t error, texts[index]? = some t ∧ Command.parse t = .error error
  reasons : ∀ index error t, (index, error) ∈ refused → texts[index]? = some t →
    Alike (Command.parse t) (.error error)
  complete : commands.length + refused.length = texts.length

section Load

variable {texts : List String} {items : List Json}
  (alike : List.Forall₂ (fun t v => Alike (Command.parse t) (Command.ofJson v)) texts items)

include alike

theorem filterMap_of_alike :
    items.filterMap (fun v => (Command.ofJson v).toOption) =
      texts.filterMap fun t => (Command.parse t).toOption := by
  induction alike with
  | nil => rfl
  | cons first _ ih => rw [List.filterMap_cons, List.filterMap_cons, first.toOption_eq, ih]

/-- The items stand where their texts stand. -/
theorem getElem?_of_alike {index : Nat} {t : String} (found : texts[index]? = some t) :
    ∃ v, items[index]? = some v ∧ Alike (Command.parse t) (Command.ofJson v) := by
  induction alike generalizing index with
  | nil => cases found
  | @cons _ v _ _ first _ ih =>
    cases index with
    | zero =>
      cases found
      exact ⟨v, rfl, first⟩
    | succ index => exact ih found

theorem loaded_select : Loaded texts (select 0 items).1 (select 0 items).2 where
  parsed := (commands_select 0 items).trans (filterMap_of_alike alike)
  increasing := increasing_select 0 items
  refused_iff index := by
    constructor
    · rintro ⟨error, isIn⟩
      obtain ⟨k, v, place, found, fails⟩ := mem_refused_select.mp isIn
      rw [Nat.zero_add] at place
      cases place
      have within : index < texts.length := by
        rw [alike.length_eq]
        exact (List.getElem?_eq_some_iff.mp found).1
      have here : texts[index]? = some texts[index] := List.getElem?_eq_getElem within
      obtain ⟨v', found', same⟩ := getElem?_of_alike alike here
      cases found.symm.trans found'
      obtain ⟨error', fails'⟩ := same.symm.error fails
      exact ⟨texts[index], error', here, fails'⟩
    · rintro ⟨t, error, here, fails⟩
      obtain ⟨v, found, same⟩ := getElem?_of_alike alike here
      obtain ⟨error', fails'⟩ := same.error fails
      exact ⟨error', mem_refused_select.mpr ⟨index, v, (Nat.zero_add index).symm, found, fails'⟩⟩
  reasons index error t isIn here := by
    obtain ⟨k, v, place, found, fails⟩ := mem_refused_select.mp isIn
    obtain ⟨v', found', same⟩ := getElem?_of_alike alike here
    rw [Nat.zero_add] at place
    cases place
    cases found.symm.trans found'
    exact fails ▸ same
  complete := by rw [length_select, alike.length_eq]

end Load

/-- A file that is the list of the texts is loaded as they are parsed. -/
theorem load_texts (path : String) (clock : Countdown) {texts : List String}
    (documents : ∀ t ∈ texts, DocumentText t) (once : ∀ t ∈ texts, FieldsOnce t)
    {items : List Json} (isList : Json.readList (String.ofList (listText texts)) = .ok items) :
    ∃ commands refused,
      load path (.ok (Text.encode (listText texts))) clock =
        .ok (⟨commands, clock⟩, refused.map (warning path)) ∧ Loaded texts commands refused := by
  refine ⟨(select 0 items).1, (select 0 items).2, ?_, ?_⟩
  · unfold load content
    simp only [Text.decode?_encode, isList]
  · have both := (List.forall₂_and_left texts items).mpr ⟨once, taken_of_readList documents isList⟩
    exact loaded_select (both.imp fun t v ⟨fields, taken⟩ => alike_of_taken taken fields)

end TelemetryHub.Script
