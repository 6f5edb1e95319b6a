import TelemetryHub.Gate.Apply

/-!
# What is left of a history of commands

A command that is carried out tells the gate that it addresses something about its rate, its
backtraces and its delivery, and tells the other gates nothing (`get_obey`). Whatever was told last
holds, so the gates behind a history can be read off it, field by field (`get_obeyAll`).
-/

namespace TelemetryHub

/-! ## What a command tells a gate -/

namespace Command

/-- The command has the gate's own name. -/
def Names (category : Category) (command : Command) : Prop := command.category = category.name

instance (category : Category) : DecidablePred (Names category) := fun command =>
  inferInstanceAs (Decidable (command.category = category.name))

/-- The command addresses the gate: by its own name, or the gate of the monitor events by the name of
its backtraces. -/
def Addresses (category : Category) (command : Command) : Prop :=
  command.Names category ∨ category = .monitors ∧ command.category = Category.stackTraceName

instance (category : Category) : DecidablePred (Addresses category) := fun command =>
  inferInstanceAs (Decidable (command.Names category ∨ _ ∧ _))

/-- The command is carried out, whatever the gates are: it addresses one of them, its rate is not
negative, and it is a start, a stop, or a configure that has a rate. -/
def Succeeds (command : Command) : Prop :=
  (∃ category ∈ Category.all, command.Addresses category) ∧
    (∀ rate ∈ command.rate, 0 ≤ rate) ∧
    (command.action = .start ∨ command.action = .stop ∨
      command.action = .configure ∧ command.rate.isSome)

/-- There is at most one rate to look at, of all that there are. -/
instance (command : Command) : Decidable (∀ rate ∈ command.rate, 0 ≤ rate) :=
  Option.decidableForallMem command.rate

instance : DecidablePred Succeeds := fun _ => inferInstanceAs (Decidable (_ ∧ _ ∧ _))

/-- The rate that a command gives to its gate: the positive one of a start or a configure. -/
def toldRate (command : Command) : Option UInt64 :=
  if command.Succeeds ∧ command.action ≠ .stop then
    (command.rate.filter (0 < ·)).map fun rate => UInt64.ofNat rate.toInt.toNat
  else none

/-- Whether backtraces are on behind the command: not behind a stop or a rate of zero. -/
def toldBacktraces (command : Command) : Option Bool :=
  if command.Succeeds then some (command.action ≠ .stop ∧ command.rate ≠ some 0) else none

/-- Whether the gate delivers behind the command, which only a start and a stop decide. -/
def toldDelivery (command : Command) : Option Bool :=
  if command.Succeeds then
    match command.action with
    | .start => some true
    | .stop => some false
    | _ => none
  else none

/-! ## Names -/

theorem named?_eq_some_iff (name : String) (category : Category) :
    Category.named? name = some category ↔ name = category.name := by
  constructor
  · intro found
    unfold Category.named? at found
    have same := List.find?_some found
    exact (of_decide_eq_true same).symm
  · rintro rfl
    exact category.named?_name

/-- A command addresses the gate of its target and no other one. -/
theorem addresses_iff (command : Command) (category : Category) :
    command.Addresses category ↔
      ∃ target, Target.named? command.category = some target ∧ target.category = category := by
  unfold Addresses Names Target.named?
  by_cases byAlias : command.category = Category.stackTraceName
  · have other : Category.stackTraceName ≠ category.name := by cases category <;> decide
    simp [byAlias, other, Target.category, eq_comm]
  · simp only [byAlias, if_false, and_false, or_false]
    rw [← named?_eq_some_iff]
    cases Category.named? command.category <;> simp [Target.category]

/-- Delivery is switched by a command that has the gate's own name. -/
theorem switchesDelivery_iff {command : Command} {target : Target}
    (found : Target.named? command.category = some target) :
    target.switchesDelivery = true ↔ command.Names target.category := by
  unfold Target.named? at found
  split at found
  · next byAlias =>
    cases found
    unfold Names
    rw [byAlias]
    decide
  · obtain ⟨category, named, rfl⟩ := Option.map_eq_some_iff.mp found
    have same : command.Names category := (named?_eq_some_iff _ _).mp named
    simp [Target.switchesDelivery, Target.category, same]

theorem exists_addresses_iff (command : Command) :
    (∃ category ∈ Category.all, command.Addresses category) ↔
      (Target.named? command.category).isSome = true := by
  rw [Option.isSome_iff_exists]
  constructor
  · rintro ⟨category, -, addressed⟩
    obtain ⟨target, found, -⟩ := (command.addresses_iff category).mp addressed
    exact ⟨target, found⟩
  · rintro ⟨target, found⟩
    exact ⟨target.category, by cases target.category <;> decide,
      (command.addresses_iff _).mpr ⟨target, found, rfl⟩⟩

end Command

/-- What was told last, or else what was so at the beginning. -/
def latest {α : Type} (tells : Command → Option α) (start : α) (commands : List Command) : α :=
  ((commands.filterMap tells).getLast?).getD start

theorem latest_cons {α : Type} (tells : Command → Option α) (start : α) (command : Command)
    (commands : List Command) :
    latest tells start (command :: commands) = latest tells ((tells command).getD start) commands := by
  unfold latest
  rw [List.filterMap_cons]
  cases tells command with
  | none => rfl
  | some value => simp [List.getLast?_cons]

/-! ## One command -/

theorem toUInt64_of_pos {rate : Int64} (positive : 0 < rate) :
    rate.toUInt64 = UInt64.ofNat rate.toInt.toNat ∧ rate.toUInt64 ≠ 0 := by
  have value : rate.toUInt64.toNat = rate.toNatClampNeg :=
    Int64.toNat_toUInt64_of_le (Int64.le_of_lt positive)
  refine ⟨?_, fun zero => ?_⟩
  · rw [Int64.toNat_toInt, ← value, UInt64.ofNat_toNat]
  · have more := rate.toNatClampNeg_pos_iff.mpr positive
    rw [← value, zero] at more
    exact absurd more (by decide)

namespace Gate

/-- A gate behind a command that is carried out on it. -/
def heed (gate : Gate) (command : Command) (delivery : Bool) : Gate where
  count := gate.count
  rate := command.toldRate.getD gate.rate
  backtrace := command.toldBacktraces.getD gate.backtrace
  active := if delivery then command.toldDelivery.getD gate.active else gate.active

/-- A rate that is not negative is stored if it is not zero, and switches backtraces. -/
theorem configure_of_nonneg (gate : Gate) {rate : Int64} (nonneg : 0 ≤ rate) :
    gate.configure rate =
      { gate with
        rate := if 0 < rate then UInt64.ofNat rate.toInt.toNat else gate.rate
        backtrace := rate ≠ 0 } := by
  unfold configure storeRate
  split
  · next positive =>
    obtain ⟨value, nonzero⟩ := toUInt64_of_pos positive
    have other : rate ≠ 0 := by
      rintro rfl
      exact absurd positive (by decide)
    rw [value] at nonzero ⊢
    simp only [nonzero, if_false, setBacktrace, ne_eq, other, not_false_eq_true, decide_true]
  · next notPositive =>
    have zero : rate = 0 := Int64.le_antisymm (Int64.not_lt.mp notPositive) nonneg
    simp [setBacktrace, zero]

section Heed

variable {command : Command} (succeeds : command.Succeeds) (gate : Gate) (delivery : Bool)

include succeeds

theorem configure_eq_heed {rate : Int64} (given : command.rate = some rate)
    (goesOn : command.action ≠ .stop) :
    gate.configure rate = { gate with
      rate := command.toldRate.getD gate.rate
      backtrace := command.toldBacktraces.getD gate.backtrace } := by
  have told : command.toldRate = if 0 < rate then some (UInt64.ofNat rate.toInt.toNat) else none := by
    rw [Command.toldRate, if_pos ⟨succeeds, goesOn⟩, given]
    by_cases positive : 0 < rate <;> simp [Option.filter, positive]
  have on : command.toldBacktraces = some (decide (rate ≠ 0)) := by
    simp [Command.toldBacktraces, succeeds, goesOn, given]
  rw [gate.configure_of_nonneg (succeeds.2.1 rate given), told, on]
  by_cases positive : 0 < rate <;> simp only [positive, if_true, if_false] <;> rfl

theorem start_eq_heed (starts : command.action = .start) :
    gate.start command.rate delivery = gate.heed command delivery := by
  have told : command.toldDelivery = some true := by simp [Command.toldDelivery, succeeds, starts]
  have goesOn : command.action ≠ .stop := by simp [starts]
  unfold start heed
  rw [told]
  cases given : command.rate with
  | some rate =>
    simp only [gate.configure_eq_heed succeeds given goesOn]
    cases delivery <;> rfl
  | none =>
    have noRate : command.toldRate = none := by simp [Command.toldRate, given]
    have on : command.toldBacktraces = some true := by
      simp [Command.toldBacktraces, succeeds, given, goesOn]
    rw [noRate, on]
    cases delivery <;> rfl

theorem stop_eq_heed (stops : command.action = .stop) :
    gate.stop delivery = gate.heed command delivery := by
  have noRate : command.toldRate = none := by simp [Command.toldRate, stops]
  have off : command.toldBacktraces = some false := by simp [Command.toldBacktraces, succeeds, stops]
  have told : command.toldDelivery = some false := by simp [Command.toldDelivery, succeeds, stops]
  unfold stop heed
  rw [noRate, off, told]
  cases delivery <;> rfl

end Heed

end Gate

namespace Registry

/-- The gates behind a command: one that is refused leaves them. -/
def obey (gates : Registry) (command : Command) : Registry :=
  match gates.apply command with
  | .ok gates => gates
  | .error _ => gates

/-- The gates behind a history of commands. -/
def obeyAll (gates : Registry) (commands : List Command) : Registry := commands.foldl obey gates

/-- What a command that is carried out does to the gate of its target. -/
theorem applyTo_of_succeeds {command : Command} (succeeds : command.Succeeds) (gates : Registry)
    (target : Target) :
    gates.applyTo target command =
      .ok (gates.modify target.category (·.heed command target.switchesDelivery)) := by
  unfold applyTo modify
  rcases succeeds.2.2 with starts | stops | ⟨configures, given⟩
  · rw [starts]
    simp only [Gate.start_eq_heed succeeds _ _ starts]
  · rw [stops]
    simp only [Gate.stop_eq_heed succeeds _ _ stops]
  · obtain ⟨rate, given⟩ := Option.isSome_iff_exists.mp given
    have goesOn : command.action ≠ .stop := by
      rw [configures]
      nofun
    have silent : command.toldDelivery = none := by
      rw [Command.toldDelivery, if_pos succeeds, configures]
    rw [configures, given]
    simp only [Gate.configure_eq_heed succeeds _ given goesOn, Gate.heed, silent]
    cases target.switchesDelivery <;> rfl

theorem negativeRate?_eq_none_iff (rate : Option Int64) :
    negativeRate? rate = none ↔ ∀ given ∈ rate, 0 ≤ given := by
  unfold negativeRate?
  simp only [Option.filter_eq_none_iff, decide_eq_true_eq, Int64.not_lt]
  rfl

/-- A command is carried out exactly if it is one that succeeds, and the gate of its target heeds it. -/
theorem apply_ok_iff (gates gates' : Registry) (command : Command) :
    gates.apply command = .ok gates' ↔ command.Succeeds ∧
      ∃ target, Target.named? command.category = some target ∧
        gates' = gates.modify target.category (·.heed command target.switchesDelivery) := by
  constructor
  · intro accepted
    unfold apply at accepted
    split at accepted
    · cases accepted
    next target found =>
    split at accepted
    · cases accepted
    next noNegative =>
    have known := command.exists_addresses_iff.mpr (Option.isSome_of_eq_some found)
    have nonneg := (negativeRate?_eq_none_iff _).mp noNegative
    have action : command.action = .start ∨ command.action = .stop ∨
        command.action = .configure ∧ command.rate.isSome := by
      unfold applyTo at accepted
      cases action : command.action with
      | start => exact .inl rfl
      | stop => exact .inr (.inl rfl)
      | configure =>
        cases given : command.rate with
        | some rate => exact .inr (.inr ⟨rfl, rfl⟩)
        | none => simp [action, given] at accepted
      | _ => simp [action] at accepted
    have succeeds : command.Succeeds := ⟨known, nonneg, action⟩
    rw [applyTo_of_succeeds succeeds] at accepted
    exact ⟨succeeds, target, found, (Except.ok.inj accepted).symm⟩
  · rintro ⟨succeeds, target, found, rfl⟩
    have noNegative := (negativeRate?_eq_none_iff _).mpr succeeds.2.1
    unfold apply
    simp only [found, noNegative, applyTo_of_succeeds succeeds]

theorem exists_apply_iff (gates : Registry) (command : Command) :
    (∃ gates', gates.apply command = .ok gates') ↔ command.Succeeds := by
  simp only [apply_ok_iff]
  constructor
  · rintro ⟨_, succeeds, -⟩
    exact succeeds
  · intro succeeds
    obtain ⟨target, found⟩ := Option.isSome_iff_exists.mp (command.exists_addresses_iff.mp succeeds.1)
    exact ⟨_, succeeds, target, found, rfl⟩

/-- A command that is refused leaves the gates, and one that is carried out is heeded by the gate of its
target. -/
theorem obey_cases (gates : Registry) (command : Command) :
    ¬command.Succeeds ∧ gates.obey command = gates ∨ command.Succeeds ∧
      ∃ target, Target.named? command.category = some target ∧
        gates.obey command = gates.modify target.category (·.heed command target.switchesDelivery) := by
  unfold obey
  split
  · next gates' accepted => exact .inr ((apply_ok_iff gates gates' command).mp accepted)
  · next refusal refused =>
    refine .inl ⟨fun succeeds => ?_, rfl⟩
    obtain ⟨gates', accepted⟩ := (exists_apply_iff gates command).mpr succeeds
    rw [refused] at accepted
    cases accepted

/-- **Step**: a command tells the gate that it addresses what is to be, and nothing to another gate. -/
theorem get_obey (gates : Registry) (command : Command) (category : Category) :
    (gates.obey command).get category =
      if command.Addresses category then
        (gates.get category).heed command (command.Names category)
      else gates.get category := by
  rcases obey_cases gates command with ⟨fails, same⟩ | ⟨succeeds, target, found, same⟩
  · have silent : (gates.get category).heed command (command.Names category) = gates.get category := by
      simp [Gate.heed, Command.toldRate, Command.toldBacktraces, Command.toldDelivery, fails]
    rw [same, silent, ite_self]
  · rw [same]
    unfold modify
    by_cases here : category = target.category
    · have addressed := (command.addresses_iff category).mpr ⟨target, found, here.symm⟩
      have delivery := Bool.eq_iff_iff.mpr
        ((Command.switchesDelivery_iff found).trans (decide_eq_true_iff).symm)
      rw [if_pos addressed, here, get_set_self, delivery]
    · have other : ¬command.Addresses category := by
        rw [command.addresses_iff]
        rintro ⟨target', found', rfl⟩
        rw [found] at found'
        cases found'
        exact here rfl
      rw [if_neg other, get_set_other gates here]

/-! ## Histories -/

/-- **Run**: what was told last holds behind a history. -/
theorem get_obeyAll (gates : Registry) (commands : List Command) (category : Category) :
    (gates.obeyAll commands).get category =
      { count := (gates.get category).count
        rate := latest Command.toldRate (gates.get category).rate
          (commands.filter (·.Addresses category))
        backtrace := latest Command.toldBacktraces (gates.get category).backtrace
          (commands.filter (·.Addresses category))
        active := latest Command.toldDelivery (gates.get category).active
          (commands.filter (·.Names category)) } := by
  induction commands generalizing gates with
  | nil => rfl
  | cons command commands ih =>
    rw [obeyAll, List.foldl_cons]
    change ((gates.obey command).obeyAll commands).get category = _
    rw [ih, get_obey]
    by_cases addressed : command.Addresses category
    · by_cases named : command.Names category
      · simp [addressed, named, latest_cons, Gate.heed]
      · simp [addressed, named, latest_cons, Gate.heed]
    · have unnamed : ¬command.Names category := fun named => addressed (.inl named)
      simp [addressed, unnamed]

/-- The order of two commands that address no gate in common does not matter. -/
theorem obey_comm (gates : Registry) {first second : Command}
    (apart : ∀ category, first.Addresses category → ¬second.Addresses category) :
    (gates.obey first).obey second = (gates.obey second).obey first := by
  refine ext_get fun category => ?_
  rw [get_obey, get_obey, get_obey, get_obey]
  by_cases addressed : first.Addresses category
  · simp [addressed, apart category addressed]
  · simp [addressed]

/-- A command that is repeated at once changes nothing more. -/
theorem obey_obey (gates : Registry) (command : Command) :
    (gates.obey command).obey command = gates.obey command := by
  have again : ∀ {α : Type} (told : Option α) (value : α),
      told.getD (told.getD value) = told.getD value := by
    intro α told value
    cases told <;> rfl
  refine ext_get fun category => ?_
  rw [get_obey, get_obey]
  by_cases addressed : command.Addresses category
  · by_cases named : command.Names category <;> simp [addressed, named, Gate.heed, again]
  · simp [addressed]

/-- A command without a positive rate tells the gate no rate. -/
theorem toldRate_of_not_pos {command : Command} (quiet : ∀ rate ∈ command.rate, ¬0 < rate) :
    command.toldRate = none := by
  unfold Command.toldRate
  split
  · rw [Option.map_eq_none_iff, Option.filter_eq_none_iff]
    simpa using quiet
  · rfl

/-- The rate of a gate is not told under the other name if that name comes with no positive rate. -/
theorem latest_toldRate_of_quiet {commands : List Command}
    (quiet : ∀ command ∈ commands, command.category = Category.stackTraceName →
      ∀ rate ∈ command.rate, ¬0 < rate) (category : Category) (start : UInt64) :
    latest Command.toldRate start (commands.filter (·.Addresses category)) =
      latest Command.toldRate start (commands.filter (·.Names category)) := by
  induction commands generalizing start with
  | nil => rfl
  | cons command commands ih =>
    have others := ih fun other isIn => quiet other (List.mem_cons_of_mem command isIn)
    by_cases named : command.Names category
    · have addressed : command.Addresses category := .inl named
      simp [named, addressed, latest_cons, others]
    · by_cases addressed : command.Addresses category
      · have byAlias := (addressed.resolve_left named).2
        have silent := toldRate_of_not_pos (quiet command List.mem_cons_self byAlias)
        simp [named, addressed, latest_cons, silent, others]
      · simp [named, addressed, others]

/-- **The last word**: behind any history of commands in which the name of the monitor events'
backtraces carries no positive rate, each gate of a fresh registry has the rate of the last start or
configure with a positive one under its own name, delivers exactly if the last start or stop under its
own name was a start, and captures backtraces as the last command says that was addressed to it; it has
counted nothing. Refused commands leave nothing behind. Commands for different gates commute, a
command that is repeated at once changes nothing more, and none alters a gate it does not address. -/
theorem last_word_holds (commands : List Command)
    (quiet : ∀ command ∈ commands, command.category = Category.stackTraceName →
      ∀ rate ∈ command.rate, ¬0 < rate) :
    (∀ category, (fresh.obeyAll commands).get category =
      { count := 0
        rate := latest Command.toldRate 1 (commands.filter (·.Names category))
        backtrace := latest Command.toldBacktraces true (commands.filter (·.Addresses category))
        active := latest Command.toldDelivery false (commands.filter (·.Names category)) }) ∧
    (∀ gates command, (∃ gates', apply gates command = .ok gates') ↔ command.Succeeds) ∧
    (∀ gates first second, (∀ category, first.Addresses category → ¬second.Addresses category) →
      (obey gates first).obey second = (obey gates second).obey first) ∧
    (∀ gates command, (obey gates command).obey command = obey gates command) ∧
    (∀ gates command category, ¬command.Addresses category →
      (obey gates command).get category = gates.get category) := by
  refine ⟨fun category => ?_, exists_apply_iff, fun gates _ _ => gates.obey_comm, obey_obey, ?_⟩
  · have started : fresh.get category = .fresh := by cases category <;> rfl
    rw [get_obeyAll, started, ← latest_toldRate_of_quiet quiet]
    rfl
  · intro gates command category other
    rw [get_obey, if_neg other]

/-- The monitor events behind a history with two refused commands and the other name. -/
theorem last_word_monitors :
    let commands : List Command := [⟨"monitorEvents", .start, some 5⟩,
      ⟨"monitorStackTrace", .configure, some 0⟩, ⟨"monitorEvents", .configure, some (-3)⟩,
      ⟨"gcEvents", .start, none⟩, ⟨"monitorEvents", .stop, some 9⟩, ⟨"monitorStackTrace", .start, none⟩]
    (∀ command ∈ commands, command.category = Category.stackTraceName →
      ∀ rate ∈ command.rate, ¬0 < rate) ∧
    (fresh.obeyAll commands).get .monitors = ⟨0, 5, true, false⟩ := by
  intro commands
  have quiet : ∀ command ∈ commands, command.category = Category.stackTraceName →
      ∀ rate ∈ command.rate, ¬0 < rate := by
    simp [commands, Category.stackTraceName]
  refine ⟨quiet, ?_⟩
  rw [(last_word_holds commands quiet).1 .monitors]
  decide

end Registry

end TelemetryHub
