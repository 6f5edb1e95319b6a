import TelemetryHub.Proofs.Gate.History

/-!
# The name of the monitor events' backtraces

One name addresses no gate of its own but the backtraces of the monitor events. A command under it
tells that gate nothing about its delivery and the other gates nothing at all (`obey_byAlias`), so the
gates behind a history are those behind the history without such commands, but for the backtraces
(`get_obeyAll_filter`). A start or a configure that brings a positive rate is the exception: the gate
stores the rate as if it had come under its own name.
-/

namespace TelemetryHub

namespace Command

/-- The command has the name of the monitor events' backtraces. -/
def ByAlias (command : Command) : Prop := command.category = Category.stackTraceName

instance : DecidablePred ByAlias := fun command =>
  inferInstanceAs (Decidable (command.category = Category.stackTraceName))

/-- The command is a start or a configure with a positive rate. -/
def BringsRate (command : Command) : Prop :=
  (command.action = .start ∨ command.action = .configure) ∧ ∃ rate ∈ command.rate, 0 < rate

section

variable {command : Command} (byAlias : command.ByAlias)

include byAlias

theorem not_names_of_byAlias (category : Category) : ¬command.Names category := by
  have other : Category.stackTraceName ≠ category.name := by cases category <;> decide
  unfold Names
  rw [byAlias]
  exact other

theorem addresses_iff_of_byAlias (category : Category) :
    command.Addresses category ↔ category = .monitors := by
  have unnamed := not_names_of_byAlias byAlias category
  unfold Addresses
  exact ⟨fun addressed => (addressed.resolve_left unnamed).1, fun here => .inr ⟨here, byAlias⟩⟩

/-- A start or a configure with a positive rate is carried out under the other name, too. -/
theorem succeeds_of_bringsRate (brings : command.BringsRate) : command.Succeeds := by
  obtain ⟨action, rate, given, positive⟩ := brings
  refine ⟨⟨.monitors, by decide, (addresses_iff_of_byAlias byAlias _).mpr rfl⟩, ?_, ?_⟩
  · intro other given'
    cases Option.some.inj (given.symm.trans given')
    exact Int64.le_of_lt positive
  · rcases action with starts | configures
    · exact .inl starts
    · exact .inr (.inr ⟨configures, Option.isSome_of_eq_some given⟩)

end

/-- Only a start or a configure with a positive rate tells a gate a rate. -/
theorem toldRate_of_not_bringsRate {command : Command} (quiet : ¬command.BringsRate) :
    command.toldRate = none := by
  unfold toldRate
  split
  · next obeyed =>
    have action : command.action = .start ∨ command.action = .configure := by
      rcases obeyed.1.2.2 with starts | stops | ⟨configures, -⟩
      · exact .inl starts
      · exact absurd stops obeyed.2
      · exact .inr configures
    have notPositive : ∀ rate ∈ command.rate, ¬0 < rate := fun rate given positive =>
      quiet ⟨action, rate, given, positive⟩
    rw [Option.map_eq_none_iff, Option.filter_eq_none_iff]
    simpa using notPositive
  · rfl

end Command

namespace Registry

/-- The gates with the backtraces of the monitor events switched. -/
def setBacktraces (gates : Registry) (on : Bool) : Registry := gates.modify .monitors (·.setBacktrace on)

/-- **Step**: a command under the other name tells the gate of the monitor events about its backtraces,
and its rate if it brings one. -/
theorem obey_byAlias (gates : Registry) {command : Command} (byAlias : command.ByAlias) :
    gates.obey command = gates.modify .monitors (·.heed command false) := by
  refine ext_get fun category => ?_
  have unnamed := Command.not_names_of_byAlias byAlias category
  rw [get_obey]
  unfold modify
  by_cases here : category = .monitors
  · rw [if_pos ((Command.addresses_iff_of_byAlias byAlias category).mpr here), here, get_set_self,
      decide_eq_false (here ▸ unnamed)]
  · rw [if_neg (mt (Command.addresses_iff_of_byAlias byAlias category).mp here),
      get_set_other gates here]

theorem obey_of_not_bringsRate (gates : Registry) {command : Command} (byAlias : command.ByAlias)
    (quiet : ¬command.BringsRate) :
    gates.obey command =
      gates.setBacktraces (command.toldBacktraces.getD gates.monitors.backtrace) := by
  rw [obey_byAlias gates byAlias]
  unfold modify setBacktraces modify Gate.heed
  rw [Command.toldRate_of_not_bringsRate quiet]
  rfl

theorem obey_of_bringsRate (gates : Registry) {command : Command} (byAlias : command.ByAlias)
    (brings : command.BringsRate) {rate : Int64} (given : command.rate = some rate) :
    gates.obey command = gates.modify .monitors fun gate =>
      { gate with rate := UInt64.ofNat rate.toInt.toNat, backtrace := true } := by
  have succeeds := Command.succeeds_of_bringsRate byAlias brings
  obtain ⟨action, other, given', positive⟩ := brings
  cases Option.some.inj (given.symm.trans given')
  have goesOn : command.action ≠ .stop := by rcases action with action | action <;> rw [action] <;> nofun
  have nonzero : rate ≠ 0 := by
    rintro rfl
    exact absurd positive (by decide)
  have told : command.toldRate = some (UInt64.ofNat rate.toInt.toNat) := by
    rw [Command.toldRate, if_pos ⟨succeeds, goesOn⟩, given]
    simp [Option.filter, positive]
  have on : command.toldBacktraces = some true := by
    simp [Command.toldBacktraces, succeeds, goesOn, given, nonzero]
  rw [obey_byAlias gates byAlias]
  unfold modify Gate.heed
  rw [told, on]
  rfl

/-! ## Histories -/

/-- The commands of a history that have the gates' own names, or none. -/
def withoutAlias (commands : List Command) : List Command :=
  commands.filter fun command => ¬command.ByAlias

/-- Commands that tell nothing can be left out. -/
theorem latest_withoutAlias {α : Type} (tells : Command → Option α) (P : Command → Prop)
    [DecidablePred P] {commands : List Command}
    (silent : ∀ command ∈ commands, command.ByAlias → P command → tells command = none) (start : α) :
    latest tells start (commands.filter (P ·)) =
      latest tells start ((withoutAlias commands).filter (P ·)) := by
  induction commands generalizing start with
  | nil => rfl
  | cons command commands ih =>
    have others := ih fun other isIn => silent other (List.mem_cons_of_mem command isIn)
    unfold withoutAlias at others ⊢
    by_cases holds : P command
    · by_cases byAlias : command.ByAlias
      · have nothing := silent command List.mem_cons_self byAlias holds
        simp [holds, byAlias, latest_cons, nothing, others]
      · simp [holds, byAlias, latest_cons, others]
    · by_cases byAlias : command.ByAlias <;> simp [holds, byAlias, others]

/-- The gates behind a history are those behind the commands under the gates' own names, but for the
backtraces and the rate of the monitor events. -/
theorem obeyAll_eq_withoutAlias (gates : Registry) (commands : List Command) :
    gates.obeyAll commands = (gates.obeyAll (withoutAlias commands)).modify .monitors fun gate =>
      { gate with
        rate := (gates.obeyAll commands).monitors.rate
        backtrace := (gates.obeyAll commands).monitors.backtrace } := by
  refine ext_get fun category => ?_
  unfold modify
  by_cases here : category = .monitors
  · have unnamed : ∀ command ∈ commands, command.ByAlias → command.Names .monitors →
        command.toldDelivery = none :=
      fun _ _ byAlias named => absurd named (Command.not_names_of_byAlias byAlias .monitors)
    have delivery := latest_withoutAlias _ _ unnamed
    have own : (gates.obeyAll commands).monitors = _ := gates.get_obeyAll commands .monitors
    rw [here, get_set_self, get_obeyAll gates (withoutAlias commands), ← delivery]
    change (gates.obeyAll commands).monitors = _
    rw [own]
  · have unaddressed : ∀ {α : Type} (tells : Command → Option α), ∀ command ∈ commands,
        command.ByAlias → command.Addresses category → tells command = none :=
      fun _ _ _ byAlias addressed =>
        absurd ((Command.addresses_iff_of_byAlias byAlias category).mp addressed) here
    have unnamed : ∀ command ∈ commands, command.ByAlias → command.Names category →
        command.toldDelivery = none :=
      fun _ _ byAlias named => absurd named (Command.not_names_of_byAlias byAlias category)
    rw [get_set_other _ here, get_obeyAll, get_obeyAll, latest_withoutAlias _ _ (unaddressed _),
      latest_withoutAlias _ _ (unaddressed _), latest_withoutAlias _ _ unnamed]

/-- The rate stays as well if no command brings one under the other name. -/
theorem rate_obeyAll_of_quiet (gates : Registry) {commands : List Command}
    (quiet : ∀ command ∈ commands, command.ByAlias → ¬command.BringsRate) :
    (gates.obeyAll commands).monitors.rate = (gates.obeyAll (withoutAlias commands)).monitors.rate := by
  have told := latest_withoutAlias Command.toldRate (Command.Addresses .monitors)
    (fun command isIn byAlias _ =>
      Command.toldRate_of_not_bringsRate (quiet command isIn byAlias)) gates.monitors.rate
  have rate : ∀ commands, (gates.obeyAll commands).monitors.rate = latest Command.toldRate
      gates.monitors.rate (commands.filter (·.Addresses .monitors)) := fun commands =>
    congrArg Gate.rate (gates.get_obeyAll commands .monitors)
  rw [rate, rate, told]

/-- **Backtraces alone**: a command under the name of the monitor events' backtraces switches them and
changes nothing else, unless it is a start or a configure with a positive rate, which the gate stores.
So commands under this name that are interleaved with any others, none of them such a one, leave
everything but the backtraces of the monitor events as it is without them. -/
theorem alias_drives_backtraces (gates : Registry) :
    (∀ command : Command, command.ByAlias → ¬command.BringsRate → gates.obey command =
      gates.setBacktraces (command.toldBacktraces.getD gates.monitors.backtrace)) ∧
    (∀ command : Command, command.ByAlias → command.BringsRate → ∀ rate ∈ command.rate,
      gates.obey command = gates.modify .monitors fun gate =>
        { gate with rate := UInt64.ofNat rate.toInt.toNat, backtrace := true }) ∧
    (∀ commands, (∀ command ∈ commands, command.ByAlias → ¬command.BringsRate) →
      gates.obeyAll commands = (gates.obeyAll (withoutAlias commands)).setBacktraces
        (gates.obeyAll commands).monitors.backtrace) ∧
    (∀ commands, gates.obeyAll commands =
      (gates.obeyAll (withoutAlias commands)).modify .monitors fun gate =>
        { gate with
          rate := (gates.obeyAll commands).monitors.rate
          backtrace := (gates.obeyAll commands).monitors.backtrace }) := by
  refine ⟨fun command => gates.obey_of_not_bringsRate, fun command byAlias brings rate given =>
    gates.obey_of_bringsRate byAlias brings given, fun commands quiet => ?_, gates.obeyAll_eq_withoutAlias⟩
  have all := gates.obeyAll_eq_withoutAlias commands
  rw [rate_obeyAll_of_quiet gates quiet] at all
  exact all

/-- A stop and a rate of zero under the other name do no more than switch backtraces off. -/
theorem alias_switches_backtraces_off :
    let commands : List Command := [⟨"monitorEvents", .start, some 7⟩,
      ⟨"monitorStackTrace", .stop, some 5⟩, ⟨"monitorStackTrace", .start, some 0⟩]
    (∀ command ∈ commands, command.ByAlias → ¬command.BringsRate) ∧
    fresh.obeyAll commands = (fresh.obeyAll [⟨"monitorEvents", .start, some 7⟩]).setBacktraces false := by
  intro commands
  have quiet : ∀ command ∈ commands, command.ByAlias → ¬command.BringsRate := by
    simp [commands, Command.BringsRate, Command.ByAlias, Category.stackTraceName]
  refine ⟨quiet, ?_⟩
  rw [(alias_drives_backtraces fresh).2.2.1 commands quiet]
  decide

/-- The other name brings the gate of the monitor events a rate, so it does not switch backtraces
alone. -/
theorem alias_stores_rate :
    (fresh.obey ⟨"monitorStackTrace", .start, some 5⟩).monitors = ⟨0, 5, true, false⟩ ∧
    ¬∀ (gates : Registry) (command : Command), command.ByAlias →
      (gates.obey command).monitors.rate = gates.monitors.rate := by
  have stored : (fresh.obey ⟨"monitorStackTrace", .start, some 5⟩).monitors = ⟨0, 5, true, false⟩ := by
    decide
  refine ⟨stored, fun always => ?_⟩
  have same := always fresh ⟨"monitorStackTrace", .start, some 5⟩ rfl
  rw [stored] at same
  exact absurd same (by decide)

end Registry

end TelemetryHub
