import TelemetryHub.Gate.Basic

/-!
# The registry of gates

There is one gate for each of four categories. A category is named by its exact name; one more name
addresses only the backtraces of the monitor events.
-/

namespace TelemetryHub

/-- The categories of events, in the order of the registry. -/
inductive Category where
  | exceptions
  | methodEntries
  | allocations
  | monitors
deriving DecidableEq

namespace Category

def all : List Category := [.exceptions, .methodEntries, .allocations, .monitors]

def name : Category → String
  | .exceptions => "exceptionEvents"
  | .methodEntries => "methodEntryEvents"
  | .allocations => "objectAllocEvents"
  | .monitors => "monitorEvents"

def named? (name : String) : Option Category := all.find? (·.name = name)

theorem named?_name (category : Category) : named? category.name = some category := by
  cases category <;> decide

/-- The name that addresses only the backtraces of the monitor events. -/
def stackTraceName : String := "monitorStackTrace"

end Category

/-- What a name in a command addresses. -/
inductive Target where
  | gate (category : Category)
  | backtraceOnly (category : Category)
deriving DecidableEq

namespace Target

def category : Target → Category
  | .gate category | .backtraceOnly category => category

def switchesDelivery : Target → Bool
  | .gate _ => true
  | .backtraceOnly _ => false

/-- What a name addresses. -/
def named? (name : String) : Option Target :=
  if name = Category.stackTraceName then some (.backtraceOnly .monitors)
  else (Category.named? name).map .gate

end Target

structure Registry where
  exceptions : Gate
  methodEntries : Gate
  allocations : Gate
  monitors : Gate
deriving DecidableEq

namespace Registry

def fresh : Registry := ⟨.fresh, .fresh, .fresh, .fresh⟩

def get (gates : Registry) : Category → Gate
  | .exceptions => gates.exceptions
  | .methodEntries => gates.methodEntries
  | .allocations => gates.allocations
  | .monitors => gates.monitors

def set (gates : Registry) (category : Category) (gate : Gate) : Registry :=
  match category with
  | .exceptions => { gates with exceptions := gate }
  | .methodEntries => { gates with methodEntries := gate }
  | .allocations => { gates with allocations := gate }
  | .monitors => { gates with monitors := gate }

def modify (gates : Registry) (category : Category) (change : Gate → Gate) : Registry :=
  gates.set category (change (gates.get category))

/-- Change the gate with a given name, and say whether there is one. -/
def modifyNamed (gates : Registry) (name : String) (change : Gate → Gate) : Bool × Registry :=
  match Category.named? name with
  | some category => (true, gates.modify category change)
  | none => (false, gates)

/-- Switch delivery of a category, as producers do. -/
def setEnabled (gates : Registry) (name : String) (enabled : Bool) : Bool × Registry :=
  gates.modifyNamed name (·.setActive enabled)

/-- Give a category a rate, as producers do. -/
def setRate (gates : Registry) (name : String) (rate : Int64) : Bool × Registry :=
  gates.modifyNamed name (·.configure rate)

/-- The numbers that a series of events of a category gets, if there is such a category. -/
def samples (gates : Registry) (name : String) (n : Nat) : Option (List UInt64) × Registry :=
  match Category.named? name with
  | none => (none, gates)
  | some category =>
    let (numbers, gate) := (gates.get category).samples n
    (some numbers, gates.set category gate)

theorem get_set_self (gates : Registry) (category : Category) (gate : Gate) :
    (gates.set category gate).get category = gate := by
  cases category <;> rfl

theorem get_set_other (gates : Registry) {category other : Category} (different : other ≠ category)
    (gate : Gate) : (gates.set category gate).get other = gates.get other := by
  cases category <;> cases other <;> first | rfl | exact absurd rfl different

theorem ext_get {gates others : Registry} (same : ∀ category, gates.get category = others.get category) :
    gates = others := by
  obtain ⟨a, b, c, d⟩ := gates
  obtain ⟨a', b', c', d'⟩ := others
  have h₁ := same .exceptions
  have h₂ := same .methodEntries
  have h₃ := same .allocations
  have h₄ := same .monitors
  simp only [get] at h₁ h₂ h₃ h₄
  subst h₁ h₂ h₃ h₄
  rfl

end Registry
end TelemetryHub
