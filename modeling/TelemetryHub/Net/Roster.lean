import TelemetryHub.Net.Connection

/-!
# The roster of clients

A table with a fixed number of slots. A client has its slot from its acceptance until it is removed;
then the slot is free again. What stands for a client is left open.
-/

namespace TelemetryHub

structure Roster (γ : Type) where
  slots : List (Option γ)
deriving DecidableEq

inductive RosterError where
  | full (capacity : Nat)
  | unknownSlot (slot : Nat)
deriving DecidableEq

def RosterError.name : RosterError → String
  | .full _ => "Full"
  | .unknownSlot _ => "UnknownSlot"

def RosterError.phrase : RosterError → String
  | .full capacity => "Client roster full (" ++ toString capacity ++ " slots)"
  | .unknownSlot slot => "No client in slot " ++ clientName slot

namespace Roster

variable {γ : Type}

/-- The number of slots lies below this bound, which is `2 ^ 60`: there are not more addresses. -/
def slotBound : Nat := 1152921504606846976

def empty (capacity : Nat) : Roster γ := ⟨List.replicate capacity none⟩

def capacity (roster : Roster γ) : Nat := roster.slots.length

/-- The clients, in slot order. -/
def clients (roster : Roster γ) : List γ := roster.slots.filterMap id

def count (roster : Roster γ) : Nat := roster.clients.length

def isEmpty (roster : Roster γ) : Bool := roster.count = 0

/-- The lowest free slot. -/
def vacant (roster : Roster γ) : Except RosterError Nat :=
  let slot := roster.slots.findIdx Option.isNone
  if slot < roster.capacity then .ok slot else .error (.full roster.capacity)

def get (roster : Roster γ) (slot : Nat) : Option γ := (roster.slots[slot]?).join

/-- Put a client into a slot, which must be free. -/
def insert (roster : Roster γ) (slot : Nat) (client : γ) : Except RosterError (Roster γ) :=
  match roster.slots[slot]? with
  | some none => .ok ⟨roster.slots.set slot (some client)⟩
  | some (some _) => .error (.full roster.capacity)
  | none => .error (.unknownSlot slot)

def remove (roster : Roster γ) (slot : Nat) : Except RosterError (γ × Roster γ) :=
  match roster.get slot with
  | some client => .ok (client, ⟨roster.slots.set slot none⟩)
  | none => .error (.unknownSlot slot)

def modify (roster : Roster γ) (slot : Nat) (change : γ → γ) : Roster γ :=
  ⟨roster.slots.modify slot (Option.map change)⟩

/-- Keep the clients that are connected, and free the slots of the others. -/
def keep (connected : γ → Bool) (slot : Option γ) : Option γ := slot.filter connected

def reap (roster : Roster γ) (connected : γ → Bool) : List γ × Roster γ :=
  (roster.clients.filter fun client => !connected client, ⟨roster.slots.map (keep connected)⟩)

/-- The clients that are connected, in slot order. -/
def snapshot (roster : Roster γ) (connected : γ → Bool) : List γ :=
  roster.clients.filter connected

def drain (roster : Roster γ) : List γ × Roster γ :=
  (roster.clients, empty roster.capacity)

theorem capacity_empty (capacity : Nat) : (empty capacity : Roster γ).capacity = capacity := by
  simp [empty, Roster.capacity]

theorem clients_empty (capacity : Nat) : (empty capacity : Roster γ).clients = [] := by
  simp [empty, clients]

theorem capacity_insert {roster after : Roster γ} {slot : Nat} {client : γ}
    (inserted : roster.insert slot client = .ok after) : after.capacity = roster.capacity := by
  unfold insert at inserted
  split at inserted
  · cases inserted
    simp [Roster.capacity]
  · cases inserted
  · cases inserted

/-- A client can be put into the slot that `vacant` names. -/
theorem insert_vacant {roster : Roster γ} {slot : Nat} (free : roster.vacant = .ok slot)
    (client : γ) : roster.insert slot client = .ok ⟨roster.slots.set slot (some client)⟩ := by
  simp only [vacant] at free
  split at free
  · next within =>
    cases free
    have bound : roster.slots.findIdx Option.isNone < roster.slots.length := within
    have isNone := List.findIdx_getElem (w := bound)
    have found : roster.slots[roster.slots.findIdx Option.isNone]? = some none := by
      rw [List.getElem?_eq_getElem bound]
      exact congrArg some (Option.isNone_iff_eq_none.mp isNone)
    simp [insert, found]
  · cases free

end Roster
end TelemetryHub
