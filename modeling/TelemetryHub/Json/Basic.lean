import TelemetryHub.Number.Binary64

/-!
# Documents

A JSON value. Numbers are integers that fit 64 bits, signed or unsigned, or doubles; the members of
an object are kept in the order in which their keys came first. `Members.insert` gives a key a
value the way a reader meets it: a key that is there keeps its place and takes the new value.
`lookup_insert_self`, `lookup_insert_other` and `keys_insert` describe it.
-/

namespace TelemetryHub

/-- An integer that fits 64 bits, signed or unsigned: from `-2 ^ 63` on and below `2 ^ 64`. -/
structure Whole where
  val : Int
  least : -9223372036854775808 ≤ val
  below : val < 18446744073709551616
deriving DecidableEq

namespace Whole

/-- The integer, if it fits. -/
def ofInt? (i : Int) : Option Whole :=
  if least : -9223372036854775808 ≤ i then
    if below : i < 18446744073709551616 then some ⟨i, least, below⟩ else none
  else none

def ofInt64 (i : Int64) : Whole :=
  ⟨i.toInt, i.le_toInt, Int.lt_trans i.toInt_lt (by decide)⟩

def ofUInt64 (n : UInt64) : Whole :=
  ⟨n.toNat, by omega, by have := n.toNat_lt; omega⟩

/-- A natural number, or the greatest one that fits. -/
def ofNat (n : Nat) : Whole :=
  ⟨min n 18446744073709551615, by omega, by omega⟩

def toInt64? (w : Whole) : Option Int64 :=
  if w.val < 9223372036854775808 then some (Int64.ofInt w.val) else none

def toUInt64? (w : Whole) : Option UInt64 :=
  if 0 ≤ w.val then some (UInt64.ofNat w.val.toNat) else none

theorem toInt64?_ofInt64 (i : Int64) : (ofInt64 i).toInt64? = some i := by
  have below : i.toInt < 9223372036854775808 := i.toInt_lt
  simp [ofInt64, toInt64?, below]

theorem toUInt64?_ofUInt64 (n : UInt64) : (ofUInt64 n).toUInt64? = some n := by
  simp [ofUInt64, toUInt64?]

end Whole

inductive Number where
  | whole (n : Whole)
  | real (x : Binary64)
deriving DecidableEq

inductive Json where
  | null
  | bool (b : Bool)
  | num (n : Number)
  | str (s : String)
  | arr (items : List Json)
  | obj (members : List (String × Json))
deriving Inhabited

namespace Json

/-- The members of an object, in order. -/
abbrev Members := List (String × Json)

def ofInt64 (i : Int64) : Json := .num (.whole (.ofInt64 i))

def ofUInt64 (n : UInt64) : Json := .num (.whole (.ofUInt64 n))

def ofNat (n : Nat) : Json := .num (.whole (.ofNat n))

def Members.insert (key : String) (value : Json) : Members → Members
  | [] => [(key, value)]
  | (k, v) :: rest => if k = key then (key, value) :: rest else (k, v) :: insert key value rest

def Members.lookup (key : String) : Members → Option Json
  | [] => none
  | (k, v) :: rest => if k = key then some v else lookup key rest

theorem Members.lookup_insert_self (key : String) (value : Json) (members : Members) :
    lookup key (insert key value members) = some value := by
  induction members with
  | nil => simp [insert, lookup]
  | cons member rest ih =>
    obtain ⟨k, v⟩ := member
    by_cases same : k = key
    · simp [insert, lookup, same]
    · simp [insert, lookup, same, ih]

theorem Members.lookup_insert_other {key other : String} (different : other ≠ key) (value : Json)
    (members : Members) : lookup other (insert key value members) = lookup other members := by
  induction members with
  | nil => simp [insert, lookup, different.symm]
  | cons member rest ih =>
    obtain ⟨k, v⟩ := member
    by_cases same : k = key
    · subst same
      simp [insert, lookup, different.symm]
    · by_cases hit : k = other
      · simp [insert, lookup, hit, different]
      · simp [insert, lookup, same, hit, ih]

theorem Members.keys_insert (key : String) (value : Json) (members : Members) :
    (insert key value members).map Prod.fst =
      if key ∈ members.map Prod.fst then members.map Prod.fst
      else members.map Prod.fst ++ [key] := by
  induction members with
  | nil => simp [insert]
  | cons member rest ih =>
    obtain ⟨k, v⟩ := member
    by_cases same : k = key
    · simp [insert, same]
    · have back : key ≠ k := fun h => same h.symm
      simp only [insert, same, if_false, List.map_cons, ih, List.mem_cons, back, false_or]
      split <;> simp_all

end Json
end TelemetryHub
