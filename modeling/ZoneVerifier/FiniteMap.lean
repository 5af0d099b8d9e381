import Mathlib.Data.Finset.Image
import Mathlib.Data.Finset.Basic

/-!
# Finite maps

A partial function with a finite set of keys. Two maps are equal when they
agree on every key, and a property of all stored values is decidable.
-/

set_option autoImplicit false

namespace ZoneVerifier.FiniteMap

structure FinMap (K V : Type) where
  find : K → Option V
  keys : Finset K
  mem_keys : ∀ k, k ∈ keys ↔ (find k).isSome = true

namespace FinMap
variable {K V : Type} (m : FinMap K V) (k : K)

def empty : FinMap K V where
  find := fun _ => none
  keys := ∅
  mem_keys := by simp

def mapValues (m : FinMap K V) (f : V → V) : FinMap K V where
  find := fun q => (m.find q).map f
  keys := m.keys
  mem_keys := by
    intro q
    simp [m.mem_keys]

def mapEntries (m : FinMap K V) (f : K → V → V) : FinMap K V where
  find := fun q => (m.find q).map (f q)
  keys := m.keys
  mem_keys := by
    intro q
    simp [m.mem_keys]

def filterEntries (m : FinMap K V) (p : K → V → Bool) : FinMap K V where
  find := fun q => (m.find q).filter (p q)
  keys := m.keys.filter fun q => ((m.find q).filter (p q)).isSome
  mem_keys := by
    intro q
    cases h : m.find q <;> simp [m.mem_keys, h]

def All (m : FinMap K V) (p : K → V → Prop) : Prop := ∀ k v, m.find k = some v → p k v

theorem all_iff_keys (p : K → V → Prop) :
    m.All p ↔ ∀ k ∈ m.keys, ∀ v, m.find k = some v → p k v := by
  constructor
  · intro h k _ v hv
    exact h k v hv
  · intro h k v hv
    exact h k ((m.mem_keys k).2 (by rw [hv]; rfl)) v hv

instance decidableAll (m : FinMap K V) (p : K → V → Prop) [∀ k v, Decidable (p k v)] :
    Decidable (m.All p) :=
  have : ∀ k, Decidable (∀ v, m.find k = some v → p k v) := fun k =>
    match h : m.find k with
    | none => isTrue (by simp)
    | some v =>
      if hp : p k v then isTrue (by intro w hw; cases hw; exact hp)
      else isFalse (fun hall => hp (hall v rfl))
  decidable_of_iff _ (m.all_iff_keys p).symm

@[simp] theorem find_empty : (empty : FinMap K V).find k = none := rfl

@[simp] theorem find_mapValues (f : V → V) (k : K) :
    (m.mapValues f).find k = (m.find k).map f := rfl

theorem all_mapValues (f : V → V) (p : K → V → Prop) :
    (m.mapValues f).All p ↔ m.All fun k v => p k (f v) := by
  constructor
  · intro h k v hv
    exact h k (f v) (by rw [find_mapValues, hv]; rfl)
  · intro h k w hw
    obtain ⟨v, hv, rfl⟩ := Option.map_eq_some_iff.1 hw
    exact h k v hv

@[simp] theorem find_mapEntries (f : K → V → V) (k : K) :
    (m.mapEntries f).find k = (m.find k).map (f k) := rfl

variable [DecidableEq K]

def insert (m : FinMap K V) (k : K) (v : V) : FinMap K V where
  find := fun q => if q = k then some v else m.find q
  keys := Insert.insert k m.keys
  mem_keys := by
    intro q
    by_cases h : q = k <;> simp [h, m.mem_keys]

def modify (m : FinMap K V) (k : K) (f : V → V) : FinMap K V where
  find := fun q => if q = k then (m.find q).map f else m.find q
  keys := m.keys
  mem_keys := by
    intro q
    by_cases h : q = k <;> simp [h, m.mem_keys]

def markDifferences [DecidableEq V] (m n : FinMap K V) (v : V) : FinMap K V where
  find := fun q => if m.find q = n.find q then m.find q else some v
  keys := m.keys ∪ n.keys
  mem_keys := by
    intro q
    rw [Finset.mem_union, m.mem_keys, n.mem_keys]
    by_cases h : m.find q = n.find q
    · simp [h]
    · rw [if_neg h]
      cases hm : m.find q with
      | some v => simp
      | none =>
        cases hn : n.find q with
        | some v => simp
        | none => exact absurd (hm.trans hn.symm) h

theorem find_insert (q : K) (v : V) :
    (m.insert k v).find q = if q = k then some v else m.find q := rfl

@[simp] theorem find_insert_self (v : V) :
    (m.insert k v).find k = some v := if_pos rfl

theorem find_insert_of_ne {k q : K} (v : V) (h : q ≠ k) :
    (m.insert k v).find q = m.find q := if_neg h

theorem find_modify (q : K) (f : V → V) :
    (m.modify k f).find q = if q = k then (m.find q).map f else m.find q := rfl

end FinMap
end ZoneVerifier.FiniteMap
