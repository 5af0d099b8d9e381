import ZoneVerifier.ZoneExact

/-!
# Zone subsumption

`zone_subsumed_by` (`analysis/flow/pruning/subsumption.rs`) compares the cells
of a cached and the current zone between live registers and packet anchors.
-/

set_option autoImplicit false

namespace ZoneVerifier.Pruning
open Ast Zone DiffBound

def anchors : List Reg := [.anchorData, .anchorDataEnd, .anchorDataMeta]

def zoneSubsumedBy (old cur : Dbm) (liveRegs : List Reg) : Bool :=
  let live := liveRegs.filter (!·.isAnchor)
  let covers := fun a b => !decide (old.get a b < cur.get a b)
  (anchors.all fun a => anchors.all fun b => a == b || covers a b) &&
  (live.all fun r => anchors.all fun a => covers r a && covers a r) &&
  live.all fun a => live.all fun b => a == b || covers a b

variable {old cur : Dbm} {live : List Reg} {w : Reg → Int}

theorem mem_anchors (r : Reg) : r ∈ anchors ↔ r.isAnchor = true := by
  cases r <;> decide

theorem le_of_subsumed (h : zoneSubsumedBy old cur live = true) {a b : Reg}
    (ha : a.isAnchor = true ∨ a ∈ live) (hb : b.isAnchor = true ∨ b ∈ live) (hab : a ≠ b) :
    cur.data a b ≤ old.data a b := by
  simp only [zoneSubsumedBy, Bool.and_eq_true, List.all_eq_true, mem_anchors, List.mem_filter] at h
  by_cases ha' : a.isAnchor = true <;> by_cases hb' : b.isAnchor = true <;> grind [Dbm.get]

/-- Whatever the current zone admits, the cached one admits with the same
values of the live registers and anchors; the dead ones and the origin may differ. -/
theorem zone_pruning_covers (ht : Tight inf old.data) (hold : old.isInconsistent = false)
    (h : zoneSubsumedBy old cur live = true) (hw : Admits cur w) :
    ∃ v, Admits old v ∧ ∀ r, r.isAnchor = true ∨ r ∈ live → v r = w r := by
  have hdiag : ∀ r, 0 ≤ old.data r r := by
    intro r
    by_contra hneg
    have hbad := (isInconsistent_iff old).2 (Or.inl ⟨r, Int.not_le.1 hneg⟩)
    rw [hold] at hbad
    cases hbad
  refine ht.exists_sat hdiag Reg.rows (fun i => Or.inr (Reg.mem_rows i)) fun i j hi hj hij => ?_
  by_cases he : i = j
  · have := hdiag j
    rw [he]
    omega
  · have hle := le_of_subsumed h hi hj he
    exact Int.le_trans (hw i j (by omega)) hle

theorem five_above_pruned : ∃ v, Admits fiveAbove v ∧
    ∀ r, r.isAnchor = true ∨ r ∈ [.r1, .r3] → v r = onlyR1 5 r := by
  have hw : Admits (fiveAbove.addConstraint .r1 .r3 9) (onlyR1 5) := by
    intro i j
    revert i j
    decide
  exact zone_pruning_covers (by unfold Tight; decide) (by decide) (by decide) hw

end ZoneVerifier.Pruning
