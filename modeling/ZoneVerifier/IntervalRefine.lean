import ZoneVerifier.Concrete
import ZoneVerifier.Interval
import ZoneVerifier.Refine

/-!
# Refinements of the interval domain

An interval state represents the valuations that lie in the bounds of every
register and give equal values to registers with the same scalar identity. A
refinement rewrites the bounds of one register, or of one register and all
registers linked to it, and keeps a represented valuation exactly when every
rewritten tuple still describes its word.
-/

set_option autoImplicit false

namespace ZoneVerifier.Ast.Reg

/-- `R0` to `R10`: neither `Zero` nor an anchor. -/
def isProgram (r : Reg) : Bool := decide (r ≠ .zero) && !r.isAnchor

theorem isProgram_iff {r : Reg} : r.isProgram = true ↔ ¬ (r = .zero ∨ r.isAnchor = true) := by
  cases r <;> decide

theorem toIndex_ne_none {r : Reg} (h : r.isProgram = true) : r.toIndex ≠ none := by
  revert h
  cases r <;> decide

end ZoneVerifier.Ast.Reg

namespace ZoneVerifier.Bounds.ScalarBounds

theorem scalarId_syncBounds (b : ScalarBounds) : b.syncBounds.scalarId = b.scalarId := by
  have h1 : ∀ b : ScalarBounds, b.deduceFromU64.scalarId = b.scalarId := by
    intro b
    unfold deduceFromU64
    split_ifs <;> rfl
  have h2 : ∀ b : ScalarBounds, b.deduceFromS64.scalarId = b.scalarId := by
    intro b
    unfold deduceFromS64
    dsimp only
    split_ifs <;> rfl
  have h3 : ∀ b : ScalarBounds, b.deduceS32FromU32.scalarId = b.scalarId := by
    intro b
    unfold deduceS32FromU32
    split_ifs <;> rfl
  have h4 : ∀ b : ScalarBounds, b.deduceU32FromS32.scalarId = b.scalarId := by
    intro b
    unfold deduceU32FromS32
    dsimp only
    split_ifs <;> rfl
  have h5 : ∀ b : ScalarBounds, b.deduceMixed.scalarId = b.scalarId := by
    intro b
    cases b
    rfl
  have h6 : ∀ b : ScalarBounds, b.deduceU64FromS64.scalarId = b.scalarId := by
    intro b
    unfold deduceU64FromS64
    split_ifs <;> rfl
  unfold syncBounds
  rw [h6, h5, h4, h3, h2, h1]

end ZoneVerifier.Bounds.ScalarBounds

namespace ZoneVerifier.Interval
open Ast Bounds Concrete
variable (s : IntervalState)

def InRange : Prop := ∀ r, (s.getBounds r).InRange

structure Represents (s : IntervalState) (ρ : Valuation) : Prop where
  has : ∀ r, (s.getBounds r).Has (ρ r).toNat
  linked : ∀ r q i, r.isProgram = true → q.isProgram = true →
    (s.getBounds r).scalarId = some i → (s.getBounds q).scalarId = some i → ρ r = ρ q

theorem getBounds_modifyBounds (x r : Reg)
    (f : ScalarBounds → ScalarBounds) :
    (s.modifyBounds x f).getBounds r = if r = x then f (s.getBounds x) else s.getBounds r := by
  unfold IntervalState.modifyBounds IntervalState.update IntervalState.getBounds
  dsimp only
  split_ifs <;> rfl

theorem InRange.modifyBounds {s : IntervalState} (h : InRange s) {x : Reg}
    {f : ScalarBounds → ScalarBounds} (hf : (f (s.getBounds x)).InRange) :
    InRange (s.modifyBounds x f) := by
  intro r
  rw [getBounds_modifyBounds]
  split_ifs
  · exact hf
  · exact h r

def modifyAll (rs : List Reg) (f : ScalarBounds → ScalarBounds) :
    IntervalState :=
  rs.foldl (fun s r => s.modifyBounds r f) s

theorem getBounds_modifyAll (rs : List Reg) (hrs : rs.Nodup) (s : IntervalState) (r : Reg)
    (f : ScalarBounds → ScalarBounds) :
    (modifyAll s rs f).getBounds r = if r ∈ rs then f (s.getBounds r) else s.getBounds r := by
  induction rs generalizing s with
  | nil => rfl
  | cons q rs ih =>
    obtain ⟨hq, hrs⟩ := List.nodup_cons.1 hrs
    rw [modifyAll, List.foldl_cons]
    refine (ih hrs _).trans ?_
    rw [getBounds_modifyBounds]
    by_cases hr : r = q
    · subst hr
      simp [hq]
    · simp [hr]

def linkedRegs (x : Reg) : List Reg :=
  match (s.getBounds x).scalarId with
  | none => []
  | some i => Reg.all.filter fun r =>
      decide (r ≠ x) && r.isProgram && decide ((s.getBounds r).scalarId = some i)

def linkClass (x : Reg) : List Reg := x :: linkedRegs s x

theorem nodup_all : Reg.all.Nodup := by decide

theorem mem_linkedRegs_iff {s : IntervalState} {x r : Reg} :
    r ∈ linkedRegs s x ↔ r ≠ x ∧ r.isProgram = true ∧
      ∃ i, (s.getBounds x).scalarId = some i ∧ (s.getBounds r).scalarId = some i := by
  unfold linkedRegs
  cases h : (s.getBounds x).scalarId with
  | none => simp
  | some i =>
    simp only [List.mem_filter, Bool.and_eq_true, decide_eq_true_eq, Option.some.injEq,
      exists_eq_left']
    constructor
    · rintro ⟨_, ⟨h1, h2⟩, h3⟩
      exact ⟨h1, h2, h3⟩
    · rintro ⟨h1, h2, h3⟩
      exact ⟨(by cases r <;> first | decide | cases h2), ⟨h1, h2⟩, h3⟩

theorem nodup_linkedRegs (x : Reg) : (linkedRegs s x).Nodup := by
  unfold linkedRegs
  split
  · exact List.nodup_nil
  · exact nodup_all.filter _

theorem nodup_linkClass (x : Reg) : (linkClass s x).Nodup :=
  List.nodup_cons.2 ⟨fun h => (mem_linkedRegs_iff.1 h).1 rfl, nodup_linkedRegs s x⟩

section Rewriting
variable {s : IntervalState} {ρ : Valuation}

theorem InRange.modifyAll {rs : List Reg} (hs : InRange s) (hrs : rs.Nodup)
    {f : ScalarBounds → ScalarBounds} (hf : ∀ b : ScalarBounds, b.InRange → (f b).InRange) :
    InRange (modifyAll s rs f) := by
  intro r
  rw [getBounds_modifyAll rs hrs]
  split_ifs
  · exact hf _ (hs r)
  · exact hs r

end Rewriting
end ZoneVerifier.Interval
