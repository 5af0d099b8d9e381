import ZoneVerifier.IntervalRefine
import ZoneVerifier.Machine
import ZoneVerifier.ZoneSound

/-!
# What an abstract state represents

A state represents a valuation when its numeric domain does and every tristate
number contains the register's word. The queries of the domain interface are
sound for every represented valuation.
-/

set_option autoImplicit false

namespace ZoneVerifier.Numeric.NumericDomain
open Word Ast Bounds Concrete

def Represents : NumericDomain → Valuation → Prop
  | zone d, ρ => Zone.Represents d ρ
  | interval s, ρ => Interval.Represents s ρ

def InRange : NumericDomain → Prop
  | zone d => ∀ r, (d.bounds r).InRange
  | interval s => Interval.InRange s

def tuple : NumericDomain → Reg → ScalarBounds
  | zone d, r => d.bounds r
  | interval s, r => s.getBounds r

section Queries
variable {d : NumericDomain} {ρ : Valuation}

theorem getInterval_sound (h : d.Represents ρ) (hz : signedOf ρ .zero = 0) (x : Reg) :
    (d.getInterval x).1 ≤ signedOf ρ x ∧ signedOf ρ x ≤ (d.getInterval x).2 := by
  cases d with
  | zone d => exact Zone.getInterval_bounds h.sat hz x
  | interval s => exact ⟨(h.has x).smin_le, (h.has x).le_smax⟩

theorem getFixedValue_sound (h : d.Represents ρ) (hz : signedOf ρ .zero = 0) {x : Reg} {k : Int}
    (hk : d.getFixedValue x = some k) : signedOf ρ x = k := by
  obtain ⟨hl, hu⟩ := getInterval_sound h hz x
  cases d with
  | zone d =>
    simp only [getFixedValue, Zone.getFixedValue] at hk
    split_ifs at hk with hc
    cases hk
    simp only [getInterval] at hl hu
    omega
  | interval s =>
    obtain ⟨h1, h2, _⟩ := ScalarBounds.getConstant_eq_some hk
    simp only [getInterval, Interval.IntervalState.getInterval] at hl hu
    omega

theorem getU64Bounds_sound (h : d.Represents ρ) (x : Reg) :
    (d.getU64Bounds x).1 ≤ (ρ x).toNat ∧ (ρ x).toNat ≤ (d.getU64Bounds x).2 := by
  cases d with
  | zone d | interval s => exact ⟨(h.has x).umin_le, (h.has x).le_umax⟩

theorem derivedU32_sound {b : ScalarBounds} {n : Nat} (h : b.Has n) :
    (derivedU32 b).1 ≤ lo32 n ∧ lo32 n ≤ (derivedU32 b).2 := by
  have h1 := h.umin_le
  have h2 := h.le_umax
  have h3 := lo32_lt n
  unfold derivedU32
  split_ifs
  · unfold lo32 at *
    omega
  · omega

theorem getU32Bounds_sound (h : d.Represents ρ) (x : Reg) :
    (d.getU32Bounds x).1 ≤ lo32 (ρ x).toNat ∧ lo32 (ρ x).toNat ≤ (d.getU32Bounds x).2 := by
  cases d with
  | zone d => exact ⟨(h.has x).u32Min_le, (h.has x).le_u32Max⟩
  | interval s =>
    have hd := derivedU32_sound (h.has x)
    have h1 := (h.has x).u32Min_le
    have h2 := (h.has x).le_u32Max
    simp only [getU32Bounds]
    split_ifs
    · exact ⟨Nat.max_le.2 ⟨hd.1, h1⟩, Nat.le_min.2 ⟨hd.2, h2⟩⟩
    · exact hd

theorem derivedS32_sound {b : ScalarBounds} {n : Nat} (hn : n < 2^64) (h : b.Has n) :
    (derivedS32 b).1 ≤ toI32 n ∧ toI32 n ≤ (derivedS32 b).2 := by
  have h1 := h.smin_le
  have h2 := h.le_smax
  have h3 := toI32_range n
  unfold I32 at h3
  unfold derivedS32
  split_ifs with ha hb hc <;> dsimp only
  · unfold toI64 at h1 h2
    unfold toI32
    split_ifs at * <;> omega
  · refine ScalarBounds.toI32_between ?_ ?_ hc <;> unfold toI64 at h1 h2 <;> unfold lo32 toU64 <;>
      split_ifs at h1 h2 <;> omega
  · omega
  · omega

theorem getS32Bounds_sound (h : d.Represents ρ) (x : Reg) :
    (d.getS32Bounds x).1 ≤ toI32 (ρ x).toNat ∧ toI32 (ρ x).toNat ≤ (d.getS32Bounds x).2 := by
  cases d with
  | zone d => exact ⟨(h.has x).s32Min_le, (h.has x).le_s32Max⟩
  | interval s =>
    have hd := derivedS32_sound (ρ x).isLt (h.has x)
    have h1 := (h.has x).s32Min_le
    have h2 := (h.has x).le_s32Max
    simp only [getS32Bounds]
    split_ifs
    · exact ⟨Int.max_le.2 ⟨hd.1, h1⟩, Int.le_min.2 ⟨hd.2, h2⟩⟩
    · exact hd

end Queries
end ZoneVerifier.Numeric.NumericDomain

namespace ZoneVerifier.Machine.State
open Concrete

structure Represents (s : State) (ρ : Valuation) : Prop where
  domain : s.domain.Represents ρ
  tnum : ∀ r, (s.getTnum r).Has (ρ r)

def InRange (s : State) : Prop := s.domain.InRange

theorem Represents.zero {s : State} {ρ : Valuation} (h : s.Represents ρ) :
    signedOf ρ .zero = 0 := by
  have := (Tristate.Tnum.has_constant_iff 0 (ρ .zero)).1 (h.tnum .zero)
  rw [signedOf, this]
  rfl

/-- The links of the interval domain do not matter if no register has any. -/
theorem Represents.of_unlinked {s : State} {ρ : Valuation} {ivl : Interval.IntervalState}
    (hd : s.domain = .interval ivl) (hhas : ∀ r, (ivl.getBounds r).Has (ρ r).toNat)
    (hid : ∀ r, (ivl.getBounds r).scalarId = none) (htnum : ∀ r, (s.getTnum r).Has (ρ r)) :
    s.Represents ρ where
  domain := by
    rw [hd]
    refine ⟨hhas, fun r q i _ _ hr => ?_⟩
    rw [hid r] at hr
    cases hr
  tnum := htnum

end ZoneVerifier.Machine.State

namespace ZoneVerifier.Machine
open Concrete

def unconstrainedInterval : State := State.new (.interval Interval.IntervalState.new) 0

theorem represents_newInterval {ρ : Valuation} (hz : ρ .zero = 0) :
    unconstrainedInterval.domain.Represents ρ where
  has := by
    intro r
    cases r with
    | zero =>
      rw [hz]
      decide
    | _ => exact Bounds.ScalarBounds.has_unknown (BitVec.isLt _)
  linked := by
    intro r q i _ _ h
    cases r <;> cases h

theorem represents_unconstrainedInterval : unconstrainedInterval.Represents minusOne :=
  .of_unlinked rfl (by decide) (by decide) (by decide)

theorem inRange_unconstrainedInterval : unconstrainedInterval.InRange := by
  intro r
  cases r <;> decide

end ZoneVerifier.Machine
