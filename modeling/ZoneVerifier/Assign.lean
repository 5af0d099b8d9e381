import ZoneVerifier.BranchKeep

/-!
# Overwriting a register

Forgetting a register lets it hold any word. Assigning an interval is sound
in the zone domain; the interval domain first caps the unsigned maximum by the
signed one, so a range that crosses zero can lose negative words through the
32-bit views. `IntervalKept` says which words stay.
-/

set_option autoImplicit false

namespace ZoneVerifier.Zone
open Ast Bounds Concrete

variable {d : Dbm} {ρ : Valuation} {x : Reg} {v : BitVec 64}

theorem Tracks.forgetVar (h : Tracks d ρ) (hx : x ≠ .zero) :
    Tracks (d.forgetVar x) (Function.update ρ x v) := by
  refine ⟨fun i j hij => ?_, fun r => ?_, ?_⟩
  · simp only [Dbm.forgetVar] at hij ⊢
    by_cases hx' : i = x ∨ j = x
    · rw [if_pos hx'] at hij ⊢
      by_cases he : i = j
      · rw [if_pos he, he]
        omega
      · rw [if_neg he] at hij
        exact absurd hij (Int.lt_irrefl _)
    · rw [if_neg hx'] at hij ⊢
      rw [not_or] at hx'
      simp only [signedOf, Function.update_of_ne hx'.1, Function.update_of_ne hx'.2]
      exact h.sat i j hij
  · simp only [Dbm.forgetVar]
    by_cases hr : r = x
    · rw [if_pos hr]
      exact Fits.of_inRange (by decide) (ScalarBounds.has_unknown (Function.update ρ x v r).isLt)
    · rw [if_neg hr, Function.update_of_ne hr]
      exact h.fits r
  · rw [signedOf, Function.update_of_ne hx.symm]
    exact h.zero

theorem Tracks.assignInterval (h : Tracks d ρ) (hx : x ≠ .zero) {lo hi : Int}
    (h1 : lo ≤ signed v) (h2 : signed v ≤ hi) :
    Tracks (assignInterval d x lo hi) (Function.update ρ x v) := by
  have hv : signedOf (Function.update ρ x v) x = signed v := by
    rw [signedOf, Function.update_self]
  have hf := h.forgetVar (v := v) hx
  have hge := hf.assumeGeImm (geKept_of_le (hv ▸ h1))
  exact (hge.assumeLeImm (leKept_of_le (hv ▸ h2))).close

end ZoneVerifier.Zone

namespace ZoneVerifier.Interval
open Word Ast Bounds Concrete

variable {s : IntervalState} {ρ : Valuation} {x : Reg} {v : BitVec 64}

/-- The words an assigned interval describes: a negative word in a range that
crosses zero must agree with the 32-bit view deduced from the upper end. -/
def IntervalKept (lo hi : Int) (v : BitVec 64) : Prop :=
  0 ≤ lo ∨ hi < 0 ∨ 0 ≤ signed v ∨ 2^32 ≤ hi ∨ (lo32 v.toNat : Int) ≤ hi

instance (lo hi : Int) (v : BitVec 64) : Decidable (IntervalKept lo hi v) :=
  inferInstanceAs (Decidable (_ ∨ _ ∨ _ ∨ _ ∨ _))

theorem has_intervalBounds {lo hi : Int} (hlo : I64 lo) (hhi : I64 hi) (h1 : lo ≤ signed v)
    (h2 : signed v ≤ hi) (hk : IntervalKept lo hi v) : (intervalBounds lo hi).Has v.toNat := by
  have hv := v.isLt
  have hlow := lo32_lt v.toNat
  have h32 := toI32_range v.toNat
  have hpos : 0 ≤ signed v → (v.toNat : Int) = signed v := toNat_of_signed_nonneg
  have hsv : signed v = toI64 v.toNat := rfl
  unfold I64 at hlo hhi
  unfold I32 at h32
  unfold IntervalKept at hk
  unfold intervalBounds ScalarBounds.forget32ThenSync
  rw [ScalarBounds.has_syncBounds_iff ?_ hv]
  · refine ⟨⟨?_, ?_, ?_, ?_, ?_, ?_, ?_, ?_⟩, ?_⟩ <;>
      simp only [ScalarBounds.raise, ScalarBounds.unknown, ScalarBounds.Recovered]
    · omega
    · omega
    · unfold toU64
      split_ifs <;> omega
    · exact Nat.le_refl _
    · omega
    · omega
    · omega
    · omega
    · by_cases h0 : 0 ≤ hi
      · rw [if_pos h0]
        by_cases hs : 0 ≤ signed v
        · left
          unfold toU64
          omega
        · right
          have hl : ¬ 0 ≤ lo := by omega
          rw [if_neg hl]
          refine ⟨by omega, by omega, by unfold toU64; omega, fun he => ⟨?_, ?_⟩⟩
          · exact Nat.zero_le _
          · unfold toU64 lo32 at *
            omega
      · rw [if_neg h0]
        left
        omega
  · have hlo' := toU64_lt lo
    have hhi' := toU64_lt hi
    have humin : (if 0 ≤ lo then toU64 lo else 0) < 2^64 := by split_ifs <;> omega
    have humax : (if 0 ≤ hi then toU64 hi else 2^64 - 1) < 2^64 := by split_ifs <;> omega
    have hun : ScalarBounds.unknown.InRange := by decide
    exact ⟨hlo, hhi, humin, humax, hun.s32Min, hun.s32Max, hun.u32Min, hun.u32Max⟩

theorem getBounds_update (s : IntervalState) (x r : Reg) (b : RegInterval) :
    (s.update x b).getBounds r = if r = x then b.bounds else s.getBounds r := by
  unfold IntervalState.update IntervalState.getBounds
  dsimp only
  split_ifs <;> rfl

theorem Represents.update (h : Represents s ρ) {b : RegInterval} (hb : b.bounds.Has v.toNat)
    (hid : b.bounds.scalarId = none) :
    Represents (s.update x b) (Function.update ρ x v) := by
  refine ⟨fun r => ?_, fun r q i hr hq h1 h2 => ?_⟩
  · rw [getBounds_update]
    by_cases hr : r = x
    · rw [if_pos hr, hr, Function.update_self]
      exact hb
    · rw [if_neg hr, Function.update_of_ne hr]
      exact h.has r
  · rw [getBounds_update] at h1 h2
    have hne : ∀ {r : Reg}, (if r = x then b.bounds else s.getBounds r).scalarId = some i →
        r ≠ x := by
      intro r h hr
      rw [if_pos hr, hid] at h
      cases h
    have hrx := hne h1
    have hqx := hne h2
    rw [if_neg hrx] at h1
    rw [if_neg hqx] at h2
    rw [Function.update_of_ne hrx, Function.update_of_ne hqx]
    exact h.linked r q i hr hq h1 h2

theorem Represents.forget (h : Represents s ρ) (hx : x.isProgram = true) :
    Represents (s.forget x) (Function.update ρ x v) := by
  have hx' : x ≠ .zero ∧ ¬ x.isAnchor = true := not_or.1 (Reg.isProgram_iff.1 hx)
  unfold IntervalState.forget
  rw [if_pos hx']
  exact h.update (ScalarBounds.has_unknown v.isLt) rfl

theorem getBounds_forget (s : IntervalState) (hx : x.isProgram = true) (r : Reg) :
    (s.forget x).getBounds r = if r = x then ScalarBounds.unknown else s.getBounds r := by
  have hx' : x ≠ .zero ∧ ¬ x.isAnchor = true := not_or.1 (Reg.isProgram_iff.1 hx)
  unfold IntervalState.forget
  rw [if_pos hx', getBounds_update]
  rfl

theorem Represents.assignInterval (h : Represents s ρ) (hx : x.isProgram = true) {lo hi : Int}
    (hlo : I64 lo) (hhi : I64 hi) (h1 : lo ≤ signed v) (h2 : signed v ≤ hi)
    (hk : IntervalKept lo hi v) :
    Represents (assignInterval s x lo hi) (Function.update ρ x v) := by
  have hx' : x ≠ .zero ∧ ¬ x.isAnchor = true := not_or.1 (Reg.isProgram_iff.1 hx)
  unfold Interval.assignInterval IntervalState.set
  rw [if_pos hx', if_pos hx'.1]
  exact h.update (has_intervalBounds hlo hhi h1 h2 hk) (ScalarBounds.scalarId_syncBounds _)

end ZoneVerifier.Interval

namespace ZoneVerifier.Numeric.NumericDomain
open Word Ast Bounds Concrete
open Constraints (Ready)

variable {d : NumericDomain} {ρ : Valuation} {x : Reg} {v : BitVec 64}

theorem ready_update {s : Interval.IntervalState} (h : Ready (interval s) ρ)
    (hx : x.isProgram = true) {b : Interval.RegInterval} (hb : b.bounds.Has v.toNat)
    (hr : b.bounds.InRange) (hid : b.bounds.scalarId = none) :
    Ready (interval (s.update x b)) (Function.update ρ x v) := by
  refine ⟨Interval.Represents.update h.rep hb hid, fun r => ?_, ?_⟩
  · rw [Interval.getBounds_update]
    split_ifs
    · exact hr
    · exact h.range r
  · rw [signedOf, Function.update_of_ne (Ne.symm (not_or.1 (Reg.isProgram_iff.1 hx)).1)]
    exact h.zero

def intervalKept (d : NumericDomain) (lo hi : Int) (v : BitVec 64) : Prop :=
  d.isInterval = true → Interval.IntervalKept lo hi v

theorem represents_forget (h : Ready d ρ) (hx : x.isProgram = true) :
    (d.forget x).Represents (Function.update ρ x v) := by
  cases d with
  | zone d =>
    have hx' := not_or.1 (Reg.isProgram_iff.1 hx)
    exact (h.tracks.forgetVar hx'.1).close.represents
  | interval s => exact Interval.Represents.forget h.rep hx

theorem inRange_forget (h : d.InRange) (x : Reg) : (d.forget x).InRange := by
  cases d with
  | zone d =>
    intro r
    show (if r = x then ScalarBounds.unknown else d.bounds r).InRange
    split_ifs
    · decide
    · exact h r
  | interval s =>
    intro r
    show ((s.forget x).getBounds r).InRange
    unfold Interval.IntervalState.forget
    split_ifs
    · rw [Interval.getBounds_update]
      split_ifs
      · decide
      · exact h r
    · exact h r

theorem ready_forget (h : Ready d ρ) (hx : x.isProgram = true) :
    Ready (d.forget x) (Function.update ρ x v) := by
  refine ⟨represents_forget h hx, inRange_forget h.range x, ?_⟩
  have hx' := not_or.1 (Reg.isProgram_iff.1 hx)
  rw [signedOf, Function.update_of_ne (Ne.symm hx'.1)]
  exact h.zero

theorem represents_assignInterval (h : Ready d ρ) (hx : x.isProgram = true) {lo hi : Int}
    (hlo : I64 lo) (hhi : I64 hi) (h1 : lo ≤ signed v) (h2 : signed v ≤ hi)
    (hk : d.intervalKept lo hi v) :
    (d.assignInterval x lo hi).Represents (Function.update ρ x v) := by
  cases d with
  | zone d =>
    have hx' := not_or.1 (Reg.isProgram_iff.1 hx)
    exact (h.tracks.assignInterval hx'.1 h1 h2).represents
  | interval s => exact Interval.Represents.assignInterval h.rep hx hlo hhi h1 h2 (hk rfl)

end ZoneVerifier.Numeric.NumericDomain
