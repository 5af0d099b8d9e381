import Mathlib.Algebra.Order.Group.Unbundled.Int
import Mathlib.Algebra.Order.Ring.Int
import Mathlib.Data.Int.Order.Basic
import Mathlib.Tactic.SplitIfs

/-!
# Machine words as integers

Signed 64-bit and 32-bit quantities are integers, unsigned ones are naturals,
and a cast is an explicit function. A 64-bit word is given by its unsigned
value; `toI64`, `lo32` and `toI32` are its other three readings. Saturating
and wrapping arithmetic is integer arithmetic followed by one of the clamps.
A comparison of truncated numbers decides that of the numbers exactly when
truncation moves both by the same amount.
-/

set_option autoImplicit false

namespace ZoneVerifier.Word

def toI64 (n : Nat) : Int := if n < 2^63 then n else n - 2^64

def toU64 (i : Int) : Nat := (i % 2^64).toNat

def lo32 (n : Nat) : Nat := n % 2^32

def toI32 (n : Nat) : Int :=
  if n % 2^32 < 2^31 then (n % 2^32 : Nat) else ((n % 2^32 : Nat) : Int) - 2^32

def satI64 (i : Int) : Int := max (-2^63) (min i (2^63 - 1))

def satU64 (n : Nat) : Nat := min n (2^64 - 1)

def wrapI64 (i : Int) : Int := toI64 (toU64 i)

def I64 (i : Int) : Prop := -2^63 ≤ i ∧ i < 2^63

def I32 (i : Int) : Prop := -2^31 ≤ i ∧ i < 2^31

instance (i : Int) : Decidable (I64 i) := inferInstanceAs (Decidable (_ ∧ _))

instance (i : Int) : Decidable (I32 i) := inferInstanceAs (Decidable (_ ∧ _))

theorem toI64_range {n : Nat} (h : n < 2^64) : I64 (toI64 n) := by
  unfold toI64 I64
  split_ifs <;> omega

theorem toI32_range (n : Nat) : I32 (toI32 n) := by
  unfold toI32 I32
  split_ifs <;> omega

theorem lo32_lt (n : Nat) : lo32 n < 2^32 := Nat.mod_lt _ (by decide)

theorem toU64_lt (i : Int) : toU64 i < 2^64 := by
  unfold toU64
  omega

theorem toI64_of_lt {n : Nat} (h : n < 2^63) : toI64 n = n := if_pos h

theorem toI64_toU64 {i : Int} (h : I64 i) : toI64 (toU64 i) = i := by
  unfold toI64 toU64 I64 at *
  split_ifs <;> omega

theorem toU64_toI64 {n : Nat} (h : n < 2^64) : toU64 (toI64 n) = n := by
  unfold toI64 toU64
  split_ifs <;> omega

theorem toI64_inj {m n : Nat} (hm : m < 2^64) (hn : n < 2^64) (h : toI64 m = toI64 n) :
    m = n := by
  rw [← toU64_toI64 hm, h, toU64_toI64 hn]

theorem toI64_nonneg_iff {n : Nat} (h : n < 2^64) : 0 ≤ toI64 n ↔ n < 2^63 := by
  unfold toI64
  split_ifs <;> omega

theorem satI64_range (i : Int) : I64 (satI64 i) := by
  unfold satI64 I64
  omega

theorem satI64_of_range {i : Int} (h : I64 i) : satI64 i = i := by
  unfold satI64 I64 at *
  omega

theorem toInt_eq_toI64 (v : BitVec 64) : v.toInt = toI64 v.toNat := by
  rw [BitVec.toInt_eq_toNat_cond]
  unfold toI64
  split_ifs <;> omega

section Wrap

theorem exists_toI64 (n : Nat) : ∃ q : Int, toI64 n = n + 2^64 * q := by
  unfold toI64
  split_ifs
  · exact ⟨0, by omega⟩
  · exact ⟨-1, by omega⟩

theorem exists_toU64 (x : Int) : ∃ k, (toU64 x : Int) = x + 2^64 * k := by
  refine ⟨-(x / 2^64), ?_⟩
  unfold toU64
  omega

theorem exists_wrapI64 (x : Int) : ∃ k, wrapI64 x = x + 2^64 * k := by
  unfold wrapI64 toI64 toU64
  split_ifs
  · exact ⟨-(x / 2^64), by omega⟩
  · exact ⟨-(x / 2^64) - 1, by omega⟩

theorem wrapI64_range (i : Int) : I64 (wrapI64 i) := toI64_range (toU64_lt i)

theorem wrapI64_of_range {x : Int} (h : -2^63 ≤ x) (h' : x < 2^63) : wrapI64 x = x := by
  unfold wrapI64 toI64 toU64
  split_ifs <;> omega

theorem wrapI64_cases {z : Int} (hlo : -2^64 ≤ z) (hhi : z < 2^64) :
    (z < -2^63 ∧ wrapI64 z = z + 2^64) ∨ (-2^63 ≤ z ∧ z < 2^63 ∧ wrapI64 z = z) ∨
      (2^63 ≤ z ∧ wrapI64 z = z - 2^64) := by
  unfold wrapI64 toI64 toU64
  split_ifs <;> omega

theorem wrapI64_congr {y z : Int} (h : y % 2^64 = z % 2^64) : wrapI64 y = wrapI64 z := by
  simp only [wrapI64, toU64, h]

theorem wrapI64_emod (z : Int) : wrapI64 z % 2^64 = z % 2^64 := by
  unfold wrapI64 toI64 toU64
  split_ifs <;> omega

end Wrap

end ZoneVerifier.Word

namespace ZoneVerifier.Truncation

/-- A choice of one number of each class modulo `m`, all within one turn. -/
structure Residue (m : Int) (r : Int → Int) : Prop where
  dvd : ∀ x, m ∣ x - r x
  lt : ∀ x y, r y - r x < m

/-- Truncation moves both numbers by the same amount. -/
def SameTurn (r : Int → Int) (x y : Int) : Prop := x - r x = y - r y

theorem SameTurn.le_iff {r : Int → Int} {x y : Int} (h : SameTurn r x y) :
    r x ≤ r y ↔ x ≤ y := by
  unfold SameTurn at h
  omega

theorem Residue.sameTurn {m : Int} {r : Int → Int} (h : Residue m r) {x y : Int} (hxy : x ≤ y)
    (hm : y - x < m) (hle : r x ≤ r y) : SameTurn r x y := by
  have hdvd : m ∣ (y - r y) - (x - r x) := Int.dvd_sub (h.dvd y) (h.dvd x)
  have hlt := h.lt x y
  have hzero : (y - r y) - (x - r x) = 0 := by
    apply Int.eq_zero_of_abs_lt_dvd hdvd
    rw [abs_lt]
    omega
  unfold SameTurn
  omega

theorem residue_emod {m : Int} (hm : 0 < m) : Residue m (· % m) where
  dvd x := Int.dvd_self_sub_emod
  lt x y := by
    have hy := Int.emod_lt_of_pos y hm
    have hx := Int.emod_nonneg x hm.ne'
    omega

theorem residue_bmod {m : Nat} (hm : 0 < m) : Residue m (fun x => x.bmod m) where
  dvd x := Int.dvd_self_sub_bmod
  lt x y := by
    have hy := Int.bmod_lt (x := y) hm
    have hx := Int.le_bmod (x := x) hm
    omega

end ZoneVerifier.Truncation
