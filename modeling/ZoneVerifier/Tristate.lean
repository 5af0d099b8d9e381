import Mathlib.Data.Nat.Bitwise
import ZoneVerifier.Word

/-!
# Tristate numbers

A `Tnum` fixes the bits outside its mask to those of its value
(`domains/tnum.rs`). `Has` is its set of words; the operations used by the
branch, stack and memory transfer functions are characterised on it.
-/

set_option autoImplicit false

namespace ZoneVerifier.Tristate
open BitVec (getElem_and getElem_or getElem_not getLsbD_and)

structure Tnum where
  value : BitVec 64
  mask : BitVec 64
  deriving DecidableEq, Repr

namespace Tnum
variable {x y : BitVec 64} {k : Nat} {t : Tnum}

def Has (t : Tnum) (x : BitVec 64) : Prop := x &&& ~~~t.mask = t.value

instance (t : Tnum) (x : BitVec 64) : Decidable (t.Has x) :=
  inferInstanceAs (Decidable (_ = _))

def unknown : Tnum := ⟨0, -1⟩

def isUnknown (t : Tnum) : Bool := t.mask == -1

def constant (c : BitVec 64) : Tnum := ⟨c, 0⟩

def isConst (t : Tnum) : Bool := t.mask == 0

def constValue (t : Tnum) : Option (BitVec 64) := if t.isConst then some t.value else none

def minValue (t : Tnum) : BitVec 64 := t.value

def maxValue (t : Tnum) : BitVec 64 := t.value ||| t.mask

def trunc32 (t : Tnum) : Tnum := ⟨t.value &&& 0xFFFFFFFF, t.mask &&& 0xFFFFFFFF⟩

def widen (t newer : Tnum) : Tnum :=
  let mask := t.mask ||| newer.mask ||| (t.value ^^^ newer.value)
  ⟨t.value &&& newer.value &&& ~~~mask, mask⟩

/-- `64 - chi.leading_zeros()` is the bit length of `chi`. -/
def bitLength (chi : BitVec 64) : Nat := if chi = 0 then 0 else chi.toNat.log2 + 1

def fromRange (min max : BitVec 64) : Tnum :=
  if max < min then unknown
  else
    let chi := min ^^^ max
    if chi = 0 then constant min
    else
      let bits := bitLength chi
      let delta := if 64 ≤ bits then -1 else 1#64 <<< bits - 1
      ⟨min &&& ~~~delta, delta⟩

def intersect (t u : Tnum) : Option Tnum :=
  if (t.value ^^^ u.value) &&& (~~~t.mask &&& ~~~u.mask) = 0 then
    some ⟨t.value &&& ~~~t.mask ||| u.value &&& ~~~u.mask, t.mask &&& u.mask⟩
  else none

theorem has_unknown (x : BitVec 64) : unknown.Has x := by
  simp [Has, unknown]

theorem has_constant_iff (c x : BitVec 64) : (constant c).Has x ↔ x = c := by
  have h : x &&& ~~~(0 : BitVec 64) = x := BitVec.and_allOnes
  rw [Has, constant, h]

theorem eq_value_of_isConst (hc : t.isConst = true) (h : t.Has x) : x = t.value := by
  have hm : t.mask = 0 := by simpa [isConst] using hc
  have hx : x &&& ~~~(0 : BitVec 64) = x := BitVec.and_allOnes
  rwa [Has, hm, hx] at h

theorem minValue_le (h : t.Has x) : t.minValue.toNat ≤ x.toNat := by
  unfold minValue
  rw [← h, BitVec.toNat_and]
  exact Nat.and_le_left

theorem and_maxValue (h : t.Has x) : x &&& t.maxValue = x := by
  rw [maxValue, ← h]
  ext i hi
  simp only [getElem_and, getElem_or, getElem_not]
  cases x[i] <;> cases t.mask[i] <;> rfl

theorem le_maxValue (h : t.Has x) : x.toNat ≤ t.maxValue.toNat := by
  calc x.toNat = (x &&& t.maxValue).toNat := by rw [and_maxValue h]
    _ ≤ t.maxValue.toNat := by rw [BitVec.toNat_and]; exact Nat.and_le_right

theorem value_and_eq_zero (h : t.Has x) (h0 : x &&& y = 0) : t.value &&& y = 0 := by
  rw [← h, BitVec.and_assoc, BitVec.and_comm (~~~t.mask), ← BitVec.and_assoc, h0]
  exact BitVec.zero_and

theorem and_eq_zero_of_maxValue (h : t.Has x) (h0 : t.maxValue &&& y = 0) : x &&& y = 0 := by
  rw [← and_maxValue h, BitVec.and_assoc, h0]
  exact BitVec.and_zero

theorem has_intersect {u : Tnum} (ht : t.Has x) (hu : u.Has x) :
    ∃ s, t.intersect u = some s ∧ s.Has x := by
  have hc : (t.value ^^^ u.value) &&& (~~~t.mask &&& ~~~u.mask) = 0 := by
    rw [← ht, ← hu]
    ext i hi
    simp only [getElem_and, BitVec.getElem_xor, getElem_not]
    cases x[i] <;> cases t.mask[i] <;> cases u.mask[i] <;> simp
  refine ⟨_, if_pos hc, ?_⟩
  rw [← ht, ← hu]
  ext i hi
  simp only [getElem_and, getElem_or, getElem_not]
  cases x[i] <;> cases t.mask[i] <;> cases u.mask[i] <;> rfl

theorem toNat_lowMask (hk : k < 64) : (1#64 <<< k - 1).toNat = 2^k - 1 := by
  have h1 : 1 ≤ 2^k := Nat.one_le_two_pow
  have h2 : 2^k < 2^64 := Nat.pow_lt_pow_right (by decide) hk
  have h3 : (1#64 <<< k).toNat = 2^k := by
    rw [BitVec.toNat_shiftLeft, Nat.shiftLeft_eq, BitVec.toNat_ofNat]
    exact (Nat.mod_eq_of_lt (by omega)).trans (Nat.one_mul _)
  rw [BitVec.toNat_sub_of_le (by rw [BitVec.le_def, h3]; exact h1), h3]
  rfl

theorem getLsbD_lowMask {i : Nat} (hk : k < 64) : (1#64 <<< k - 1).getLsbD i = decide (i < k) := by
  rw [BitVec.getLsbD, toNat_lowMask hk, Nat.testBit_two_pow_sub_one]

theorem getLsbD_eq_of_div_eq {i : Nat} (h : x.toNat / 2^k = y.toNat / 2^k) (hi : k ≤ i) :
    x.getLsbD i = y.getLsbD i := by
  obtain ⟨j, rfl⟩ := Nat.exists_eq_add_of_le hi
  rw [BitVec.getLsbD, BitVec.getLsbD, Nat.add_comm k j, ← Nat.testBit_div_two_pow,
    ← Nat.testBit_div_two_pow, h]

theorem and_not_lowMask_congr (hk : k < 64) (h : x.toNat / 2^k = y.toNat / 2^k) :
    x &&& ~~~(1#64 <<< k - 1) = y &&& ~~~(1#64 <<< k - 1) := by
  apply BitVec.eq_of_getLsbD_eq
  intro i hi
  rw [getLsbD_and, getLsbD_and, BitVec.getLsbD_not, getLsbD_lowMask hk]
  by_cases hik : i < k
  · simp [hik]
  · rw [getLsbD_eq_of_div_eq h (Nat.not_lt.1 hik)]

theorem xor_lt_bitLength : x.toNat < 2^bitLength x := by
  unfold bitLength
  split_ifs with h
  · simp [h]
  · have hx : x.toNat ≠ 0 := fun h0 => h (BitVec.eq_of_toNat_eq h0)
    exact (Nat.log2_lt hx).1 (Nat.lt_succ_self _)

theorem div_eq_of_xor_lt {a b : Nat} (h : a ^^^ b < 2^k) : a / 2^k = b / 2^k := by
  have h0 : (a ^^^ b) / 2^k = 0 := Nat.div_eq_of_lt h
  rw [← Nat.shiftRight_eq_div_pow, Nat.shiftRight_xor_distrib, Nat.xor_eq_zero_iff] at h0
  rwa [← Nat.shiftRight_eq_div_pow, ← Nat.shiftRight_eq_div_pow]

theorem has_fromRange {lo hi : BitVec 64} (h1 : lo.toNat ≤ x.toNat) (h2 : x.toNat ≤ hi.toNat) :
    (fromRange lo hi).Has x := by
  unfold fromRange
  rw [if_neg (by rw [BitVec.lt_def]; omega)]
  dsimp only
  split
  case isTrue h0 =>
    have he : lo = hi := BitVec.xor_eq_zero_iff.1 h0
    rw [has_constant_iff]
    apply BitVec.eq_of_toNat_eq
    rw [← he] at h2
    omega
  case isFalse h0 =>
    split
    case isTrue hb => simp [Has]
    case isFalse hb =>
      have hk := Nat.not_le.1 hb
      have hx : lo.toNat ^^^ hi.toNat < 2^bitLength (lo ^^^ hi) := by
        rw [← BitVec.toNat_xor]
        exact xor_lt_bitLength
      have hd := div_eq_of_xor_lt hx
      have hl := Nat.div_le_div_right (c := 2^bitLength (lo ^^^ hi)) h1
      have hu := Nat.div_le_div_right (c := 2^bitLength (lo ^^^ hi)) h2
      exact and_not_lowMask_congr hk (by omega)

theorem has_trunc32 (h : t.Has x) : t.trunc32.Has (x &&& 0xFFFFFFFF) := by
  unfold trunc32
  rw [← h]
  ext i hi
  simp only [getElem_and, getElem_not]
  cases x[i] <;> cases t.mask[i] <;> cases (0xFFFFFFFF : BitVec 64)[i] <;> rfl

theorem has_recombine {u : Tnum} (ht : t.Has x) (hu : u.Has (x &&& 0xFFFFFFFF)) :
    Has ⟨t.value &&& 0xFFFFFFFF00000000 ||| u.value &&& 0xFFFFFFFF,
      t.mask &&& 0xFFFFFFFF00000000 ||| u.mask &&& 0xFFFFFFFF⟩ x := by
  have hhigh : (0xFFFFFFFF00000000 : BitVec 64) = ~~~0xFFFFFFFF := by decide
  rw [hhigh, ← ht, ← hu]
  ext i hi
  simp only [getElem_and, getElem_or, getElem_not]
  cases x[i] <;> cases t.mask[i] <;> cases u.mask[i] <;> cases (0xFFFFFFFF : BitVec 64)[i] <;> rfl

theorem has_clear {m : BitVec 64} (ht : t.Has x) (h0 : x &&& m = 0) :
    Has ⟨t.value &&& ~~~m, t.mask &&& ~~~m⟩ x := by
  rw [← ht]
  have hbit : ∀ i (hi : i < 64), (x[i] && m[i]) = false := by
    intro i hi
    rw [← getElem_and, h0]
    exact BitVec.getElem_zero hi
  ext i hi
  simp only [getElem_and, getElem_not]
  cases hx : x[i] <;> cases hm : m[i] <;> cases t.mask[i] <;> simp_all

theorem has_set {m : BitVec 64} (ht : t.Has x) (h1 : x &&& m = m) :
    Has ⟨t.value ||| m, t.mask &&& ~~~m⟩ x := by
  rw [← ht]
  have hbit : ∀ i (hi : i < 64), (x[i] && m[i]) = m[i] := by
    intro i hi
    rw [← getElem_and]
    simp only [h1]
  ext i hi
  simp only [getElem_and, getElem_or, getElem_not]
  cases hx : x[i] <;> cases hm : m[i] <;> cases t.mask[i] <;> simp_all

end Tnum
end ZoneVerifier.Tristate
