import Mathlib.Tactic.Ring
import Mathlib.Tactic.SplitIfs

/-!
# Byte memory

A memory is a function from integer addresses to bytes. Multi-byte accesses
are little-endian: the byte at the lowest address is the least significant.
-/

set_option autoImplicit false

namespace ZoneVerifier.ByteMemory

abbrev Memory := Int → BitVec 8

def readLe (m : Memory) (o : Int) : Nat → Nat
  | 0 => 0
  | n + 1 => (m o).toNat + 256 * readLe m (o + 1) n

def writeLe (m : Memory) (o : Int) (n : Nat) (v : Nat) : Memory := fun q =>
  if o ≤ q ∧ q < o + n then BitVec.ofNat 8 (v / 256^(q - o).toNat) else m q

variable {m m' : Memory} {o q : Int} {n k v : Nat}

theorem writeLe_of_notMem (h : ¬ (o ≤ q ∧ q < o + n)) : writeLe m o n v q = m q := if_neg h

theorem readLe_lt (m : Memory) (o : Int) (n : Nat) : readLe m o n < 256^n := by
  induction n generalizing o with
  | zero => exact Nat.one_pos
  | succ n ih =>
    have hr := ih (o + 1)
    rw [readLe, Nat.pow_succ]
    omega

theorem readLe_congr (h : ∀ q, o ≤ q → q < o + n → m q = m' q) : readLe m o n = readLe m' o n := by
  induction n generalizing o with
  | zero => rfl
  | succ n ih =>
    rw [readLe, readLe, h o (by omega) (by omega), ih fun q h1 h2 => h q (by omega) (by omega)]

section
variable (m : Memory) (o : Int)

theorem readLe_drop (k n : Nat) :
    readLe m o (k + n) / 256^k = readLe m (o + k) n := by
  induction k generalizing o with
  | zero => simp
  | succ k ih =>
    rw [show k + 1 + n = (k + n) + 1 by omega, readLe, Nat.pow_succ', ← Nat.div_div_eq_div_mul]
    have hdiv : ((m o).toNat + 256 * readLe m (o + 1) (k + n)) / 256 = readLe m (o + 1) (k + n) := by
      omega
    rw [hdiv, ih]
    congr 1
    omega

theorem readLe_take (k n : Nat) :
    readLe m o (k + n) % 256^k = readLe m o k := by
  induction k generalizing o with
  | zero => simp [readLe, Nat.mod_one]
  | succ k ih =>
    rw [show k + 1 + n = (k + n) + 1 by omega, readLe, readLe, Nat.pow_succ', Nat.mod_mul]
    have h1 : ((m o).toNat + 256 * readLe m (o + 1) (k + n)) % 256 = (m o).toNat := by omega
    have h2 : ((m o).toNat + 256 * readLe m (o + 1) (k + n)) / 256 = readLe m (o + 1) (k + n) := by
      omega
    rw [h1, h2, ih]

theorem readLe_slice {k j n : Nat} (h : k + j ≤ n) :
    readLe m (o + k) j = readLe m o n / 256^k % 256^j := by
  obtain ⟨r, rfl⟩ := Nat.exists_eq_add_of_le h
  rw [Nat.add_assoc, readLe_drop, readLe_take]

theorem readLe_writeLe_self (n v : Nat) :
    readLe (writeLe m o n v) o n = v % 256^n := by
  have hgen : ∀ j i, i + j = n →
      readLe (writeLe m o n v) (o + i) j = v / 256^i % 256^j := by
    intro j
    induction j with
    | zero => intro i _; simp [readLe, Nat.mod_one]
    | succ j ih =>
      intro i hi
      have hcell : writeLe m o n v (o + i) = BitVec.ofNat 8 (v / 256^i) := by
        unfold writeLe
        rw [if_pos (by omega), show (o + (i : Int) - o).toNat = i by omega]
      have hnext := ih (i + 1) (by omega)
      have hpow : (256 : Nat)^(i + 1) = 256^i * 256 := Nat.pow_succ 256 i
      rw [hpow, ← Nat.div_div_eq_div_mul] at hnext
      rw [readLe, hcell, BitVec.toNat_ofNat, show o + (i : Int) + 1 = o + ((i + 1 : Nat) : Int) by
        push_cast; ring, hnext, Nat.pow_succ' (n := j), Nat.mod_mul]
  have := hgen n 0 (by omega)
  simpa using this

end

theorem readLe_eq_zero_iff : readLe m o n = 0 ↔ ∀ q, o ≤ q → q < o + n → m q = 0 := by
  induction n generalizing o with
  | zero =>
    refine ⟨fun _ q h1 h2 => absurd h2 (by push_cast; omega), fun _ => rfl⟩
  | succ n ih =>
    have hz : (m o).toNat = 0 ↔ m o = 0 := ⟨fun h => BitVec.eq_of_toNat_eq h, fun h => by rw [h]; rfl⟩
    rw [readLe, Nat.add_eq_zero_iff, hz, Nat.mul_eq_zero, or_iff_right (by decide), ih]
    constructor
    · rintro ⟨h0, hr⟩ q h1 h2
      by_cases hq : q = o
      · rw [hq, h0]
      · exact hr q (by omega) (by push_cast at h2; omega)
    · intro h
      exact ⟨h o (by omega) (by push_cast; omega), fun q h1 h2 => h q (by omega) (by push_cast; omega)⟩

end ZoneVerifier.ByteMemory
