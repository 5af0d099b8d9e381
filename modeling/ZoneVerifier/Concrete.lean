import ZoneVerifier.Ast
import ZoneVerifier.Word

/-!
# Concrete values and comparisons

A valuation assigns a machine word to every register; the phantom register
`Zero` holds zero and the anchors hold the packet addresses. A conditional
jump compares the low 32 or all 64 bits, as unsigned or as signed numbers.
-/

set_option autoImplicit false

namespace ZoneVerifier.Concrete
open Word Ast
variable {v a b : BitVec 64} {w : Width}

abbrev Valuation := Reg → BitVec 64

def signed (v : BitVec 64) : Int := toI64 v.toNat

def signedOf (ρ : Valuation) (r : Reg) : Int := signed (ρ r)

def operandValue (ρ : Valuation) : Operand → BitVec 64
  | .reg r => ρ r
  | .imm i => BitVec.ofInt 64 i

def minusOne : Valuation := fun r => if r = .r1 then -1 else 0

def readU : Width → BitVec 64 → Nat
  | .w64, v => v.toNat
  | .w32, v => lo32 v.toNat

def readS : Width → BitVec 64 → Int
  | .w64, v => toI64 v.toNat
  | .w32, v => toI32 v.toNat

def CmpHolds (w : Width) (op : CmpOp) (a b : BitVec 64) : Prop :=
  match op with
  | .uge => readU w b ≤ readU w a
  | .ule => readU w a ≤ readU w b
  | .ugt => readU w b < readU w a
  | .ult => readU w a < readU w b
  | .eq => readU w a = readU w b
  | .ne => readU w a ≠ readU w b
  | .slt => readS w a < readS w b
  | .sgt => readS w b < readS w a
  | .sle => readS w a ≤ readS w b
  | .sge => readS w b ≤ readS w a
  | .test => readU w (a &&& b) ≠ 0

instance (w : Width) (op : CmpOp) (a b : BitVec 64) : Decidable (CmpHolds w op a b) := by
  unfold CmpHolds
  cases op <;> exact inferInstance

theorem signed_range (v : BitVec 64) : I64 (signed v) := toI64_range v.isLt

theorem toNat_ofInt (i : Int) : (BitVec.ofInt 64 i).toNat = toU64 i := by
  rw [BitVec.toNat_ofInt]
  rfl

theorem signed_ofInt {i : Int} (h : I64 i) : signed (BitVec.ofInt 64 i) = i := by
  rw [signed, toNat_ofInt, toI64_toU64 h]

theorem eq_of_signed_eq {w : BitVec 64} (h : signed v = signed w) : v = w :=
  BitVec.eq_of_toNat_eq (toI64_inj v.isLt w.isLt h)

theorem ofInt_signed (v : BitVec 64) : BitVec.ofInt 64 (signed v) = v :=
  eq_of_signed_eq (signed_ofInt (signed_range v))

theorem toNat_of_signed_nonneg (h : 0 ≤ signed v) : (v.toNat : Int) = signed v :=
  (toI64_of_lt ((toI64_nonneg_iff v.isLt).1 h)).symm

theorem toNat_of_signed_neg (h : signed v < 0) : (v.toNat : Int) = signed v + 2^64 := by
  unfold signed toI64 at *
  split_ifs at * <;> omega

theorem lo32_of_signed (h0 : 0 ≤ signed v) (h1 : signed v < 2^32) :
    (lo32 v.toNat : Int) = signed v := by
  have := toNat_of_signed_nonneg h0
  unfold lo32
  omega

theorem toI32_of_signed (h : I32 (signed v)) : toI32 v.toNat = signed v := by
  unfold I32 at h
  unfold signed toI64 at *
  unfold toI32
  split_ifs at * <;> omega

/-- The bits a comparison of the given width looks at. -/
def widthBits : Width → BitVec 64 → BitVec 64
  | .w64, v => v
  | .w32, v => v &&& 0xFFFFFFFF

theorem toNat_and_low (v : BitVec 64) : (v &&& 0xFFFFFFFF).toNat = lo32 v.toNat := by
  rw [BitVec.toNat_and]
  exact Nat.and_two_pow_sub_one_eq_mod v.toNat 32

section
variable (w : Width) (v : BitVec 64)

theorem toNat_widthBits : (widthBits w v).toNat = readU w v := by
  cases w with
  | w64 => rfl
  | w32 => exact toNat_and_low v

theorem readS_widthBits : readS w (widthBits w v) = readS w v := by
  cases w with
  | w64 => rfl
  | w32 =>
    simp only [readS, widthBits]
    rw [toNat_and_low]
    unfold toI32 lo32
    rw [Nat.mod_mod]

theorem readU_widthBits : readU w (widthBits w v) = readU w v := by
  cases w with
  | w64 => rfl
  | w32 =>
    simp only [readU, widthBits]
    rw [toNat_and_low]
    exact Nat.mod_mod _ _

theorem widthBits_idem :
    widthBits w (widthBits w v) = widthBits w v := by
  apply BitVec.eq_of_toNat_eq
  rw [toNat_widthBits, readU_widthBits, toNat_widthBits]

end

theorem widthBits_and (w : Width) (a b : BitVec 64) :
    widthBits w (a &&& b) = widthBits w a &&& widthBits w b := by
  cases w with
  | w64 => rfl
  | w32 =>
    simp only [widthBits]
    ext i hi
    simp only [BitVec.getElem_and]
    cases a[i] <;> cases b[i] <;> cases (0xFFFFFFFF : BitVec 64)[i] <;> rfl

theorem readU_congr (h : widthBits w a = widthBits w b) : readU w a = readU w b := by
  rw [← toNat_widthBits, ← toNat_widthBits, h]

theorem readS_congr (h : widthBits w a = widthBits w b) : readS w a = readS w b := by
  rw [← readS_widthBits, h, readS_widthBits]

theorem cmpHolds_congr {a' b' : BitVec 64} (ha : widthBits w a = widthBits w a')
    (hb : widthBits w b = widthBits w b') (op : CmpOp) :
    CmpHolds w op a b ↔ CmpHolds w op a' b' := by
  have hab : readU w (a &&& b) = readU w (a' &&& b') :=
    readU_congr (by rw [widthBits_and, widthBits_and, ha, hb])
  unfold CmpHolds
  rw [readU_congr ha, readU_congr hb, readS_congr ha, readS_congr hb, hab]

end ZoneVerifier.Concrete
