import ZoneVerifier.Ast
import ZoneVerifier.CarryChain
import ZoneVerifier.Tristate

/-!
# Arithmetic on tristate numbers

The operators of `domains/tnum.rs` and the tristate part of the 32- and 64-bit
ALU handlers (`analysis/transfer/alu`). A bitwise operator is sound bit by bit.
Addition is sound because a carry that is not certain shows up in the sum of the
extremes. Subtraction takes the bits that a borrow can disturb from the wrong
pair of words, and is sound exactly where these happen to cover the right ones.
-/

set_option autoImplicit false

namespace ZoneVerifier.Tristate.Tnum
open Ast CarryChain
open BitVec (getElem_and getElem_zero getElem_not getLsbD_eq_getElem getElem_or getLsbD_or
  getElem_xor getLsbD_xor getLsbD_of_ge eq_of_getLsbD_eq getLsbD_and getLsbD_not)

def WellFormed (t : Tnum) : Prop := t.value &&& t.mask = 0

instance (t : Tnum) : Decidable t.WellFormed := inferInstanceAs (Decidable (_ = _))

section Operators

def and (t u : Tnum) : Tnum :=
  let value := t.value &&& u.value
  let alpha := t.value ||| t.mask
  let beta := u.value ||| u.mask
  ⟨value, alpha &&& beta &&& ~~~value⟩

def or (t u : Tnum) : Tnum :=
  let value := t.value ||| u.value
  let selfKnown0 := ~~~(t.value ||| t.mask)
  let otherKnown0 := ~~~(u.value ||| u.mask)
  ⟨value, ~~~value &&& ~~~(selfKnown0 &&& otherKnown0)⟩

def xor (t u : Tnum) : Tnum :=
  let value := t.value ^^^ u.value
  let mask := t.mask ||| u.mask
  ⟨value &&& ~~~mask, mask⟩

def add (t u : Tnum) : Tnum :=
  let sm := t.mask + u.mask
  let sv := t.value + u.value
  let sigma := sm + sv
  let chi := sigma ^^^ sv
  let mu := chi ||| t.mask ||| u.mask
  ⟨sv &&& ~~~mu, mu⟩

def sub (t u : Tnum) : Tnum :=
  let sm := t.mask - u.mask
  let sv := t.value - u.value
  let sigma := sm - sv
  let chi := sigma ^^^ sv
  let mu := chi ||| t.mask ||| u.mask
  ⟨sv &&& ~~~mu, mu⟩

/-- The shift is less than 64; a larger one is a panic. -/
def shlImm (t : Tnum) (shift : Nat) : Tnum := ⟨t.value <<< shift, t.mask <<< shift⟩

def shrImm (t : Tnum) (shift : Nat) : Tnum := ⟨t.value >>> shift, t.mask >>> shift⟩

def arshImm (t : Tnum) (shift : Nat) : Tnum :=
  if shift = 0 then t
  else if 64 ≤ shift then
    if t.mask &&& 0x8000000000000000 ≠ 0 then unknown
    else if t.value &&& 0x8000000000000000 ≠ 0 then constant (-1)
    else constant 0
  else
    let signBit := (t.value >>> 63) &&& 1
    let signUnknown := (t.mask >>> 63) &&& 1
    let shiftedValue := (t.value >>> shift) |||
      (if signBit ≠ 0 then (-1 : BitVec 64) <<< (64 - shift) else 0)
    let newBits := ~~~((-1 : BitVec 64) >>> shift)
    let shiftedMask := (t.mask >>> shift) ||| (if signUnknown ≠ 0 then newBits else 0)
    ⟨shiftedValue &&& ~~~shiftedMask, shiftedMask⟩

def u32Unknown : Tnum := ⟨0, 0xFFFFFFFF⟩

end Operators

section Bits
variable {t u : Tnum} {x y : BitVec 64}

theorem wellFormed_iff : t.WellFormed ↔ ∀ i (_ : i < 64), (t.value[i] && t.mask[i]) = false := by
  constructor
  · intro h i hi
    rw [← getElem_and, h]
    exact getElem_zero hi
  · intro h
    apply BitVec.eq_of_getElem_eq
    intro i hi
    rw [getElem_and, h i hi]
    exact (getElem_zero hi).symm

theorem has_iff : t.Has x ↔ ∀ i (_ : i < 64), (x[i] && !t.mask[i]) = t.value[i] := by
  constructor
  · intro h i hi
    rw [← h, getElem_and, getElem_not]
  · intro h
    apply BitVec.eq_of_getElem_eq
    intro i hi
    rw [getElem_and, getElem_not, h i hi]

/-- Next to one described word, the described words are those with its known bits. -/
theorem has_iff_agree (h : t.Has x) :
    t.Has y ↔ ∀ i < 64, t.mask.getLsbD i = false → y.getLsbD i = x.getLsbD i := by
  have hx := has_iff.1 h
  rw [has_iff]
  refine forall_congr' fun i => forall_congr' fun hi => ?_
  rw [← hx i hi, getLsbD_eq_getElem hi, getLsbD_eq_getElem hi,
    getLsbD_eq_getElem hi]
  cases y[i] <;> cases x[i] <;> cases t.mask[i] <;> decide

theorem Has.wellFormed (h : t.Has x) : t.WellFormed := by
  rw [wellFormed_iff]
  intro i hi
  rw [← has_iff.1 h i hi]
  cases x[i] <;> cases t.mask[i] <;> rfl

theorem WellFormed.has_value (h : t.WellFormed) : t.Has t.value := by
  rw [has_iff]
  intro i hi
  have hbit := wellFormed_iff.1 h i hi
  cases hv : t.value[i] <;> cases hm : t.mask[i] <;> simp_all

theorem WellFormed.has_maxValue (h : t.WellFormed) : t.Has t.maxValue := by
  rw [has_iff]
  intro i hi
  have hbit := wellFormed_iff.1 h i hi
  rw [maxValue, getElem_or]
  cases hv : t.value[i] <;> cases hm : t.mask[i] <;> simp_all

theorem Has.below (h : t.Has x) : Below t.value x ∧ Below x t.maxValue := by
  refine ⟨fun i hv => ?_, fun i hx => ?_⟩
  · have hi := BitVec.lt_of_getLsbD hv
    have hbit := has_iff.1 h i hi
    cases hx : x[i] <;> simp_all
  · have hi := BitVec.lt_of_getLsbD hx
    have hbit := has_iff.1 h i hi
    rw [maxValue, getLsbD_or, getLsbD_eq_getElem hi, getLsbD_eq_getElem hi]
    cases hm : t.mask[i] <;> simp_all

theorem maxValue_eq_add (h : t.WellFormed) : t.maxValue = t.value + t.mask :=
  (BitVec.add_eq_or_of_and_eq_zero t.value t.mask h).symm

end Bits

variable {m x y : BitVec 64} {i : Nat}

section Arithmetic
variable {t u : Tnum} {x y : BitVec 64}

theorem has_and (hx : t.Has x) (hy : u.Has y) : (t.and u).Has (x &&& y) := by
  rw [has_iff] at *
  intro i hi
  have hxi := hx i hi
  have hyi := hy i hi
  simp only [and, getElem_and, getElem_or, getElem_not, ← hxi, ← hyi]
  cases x[i] <;> cases y[i] <;> cases t.mask[i] <;> cases u.mask[i] <;> rfl

theorem has_or (hx : t.Has x) (hy : u.Has y) : (t.or u).Has (x ||| y) := by
  rw [has_iff] at *
  intro i hi
  have hxi := hx i hi
  have hyi := hy i hi
  simp only [or, getElem_and, getElem_or, getElem_not, ← hxi, ← hyi]
  cases x[i] <;> cases y[i] <;> cases t.mask[i] <;> cases u.mask[i] <;> rfl

theorem has_xor (hx : t.Has x) (hy : u.Has y) : (t.xor u).Has (x ^^^ y) := by
  rw [has_iff] at *
  intro i hi
  have hxi := hx i hi
  have hyi := hy i hi
  simp only [xor, getElem_and, getElem_or, getElem_not, getElem_xor,
    ← hxi, ← hyi]
  cases x[i] <;> cases y[i] <;> cases t.mask[i] <;> cases u.mask[i] <;> rfl

theorem has_of_getLsbD {v : BitVec 64}
    (h : ∀ i, i < 64 → m.getLsbD i = false → x.getLsbD i = v.getLsbD i) :
    Has ⟨v &&& ~~~m, m⟩ x := by
  rw [has_iff]
  intro i hi
  have hbit := h i hi
  simp only [getLsbD_eq_getElem hi] at hbit
  simp only [getElem_and, getElem_not]
  cases hm : m[i] with
  | true => simp
  | false => rw [hbit hm]

theorem known_of_getLsbD_mask (hm : t.mask.getLsbD i = false) :
    t.value.getLsbD i = t.maxValue.getLsbD i := by
  rw [maxValue, getLsbD_or, hm, Bool.or_false]

theorem maxValue_add_maxValue (ht : t.WellFormed) (hu : u.WellFormed) :
    t.maxValue + u.maxValue = t.mask + u.mask + (t.value + u.value) := by
  rw [maxValue_eq_add ht, maxValue_eq_add hu]
  ac_rfl

/-- A carry that differs between two sums differs between the extreme sums. -/
theorem has_add (hx : t.Has x) (hy : u.Has y) : (t.add u).Has (x + y) := by
  apply has_of_getLsbD
  intro i hi hmu
  simp only [getLsbD_or, getLsbD_xor, Bool.or_eq_false_iff] at hmu
  obtain ⟨⟨hchi, htm⟩, hum⟩ := hmu
  have hext := getLsbD_sum_eq (c := false) hx.below.1 hx.below.2 hy.below.1 hy.below.2 hi
    (known_of_getLsbD_mask htm) (known_of_getLsbD_mask hum)
  simp only [sum_false] at hext
  apply hext
  rw [maxValue_add_maxValue hx.wellFormed hy.wellFormed]
  exact (bne_eq_false_iff_eq.1 hchi).symm

end Arithmetic

section Shifts
variable {t : Tnum} {x : BitVec 64} {k : Nat}

theorem has_shlImm (hx : t.Has x) : (t.shlImm k).Has (x <<< k) := by
  rw [has_iff] at *
  intro i hi
  simp only [shlImm, BitVec.getElem_shiftLeft]
  by_cases hk : i < k
  · simp [hk]
  · have hxi := hx (i - k) (by omega)
    simpa [hk] using hxi

theorem has_shrImm (hx : t.Has x) : (t.shrImm k).Has (x >>> k) := by
  rw [has_iff] at *
  intro i hi
  simp only [shrImm, BitVec.getElem_ushiftRight]
  by_cases hk : k + i < 64
  · have hxi := hx (k + i) hk
    simpa [getLsbD_eq_getElem hk] using hxi
  · simp [getLsbD_of_ge _ _ (Nat.not_lt.1 hk)]

theorem bit_ne_zero_iff (v : BitVec 64) (n : Nat) :
    (v >>> n) &&& 1 ≠ 0 ↔ v.getLsbD n = true := by
  have hbit : ((v >>> n) &&& 1) = BitVec.setWidth 64 (BitVec.ofBool (v.getLsbD n)) := by
    apply eq_of_getLsbD_eq
    intro i hi
    have hone : (1 : BitVec 64).getLsbD i = decide (i = 0) := BitVec.getLsbD_one.trans (by simp)
    rw [getLsbD_and, BitVec.getLsbD_ushiftRight, hone, BitVec.getLsbD_setWidth,
      BitVec.getLsbD_ofBool]
    by_cases h0 : i = 0 <;> simp [h0]
  rw [hbit]
  cases v.getLsbD n <;> decide

theorem getLsbD_signFill (hi : i < 64) (v : BitVec 64) :
    (if (v >>> 63) &&& 1 ≠ 0 then (-1 : BitVec 64) <<< (64 - k) else 0).getLsbD i =
      (v.getLsbD 63 && decide (64 - k ≤ i)) := by
  have hones : (-1 : BitVec 64) = BitVec.allOnes 64 := by decide
  rw [hones, apply_ite (fun f : BitVec 64 => f.getLsbD i), BitVec.getLsbD_shiftLeft,
    BitVec.getLsbD_allOnes]
  simp only [bit_ne_zero_iff]
  cases v.getLsbD 63 with
  | false => exact BitVec.getLsbD_zero
  | true => by_cases hk : i < 64 - k <;> simp [hi, hk] <;> omega

theorem getLsbD_unknownFill (hi : i < 64) (m : BitVec 64) :
    (if (m >>> 63) &&& 1 ≠ 0 then ~~~((-1 : BitVec 64) >>> k) else 0).getLsbD i =
      (m.getLsbD 63 && decide (64 ≤ k + i)) := by
  have hones : (-1 : BitVec 64) = BitVec.allOnes 64 := by decide
  rw [hones, apply_ite (fun f : BitVec 64 => f.getLsbD i), getLsbD_not,
    BitVec.getLsbD_ushiftRight, BitVec.getLsbD_allOnes]
  simp only [bit_ne_zero_iff]
  cases m.getLsbD 63 with
  | false => exact BitVec.getLsbD_zero
  | true => by_cases hk : k + i < 64 <;> simp [hi, hk]; omega

theorem Has.getLsbD (hx : t.Has x) (hm : t.mask.getLsbD i = false) :
    x.getLsbD i = t.value.getLsbD i := by
  have h := congrArg (fun v => v.getLsbD i) hx
  simp only [getLsbD_and, getLsbD_not, hm] at h
  by_cases hi : i < 64
  · simpa [hi] using h
  · rw [getLsbD_of_ge _ _ (Nat.not_lt.1 hi), getLsbD_of_ge _ _ (Nat.not_lt.1 hi)]

theorem has_arshImm (hk : k < 64) (hx : t.Has x) : (t.arshImm k).Has (x.sshiftRight k) := by
  rw [arshImm]
  split_ifs with h0 h64
  · rw [h0, BitVec.sshiftRight_zero]
    exact hx
  · omega
  · omega
  · omega
  · apply has_of_getLsbD
    intro i hi hmask
    rw [getLsbD_or, BitVec.getLsbD_ushiftRight, getLsbD_unknownFill hi,
      Bool.or_eq_false_iff] at hmask
    rw [BitVec.getLsbD_sshiftRight, getLsbD_or, BitVec.getLsbD_ushiftRight,
      getLsbD_signFill hi]
    have hi' : decide (64 ≤ i) = false := decide_eq_false (by omega)
    by_cases hki : k + i < 64
    · -- the bit comes from the shifted word
      have hfill : decide (64 - k ≤ i) = false := decide_eq_false (by omega)
      rw [if_pos hki, hx.getLsbD hmask.1, hfill, hi']
      simp
    · -- the bit is a copy of the sign, which is known
      have hnew : decide (64 ≤ k + i) = true := decide_eq_true (by omega)
      have hfill : decide (64 - k ≤ i) = true := decide_eq_true (by omega)
      have hsign : t.mask.getLsbD 63 = false := by simpa only [hnew, Bool.and_true] using hmask.2
      rw [if_neg hki, BitVec.msb_eq_getLsbD_last, hx.getLsbD hsign,
        getLsbD_of_ge _ _ (Nat.not_lt.1 hki), hfill, hi']
      simp only [Bool.not_false, Bool.true_and, Bool.and_true, Bool.false_or]

end Shifts

section Handlers

/-- The source operand of an ALU instruction: an immediate, or a register of
which a tristate number is known. -/
inductive Source where
  | imm (k : BitVec 64)
  | reg (t : Tnum)

def Source.Has : Source → BitVec 64 → Prop
  | .imm k, y => y = k
  | .reg t, y => t.Has y

inductive BitOp where
  | and | or | xor | add
  deriving DecidableEq, Repr

namespace BitOp
variable (op : BitOp)

def word {w : Nat} (x y : BitVec w) : BitVec w :=
  match op with
  | .and => x &&& y
  | .or => x ||| y
  | .xor => x ^^^ y
  | .add => x + y

/-- What the instruction computes: a 32-bit one works on the low halves and
clears the upper half of its result. -/
def run : Width → BitVec 64 → BitVec 64 → BitVec 64
  | .w64, x, y => op.word x y
  | .w32, x, y => (op.word (x.setWidth 32) (y.setWidth 32)).setWidth 64

def tnum : BitOp → Tnum → Tnum → Tnum
  | .and => Tnum.and
  | .or => Tnum.or
  | .xor => Tnum.xor
  | .add => Tnum.add

/-- The bitwise handlers zero-extend a 32-bit immediate, addition does not. -/
def source (width : Width) : Source → Tnum
  | .imm k => if width = .w32 ∧ op ≠ .add then constant (k &&& 0xFFFFFFFF) else constant k
  | .reg u => u

def handle (width : Width) (t : Tnum) (src : Source) : Tnum :=
  let full := op.tnum t (op.source width src)
  if width = .w32 then full.trunc32 else full

theorem has_tnum {t u : Tnum} (hx : t.Has x) (hy : u.Has y) :
    (op.tnum t u).Has (op.word x y) := by
  cases op with
  | and => exact has_and hx hy
  | or => exact has_or hx hy
  | xor => exact has_xor hx hy
  | add => exact has_add hx hy

theorem lowMask_eq : (0xFFFFFFFF : BitVec 64) = 1#64 <<< 32 - 1 := by decide

theorem getLsbD_and_low (x : BitVec 64) (i : Nat) :
    (x &&& 0xFFFFFFFF).getLsbD i = (x.getLsbD i && decide (i < 32)) := by
  rw [getLsbD_and, lowMask_eq, getLsbD_lowMask (by decide)]

theorem setWidth_setWidth_low (x : BitVec 64) : (x.setWidth 32).setWidth 64 = x &&& 0xFFFFFFFF := by
  apply eq_of_getLsbD_eq
  intro i hi
  rw [getLsbD_and_low, BitVec.getLsbD_setWidth, BitVec.getLsbD_setWidth]
  simp only [hi, decide_true, Bool.true_and, Bool.and_comm]

theorem run_w32 (x y : BitVec 64) : op.run .w32 x y = op.word x y &&& 0xFFFFFFFF := by
  rw [← setWidth_setWidth_low, run]
  congr 1
  cases op with
  | and => exact BitVec.setWidth_and.symm
  | or => exact BitVec.setWidth_or.symm
  | xor => exact BitVec.setWidth_xor.symm
  | add => exact (BitVec.setWidth_add x y (by decide)).symm

theorem setWidth_and_low (k : BitVec 64) : (k &&& 0xFFFFFFFF).setWidth 32 = k.setWidth 32 := by
  apply eq_of_getLsbD_eq
  intro i hi
  simp only [BitVec.getLsbD_setWidth, getLsbD_and_low, hi, decide_true, Bool.and_true]

theorem source_spec (width : Width) {src : Source} (hy : src.Has y) :
    ∃ z, (op.source width src).Has z ∧ ∀ x, op.run width x z = op.run width x y := by
  cases src with
  | reg u => exact ⟨y, hy, fun _ => rfl⟩
  | imm k =>
    obtain rfl : y = k := hy
    rw [source]
    split_ifs with hw
    · refine ⟨y &&& 0xFFFFFFFF, (has_constant_iff _ _).2 rfl, fun x => ?_⟩
      rw [hw.1, run, run, setWidth_and_low]
    · exact ⟨y, (has_constant_iff _ _).2 rfl, fun _ => rfl⟩

theorem has_handle (width : Width) {t : Tnum} {src : Source}
    (hx : t.Has x) (hy : src.Has y) : (op.handle width t src).Has (op.run width x y) := by
  obtain ⟨z, hz, hrun⟩ := op.source_spec width hy
  rw [← hrun x, handle]
  cases width with
  | w32 =>
    rw [if_pos rfl, run_w32]
    exact has_trunc32 (op.has_tnum hx hz)
  | w64 =>
    rw [if_neg (by decide)]
    exact op.has_tnum hx hz

end BitOp

inductive ShiftOp where
  | shl | shr | arsh
  deriving DecidableEq, Repr

namespace ShiftOp
variable (op : ShiftOp) (width : Width)

def word (op : ShiftOp) {w : Nat} (x : BitVec w) (k : Nat) : BitVec w :=
  match op with
  | .shl => x <<< k
  | .shr => x >>> k
  | .arsh => x.sshiftRight k

def bitWidth : Width → Nat
  | .w32 => 32
  | .w64 => 64

def runBy (op : ShiftOp) : Width → BitVec 64 → Nat → BitVec 64
  | .w64, x, k => op.word x k
  | .w32, x, k => (op.word (x.setWidth 32) k).setWidth 64

/-- The shift amount is taken modulo the width. -/
def run (op : ShiftOp) (width : Width) (x y : BitVec 64) : BitVec 64 :=
  op.runBy width x (y.toNat % bitWidth width)

def imm : ShiftOp → Tnum → Nat → Tnum
  | .shl => shlImm
  | .shr => shrImm
  | .arsh => arshImm

def constAmount : Source → Option (BitVec 64)
  | .imm k => some k
  | .reg u => u.constValue

def oversized (width : Width) (src : Source) : Bool :=
  match constAmount src with
  | some amount => decide (bitWidth width ≤ amount.toNat)
  | none => false

/-- A 32-bit value whose upper half repeats bit 31. -/
def signExtend (t : Tnum) : Tnum :=
  if (t.mask >>> 31) &&& 1 ≠ 0 then
    ⟨t.value &&& ~~~0xFFFFFFFF00000000, t.mask ||| 0xFFFFFFFF00000000⟩
  else if (t.value >>> 31) &&& 1 ≠ 0 then ⟨t.value ||| 0xFFFFFFFF00000000, t.mask⟩
  else t

def known : ShiftOp → Width → Tnum → Nat → Tnum
  | .shl, .w32, t, k => (t.trunc32.shlImm k).trunc32
  | .shl, .w64, t, k => t.shlImm k
  | .shr, .w32, t, k => t.trunc32.shrImm k
  | .shr, .w64, t, k => t.shrImm k
  | .arsh, .w32, t, k => ((signExtend t.trunc32).arshImm k).trunc32
  | .arsh, .w64, t, k => t.arshImm k

/-- The handlers for an amount that is not known. -/
def unknownAmount : ShiftOp → Width → Tnum
  | .shl, .w32 => u32Unknown
  | .shl, .w64 => unknown
  | .shr, .w32 => u32Unknown
  | .shr, .w64 => unknown
  | .arsh, _ => unknown

/-- `handle_shl`, `handle_shr` and `handle_arsh`: only the left shift looks
into a register for a constant amount. -/
def handle (op : ShiftOp) (width : Width) (t : Tnum) (src : Source) : Tnum :=
  if oversized width src then unknown
  else
    match src with
    | .imm k => op.known width t (k.toNat % bitWidth width)
    | .reg u =>
      match u.constValue with
      | some c =>
        if op = .shl then op.known width t (c.toNat % bitWidth width) else op.unknownAmount width
      | none => op.unknownAmount width

variable {t : Tnum} {x y : BitVec 64} {k : Nat}

theorem has_imm (hk : k < 64) (hx : t.Has x) : (op.imm t k).Has (op.word x k) := by
  cases op with
  | shl => exact has_shlImm hx
  | shr => exact has_shrImm hx
  | arsh => exact has_arshImm hk hx

theorem has_u32Unknown (v : BitVec 32) : u32Unknown.Has (v.setWidth 64) := by
  apply eq_of_getLsbD_eq
  intro i hi
  rw [u32Unknown, getLsbD_and, getLsbD_not, BitOp.lowMask_eq,
    getLsbD_lowMask (by decide), BitVec.getLsbD_setWidth]
  by_cases h32 : i < 32
  · simp [h32]
  · simp [getLsbD_of_ge v i (Nat.not_lt.1 h32)]

theorem has_unknownAmount (x : BitVec 64) (k : Nat) :
    (op.unknownAmount width).Has (op.runBy width x k) := by
  cases op <;> cases width
  case shl.w32 => exact has_u32Unknown _
  case shr.w32 => exact has_u32Unknown _
  all_goals exact has_unknown _

theorem shl_low (x : BitVec 64) (k : Nat) :
    (x.setWidth 32 <<< k).setWidth 64 = ((x &&& 0xFFFFFFFF) <<< k) &&& 0xFFFFFFFF := by
  apply eq_of_getLsbD_eq
  intro i hi
  rw [BitVec.getLsbD_setWidth, BitVec.getLsbD_shiftLeft, BitVec.getLsbD_setWidth,
    BitOp.getLsbD_and_low, BitVec.getLsbD_shiftLeft, BitOp.getLsbD_and_low]
  by_cases h32 : i < 32
  · have hik : i - k < 32 := by omega
    simp only [hi, h32, hik, decide_true, Bool.true_and, Bool.and_true]
  · simp [h32]

theorem shr_low (x : BitVec 64) (k : Nat) :
    (x.setWidth 32 >>> k).setWidth 64 = (x &&& 0xFFFFFFFF) >>> k := by
  apply eq_of_getLsbD_eq
  intro i hi
  rw [BitVec.getLsbD_setWidth, BitVec.getLsbD_ushiftRight, BitVec.getLsbD_setWidth,
    BitVec.getLsbD_ushiftRight, BitOp.getLsbD_and_low]
  simp only [hi, decide_true, Bool.true_and, Bool.and_comm]

theorem getLsbD_high (hi : i < 64) :
    (0xFFFFFFFF00000000 : BitVec 64).getLsbD i = decide (32 ≤ i) := by
  have hhigh : (0xFFFFFFFF00000000 : BitVec 64) = ~~~(1#64 <<< 32 - 1) := by decide
  rw [hhigh, getLsbD_not, getLsbD_lowMask (by decide)]
  by_cases h32 : i < 32 <;> simp [hi, h32]; omega

theorem getLsbD_signExtend_low (hi : i < 64) (x : BitVec 64) :
    ((x.setWidth 32).signExtend 64).getLsbD i = x.getLsbD (if i < 32 then i else 31) := by
  rw [BitVec.getLsbD_signExtend, BitVec.msb_eq_getLsbD_last, BitVec.getLsbD_setWidth,
    BitVec.getLsbD_setWidth]
  split_ifs with h32 <;> simp [hi, h32]

theorem arsh_low (x : BitVec 64) (hk : k < 32) :
    ((x.setWidth 32).sshiftRight k).setWidth 64 =
      (((x.setWidth 32).signExtend 64).sshiftRight k) &&& 0xFFFFFFFF := by
  apply eq_of_getLsbD_eq
  intro i hi
  rw [BitVec.getLsbD_setWidth, BitOp.getLsbD_and_low, BitVec.getLsbD_sshiftRight,
    BitVec.getLsbD_sshiftRight]
  by_cases h32 : i < 32
  · have hki : k + i < 64 := by omega
    rw [if_pos hki, getLsbD_signExtend_low hki, BitVec.getLsbD_setWidth,
      BitVec.msb_eq_getLsbD_last, BitVec.getLsbD_setWidth]
    have h1 : ¬ 32 ≤ i := by omega
    have h2 : ¬ 64 ≤ i := by omega
    split_ifs with hlow <;> simp [hi, h32, hlow, hki, h1, h2]
  · simp [h32]

theorem has_signExtend (hx : t.Has x) :
    (signExtend t.trunc32).Has ((x.setWidth 32).signExtend 64) := by
  have hvalue (i : Nat) : t.trunc32.value.getLsbD i = (t.value.getLsbD i && decide (i < 32)) :=
    BitOp.getLsbD_and_low _ i
  have hmask (i : Nat) : t.trunc32.mask.getLsbD i = (t.mask.getLsbD i && decide (i < 32)) :=
    BitOp.getLsbD_and_low _ i
  apply eq_of_getLsbD_eq
  intro i hi
  rw [getLsbD_and, getLsbD_not, getLsbD_signExtend_low hi, signExtend]
  simp only [bit_ne_zero_iff, hmask, hvalue]
  have hlow := (congrArg (fun v => v.getLsbD i) hx).symm
  have hsign (hm : t.mask.getLsbD 31 = false) := hx.getLsbD hm
  by_cases h32 : i < 32
  · have hn : ¬ 32 ≤ i := by omega
    split_ifs <;>
      simp only [getLsbD_and, getLsbD_or, getLsbD_not, getLsbD_high hi, hvalue,
        hmask, h32, hn, hi, hlow] <;> grind
  · have hn : 32 ≤ i := by omega
    split_ifs <;>
      simp only [getLsbD_and, getLsbD_or, getLsbD_not, getLsbD_high hi, hvalue,
        hmask, h32, hn, hi] <;> grind

theorem has_known (hk : k < bitWidth width) (hx : t.Has x) :
    (op.known width t k).Has (op.runBy width x k) := by
  cases op <;> cases width
  case shl.w32 =>
    rw [runBy, word, shl_low]
    exact has_trunc32 (has_shlImm (has_trunc32 hx))
  case shr.w32 =>
    rw [runBy, word, shr_low]
    exact has_shrImm (has_trunc32 hx)
  case arsh.w32 =>
    rw [runBy, word, arsh_low x hk]
    exact has_trunc32 (has_arshImm (hk.trans (by decide)) (has_signExtend hx))
  case shl.w64 => exact has_shlImm hx
  case shr.w64 => exact has_shrImm hx
  case arsh.w64 => exact has_arshImm hk hx

theorem bitWidth_pos : 0 < bitWidth width := by
  cases width <;> decide

theorem eq_of_constValue {u : Tnum} {c : BitVec 64} (hc : u.constValue = some c) (hy : u.Has y) :
    y = c := by
  rw [constValue] at hc
  split_ifs at hc with hconst
  rw [← Option.some.inj hc]
  exact eq_value_of_isConst hconst hy

theorem has_handle {src : Source} (hx : t.Has x) (hy : src.Has y) :
    (op.handle width t src).Has (op.run width x y) := by
  have hamount := Nat.mod_lt y.toNat (bitWidth_pos width)
  unfold handle run
  by_cases hover : oversized width src = true
  · rw [if_pos hover]
    exact has_unknown _
  · rw [if_neg hover]
    cases src with
    | imm k =>
      obtain rfl : y = k := hy
      exact op.has_known width hamount hx
    | reg u =>
      dsimp only
      cases hc : u.constValue with
      | none => exact op.has_unknownAmount width x _
      | some c =>
        obtain rfl := eq_of_constValue hc hy
        split_ifs
        · exact op.has_known width hamount hx
        · exact op.has_unknownAmount width x _

end ShiftOp

/-- The bitwise operators, addition and the shifts describe every result of
the words their operands describe, in both widths, and keep known and unknown
bits apart; so do the handlers that choose between them, for immediate
operands and for registers of which anything may be known. -/
theorem operators_sound (t u : Tnum) (ht : t.WellFormed) (hu : u.WellFormed) :
    (∀ op : BitOp, (op.tnum t u).WellFormed ∧
      ∀ x y, t.Has x → u.Has y → (op.tnum t u).Has (op.word x y)) ∧
    (∀ (op : ShiftOp) (k : Nat), k < 64 → (op.imm t k).WellFormed ∧
      ∀ x, t.Has x → (op.imm t k).Has (op.word x k)) ∧
    (∀ (op : BitOp) (width : Width) (src : Source), (∃ k, src = .imm k) ∨ src = .reg u →
      (op.handle width t src).WellFormed ∧
      ∀ x y, t.Has x → src.Has y → (op.handle width t src).Has (op.run width x y)) ∧
    (∀ (op : ShiftOp) (width : Width) (src : Source), (∃ k, src = .imm k) ∨ src = .reg u →
      (op.handle width t src).WellFormed ∧
      ∀ x y, t.Has x → src.Has y → (op.handle width t src).Has (op.run width x y)) := by
  have hsrc (src : Source) (h : (∃ k, src = .imm k) ∨ src = .reg u) : ∃ y, src.Has y := by
    rcases h with ⟨k, rfl⟩ | rfl
    · exact ⟨k, rfl⟩
    · exact ⟨u.value, hu.has_value⟩
  refine ⟨fun op => ⟨(op.has_tnum ht.has_value hu.has_value).wellFormed, fun x y => op.has_tnum⟩,
    fun op k hk => ⟨(op.has_imm hk ht.has_value).wellFormed, fun x => op.has_imm hk⟩,
    fun op width src h => ?_, fun op width src h => ?_⟩
  · obtain ⟨y, hy⟩ := hsrc src h
    exact ⟨(op.has_handle width ht.has_value hy).wellFormed, fun x y => op.has_handle width⟩
  · obtain ⟨y, hy⟩ := hsrc src h
    exact ⟨(op.has_handle width ht.has_value hy).wellFormed, fun x y => op.has_handle width⟩

theorem operators_sound_byte :
    (Tnum.add ⟨0, 0xFE⟩ ⟨0, 1⟩).Has (0xFE + 1) ∧
      (ShiftOp.shl.handle .w32 ⟨0, 0xFE⟩ (.reg ⟨0, 1⟩)).Has (ShiftOp.shl.run .w32 0xFE 1) :=
  have h := operators_sound ⟨0, 0xFE⟩ ⟨0, 1⟩ (by decide) (by decide)
  ⟨(h.1 .add).2 0xFE 1 (by decide) (by decide),
    (h.2.2.2 .shl .w32 (.reg ⟨0, 1⟩) (.inr rfl)).2 0xFE 1 (by decide)
      (show Tnum.Has ⟨0, 1⟩ 1 by decide)⟩

end Handlers

section Subtraction

/-- The bits on which the extreme differences disagree: the largest word of one
operand less the smallest of the other, and the reverse. -/
def borrowed (t u : Tnum) : BitVec 64 :=
  (t.value - u.value + t.mask) ^^^ (t.value - u.value - u.mask)

/-- Bits that a borrow can disturb are unknown in an operand, or the difference
of the values differs there from the difference of the masks less it. -/
def BorrowsCovered (t u : Tnum) : Prop :=
  borrowed t u &&&
    ~~~(((t.mask - u.mask - (t.value - u.value)) ^^^ (t.value - u.value)) ||| t.mask ||| u.mask) = 0

instance (t u : Tnum) : Decidable (BorrowsCovered t u) := inferInstanceAs (Decidable (_ = _))

variable {t u : Tnum} {x y : BitVec 64}

theorem maxValue_sub_value (ht : t.WellFormed) :
    t.maxValue - u.value = t.value - u.value + t.mask := by
  rw [maxValue_eq_add ht, BitVec.sub_eq_add_neg, BitVec.sub_eq_add_neg]
  ac_rfl

theorem value_sub_maxValue (hu : u.WellFormed) :
    t.value - u.maxValue = t.value - u.value - u.mask := by
  rw [maxValue_eq_add hu]
  simp only [BitVec.sub_eq_add_neg, BitVec.neg_add]
  ac_rfl

theorem and_not_eq_zero_iff {a : BitVec 64} : a &&& ~~~m = 0 ↔
    ∀ i, i < 64 → m.getLsbD i = false → a.getLsbD i = false := by
  constructor
  · intro h i hi hm
    have hbit := congrArg (fun v => v.getLsbD i) h
    simp only [getLsbD_and, getLsbD_not, hm, hi, decide_true, Bool.not_false,
      Bool.and_true] at hbit
    exact hbit.trans BitVec.getLsbD_zero
  · intro h
    apply eq_of_getLsbD_eq
    intro i hi
    rw [getLsbD_and, getLsbD_not]
    cases hm : m.getLsbD i with
    | true => simp
    | false => simp [h i hi hm]

theorem borrowsCovered_iff : BorrowsCovered t u ↔
    ∀ i, i < 64 → (t.sub u).mask.getLsbD i = false → (borrowed t u).getLsbD i = false :=
  and_not_eq_zero_iff

theorem wellFormed_sub (t u : Tnum) : (t.sub u).WellFormed := by
  have h : (t.sub u).Has (t.value - u.value) := has_of_getLsbD fun _ _ _ => rfl
  exact h.wellFormed

theorem getLsbD_sub_eq (hx : t.Has x) (hy : u.Has y) (hi : i < 64)
    (ht : t.mask.getLsbD i = false) (hu : u.mask.getLsbD i = false)
    (hb : (borrowed t u).getLsbD i = false) :
    (x - y).getLsbD i = (t.value - u.maxValue).getLsbD i := by
  have hnot : (~~~u.maxValue).getLsbD i = (~~~u.value).getLsbD i := by
    rw [getLsbD_not, getLsbD_not, known_of_getLsbD_mask hu]
  have hext := getLsbD_sum_eq (c := true) hx.below.1 hx.below.2 hy.below.2.not hy.below.1.not hi
    (known_of_getLsbD_mask ht) hnot
  simp only [sum_true_not] at hext
  apply hext
  rw [borrowed, getLsbD_xor] at hb
  rw [maxValue_sub_value hx.wellFormed, value_sub_maxValue hy.wellFormed]
  exact (bne_eq_false_iff_eq.1 hb).symm

theorem has_sub (hc : BorrowsCovered t u) (hx : t.Has x) (hy : u.Has y) :
    (t.sub u).Has (x - y) := by
  apply has_of_getLsbD
  intro i hi hmu
  have hb := borrowsCovered_iff.1 hc i hi hmu
  simp only [getLsbD_or, Bool.or_eq_false_iff] at hmu
  rw [getLsbD_sub_eq hx hy hi hmu.1.2 hmu.2 hb,
    getLsbD_sub_eq hx.wellFormed.has_value hy.wellFormed.has_value hi hmu.1.2 hmu.2 hb]

theorem borrowsCovered_of_has (ht : t.WellFormed) (hu : u.WellFormed)
    (h : ∀ x y, t.Has x → u.Has y → (t.sub u).Has (x - y)) : BorrowsCovered t u := by
  rw [borrowsCovered_iff]
  intro i hi hm
  have halpha := (h _ _ ht.has_maxValue hu.has_value).getLsbD hm
  have hbeta := (h _ _ ht.has_value hu.has_maxValue).getLsbD hm
  rw [maxValue_sub_value ht] at halpha
  rw [value_sub_maxValue hu] at hbeta
  rw [borrowed, getLsbD_xor, halpha, hbeta, Bool.xor_self]

/-- Subtraction is sound exactly where every bit on which the extreme
differences disagree is one it takes to be unknown. -/
theorem sub_sound_iff (t u : Tnum) (ht : t.WellFormed) (hu : u.WellFormed) :
    ((∀ x y, t.Has x → u.Has y → (t.sub u).Has (x - y)) ∧ (t.sub u).WellFormed) ↔
      BorrowsCovered t u := by
  constructor
  · intro h
    exact borrowsCovered_of_has ht hu h.1
  · intro hc
    exact ⟨fun x y hx hy => has_sub hc hx hy, wellFormed_sub t u⟩

/-- An unknown bit less the constant one: the difference of two ones is not
described. -/
theorem bit_sub_one_unsound :
    (⟨0, 1⟩ : Tnum).WellFormed ∧ (constant 1).WellFormed ∧ (⟨0, 1⟩ : Tnum).Has 1 ∧
      (constant 1).Has 1 ∧ ¬ (Tnum.sub ⟨0, 1⟩ (constant 1)).Has (1 - 1) := by
  decide

theorem nibble_sub_sound :
    (∀ x y, (⟨0x10, 0xF⟩ : Tnum).Has x → (constant 0x10).Has y →
      (Tnum.sub ⟨0x10, 0xF⟩ (constant 0x10)).Has (x - y)) ∧
        (Tnum.sub ⟨0x10, 0xF⟩ (constant 0x10)).WellFormed :=
  (sub_sound_iff ⟨0x10, 0xF⟩ (constant 0x10) (by decide) (by decide)).2 (by decide)

end Subtraction

section Lattice
variable {t u c : Tnum} {x : BitVec 64}

def Includes (c t : Tnum) : Prop := ∀ x, t.Has x → c.Has x

/-- Inclusion bit by bit: what is known of the larger set is known of the
smaller one. -/
theorem includes_iff (hc : c.WellFormed) (ht : t.WellFormed) : c.Includes t ↔
    ∀ i (_ : i < 64), c.mask[i] = false → t.mask[i] = false ∧ c.value[i] = t.value[i] := by
  constructor
  · intro h i hi hm
    have hlo := has_iff.1 (h _ ht.has_value) i hi
    have hhi := has_iff.1 (h _ ht.has_maxValue) i hi
    have hdisj := wellFormed_iff.1 ht i hi
    rw [maxValue, getElem_or] at hhi
    cases hv : t.value[i] <;> cases hm' : t.mask[i] <;> simp_all
  · intro h x hx
    rw [has_iff] at hx ⊢
    intro i hi
    have hxi := hx i hi
    have hdisj := wellFormed_iff.1 hc i hi
    cases hm : c.mask[i] with
    | true => simp_all
    | false =>
      obtain ⟨hm', hv⟩ := h i hi hm
      rw [hv, ← hxi, hm']

theorem wellFormed_widen (t u : Tnum) : (t.widen u).WellFormed := by
  rw [wellFormed_iff]
  intro i hi
  simp only [widen, getElem_and, getElem_or, getElem_xor, getElem_not]
  cases t.value[i] <;> cases u.value[i] <;> cases t.mask[i] <;> cases u.mask[i] <;> rfl

theorem includes_widen_left (ht : t.WellFormed) (u : Tnum) : (t.widen u).Includes t := by
  rw [includes_iff (wellFormed_widen t u) ht]
  intro i hi hm
  simp only [widen, getElem_and, getElem_or, getElem_xor,
    getElem_not] at hm ⊢
  cases hv : t.value[i] <;> cases hv' : u.value[i] <;> simp_all

theorem widen_comm (t u : Tnum) : t.widen u = u.widen t := by
  rw [widen, widen, BitVec.or_comm t.mask, BitVec.xor_comm t.value, BitVec.and_comm t.value]

theorem Includes.wellFormed (h : c.Includes t) (ht : t.WellFormed) : c.WellFormed :=
  (h _ ht.has_value).wellFormed

theorem wellFormed_intersect (h : t.intersect u = some c) : c.WellFormed := by
  rw [intersect] at h
  split_ifs at h
  rw [← Option.some.inj h, wellFormed_iff]
  intro i hi
  simp only [getElem_and, getElem_or, getElem_not]
  cases t.mask[i] <;> cases u.mask[i] <;> simp

section
variable (ht : t.WellFormed) (hu : u.WellFormed)
include ht hu

theorem Includes.widen (hct : c.Includes t)
    (hcu : c.Includes u) : c.Includes (t.widen u) := by
  have hc := hct.wellFormed ht
  rw [includes_iff hc (wellFormed_widen t u)]
  intro i hi hm
  obtain ⟨htm, htv⟩ := (includes_iff hc ht).1 hct i hi hm
  obtain ⟨hum, huv⟩ := (includes_iff hc hu).1 hcu i hi hm
  simp only [Tnum.widen, getElem_and, getElem_or, getElem_xor,
    getElem_not, htm, hum, ← htv, ← huv]
  cases c.value[i] <;> simp

theorem has_of_intersect (h : t.intersect u = some c)
    (hx : c.Has x) : t.Has x ∧ u.Has x := by
  rw [intersect] at h
  split_ifs at h with hcond
  rw [← Option.some.inj h, has_iff] at hx
  rw [has_iff, has_iff, ← forall_and]
  intro i
  rw [← forall_and]
  intro hi
  have hagree : ((t.value[i] ^^ u.value[i]) && (!t.mask[i] && !u.mask[i])) = false := by
    simpa using congrArg (fun v : BitVec 64 => v[i]) hcond
  have hti := wellFormed_iff.1 ht i hi
  have hui := wellFormed_iff.1 hu i hi
  have hxi := hx i hi
  cases hv : t.value[i] <;> cases hv' : u.value[i] <;> cases hm : t.mask[i] <;>
    cases hm' : u.mask[i] <;> simp_all

theorem has_intersect_iff (h : t.intersect u = some c) :
    c.Has x ↔ t.Has x ∧ u.Has x := by
  constructor
  · exact has_of_intersect ht hu h
  · rintro ⟨htx, hux⟩
    obtain ⟨s, hs, hsx⟩ := has_intersect htx hux
    obtain rfl := Option.some.inj (hs.symm.trans h)
    exact hsx

theorem intersect_eq_none_iff :
    t.intersect u = none ↔ ¬ ∃ x, t.Has x ∧ u.Has x := by
  constructor
  · rintro hnone ⟨x, htx, hux⟩
    obtain ⟨s, hs, -⟩ := has_intersect htx hux
    rw [hnone] at hs
    cases hs
  · intro hempty
    cases h : t.intersect u with
    | none => rfl
    | some c => exact absurd ⟨_, has_of_intersect ht hu h (wellFormed_intersect h).has_value⟩ hempty

end

/-- Widening is the least upper bound, intersection the meet with an empty one
told apart, and the number of a range covers it. -/
theorem lattice_optimal (t u : Tnum) (ht : t.WellFormed) (hu : u.WellFormed) :
    ((t.widen u).WellFormed ∧ (t.widen u).Includes t ∧ (t.widen u).Includes u ∧
      ∀ c : Tnum, c.Includes t → c.Includes u → c.Includes (t.widen u)) ∧
    ((∃ x, t.Has x ∧ u.Has x) →
      ∃ c, t.intersect u = some c ∧ ∀ x, c.Has x ↔ t.Has x ∧ u.Has x) ∧
    (t.intersect u = none ↔ ¬ ∃ x, t.Has x ∧ u.Has x) ∧
    (∀ lo hi v : BitVec 64, lo.toNat ≤ v.toNat → v.toNat ≤ hi.toNat →
      (fromRange lo hi).Has v) := by
  refine ⟨⟨wellFormed_widen t u, includes_widen_left ht u, widen_comm t u ▸ includes_widen_left hu t,
    fun c => Includes.widen ht hu⟩, ?_, intersect_eq_none_iff ht hu,
    fun lo hi v => has_fromRange⟩
  rintro ⟨x, htx, hux⟩
  obtain ⟨c, hc, -⟩ := has_intersect htx hux
  exact ⟨c, hc, fun y => has_intersect_iff ht hu hc⟩

theorem lattice_optimal_constants :
    ((constant 2).widen (constant 3)).Includes (constant 2) ∧
      (constant 2).intersect (constant 3) = none ∧ ¬ ∃ x, (constant 2).Has x ∧ (constant 3).Has x :=
  have h := lattice_optimal (constant 2) (constant 3) (by decide) (by decide)
  ⟨h.1.2.1, by decide, h.2.2.1.1 (by decide)⟩

end Lattice

end ZoneVerifier.Tristate.Tnum
