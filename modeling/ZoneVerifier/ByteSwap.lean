import ZoneVerifier.SignExtension

/-!
# Byte swaps

`transfer_endian` (`analysis/transfer/mod.rs`) forgets the register when it
follows the kernel. The precise mode bounds the result by its size and leaves the
tristate number and the identity as they were. It bounds every 32-bit
instruction by `0xFFFFFFFF`, although `le64` and `be64` leave all 64 bits. The
symbolic mirror is left out.
-/

set_option autoImplicit false

open Function (update update_self)

namespace ZoneVerifier.Numeric.NumericDomain
open Ast Bounds Concrete

theorem le_of_represents_applyAndImm {d : NumericDomain} {ρ : Valuation} {x : Reg}
    (hx : x.isProgram = true) (hz : signedOf ρ .zero = 0) {mask : Int} (h0 : 0 ≤ mask)
    (hmask : mask ≤ Zone.posBound) (h : (d.applyAndImm x mask).Represents ρ) :
    ((ρ x).toNat : Int) ≤ mask := by
  have hends : 0 ≤ signedOf ρ x ∧ signedOf ρ x ≤ mask := by
    cases d with
    | zone d =>
      have hs := (Zone.satisfies_close_iff _ ρ).1 h.sat
      obtain ⟨hs, hge⟩ := (Zone.satisfies_addConstraint_iff _ _ _ _ ρ).1 hs
      obtain ⟨-, hle⟩ := (Zone.satisfies_addConstraint_iff _ _ _ _ ρ).1 hs
      rw [hz, Zone.asserted_iff] at hge hle
      omega
    | interval s =>
      have hb : ((Interval.applyAndImm s x mask).getBounds x).Has (ρ x).toNat := h.has x
      unfold Interval.applyAndImm at hb
      rw [if_neg (Reg.isProgram_iff.1 hx), if_pos h0, Interval.getBounds_update, if_pos rfl] at hb
      have hr := (ScalarBounds.tightens_syncBounds _).has_raise (ScalarBounds.has_raise_of_has hb)
      exact ⟨hr.smin_le, hr.le_smax⟩
  rw [toNat_of_nonneg hends.1]
  exact hends.2

end ZoneVerifier.Numeric.NumericDomain

namespace ZoneVerifier.ByteSwap
open Ast Concrete Tristate Machine StackOps
open Numeric (NumericDomain)

def byteAt (x : BitVec 64) (i : Nat) : BitVec 64 := x >>> (8 * i) &&& 0xFF

def swapBytes (x : BitVec 64) : Nat → BitVec 64
  | 0 => 0
  | n + 1 => swapBytes x n <<< 8 ||| byteAt x n

/-- The result on a little-endian host, whatever the class of the instruction. -/
def endianResult (op : EndianOp) (size : Nat) (x : BitVec 64) : BitVec 64 :=
  match op with
  | .toLe => (x.setWidth size).setWidth 64
  | .toBe | .bswap => swapBytes x (size / 8)

def leDomain (d : NumericDomain) (dst : Reg) : Nat → NumericDomain
  | 64 => d
  | 32 => d.applyAndImm dst 0xFFFFFFFF
  | 16 => d.applyAndImm dst 0xFFFF
  | _ => d.forget dst

def swapDomain (d : NumericDomain) (dst : Reg) : Nat → NumericDomain
  | 16 => d.applyAndImm dst 0xFFFF
  | 32 => d.applyAndImm dst 0xFFFFFFFF
  | _ => d.forget dst

def endianDomain (d : NumericDomain) (dst : Reg) (op : EndianOp) (size : Nat) (w : Width) :
    NumericDomain :=
  let d := match op with
    | .toLe => leDomain d dst size
    | .toBe => swapDomain d dst size
    | .bswap => swapDomain d dst size
  if w = .w32 then d.applyAndImm dst 0xFFFFFFFF else d

/-- The register as `mark_reg_unknown` leaves it. -/
def markUnknown (s : State) (dst : Reg) : State :=
  let s := State.setTnum { s with domain := s.domain.forget dst } dst Tnum.unknown
  putPrecise (s.clearScalarId dst) dst false

def transferEndian (kernelFaithfulAlu : Bool) (s : State) (dst : Reg) (op : EndianOp) (size : Nat)
    (w : Width) : State :=
  let s := { s with types := s.types.set dst .scalarValue }
  let s :=
    if kernelFaithfulAlu then markUnknown s dst
    else { s with domain := endianDomain s.domain dst op size w }
  { s with pc := s.pc + 1 }

/-- Some other register has the identity of `dst` and holds what `dst` held
before it became `v`. -/
def SharesOld (s : State) (ρ : Valuation) (dst : Reg) (v : BitVec 64) : Prop :=
  ∃ r ≠ dst, (∃ i, s.scalarId dst = some i ∧ s.scalarId r = some i) ∧ ρ r = ρ dst ∧ v ≠ ρ dst

section Words
variable {x : BitVec 64} {n size : Nat}

theorem byteAt_lt (x : BitVec 64) (i : Nat) : (byteAt x i).toNat < 2^8 := by
  rw [byteAt, BitVec.toNat_and]
  exact Nat.and_lt_two_pow _ (by decide)

theorem swapBytes_lt (x : BitVec 64) (n : Nat) : (swapBytes x n).toNat < 2^(8 * n) := by
  induction n with
  | zero => exact Nat.one_pos
  | succ n ih =>
    rw [swapBytes, BitVec.toNat_or, BitVec.toNat_shiftLeft]
    refine Nat.or_lt_two_pow ?_ ?_
    · refine Nat.lt_of_le_of_lt (Nat.mod_le _ _) ?_
      rw [Nat.shiftLeft_eq, show 8 * (n + 1) = 8 * n + 8 from rfl, Nat.pow_add]
      exact Nat.mul_lt_mul_of_pos_right ih (by decide)
    · refine Nat.lt_of_lt_of_le (byteAt_lt x n) (Nat.pow_le_pow_right (by decide) ?_)
      omega

example : swapBytes 0x1234 2 = 0x3412 := by decide

theorem endianResult_lt (op : EndianOp) (hs : size = 16 ∨ size = 32 ∨ size = 64) (x : BitVec 64) :
    (endianResult op size x).toNat < 2^size := by
  have hswap := swapBytes_lt x (size / 8)
  rw [show 8 * (size / 8) = size by omega] at hswap
  cases op with
  | toLe =>
    rw [endianResult, BitVec.toNat_setWidth]
    exact Nat.lt_of_le_of_lt (Nat.mod_le _ _) (BitVec.isLt _)
  | toBe | bswap => exact hswap

end Words

section Transfer
variable {d : NumericDomain} {ρ : Valuation} {dst : Reg} {op : EndianOp} {size : Nat} {w : Width}

section
variable (h : d.Tracks ρ) (hd : dst.isProgram = true)
include h hd

theorem tracks_leDomain
    (hs : size = 16 ∨ size = 32 ∨ size = 64) :
    (leDomain d dst size).Tracks (update ρ dst (endianResult .toLe size (ρ dst))) := by
  have hlt := endianResult_lt .toLe hs (ρ dst)
  rcases hs with rfl | rfl | rfl
  · exact h.applyAndImm hd (by decide) (by omega)
  · exact h.applyLowMask hd hlt
  · rw [endianResult, BitVec.setWidth_eq, BitVec.setWidth_eq, Function.update_eq_self]
    exact h

theorem tracks_swapDomain
    (hs : size = 16 ∨ size = 32 ∨ size = 64) {v : BitVec 64} (hlt : v.toNat < 2^size) :
    (swapDomain d dst size).Tracks (update ρ dst v) := by
  rcases hs with rfl | rfl | rfl
  · exact h.applyAndImm hd (by decide) (by omega)
  · exact h.applyLowMask hd hlt
  · exact h.forget hd

theorem tracks_endianDomain_w64 (op : EndianOp)
    (hs : size = 16 ∨ size = 32 ∨ size = 64) :
    (endianDomain d dst op size .w64).Tracks
      (update ρ dst (endianResult op size (ρ dst))) := by
  cases op with
  | toLe => exact tracks_leDomain h hd hs
  | toBe => exact tracks_swapDomain h hd hs (endianResult_lt .toBe hs (ρ dst))
  | bswap => exact tracks_swapDomain h hd hs (endianResult_lt .bswap hs (ρ dst))

theorem represents_endianDomain_iff
    (hs : size = 16 ∨ size = 32 ∨ size = 64) :
    (endianDomain d dst op size w).Represents
        (update ρ dst (endianResult op size (ρ dst))) ↔
      (w = .w32 → size = 64 → (endianResult op size (ρ dst)).toNat < 2^32) := by
  have hlt := endianResult_lt op hs (ρ dst)
  have h64 := tracks_endianDomain_w64 h hd op hs
  cases w with
  | w64 =>
    refine iff_of_true h64.represents ?_
    intro hw
    cases hw
  | w32 =>
    constructor
    · intro hrep _ _
      have hle := NumericDomain.le_of_represents_applyAndImm (d := endianDomain d dst op size .w64)
        hd h64.zero (by decide) (by decide) hrep
      rw [update_self] at hle
      omega
    · intro hk
      have hbound : (endianResult op size (ρ dst)).toNat < 2^32 := by
        rcases hs with rfl | rfl | rfl
        · omega
        · exact hlt
        · exact hk rfl rfl
      have h32 := h64.applyLowMask hd hbound
      rw [Function.update_idem] at h32
      exact h32.represents

end

variable {s : State}

theorem represents_precise_iff (h : s.Represents ρ) (v : BitVec 64) :
    (transferEndian false s dst op size w).Represents (update ρ dst v) ↔
      (endianDomain s.domain dst op size w).Represents (update ρ dst v) ∧
        (s.getTnum dst).Has v := by
  constructor
  · intro hrep
    have htnum := hrep.tnum dst
    rw [update_self] at htnum
    exact ⟨hrep.domain, htnum⟩
  · rintro ⟨hdom, ht⟩
    refine ⟨hdom, fun r => ?_⟩
    by_cases hr : r = dst
    · rw [hr, update_self]
      exact ht
    · rw [Function.update_of_ne hr]
      exact h.tnum r

theorem represents_faithful (h : s.Represents ρ) (ht : s.domain.Tracks ρ)
    (hd : dst.isProgram = true) (v : BitVec 64) :
    (transferEndian true s dst op size w).Represents (update ρ dst v) := by
  have hrep := (State.represents_overwrite_iff h hd (Tnum.has_unknown v) _).2
    (ht.forget hd).represents
  refine (SignExtension.represents_congr ?_ ?_).1 hrep
  · rw [Constraints.domain_setTnum]
    exact (Constraints.domain_setTnum { s with
      types := s.types.set dst .scalarValue, domain := s.domain.forget dst } dst _).symm
  · show _ = (markUnknown { s with types := s.types.set dst .scalarValue } dst).tnums
    unfold markUnknown State.setTnum
    split_ifs <;> rfl

theorem not_sharesOld_faithful (v : BitVec 64) :
    ¬ SharesOld (transferEndian true s dst op size w) ρ dst v := by
  rintro ⟨r, -, ⟨i, hi, -⟩, -⟩
  have hnone : (transferEndian true s dst op size w).scalarId dst = none := by
    unfold State.scalarId
    split_ifs
    · rfl
    · exact if_pos rfl
  rw [hnone] at hi
  cases hi

/-- The kernel's treatment is sound. The precise one is sound exactly if the old
tristate number happens to describe the result, no 64-bit result of a 32-bit
instruction leaves the low half, and no register with the same identity holds
the bytes in their old order. -/
theorem transferEndian_sound_iff (h : s.Represents ρ) (hr : s.InRange) (hd : dst.isProgram = true)
    (hs : size = 16 ∨ size = 32 ∨ size = 64) (kernelFaithfulAlu : Bool) :
    ((transferEndian kernelFaithfulAlu s dst op size w).Represents
        (update ρ dst (endianResult op size (ρ dst))) ∧
      ¬ SharesOld (transferEndian kernelFaithfulAlu s dst op size w) ρ dst
        (endianResult op size (ρ dst))) ↔
    kernelFaithfulAlu = true ∨
      (s.getTnum dst).Has (endianResult op size (ρ dst)) ∧
      (w = .w32 → size = 64 → (endianResult op size (ρ dst)).toNat < 2^32) ∧
      ¬ SharesOld s ρ dst (endianResult op size (ρ dst)) := by
  have ht := NumericDomain.tracks_of_ready (d := s.domain) ⟨h.domain, hr, h.zero⟩
  cases kernelFaithfulAlu with
  | true => exact iff_of_true ⟨represents_faithful h ht hd _, not_sharesOld_faithful _⟩ (Or.inl rfl)
  | false =>
    have hids : SharesOld (transferEndian false s dst op size w) ρ dst
        (endianResult op size (ρ dst)) ↔ SharesOld s ρ dst (endianResult op size (ρ dst)) :=
      Iff.rfl
    rw [hids, represents_precise_iff h, represents_endianDomain_iff ht hd hs]
    simp only [Bool.false_eq_true, false_or]
    tauto

end Transfer

open NegTransfer (one holdingOne represents_holdingOne inRange_holdingOne)

/-- `r1 = bswap16 r1` turns one into 256, and the tristate number still has
one. -/
theorem swapped_one_lost :
    holdingOne.Represents one ∧ holdingOne.InRange ∧
      ¬ (transferEndian false holdingOne .r1 .bswap 16 .w64).Represents
        (update one .r1 (endianResult .bswap 16 (one .r1))) := by
  refine ⟨represents_holdingOne, inRange_holdingOne, fun h => ?_⟩
  exact absurd ((represents_precise_iff represents_holdingOne _).1 h).2 (by decide)

theorem minus_one_swapped :
    (transferEndian false unconstrainedInterval .r1 .toBe 16 .w32).Represents
        (update minusOne .r1 (endianResult .toBe 16 (minusOne .r1))) ∧
      ¬ SharesOld (transferEndian false unconstrainedInterval .r1 .toBe 16 .w32) minusOne .r1
        (endianResult .toBe 16 (minusOne .r1)) := by
  refine (transferEndian_sound_iff represents_unconstrainedInterval inRange_unconstrainedInterval
    (by decide) (Or.inl rfl) false).2 (Or.inr ⟨Tnum.has_unknown _, by decide, ?_⟩)
  rintro ⟨r, -, ⟨i, hi, -⟩, -⟩
  cases hi

end ZoneVerifier.ByteSwap
