import ZoneVerifier.DivTransfer
import ZoneVerifier.StackOps

/-!
# Sign-extending moves

`transfer_mov_sx` (`analysis/transfer/alu/mod.rs`) forgets the destination and
bounds it by the narrow signed type; a 32-bit move keeps the bounds of a source
that lies in one half of it. The source is read after the destination is
forgotten. The fresh identity, the check of the source and the slots of wide
instructions are passed in.
-/

set_option autoImplicit false

namespace ZoneVerifier.SignExtension
open Word Ast Concrete Tristate Machine RegExec ShiftTransfer StackOps DivTransfer
open Numeric (NumericDomain)
open Function (update)

def maxPositive (bits : SxWidth) : Int := 2^(sxBits bits - 1) - 1

def mask (bits : SxWidth) : Int := 2^sxBits bits - 1

def signBit (bits : SxWidth) : Int := 2^(sxBits bits - 1)

/-- What a negative narrow value gains when it is read as 32 unsigned bits. -/
def ext (bits : SxWidth) : Int := 2^32 - 2^sxBits bits

def sourceInterval (d : NumericDomain) : Operand → Int × Int
  | .reg r => d.getInterval r
  | .imm v => (v, v)

def lowInterval (bits : SxWidth) (src : Int × Int) : Int × Int :=
  if 0 ≤ src.1 ∧ src.2 ≤ maxPositive bits then src
  else if signBit bits ≤ src.1 ∧ src.2 ≤ mask bits then
    (wrapI64 (src.1 + ext bits), wrapI64 (src.2 + ext bits))
  else (0, 0xFFFFFFFF)

def movSxInterval (d : NumericDomain) (w : Width) (bits : SxWidth) (src : Operand) : Int × Int :=
  match w with
  | .w64 => (-signBit bits, maxPositive bits)
  | .w32 => lowInterval bits (sourceInterval d src)

def movSxDomain (d : NumericDomain) (w : Width) (bits : SxWidth) (dst : Reg) (src : Operand) :
    NumericDomain :=
  let d := d.forget dst
  let range := movSxInterval d w bits src
  (d.assumeGeImm dst range.1).assumeLeImm dst range.2

def transferMovSx (readable : Bool) (invalidPc : Nat → Bool) (id : Nat) (s : State) (w : Width)
    (bits : SxWidth) (dst : Reg) (src : Operand) : Option State :=
  if readable = false ∨ dst = .r10 then none
  else
    let s := { s with types := s.types.set dst .scalarValue }
    let s := State.setTnum { s with domain := movSxDomain s.domain w bits dst src } dst Tnum.unknown
    let s := putScalarIdOff (putScalarId s dst (some id)) dst none
    let s := putPrecise s dst false
    some { s with pc := if invalidPc (s.pc + 1) then s.pc + 2 else s.pc + 1 }

section Words
variable {y : BitVec 64} (bits : SxWidth)

section
variable (y : BitVec 64)

theorem signed_movSx :
    signed (movSxResult .w64 bits y) = (y.setWidth (sxBits bits)).toInt := by
  rw [signed, ← toInt_eq_toI64]
  exact BitVec.toInt_signExtend_of_le (by cases bits <;> decide)

theorem signed_movSx_range :
    -signBit bits ≤ signed (movSxResult .w64 bits y) ∧
      signed (movSxResult .w64 bits y) ≤ maxPositive bits := by
  rw [signed_movSx]
  have h1 := BitVec.le_toInt (y.setWidth (sxBits bits))
  have h2 := BitVec.toInt_lt (x := y.setWidth (sxBits bits))
  exact ⟨h1, Int.le_sub_one_of_lt h2⟩

theorem toNat_movSx_w32 :
    ((movSxResult .w32 bits y).toNat : Int) = (y.toNat % 2^sxBits bits : Nat) +
      if y.toNat % 2^sxBits bits < 2^(sxBits bits - 1) then 0 else ext bits := by
  have hext : (movSxResult .w32 bits y).toNat =
      ((y.setWidth (sxBits bits)).signExtend 32).toNat := by
    rw [movSxResult, BitVec.toNat_setWidth]
    exact Nat.mod_eq_of_lt (Nat.lt_trans (BitVec.isLt _) (by decide))
  rw [hext, BitVec.toNat_signExtend, BitVec.msb_eq_decide]
  simp only [BitVec.toNat_setWidth, decide_eq_true_eq]
  unfold ext
  by_cases hsign : y.toNat % 2^sxBits bits < 2^(sxBits bits - 1)
  · rw [if_pos hsign, if_neg (Nat.not_le.2 hsign)]
    cases bits <;> simp only [sxBits] <;> omega
  · rw [if_neg hsign, if_pos (Nat.not_lt.1 hsign)]
    cases bits <;> simp only [sxBits] <;> omega

theorem toNat_movSx_w32_lt : (movSxResult .w32 bits y).toNat < 2^32 := by
  rw [movSxResult, BitVec.toNat_setWidth]
  omega

end

theorem lowInterval_spec {src : Int × Int} (hlo : I64 src.1) (hhi : I64 src.2)
    (h1 : src.1 ≤ signed y) (h2 : signed y ≤ src.2) :
    0 ≤ (lowInterval bits src).1 ∧
      (lowInterval bits src).1 ≤ (movSxResult .w32 bits y).toNat ∧
      (movSxResult .w32 bits y).toNat ≤ (lowInterval bits src).2 ∧
      (lowInterval bits src).2 < 2^32 := by
  have hlt := toNat_movSx_w32_lt bits y
  have hres := toNat_movSx_w32 bits y
  have hnat := NumericDomain.toNat_of_nonneg (v := y)
  unfold lowInterval
  unfold I64 at hlo hhi
  split
  case isTrue hpos =>
    unfold maxPositive at hpos
    cases bits <;> simp only [sxBits] at hpos hres <;> split_ifs at hres <;> omega
  case isFalse =>
    split
    case isTrue hneg =>
      unfold signBit mask at hneg
      unfold ext at hres ⊢
      cases bits <;> simp only [sxBits] at hneg hres ⊢ <;>
        rw [wrapI64_of_range (by omega) (by omega), wrapI64_of_range (by omega) (by omega)] <;>
        have hy := hnat (by omega) <;> split_ifs at hres <;> omega
    case isFalse =>
      omega

end Words

section Transfer
variable {d : NumericDomain} {ρ : Valuation} {dst : Reg} {src : Operand}

/-- Forgetting a register keeps what is known of the source, also where the two
are the same register. -/
theorem sourceInterval_spec (h : d.Tracks ρ) (hsrc : ImmRange src) :
    I64 (sourceInterval d src).1 ∧ I64 (sourceInterval d src).2 ∧
      (sourceInterval d src).1 ≤ signed (operandValue ρ src) ∧
      signed (operandValue ρ src) ≤ (sourceInterval d src).2 := by
  cases src with
  | imm v =>
    have hv : signed (operandValue ρ (.imm v)) = v := signed_ofInt hsrc
    rw [hv]
    exact ⟨hsrc, hsrc, Int.le_refl v, Int.le_refl v⟩
  | reg r =>
    obtain ⟨hlo, hhi⟩ := h.getInterval_range r
    obtain ⟨h1, h2⟩ := NumericDomain.getInterval_sound h.represents h.zero r
    exact ⟨hlo, hhi, h1, h2⟩

theorem tracks_movSx_w32 (h : d.Tracks ρ) (hd : dst.isProgram = true) (hsrc : ImmRange src)
    (bits : SxWidth) : (movSxDomain d .w32 bits dst src).Tracks
      (update ρ dst (movSxResult .w32 bits (operandValue ρ src))) := by
  have hforget : (d.forget dst).Tracks ρ := by
    have hf := h.forget (v := ρ dst) hd
    rwa [Function.update_eq_self] at hf
  obtain ⟨hlo, hhi, h1, h2⟩ := sourceInterval_spec hforget hsrc
  obtain ⟨h0, h3, h4, h5⟩ := lowInterval_spec bits hlo hhi h1 h2
  have hs : signed (movSxResult .w32 bits (operandValue ρ src)) =
      (movSxResult .w32 bits (operandValue ρ src)).toNat := toI64_of_lt (by omega)
  unfold movSxDomain movSxInterval
  dsimp only
  generalize lowInterval bits (sourceInterval (d.forget dst) src) = range at h0 h3 h4 h5
  exact tracks_ends h hd (by unfold I64; omega) (by unfold I64; omega) (by omega) (by omega)
    fun _ => Or.inl h0

/-- The interval domain keeps a result of a 64-bit move exactly if it is not
negative: the upper end is read as a bound on the low half. -/
theorem intervalKept_movSx_iff (d : NumericDomain) (bits : SxWidth) (y : BitVec 64) :
    d.intervalKept (-signBit bits) (maxPositive bits) (movSxResult .w64 bits y) ↔
      (d.isInterval = true → (y.setWidth (sxBits bits)).msb = false) := by
  rw [BitVec.msb_eq_toInt, decide_eq_false_iff_not, Int.not_lt, ← signed_movSx]
  refine imp_congr_right fun _ => ?_
  obtain ⟨h1, h2⟩ := signed_movSx_range bits y
  unfold Interval.IntervalKept
  unfold signed toI64 lo32 at *
  unfold signBit maxPositive at *
  cases bits <;> simp only [sxBits] at * <;> split_ifs at * <;> omega

theorem represents_congr {s t : State} (hdom : s.domain = t.domain) (htnum : s.tnums = t.tnums) :
    s.Represents ρ ↔ t.Represents ρ := by
  have hget (r : Reg) : s.getTnum r = t.getTnum r := by
    unfold State.getTnum
    rw [htnum]
  constructor
  · intro h
    exact ⟨hdom ▸ h.domain, fun r => hget r ▸ h.tnum r⟩
  · intro h
    exact ⟨hdom ▸ h.domain, fun r => hget r ▸ h.tnum r⟩

variable {s s' : State} {readable : Bool} {invalidPc : Nat → Bool} {id : Nat} {w : Width}
  {bits : SxWidth}

theorem represents_transferMovSx_iff (h : s.Represents ρ) (hd : dst.isProgram = true)
    (hs : transferMovSx readable invalidPc id s w bits dst src = some s') (v : BitVec 64) :
    s'.Represents (update ρ dst v) ↔
      (movSxDomain s.domain w bits dst src).Represents (update ρ dst v) := by
  unfold transferMovSx at hs
  split_ifs at hs
  rw [← State.represents_overwrite_iff h hd (Tnum.has_unknown v), ← Option.some.inj hs]
  refine represents_congr ?_ ?_
  · rw [Constraints.domain_setTnum]
    exact Constraints.domain_setTnum _ _ _
  · unfold State.setTnum
    split_ifs <;> rfl

/-- A sign-extending move is sound but for the 64-bit one of the interval
domain, which loses every negative result. -/
theorem transferMovSx_represents_iff (h : s.Represents ρ) (hr : s.InRange)
    (hd : dst.isProgram = true) (hsrc : ImmRange src)
    (hs : transferMovSx readable invalidPc id s w bits dst src = some s') :
    s'.Represents (update ρ dst (movSxResult w bits (operandValue ρ src))) ↔
      w = .w32 ∨ (s.domain.isInterval = true →
        ((operandValue ρ src).setWidth (sxBits bits)).msb = false) := by
  have ht := NumericDomain.tracks_of_ready (d := s.domain) ⟨h.domain, hr, h.zero⟩
  rw [represents_transferMovSx_iff h hd hs]
  cases w with
  | w32 =>
    simp only [true_or, iff_true]
    exact (tracks_movSx_w32 ht hd hsrc bits).represents
  | w64 =>
    simp only [reduceCtorEq, false_or]
    rw [← intervalKept_movSx_iff s.domain]
    obtain ⟨hlo, hhi⟩ : I64 (-signBit bits) ∧ I64 (maxPositive bits) := by cases bits <;> decide
    obtain ⟨h1, h2⟩ := signed_movSx_range bits (operandValue ρ src)
    constructor
    · intro hrep
      by_contra hlost
      exact (rejects_ends hd hlo hlost).not_represents hrep
    · intro hk
      exact (tracks_ends ht hd hlo hhi h1 h2 hk).represents

end Transfer

/-- `r1 = (s8) r1` leaves minus one as it is, and the interval domain, which has
it between -128 and 127, has lost it. -/
theorem extended_minus_one_lost :
    unconstrainedInterval.Represents minusOne ∧ unconstrainedInterval.InRange ∧
      ∃ s', transferMovSx true (fun _ => false) 1 unconstrainedInterval .w64 .b8 .r1 (.reg .r1) =
          some s' ∧
        ¬ s'.Represents (update minusOne .r1 (movSxResult .w64 .b8 (minusOne .r1))) := by
  refine ⟨represents_unconstrainedInterval, inRange_unconstrainedInterval, _, rfl, ?_⟩
  have hs : transferMovSx true (fun _ => false) 1 unconstrainedInterval .w64 .b8 .r1 (.reg .r1) =
      some _ := rfl
  rw [represents_transferMovSx_iff represents_unconstrainedInterval (by decide) hs]
  have hlost : ¬ unconstrainedInterval.domain.intervalKept (-signBit .b8) (maxPositive .b8)
      (movSxResult .w64 .b8 (minusOne .r1)) := fun hk => absurd (hk rfl) (by decide)
  exact (rejects_ends (by decide) (by decide) hlost).not_represents

open NegTransfer (one holdingOne represents_holdingOne inRange_holdingOne)

theorem one_extended :
    ∃ s', transferMovSx true (fun _ => false) 1 holdingOne .w64 .b8 .r1 (.reg .r1) = some s' ∧
      s'.Represents (update one .r1 (movSxResult .w64 .b8 (one .r1))) := by
  have hs : transferMovSx true (fun _ => false) 1 holdingOne .w64 .b8 .r1 (.reg .r1) = some _ := rfl
  have hsrc : ImmRange (.reg .r1) := trivial
  exact ⟨_, hs, (transferMovSx_represents_iff represents_holdingOne inRange_holdingOne (by decide)
    hsrc hs).2 (Or.inr fun _ => by decide)⟩

end ZoneVerifier.SignExtension
