import ZoneVerifier.NegTransfer

/-!
# Division and remainder

`handle_div` divides the bounds of a non-negative dividend by a positive
immediate and `handle_mod` bounds the remainder by a positive divisor
(`analysis/transfer/alu/arithmetic.rs`). The operations are unsigned, and a
32-bit one divides by the low half, which may be zero where the operand is not.
`transfer_alu` rejects an immediate zero before.
-/

set_option autoImplicit false

open Function (update update_self update_idem)

namespace ZoneVerifier.Zone
open Ast

def applyDivImm (d : Dbm) (reg : Reg) (imm : Int) : Dbm :=
  if imm = 0 then d
  else
    let (l, h) := getInterval d reg
    let d := forget d reg
    if 0 < imm ∧ l ≠ -2^63 ∧ h ≠ 2^63 - 1 ∧ 0 ≤ l ∧ 0 ≤ h then
      assumeLeImm (assumeGeImm d reg (l.tdiv imm)) reg (h.tdiv imm)
    else d

end ZoneVerifier.Zone

namespace ZoneVerifier.Interval
open Word Ast Bounds

def divEnds (b : ScalarBounds) (imm : Int) : ScalarBounds :=
  { ScalarBounds.unknown with
    smin := b.smin.tdiv imm, smax := b.smax.tdiv imm
    umin := b.umin / toU64 imm, umax := b.umax / toU64 imm }

def applyDivImm (s : IntervalState) (reg : Reg) (imm : Int) : IntervalState :=
  if (reg = .zero ∨ reg.isAnchor) ∨ imm = 0 then s
  else
    let b := s.getBounds reg
    if 0 < imm ∧ 0 ≤ b.smin then
      s.update reg { bounds := (divEnds b imm).forget32ThenSync, ptrOffset := none }
    else s.forget reg

end ZoneVerifier.Interval

namespace ZoneVerifier.Numeric.NumericDomain
open Word Ast Bounds Concrete

def applyDivImm : NumericDomain → Reg → Int → NumericDomain
  | zone d, reg, imm => zone (Zone.applyDivImm d reg imm)
  | interval s, reg, imm => interval (Interval.applyDivImm s reg imm)

def applyDivReg (d : NumericDomain) (dst _src : Reg) : NumericDomain := d.forget dst

section Div
variable {d : NumericDomain} {ρ : Valuation} {x : Reg} {v : BitVec 64} {imm lo hi : Int}

theorem toU64_of_nonneg (h : I64 imm) (h0 : 0 ≤ imm) : (toU64 imm : Int) = imm := by
  unfold toU64
  unfold I64 at h
  omega

theorem toNat_of_nonneg (h : 0 ≤ signed v) : (v.toNat : Int) = signed v := by
  unfold signed toI64 at *
  split_ifs at * <;> omega

theorem toNat_div_ofInt (v : BitVec 64) (imm : Int) :
    (v / BitVec.ofInt 64 imm).toNat = v.toNat / toU64 imm := by
  rw [BitVec.toNat_udiv, toNat_ofInt]

theorem signed_div_ofInt (hc : I64 imm) (h0 : 0 < imm) (hv : 0 ≤ signed v) :
    signed (v / BitVec.ofInt 64 imm) = signed v / imm := by
  have hlt := (signed_range v).2
  have hnat := toNat_of_nonneg hv
  have hle : v.toNat / toU64 imm ≤ v.toNat := Nat.div_le_self _ _
  rw [signed, toNat_div_ofInt, toI64_of_lt (by omega), Int.natCast_ediv, hnat,
    toU64_of_nonneg hc (Int.le_of_lt h0)]

theorem div_between (hc : I64 imm) (h0 : 0 < imm) (hlo : 0 ≤ lo) (h1 : lo ≤ signed v)
    (h2 : signed v ≤ hi) :
    lo.tdiv imm ≤ signed (v / BitVec.ofInt 64 imm) ∧
      signed (v / BitVec.ofInt 64 imm) ≤ hi.tdiv imm := by
  have hv : 0 ≤ signed v := Int.le_trans hlo h1
  rw [signed_div_ofInt hc h0 hv, Int.tdiv_eq_ediv_of_nonneg hlo,
    Int.tdiv_eq_ediv_of_nonneg (Int.le_trans hv h2)]
  exact ⟨Int.ediv_le_ediv h0 h1, Int.ediv_le_ediv h0 h2⟩

theorem tdiv_range (h0 : 0 < imm) (hlo : 0 ≤ lo) (hr : I64 lo) : I64 (lo.tdiv imm) := by
  have hle := Int.ediv_le_self imm hlo
  have hnonneg := Int.ediv_nonneg hlo (Int.le_of_lt h0)
  rw [Int.tdiv_eq_ediv_of_nonneg hlo]
  unfold I64 at *
  omega

theorem applyDivImm_zero (d : NumericDomain) (x : Reg) : d.applyDivImm x 0 = d := by
  cases d with
  | zone d => exact congrArg zone (if_pos rfl)
  | interval s => exact congrArg interval (if_pos (Or.inr rfl))

theorem Tracks.applyDivImm (h : d.Tracks ρ) (hx : x.isProgram = true) (hc : I64 imm)
    (h0 : imm ≠ 0) :
    (d.applyDivImm x imm).Tracks (update ρ x (ρ x / BitVec.ofInt 64 imm)) := by
  cases d with
  | zone d =>
    obtain ⟨hl, hu⟩ := getInterval_sound h.represents h.zero x
    have hf : Zone.Tracks (Zone.forget d x)
        (update ρ x (ρ x / BitVec.ofInt 64 imm)) := h.forget hx
    have hval : signedOf (update ρ x (ρ x / BitVec.ofInt 64 imm)) x =
        signed (ρ x / BitVec.ofInt 64 imm) := by
      rw [signedOf, update_self]
    show Zone.Tracks (Zone.applyDivImm d x imm) _
    unfold Zone.applyDivImm
    rw [if_neg h0]
    dsimp only
    split
    case isTrue hpos =>
      obtain ⟨h1, h2⟩ := div_between hc hpos.1 hpos.2.2.2.1 hl hu
      have hge := hf.assumeGeImm (Zone.geKept_of_le (hval ▸ h1))
      exact hge.assumeLeImm (Zone.leKept_of_le (hval ▸ h2))
    case isFalse => exact hf
  | interval s =>
    have hb := h.rep.has x
    have hr := h.range x
    show (interval (Interval.applyDivImm s x imm)).Tracks _
    unfold Interval.applyDivImm
    rw [if_neg (not_or.2 ⟨Reg.isProgram_iff.1 hx, h0⟩)]
    dsimp only
    split
    case isTrue hpos =>
      obtain ⟨h1, h2⟩ := div_between hc hpos.1 hpos.2 hb.smin_le hb.le_smax
      have hmax : 0 ≤ (s.getBounds x).smax :=
        Int.le_trans hpos.2 (Int.le_trans hb.smin_le hb.le_smax)
      have hrange : (Interval.divEnds (s.getBounds x) imm).InRange := by
        have hun : ScalarBounds.unknown.InRange := by decide
        refine { hun with smin := ?_, smax := ?_, umin := ?_, umax := ?_ }
        · exact tdiv_range hpos.1 hpos.2 hr.smin
        · exact tdiv_range hpos.1 hmax hr.smax
        · exact Nat.lt_of_le_of_lt (Nat.div_le_self _ _) hr.umin
        · exact Nat.lt_of_le_of_lt (Nat.div_le_self _ _) hr.umax
      have hhas : (Interval.divEnds (s.getBounds x) imm).Has
          (ρ x / BitVec.ofInt 64 imm).toNat := by
        refine { ScalarBounds.has_unknown (BitVec.isLt _) with
          smin_le := h1, le_smax := h2, umin_le := ?_, le_umax := ?_ }
        · rw [toNat_div_ofInt]
          exact Nat.div_le_div_right hb.umin_le
        · rw [toNat_div_ofInt]
          exact Nat.div_le_div_right hb.le_umax
      exact ready_update h hx (ScalarBounds.has_syncBounds hrange (BitVec.isLt _) hhas)
        hrange.syncBounds (ScalarBounds.scalarId_syncBounds _)
    case isFalse => exact Tracks.forget (d := interval s) h hx

end Div

end ZoneVerifier.Numeric.NumericDomain

namespace ZoneVerifier.DivTransfer
open Word Ast Concrete Tristate Machine RegExec ShiftTransfer
open Numeric (NumericDomain)

/-- The check of `transfer_alu` before it divides. -/
def isDivByZero : Operand → Bool
  | .imm k => k == 0
  | .reg _ => false

def constQuotient : Width → BitVec 64 → BitVec 64 → BitVec 64
  | .w64, c, k => c / k
  | .w32, c, k => (c.setWidth 32 / k.setWidth 32).setWidth 64

/-- Division by one keeps what is known of the dividend, and a known dividend
has a known quotient. -/
def divTnum (s : State) (w : Width) (dst : Reg) : Operand → Tnum
  | .imm imm =>
    let k := widthBits w (BitVec.ofInt 64 imm)
    let t := if w = .w32 then (s.getTnum dst).trunc32 else s.getTnum dst
    if k = 1 then t
    else if k ≠ 0 then
      match t.constValue with
      | some c => Tnum.constant (constQuotient w c k)
      | none => Tnum.unknown
    else Tnum.unknown
  | .reg _ => Tnum.unknown

def divDomain (d : NumericDomain) (w : Width) (dst : Reg) (src : Operand) : NumericDomain :=
  let d := match src with
    | .imm imm => d.applyDivImm dst imm
    | .reg r => d.applyDivReg dst r
  if w = .w32 then d.applyAndImm dst 0xFFFFFFFF else d

def handleDiv (s : State) (w : Width) (dst : Reg) (src : Operand) : State :=
  let t := divTnum s w dst src
  let s := State.setTnum { s with domain := divDomain s.domain w dst src } dst t
  match (s.getTnum dst).constValue with
  | some c => { s with domain := s.domain.assumeEqImm dst (toI64 c.toNat) }
  | none => s

def modDomain (d : NumericDomain) (kernelFaithful : Bool) (dst : Reg) : Operand → NumericDomain
  | .imm c =>
    let d := d.forget dst
    if kernelFaithful = false ∧ 0 < c then (d.assumeGeImm dst 0).assumeLeImm dst (c - 1) else d
  | .reg r =>
    let (lo, hi) := d.getInterval r
    let d := d.forget dst
    if kernelFaithful then d
    else if 0 < lo ∧ hi ≠ 2^63 - 1 then
      (d.assumeGeImm dst 0).assumeLeImm dst (wrapI64 (hi - 1))
    else if 0 < lo then d.assumeGeImm dst 0
    else d

def handleMod (s : State) (w : Width) (dst : Reg) (src : Operand) (kernelFaithful : Bool) : State :=
  let d := modDomain s.domain kernelFaithful dst src
  let d := if w = .w32 then d.applyW32Truncation dst else d
  State.setTnum { s with domain := d } dst Tnum.unknown

def ImmRange : Operand → Prop
  | .imm c => I64 c
  | .reg _ => True

section Words
variable {x y : BitVec 64}

theorem toNat_constQuotient (w : Width) (x y : BitVec 64) :
    (constQuotient w x y).toNat = readU w x / readU w y := by
  cases w with
  | w64 => exact BitVec.toNat_udiv
  | w32 =>
    have hle := Nat.div_le_self (x.toNat % 2^32) (y.toNat % 2^32)
    simp only [constQuotient, BitVec.toNat_setWidth, BitVec.toNat_udiv]
    exact Nat.mod_eq_of_lt (by omega)

theorem aluResult_div (w : Width) (x y : BitVec 64) :
    aluResult w .div x y = constQuotient w x y := by
  have hzero {n : Nat} (a b : BitVec n) : aluWord .div a b = a / b := by
    rw [aluWord]
    split_ifs with hb
    · rw [hb]
      exact BitVec.udiv_zero.symm
    · rfl
  cases w with
  | w64 => exact hzero x y
  | w32 => rw [aluResult, hzero, constQuotient]

theorem constQuotient_widthBits (w : Width) (x y : BitVec 64) :
    constQuotient w (widthBits w x) (widthBits w y) = constQuotient w x y := by
  apply BitVec.eq_of_toNat_eq
  rw [toNat_constQuotient, toNat_constQuotient, readU_widthBits, readU_widthBits]

theorem constQuotient_of_one {w : Width} (h : widthBits w y = 1) :
    constQuotient w x y = widthBits w x := by
  have hy : readU w y = 1 := by
    rw [← toNat_widthBits, h]
    rfl
  apply BitVec.eq_of_toNat_eq
  rw [toNat_constQuotient, toNat_widthBits, hy, Nat.div_one]

theorem mod_lt (w : Width) (x : BitVec 64) (hy : 0 < signed y) :
    (aluResult w .mod x y).toNat < y.toNat := by
  have hpos : 0 < y.toNat := by
    have := NumericDomain.toNat_of_nonneg (Int.le_of_lt hy)
    omega
  cases w with
  | w64 =>
    have hne : y ≠ 0 := by
      rintro rfl
      exact absurd hpos (by decide)
    rw [aluResult, aluWord, if_neg hne, BitVec.toNat_umod]
    exact Nat.mod_lt _ hpos
  | w32 =>
    by_cases hlow : y.toNat % 2^32 = 0
    · have := aluResult_w32_lt .mod x y
      omega
    · have hne : y.setWidth 32 ≠ 0 := by
        intro h0
        have := congrArg BitVec.toNat h0
        exact hlow this
      have hmod := Nat.mod_lt (x.toNat % 2^32) (Nat.pos_of_ne_zero hlow)
      rw [aluResult, aluWord, if_neg hne, BitVec.toNat_setWidth, BitVec.toNat_umod,
        BitVec.toNat_setWidth, BitVec.toNat_setWidth]
      omega

end Words

section Handlers
variable {s : State} {ρ : Valuation} {dst : Reg} {src : Operand}

theorem has_divTnum (h : s.Represents ρ) (w : Width) (dst : Reg) (src : Operand) :
    (divTnum s w dst src).Has (aluResult w .div (ρ dst) (operandValue ρ src)) := by
  rw [aluResult_div]
  cases src with
  | reg r => exact Tnum.has_unknown _
  | imm imm =>
    have ht : (if w = .w32 then (s.getTnum dst).trunc32 else s.getTnum dst).Has
        (widthBits w (ρ dst)) := by
      cases w with
      | w64 => exact h.tnum dst
      | w32 => exact Tnum.has_trunc32 (h.tnum dst)
    unfold divTnum
    dsimp only
    split
    case isTrue hone =>
      rw [operandValue, constQuotient_of_one hone]
      exact ht
    case isFalse =>
      split
      case isFalse => exact Tnum.has_unknown _
      case isTrue =>
        split
        case h_2 => exact Tnum.has_unknown _
        case h_1 c hc =>
          have hx := Tnum.ShiftOp.eq_of_constValue hc ht
          rw [← hx, constQuotient_widthBits]
          exact (Tnum.has_constant_iff _ _).2 rfl

theorem tracks_divDomain {d : NumericDomain} (h : d.Tracks ρ) (hd : dst.isProgram = true)
    (hsrc : ImmRange src) {w : Width} (hw : w = .w32 ∨ isDivByZero src = false) :
    (divDomain d w dst src).Tracks
      (update ρ dst (aluResult w .div (ρ dst) (operandValue ρ src))) := by
  cases w with
  | w64 =>
    cases src with
    | reg r => exact h.forget hd
    | imm imm =>
      have h0 : imm ≠ 0 := by simpa [isDivByZero] using hw
      rw [aluResult_div]
      exact h.applyDivImm hd hsrc h0
  | w32 =>
    -- The mask overwrites the register, whatever the division left in it.
    have hdiv : ∃ u, (divDomain d .w64 dst src).Tracks (update ρ dst u) := by
      cases src with
      | reg r => exact ⟨0, h.forget hd⟩
      | imm imm =>
        by_cases h0 : imm = 0
        · refine ⟨ρ dst, ?_⟩
          rw [h0, Function.update_eq_self]
          show (d.applyDivImm dst 0).Tracks ρ
          rw [NumericDomain.applyDivImm_zero]
          exact h
        · exact ⟨_, h.applyDivImm hd hsrc h0⟩
    obtain ⟨u, hu⟩ := hdiv
    have hmask := hu.applyLowMask hd (aluResult_w32_lt .div (ρ dst) (operandValue ρ src))
    rw [update_idem] at hmask
    exact hmask

theorem tracks_below {d : NumericDomain} (h : d.Tracks ρ) (hd : dst.isProgram = true) {v : BitVec 64}
    {hi : Int} (hhi : I64 hi) (hv : (v.toNat : Int) ≤ hi) :
    (((d.forget dst).assumeGeImm dst 0).assumeLeImm dst hi).Tracks (update ρ dst v) := by
  have hs : signed v = v.toNat := toI64_of_lt (by unfold I64 at hhi; omega)
  refine tracks_ends h hd (by decide) hhi ?_ ?_ fun _ => Or.inl (by decide)
  · omega
  · omega

theorem tracks_modDomain {d : NumericDomain} (h : d.Tracks ρ) (hd : dst.isProgram = true)
    (hsrc : ImmRange src) (w : Width) (kernelFaithful : Bool) :
    (modDomain d kernelFaithful dst src).Tracks
      (update ρ dst (aluResult w .mod (ρ dst) (operandValue ρ src))) := by
  have hmod := mod_lt w (ρ dst) (y := operandValue ρ src)
  have hnat := NumericDomain.toNat_of_nonneg (v := operandValue ρ src)
  have hforget (v : BitVec 64) := h.forget (v := v) hd
  cases src with
  | imm c =>
    have hc : signed (operandValue ρ (.imm c)) = c := signed_ofInt hsrc
    unfold modDomain
    dsimp only
    split
    case isTrue hpos =>
      unfold ImmRange I64 at hsrc
      exact tracks_below h hd (by unfold I64; omega) (by omega)
    case isFalse => exact hforget _
  | reg r =>
    obtain ⟨hl, hu⟩ := NumericDomain.getInterval_sound h.represents h.zero r
    obtain ⟨-, hhi⟩ := h.getInterval_range r
    have hr : signed (operandValue ρ (.reg r)) = signedOf ρ r := rfl
    unfold modDomain
    dsimp only
    split
    case isTrue => exact hforget _
    case isFalse =>
      split
      case isTrue hpos =>
        unfold I64 at hhi
        rw [wrapI64_of_range (by omega) (by omega)]
        exact tracks_below h hd (by unfold I64; omega) (by omega)
      case isFalse =>
        split
        case isTrue hpos =>
          refine (hforget _).assumeGeImm (by decide) ?_
          rw [signedOf, update_self, signed, toI64_of_lt (by omega)]
          exact Int.natCast_nonneg _
        case isFalse => exact hforget _

section
variable (h : s.Represents ρ) (ht : s.domain.Tracks ρ) (hd : dst.isProgram = true)
  (hsrc : ImmRange src)
include h ht hd hsrc

theorem represents_handleDiv {w : Width}
    (hw : w = .w32 ∨ isDivByZero src = false) :
    (handleDiv s w dst src).Represents
      (update ρ dst (aluResult w .div (ρ dst) (operandValue ρ src))) := by
  have hz := (not_or.1 (Reg.isProgram_iff.1 hd)).1
  have hhas := has_divTnum h w dst src
  have hdom := tracks_divDomain ht hd hsrc hw
  have hrep := (State.represents_write_iff h hd _ _).2 ⟨hdom.represents, hhas⟩
  unfold handleDiv
  dsimp only
  rw [State.getTnum_setTnum, if_pos ⟨rfl, hz⟩]
  cases hc : (divTnum s w dst src).constValue with
  | none => exact hrep
  | some c =>
    have hv := Tnum.ShiftOp.eq_of_constValue hc hhas
    have heq := hdom.assumeEqImm (x := dst) (c := toI64 c.toNat) hd
      (by rw [signedOf, update_self, hv]; rfl)
    refine ⟨?_, hrep.tnum⟩
    rw [Constraints.domain_setTnum]
    exact heq.represents

theorem represents_handleMod (w : Width) (kernelFaithful : Bool) :
    (handleMod s w dst src kernelFaithful).Represents
      (update ρ dst (aluResult w .mod (ρ dst) (operandValue ρ src))) := by
  have hmod := tracks_modDomain ht hd hsrc w kernelFaithful
  refine (State.represents_write_iff h hd _ _).2 ⟨?_, Tnum.has_unknown _⟩
  cases w with
  | w64 => exact hmod.represents
  | w32 =>
    have hlow : NumericDomain.lowHalf (aluResult .w32 .mod (ρ dst) (operandValue ρ src)) =
        aluResult .w32 .mod (ρ dst) (operandValue ρ src) := by
      apply BitVec.eq_of_toNat_eq
      rw [NumericDomain.toNat_lowHalf]
      exact Nat.mod_eq_of_lt (aluResult_w32_lt _ _ _)
    have h32 := hmod.applyW32Truncation hd
    rw [update_self, hlow, update_idem] at h32
    exact h32.represents

end

/-- Both operations are sound, the division as far as `transfer_alu` lets it
through and at 32 bits for every divisor. -/
theorem division_sound (h : s.Represents ρ) (hr : s.InRange) (hd : dst.isProgram = true)
    (hsrc : ImmRange src) (w : Width) (kernelFaithful : Bool) :
    (w = .w32 ∨ isDivByZero src = false → (handleDiv s w dst src).Represents
      (update ρ dst (aluResult w .div (ρ dst) (operandValue ρ src)))) ∧
    (handleMod s w dst src kernelFaithful).Represents
      (update ρ dst (aluResult w .mod (ρ dst) (operandValue ρ src))) := by
  have ht := NumericDomain.tracks_of_ready (d := s.domain) ⟨h.domain, hr, h.zero⟩
  exact ⟨represents_handleDiv h ht hd hsrc, represents_handleMod h ht hd hsrc w kernelFaithful⟩

end Handlers

open NegTransfer (one holdingOne represents_holdingOne inRange_holdingOne)

/-- `r1 /= 0` would keep the bounds of one, and the quotient is zero. -/
theorem division_by_zero_keeps_dividend :
    holdingOne.Represents one ∧ holdingOne.InRange ∧ isDivByZero (.imm 0) = true ∧
      ¬ (handleDiv holdingOne .w64 .r1 (.imm 0)).Represents
        (update one .r1 (aluResult .w64 .div (one .r1) (operandValue one (.imm 0)))) := by
  refine ⟨represents_holdingOne, inRange_holdingOne, rfl, fun h => ?_⟩
  have hdom : holdingOne.domain.Represents (update one .r1 0) := h.domain
  have hmin : (1 : Int) ≤ signed 0 := (hdom.has .r1).smin_le
  exact absurd hmin (by decide)

theorem minus_one_divided :
    (handleDiv unconstrainedInterval .w64 .r1 (.imm (-1))).Represents
      (update minusOne .r1
        (aluResult .w64 .div (minusOne .r1) (operandValue minusOne (.imm (-1))))) ∧
    (handleMod unconstrainedInterval .w64 .r1 (.imm (-1)) false).Represents
      (update minusOne .r1
        (aluResult .w64 .mod (minusOne .r1) (operandValue minusOne (.imm (-1))))) := by
  have hsrc : ImmRange (.imm (-1)) := (by decide : I64 (-1))
  have h := division_sound represents_unconstrainedInterval inRange_unconstrainedInterval
    (by decide : Reg.r1.isProgram = true) hsrc .w64 false
  exact ⟨h.1 (Or.inr rfl), h.2⟩

end ZoneVerifier.DivTransfer
