import ZoneVerifier.ArshTransfer

/-!
# The left shift

`handle_shl` and `lsh_domain_known` (`analysis/transfer/alu/shift.rs`). The ends
of the old interval are shifted where no significant bit leaves the word: in the
narrow width below `2^32`, in the wide one below `2^63`, and for a shift by 32
also on both sides of zero.
-/

set_option autoImplicit false

namespace ZoneVerifier.ShiftTransfer
open Word Ast Concrete Tristate Machine
open Numeric (NumericDomain)
open Tristate.Tnum (ShiftOp)
open Tristate.Tnum.ShiftOp (bitWidth)
open Function (update update_self)

def shlI64 (x : Int) (k : Nat) : Int := wrapI64 (x * 2^k)

def maxSafe (k : Nat) : Int := if k = 63 then 0 else (2^63 - 1) / 2^k

def shlKnown (d : NumericDomain) (t : Tnum) (dst : Reg) (k : Nat) : Width → NumericDomain
  | .w32 =>
    let (truncLo, truncHi) := truncEnds t (d.getInterval dst)
    let d := d.forget dst
    if k < 32 then
      if truncHi ≤ (2^32 - 1) >>> k then
        (d.assumeGeImm dst (toI64 (lo32 (truncLo <<< k)))).assumeLeImm dst
          (toI64 (lo32 (truncHi <<< k)))
      else (d.assumeGeImm dst 0).assumeLeImm dst (2^32 - 1)
    else d.assumeEqImm dst 0
  | .w64 =>
    let (oldLo, oldHi) := d.getInterval dst
    let d := d.forget dst
    if k = 32 then
      if oldLo ≠ -2^63 ∧ oldHi ≠ 2^63 - 1 ∧ -2^31 ≤ oldLo ∧ oldHi ≤ 2^31 - 1 then
        (d.assumeGeImm dst (shlI64 oldLo 32)).assumeLeImm dst (shlI64 oldHi 32)
      else d
    else if oldLo ≠ -2^63 ∧ oldHi ≠ 2^63 - 1 ∧ 0 ≤ oldLo ∧ k < 64 ∧ oldHi ≤ maxSafe k then
      (d.assumeGeImm dst (shlI64 oldLo k)).assumeLeImm dst (shlI64 oldHi k)
    else d

def shlReg (d : NumericDomain) (dst : Reg) : Width → NumericDomain
  | .w32 => ((d.forget dst).assumeGeImm dst 0).assumeLeImm dst (2^32 - 1)
  | .w64 => d.forget dst

def lshDomainKnown (s : State) (w : Width) (dst : Reg) (k : Nat) : State :=
  overwrite s dst (shlKnown s.domain (s.getTnum dst) dst k w)
    (ShiftOp.shl.known w (s.getTnum dst) k)

/-- Other than the right shifts, a left shift by a register with a constant
value is treated as one by an immediate. -/
def handleShl (s : State) (w : Width) (dst : Reg) (src : Operand) : State :=
  if ShiftOp.oversized w (source s src) then overwrite s dst (s.domain.forget dst) Tnum.unknown
  else
    match src with
    | .imm k => lshDomainKnown s w dst (immAmount w k)
    | .reg r =>
      match (s.getTnum r).constValue with
      | some c => lshDomainKnown s w dst (lo32 c.toNat % bitWidth w)
      | none => overwrite s dst (shlReg s.domain dst w) (ShiftOp.shl.unknownAmount w)

section Words
variable {x : BitVec 64} {k : Nat}

theorem shlI64_of_range {x : Int} (h : I64 (x * 2^k)) : shlI64 x k = x * 2^k :=
  wrapI64_of_range h.1 h.2

theorem signed_shl (x : BitVec 64) (k : Nat) :
    signed (ShiftOp.shl.runBy .w64 x k) = shlI64 (signed x) k := by
  obtain ⟨q, hq⟩ := exists_toI64 x.toNat
  have hn : (ShiftOp.shl.runBy .w64 x k).toNat = x.toNat * 2^k % 2^64 := by
    rw [ShiftOp.runBy, ShiftOp.word, BitVec.toNat_shiftLeft, Nat.shiftLeft_eq]
  have hself : wrapI64 ((x.toNat * 2^k : Nat) : Int) = toI64 (x.toNat * 2^k % 2^64) := by
    congr 1
  rw [signed, hn, ← hself]
  refine wrapI64_congr ?_
  rw [signed, hq, Int.add_mul, Int.mul_assoc, Int.add_mul_emod_self_left]
  rfl

theorem lo32_shl (x : BitVec 64) : lo32 (ShiftOp.shl.runBy .w64 x 32).toNat = 0 := by
  rw [ShiftOp.runBy, ShiftOp.word, BitVec.toNat_shiftLeft, Nat.shiftLeft_eq]
  unfold lo32
  omega

theorem shlI64_between {lo v hi : Int} (h1 : lo ≤ v) (h2 : v ≤ hi) (hlo : -2^63 ≤ lo * 2^k)
    (hhi : hi * 2^k < 2^63) : shlI64 lo k ≤ shlI64 v k ∧ shlI64 v k ≤ shlI64 hi k ∧
      I64 (shlI64 lo k) ∧ I64 (shlI64 hi k) := by
  have hp : (0 : Int) ≤ 2^k := Int.le_of_lt (Int.pow_pos (by decide))
  have h3 := Int.mul_le_mul_of_nonneg_right h1 hp
  have h4 := Int.mul_le_mul_of_nonneg_right h2 hp
  have hrange : I64 (lo * 2^k) ∧ I64 (v * 2^k) ∧ I64 (hi * 2^k) := by
    unfold I64
    omega
  rw [shlI64_of_range hrange.1, shlI64_of_range hrange.2.1, shlI64_of_range hrange.2.2]
  exact ⟨h3, h4, hrange.1, hrange.2.2⟩

theorem mul_pow_of_le_maxSafe {hi : Int} (h : hi ≤ maxSafe k) (h0 : 0 ≤ hi) :
    hi * 2^k < 2^63 := by
  have hp : (0 : Int) < 2^k := Int.pow_pos (by decide)
  unfold maxSafe at h
  split_ifs at h with hk
  · obtain rfl : hi = 0 := by omega
    simp
  · have := (Int.le_ediv_iff_mul_le hp).1 h
    omega

theorem toNat_shl_w32 (x : BitVec 64) (k : Nat) :
    (ShiftOp.shl.runBy .w32 x k).toNat = lo32 (lo32 x.toNat <<< k) := by
  rw [ShiftOp.runBy, ShiftOp.word, BitVec.toNat_setWidth, BitVec.toNat_shiftLeft,
    BitVec.toNat_setWidth]
  exact Nat.mod_eq_of_lt (Nat.lt_trans (Nat.mod_lt _ (by decide)) (by decide))

theorem shiftLeft_mono {a b : Nat} (k : Nat) (h : a ≤ b) : a <<< k ≤ b <<< k := by
  rw [Nat.shiftLeft_eq, Nat.shiftLeft_eq]
  exact Nat.mul_le_mul_right _ h

theorem shiftLeft_lt {n : Nat} (h : n ≤ (2^32 - 1) >>> k) : n <<< k < 2^32 := by
  rw [Nat.shiftRight_eq_div_pow, Nat.le_div_iff_mul_le (Nat.pow_pos (by decide))] at h
  rw [Nat.shiftLeft_eq]
  omega

end Words

section Shl
variable {d : NumericDomain} {ρ : Valuation} {t : Tnum} {dst : Reg} {k : Nat}

section
variable (h : d.Tracks ρ)
include h

theorem tracks_shlReg (hd : dst.isProgram = true) (w : Width) :
    (shlReg d dst w).Tracks (update ρ dst (ShiftOp.shl.runBy w (ρ dst) k)) := by
  cases w with
  | w64 => exact h.forget hd
  | w32 =>
    have hup : (update ρ dst (ShiftOp.shl.runBy .w32 (ρ dst) k) dst).toNat ≤ 2^32 - 1 := by
      have hlt := lo32_lt (lo32 (ρ dst).toNat <<< k)
      rw [update_self, toNat_shl_w32]
      omega
    exact tracks_between (h.forget hd) (Nat.zero_le _) hup (by decide)

theorem tracks_shlKnown_w32 (ht : t.Has (ρ dst)) (hd : dst.isProgram = true)
    (hk : k < 32) :
    (shlKnown d t dst k .w32).Tracks
      (update ρ dst (ShiftOp.shl.runBy .w32 (ρ dst) k)) := by
  obtain ⟨hl, hu⟩ := NumericDomain.getInterval_sound h.represents h.zero dst
  obtain ⟨h1, h2, h3⟩ := truncEnds_spec ht hl hu
  have hres : (update ρ dst (ShiftOp.shl.runBy .w32 (ρ dst) k) dst).toNat =
      lo32 (lo32 (ρ dst).toNat <<< k) := by
    rw [update_self, toNat_shl_w32]
  have hlt := lo32_lt (lo32 (ρ dst).toNat <<< k)
  unfold shlKnown
  dsimp only
  rw [if_pos hk]
  split
  case isTrue hfit =>
    have hlo := shiftLeft_mono k h1
    have hhi := shiftLeft_mono k h2
    have htop := shiftLeft_lt hfit
    have e1 : lo32 ((truncEnds t (d.getInterval dst)).1 <<< k) =
        (truncEnds t (d.getInterval dst)).1 <<< k := Nat.mod_eq_of_lt (by omega)
    have e2 : lo32 ((truncEnds t (d.getInterval dst)).2 <<< k) =
        (truncEnds t (d.getInterval dst)).2 <<< k := Nat.mod_eq_of_lt htop
    have e3 : lo32 (lo32 (ρ dst).toNat <<< k) = lo32 (ρ dst).toNat <<< k :=
      Nat.mod_eq_of_lt (by omega)
    rw [e1, e2]
    refine tracks_between (h.forget hd) ?_ ?_ (by omega)
    · rw [hres, e3]
      exact hlo
    · rw [hres, e3]
      exact hhi
  case isFalse =>
    have hup : (update ρ dst (ShiftOp.shl.runBy .w32 (ρ dst) k) dst).toNat ≤ 2^32 - 1 := by
      omega
    exact tracks_between (h.forget hd) (Nat.zero_le _) hup (by decide)

theorem tracks_shlEnds (hd : dst.isProgram = true)
    (hlo : -2^63 ≤ (d.getInterval dst).1 * 2^k) (hhi : (d.getInterval dst).2 * 2^k < 2^63)
    (hk : 0 ≤ (d.getInterval dst).1 ∨ k = 32) :
    (((d.forget dst).assumeGeImm dst (shlI64 (d.getInterval dst).1 k)).assumeLeImm dst
      (shlI64 (d.getInterval dst).2 k)).Tracks
        (update ρ dst (ShiftOp.shl.runBy .w64 (ρ dst) k)) := by
  obtain ⟨hl, hu⟩ := NumericDomain.getInterval_sound h.represents h.zero dst
  obtain ⟨h1, h2, h3, h4⟩ := shlI64_between hl hu hlo hhi
  rw [signedOf, ← signed_shl] at h1 h2
  refine tracks_ends h hd h3 h4 h1 h2 fun _ => ?_
  rcases hk with hpos | rfl
  · left
    have hp : (0 : Int) ≤ 2^k := Int.le_of_lt (Int.pow_pos (by decide))
    have h5 := Int.mul_le_mul_of_nonneg_right (Int.le_trans hl hu) hp
    rw [shlI64_of_range ⟨hlo, by omega⟩]
    exact Int.mul_nonneg hpos hp
  · have hlow := lo32_shl (ρ dst)
    unfold Interval.IntervalKept
    omega

theorem tracks_shlKnown_w64 (hd : dst.isProgram = true) (t : Tnum) (k : Nat) :
    (shlKnown d t dst k .w64).Tracks
      (update ρ dst (ShiftOp.shl.runBy .w64 (ρ dst) k)) := by
  obtain ⟨hl, hu⟩ := NumericDomain.getInterval_sound h.represents h.zero dst
  unfold shlKnown
  dsimp only
  split
  case isTrue hk =>
    subst hk
    split
    case isTrue hfit => exact tracks_shlEnds h hd (by omega) (by omega) (Or.inr rfl)
    case isFalse => exact h.forget hd
  case isFalse =>
    split
    case isTrue hfit =>
      obtain ⟨-, -, hpos, -, hsafe⟩ := hfit
      have hp : (0 : Int) ≤ 2^k := Int.le_of_lt (Int.pow_pos (by decide))
      have h0 := Int.mul_nonneg hpos hp
      have htop := mul_pow_of_le_maxSafe hsafe (by omega)
      exact tracks_shlEnds h hd (by omega) htop (Or.inl hpos)
    case isFalse => exact h.forget hd

theorem tracks_shlKnown (ht : t.Has (ρ dst)) (hd : dst.isProgram = true)
    {w : Width} (hk : k < bitWidth w) :
    (shlKnown d t dst k w).Tracks (update ρ dst (ShiftOp.shl.runBy w (ρ dst) k)) := by
  cases w with
  | w32 => exact tracks_shlKnown_w32 h ht hd hk
  | w64 => exact tracks_shlKnown_w64 h hd t k

end

end Shl

section Handler
variable {s : State} {ρ : Valuation} {w : Width} {dst : Reg} {src : Operand}

theorem represents_lshDomainKnown (h : s.Represents ρ) (ht : s.domain.Tracks ρ)
    (hd : dst.isProgram = true) {k : Nat} (hk : k < bitWidth w) :
    (lshDomainKnown s w dst k).Represents
      (update ρ dst (ShiftOp.shl.runBy w (ρ dst) k)) :=
  represents_overwrite h hd (ShiftOp.shl.has_known w hk (h.tnum dst))
    (tracks_shlKnown ht (h.tnum dst) hd hk)

/-- A left shift is sound in both widths and domains, for amounts in an
immediate, in a register with a known value and in one without. -/
theorem handleShl_sound (h : s.Represents ρ) (hr : s.InRange) (hd : dst.isProgram = true) :
    (handleShl s w dst src).Represents
      (update ρ dst (ShiftOp.shl.run w (ρ dst) (operandValue ρ src))) := by
  have ht := NumericDomain.tracks_of_ready (d := s.domain) ⟨h.domain, hr, h.zero⟩
  have hk := Nat.mod_lt (operandValue ρ src).toNat (ShiftOp.bitWidth_pos w)
  unfold handleShl
  split
  case isTrue => exact represents_oversized h ht hd _
  case isFalse =>
    cases src with
    | imm c =>
      dsimp only
      rw [immAmount_eq]
      exact represents_lshDomainKnown h ht hd hk
    | reg r =>
      dsimp only
      split
      case h_1 c hc =>
        -- the only word of the register is the constant
        have hval : ρ r = c := ShiftOp.eq_of_constValue hc (h.tnum r)
        have hamount : lo32 c.toNat % bitWidth w = (operandValue ρ (.reg r)).toNat % bitWidth w := by
          rw [operandValue, hval]
          unfold lo32
          cases w <;> simp only [bitWidth] <;> omega
        rw [hamount]
        exact represents_lshDomainKnown h ht hd hk
      case h_2 =>
        have hhas := ShiftOp.shl.has_unknownAmount w (ρ dst) ((ρ r).toNat % bitWidth w)
        exact represents_overwrite h hd hhas (tracks_shlReg ht hd w)

end Handler

/-- `r1 <<= 32` of minus one, from an interval that knows nothing. -/
theorem minus_one_moved_up :
    (handleShl unconstrainedInterval .w64 .r1 (.imm 32)).Represents
      (update minusOne .r1 (ShiftOp.shl.run .w64 (minusOne .r1)
        (operandValue minusOne (.imm 32)))) :=
  handleShl_sound represents_unconstrainedInterval inRange_unconstrainedInterval (by decide)

end ZoneVerifier.ShiftTransfer
