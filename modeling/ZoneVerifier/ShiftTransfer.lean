import ZoneVerifier.W32Truncation
import ZoneVerifier.TristateArith

/-!
# The right shifts

`handle_shr` and `handle_arsh` forget the destination, refine it by what the
amount allows, store the shifted tristate number and refine once more by its
least and greatest word (`analysis/transfer/alu/shift.rs`, `helpers.rs`). A
known amount of at least the width makes the destination unknown.
-/

set_option autoImplicit false

namespace ZoneVerifier.ShiftTransfer
open Word Ast Bounds Concrete Tristate Machine
open Numeric (NumericDomain)
open Tristate.Tnum (Source ShiftOp)
open Tristate.Tnum.ShiftOp (bitWidth)
open Function (update update_self)

/-- The domain part of `sync_tnum_to_bounds`. -/
def tnumBounds (d : NumericDomain) (reg : Reg) (t : Tnum) : NumericDomain :=
  let tnumMin := toI64 t.minValue.toNat
  let tnumMax := toI64 t.maxValue.toNat
  if t.maxValue.toNat ≤ 2^63 - 1 then
    let (lo, hi) := d.getInterval reg
    let d := if lo = -2^63 ∨ lo < tnumMin then d.assumeGeImm reg tnumMin else d
    if hi = 2^63 - 1 ∨ tnumMax < hi then d.assumeLeImm reg tnumMax else d
  else d

def syncTnumToBounds (s : State) (reg : Reg) : State :=
  { s with domain := tnumBounds s.domain reg (s.getTnum reg) }

def source (s : State) : Operand → Source
  | .imm k => .imm (BitVec.ofInt 64 k)
  | .reg r => .reg (s.getTnum r)

/-- The destination is overwritten: its domain part and its tristate number
are stored, and the one refines the other. -/
def overwrite (s : State) (dst : Reg) (d : NumericDomain) (t : Tnum) : State :=
  syncTnumToBounds (State.setTnum { s with domain := d } dst t) dst

def immAmount (w : Width) (k : Int) : Nat := lo32 (toU64 k) % bitWidth w

/-- The ends of the low half before a 32-bit shift: the tristate number, and
the interval if it lies in the low half. -/
def truncEnds (t : Tnum) (old : Int × Int) : Nat × Nat :=
  if 0 ≤ old.1 ∧ old.2 ≤ 2^32 - 1 then
    (max t.trunc32.minValue.toNat (toU64 old.1), min t.trunc32.maxValue.toNat (toU64 old.2))
  else (max t.trunc32.minValue.toNat 0, min t.trunc32.maxValue.toNat (2^32 - 1))

def shrImm (d : NumericDomain) (t : Tnum) (dst : Reg) (k : Nat) : Width → NumericDomain
  | .w32 =>
    let (truncLo, truncHi) := truncEnds t (d.getInterval dst)
    ((d.forget dst).assumeGeImm dst (toI64 (truncLo >>> k))).assumeLeImm dst (toI64 (truncHi >>> k))
  | .w64 =>
    let (oldLo, oldHi) := d.getInterval dst
    let cap := (2^64 - 1) >>> k
    let d := (d.forget dst).assumeGeImm dst 0
    let d := if 0 < k ∧ cap ≤ 2^63 - 1 then d.assumeLeImm dst (toI64 cap) else d
    if oldLo ≠ -2^63 ∧ oldHi ≠ 2^63 - 1 ∧ 0 ≤ oldLo then
      (d.assumeGeImm dst (toI64 (toU64 oldLo >>> k))).assumeLeImm dst (toI64 (toU64 oldHi >>> k))
    else d

def shrReg (d : NumericDomain) (dst : Reg) : Width → NumericDomain
  | .w32 => ((d.forget dst).assumeGeImm dst 0).assumeLeImm dst (2^32 - 1)
  | .w64 => (d.forget dst).assumeGeImm dst 0

def handleShr (s : State) (w : Width) (dst : Reg) (src : Operand) : State :=
  let t := s.getTnum dst
  if ShiftOp.oversized w (source s src) then overwrite s dst (s.domain.forget dst) Tnum.unknown
  else
    match src with
    | .imm k =>
      overwrite s dst (shrImm s.domain t dst (immAmount w k) w)
        (ShiftOp.shr.known w t (immAmount w k))
    | .reg _ => overwrite s dst (shrReg s.domain dst w) (ShiftOp.shr.unknownAmount w)

section Sync
variable {d : NumericDomain} {ρ : Valuation} {x : Reg} {t : Tnum}

theorem tracks_tnumBounds (h : d.Tracks ρ) (ht : t.Has (ρ x)) : (tnumBounds d x t).Tracks ρ := by
  have hmin := Tnum.minValue_le ht
  have hmax := Tnum.le_maxValue ht
  unfold tnumBounds
  dsimp only
  split
  case isFalse => exact h
  case isTrue hm =>
    have hv : signedOf ρ x = (ρ x).toNat := toI64_of_lt (by omega)
    rw [toI64_of_lt (n := t.minValue.toNat) (by omega),
      toI64_of_lt (n := t.maxValue.toNat) (by omega)]
    have hge : (if (d.getInterval x).1 = -2^63 ∨ (d.getInterval x).1 < t.minValue.toNat then
        d.assumeGeImm x t.minValue.toNat else d).Tracks ρ := by
      split_ifs
      · exact h.assumeGeImm (by unfold I64; omega) (by omega)
      · exact h
    split
    · exact hge.assumeLeImm (by unfold I64; omega) (by omega) (Or.inl (by omega))
    · exact hge

theorem rejects_tnumBounds (h : d.Rejects x ρ) (t : Tnum) : (tnumBounds d x t).Rejects x ρ := by
  unfold tnumBounds
  dsimp only
  split
  case isFalse => exact h
  case isTrue =>
    have hge : (if (d.getInterval x).1 = -2^63 ∨ (d.getInterval x).1 < toI64 t.minValue.toNat then
        d.assumeGeImm x (toI64 t.minValue.toNat) else d).Rejects x ρ := by
      split_ifs
      · exact h.assumeGeImm _
      · exact h
    split
    · exact hge.assumeLeImm _
    · exact hge

end Sync

section Overwrite
variable {s : State} {ρ : Valuation} {dst : Reg} {v : BitVec 64} {t : Tnum} {d : NumericDomain}

theorem overwrite_eq (s : State) (hd : dst ≠ .zero) (d : NumericDomain) (t : Tnum) :
    overwrite s dst d t = State.setTnum { s with domain := tnumBounds d dst t } dst t := by
  have ht : (State.setTnum { s with domain := d } dst t).getTnum dst = t := by
    rw [State.getTnum_setTnum, if_pos ⟨rfl, hd⟩]
  unfold overwrite syncTnumToBounds
  rw [ht, Constraints.domain_setTnum]
  simp only [State.setTnum, if_pos hd]

variable (h : s.Represents ρ) (hd : dst.isProgram = true) (ht : t.Has v)
include h hd ht

theorem represents_overwrite (hk : d.Tracks (update ρ dst v)) :
    (overwrite s dst d t).Represents (update ρ dst v) := by
  rw [overwrite_eq s (not_or.1 (Reg.isProgram_iff.1 hd)).1]
  refine (State.represents_overwrite_iff h hd ht _).2 (tracks_tnumBounds hk ?_).represents
  rw [update_self]
  exact ht

theorem not_represents_overwrite (hk : d.Rejects dst (update ρ dst v)) :
    ¬ (overwrite s dst d t).Represents (update ρ dst v) := by
  rw [overwrite_eq s (not_or.1 (Reg.isProgram_iff.1 hd)).1,
    State.represents_overwrite_iff h hd ht]
  exact (rejects_tnumBounds hk t).not_represents

end Overwrite

section Words
variable {x : BitVec 64} {a b k n : Nat}

theorem shiftRight_mono (k : Nat) (h : a ≤ b) : a >>> k ≤ b >>> k := by
  rw [Nat.shiftRight_eq_div_pow, Nat.shiftRight_eq_div_pow]
  exact Nat.div_le_div_right h

theorem shiftRight_lt (hk : 0 < k) (hn : n < 2^64) : n >>> k < 2^63 := by
  have h1 : n >>> k ≤ n >>> 1 := by
    rw [Nat.shiftRight_eq_div_pow, Nat.shiftRight_eq_div_pow]
    exact Nat.div_le_div_left (Nat.pow_le_pow_right (by decide) hk) (by decide)
  omega

theorem toNat_shr_w64 (x : BitVec 64) (k : Nat) :
    (ShiftOp.shr.runBy .w64 x k).toNat = x.toNat >>> k :=
  BitVec.toNat_ushiftRight x k

theorem shr_nonneg_iff (x : BitVec 64) (k : Nat) :
    0 ≤ signed (ShiftOp.shr.runBy .w64 x k) ↔ k ≠ 0 ∨ 0 ≤ signed x := by
  have hlt := (ShiftOp.shr.runBy .w64 x k).isLt
  rw [signed, toI64_nonneg_iff hlt, signed, toI64_nonneg_iff x.isLt, toNat_shr_w64]
  constructor
  · intro h
    by_cases hk : k = 0
    · rw [hk, Nat.shiftRight_zero] at h
      exact Or.inr h
    · exact Or.inl hk
  · rintro (hk | hx)
    · exact shiftRight_lt (Nat.pos_of_ne_zero hk) x.isLt
    · exact Nat.lt_of_le_of_lt (Nat.shiftRight_le x.toNat k) hx

theorem toNat_shr_w32 (x : BitVec 64) (k : Nat) :
    (ShiftOp.shr.runBy .w32 x k).toNat = lo32 x.toNat >>> k := by
  rw [ShiftOp.runBy, ShiftOp.word, ShiftOp.shr_low, BitVec.toNat_ushiftRight, toNat_and_low]

theorem immAmount_eq (w : Width) (k : Int) :
    immAmount w k = (BitVec.ofInt 64 k).toNat % bitWidth w := by
  rw [toNat_ofInt]
  unfold immAmount lo32
  cases w <;> simp only [bitWidth] <;> omega

theorem source_has {s : State} {ρ : Valuation} (h : s.Represents ρ) (src : Operand) :
    (source s src).Has (operandValue ρ src) := by
  cases src with
  | imm k => rfl
  | reg r => exact h.tnum r

end Words

section Shr
variable {d : NumericDomain} {ρ : Valuation} {t : Tnum} {dst x : Reg} {k : Nat}

theorem tracks_between (h : d.Tracks ρ) {lo hi : Nat} (h1 : lo ≤ (ρ x).toNat)
    (h2 : (ρ x).toNat ≤ hi) (h3 : hi < 2^63) :
    ((d.assumeGeImm x (toI64 lo)).assumeLeImm x (toI64 hi)).Tracks ρ := by
  have hv : signedOf ρ x = (ρ x).toNat := toI64_of_lt (by omega)
  rw [toI64_of_lt (n := lo) (by omega), toI64_of_lt h3]
  have hge := h.assumeGeImm (c := lo) (x := x) (by unfold I64; omega) (by omega)
  exact hge.assumeLeImm (by unfold I64; omega) (by omega) (Or.inl (by omega))

theorem truncEnds_spec {v : BitVec 64} {old : Int × Int} (ht : t.Has v) (hl : old.1 ≤ signed v)
    (hu : signed v ≤ old.2) : (truncEnds t old).1 ≤ lo32 v.toNat ∧
      lo32 v.toNat ≤ (truncEnds t old).2 ∧ (truncEnds t old).2 < 2^32 := by
  have hlt := lo32_lt v.toNat
  have hmin := Tnum.minValue_le (Tnum.has_trunc32 ht)
  have hmax := Tnum.le_maxValue (Tnum.has_trunc32 ht)
  rw [toNat_and_low] at hmin hmax
  unfold truncEnds
  split_ifs with hf
  · have hv := lo32_of_signed (Int.le_trans hf.1 hl) (by omega)
    have h1 : (toU64 old.1 : Int) = old.1 := by unfold toU64; omega
    have h2 : (toU64 old.2 : Int) = old.2 := by unfold toU64; omega
    omega
  · omega

theorem tracks_shrImm_w32 (h : d.Tracks ρ) (ht : t.Has (ρ dst)) (hd : dst.isProgram = true) :
    (shrImm d t dst k .w32).Tracks
      (update ρ dst (ShiftOp.shr.runBy .w32 (ρ dst) k)) := by
  obtain ⟨hl, hu⟩ := NumericDomain.getInterval_sound h.represents h.zero dst
  obtain ⟨h1, h2, h3⟩ := truncEnds_spec ht hl hu
  have hle := Nat.shiftRight_le (truncEnds t (d.getInterval dst)).2 k
  have hlt : (truncEnds t (d.getInterval dst)).2 >>> k < 2^63 := by omega
  refine tracks_between (h.forget hd) ?_ ?_ hlt
  · rw [update_self, toNat_shr_w32]
    exact shiftRight_mono k h1
  · rw [update_self, toNat_shr_w32]
    exact shiftRight_mono k h2

section
variable (h : d.Tracks ρ) (hd : dst.isProgram = true)
include h hd

theorem tracks_shrReg_w64 {v : BitVec 64}
    (hv : 0 ≤ signed v) : (shrReg d dst .w64).Tracks (update ρ dst v) := by
  refine (h.forget hd).assumeGeImm (by decide) ?_
  rw [signedOf, update_self]
  exact hv

theorem tracks_shrReg_w32 :
    (shrReg d dst .w32).Tracks (update ρ dst (ShiftOp.shr.runBy .w32 (ρ dst) k)) := by
  have hlt := lo32_lt (ρ dst).toNat
  have hle := Nat.shiftRight_le (lo32 (ρ dst).toNat) k
  have hup : (update ρ dst (ShiftOp.shr.runBy .w32 (ρ dst) k) dst).toNat ≤ 2^32 - 1 := by
    rw [update_self, toNat_shr_w32]
    omega
  exact tracks_between (h.forget hd) (Nat.zero_le _) hup (by decide)

/-- A 64-bit result without the top bit survives the lower bound zero, and then
every other bound. -/
theorem tracks_shrImm_w64
    (hv : 0 ≤ signed (ShiftOp.shr.runBy .w64 (ρ dst) k)) :
    (shrImm d t dst k .w64).Tracks
      (update ρ dst (ShiftOp.shr.runBy .w64 (ρ dst) k)) := by
  obtain ⟨hl, hu⟩ := NumericDomain.getInterval_sound h.represents h.zero dst
  have hres : (update ρ dst (ShiftOp.shr.runBy .w64 (ρ dst) k) dst).toNat =
      (ρ dst).toNat >>> k := by
    rw [update_self, toNat_shr_w64]
  have hsig : signedOf (update ρ dst (ShiftOp.shr.runBy .w64 (ρ dst) k)) dst =
      ((ρ dst).toNat >>> k : Nat) := by
    rw [← toNat_shr_w64, toNat_of_signed_nonneg hv, signedOf, update_self]
  have h0 := (h.forget (v := ShiftOp.shr.runBy .w64 (ρ dst) k) hd).assumeGeImm (c := 0) (x := dst)
    (by decide) (by omega)
  have hcap : (if 0 < k ∧ (2^64 - 1) >>> k ≤ 2^63 - 1 then ((d.forget dst).assumeGeImm dst
      0).assumeLeImm dst (toI64 ((2^64 - 1) >>> k)) else (d.forget dst).assumeGeImm dst 0).Tracks
        (update ρ dst (ShiftOp.shr.runBy .w64 (ρ dst) k)) := by
    split_ifs with hc
    · have hmono := shiftRight_mono k (show (ρ dst).toNat ≤ 2^64 - 1 by omega)
      rw [toI64_of_lt (n := (2^64 - 1) >>> k) (by omega)]
      exact h0.assumeLeImm (by unfold I64; omega) (by omega) (Or.inl (by omega))
    · exact h0
  unfold shrImm
  dsimp only
  split
  case isFalse => exact hcap
  case isTrue hf =>
    have hpos : (0 : Int) ≤ signed (ρ dst) := Int.le_trans hf.2.2 hl
    have hn := toNat_of_signed_nonneg hpos
    have hr := signed_range (ρ dst)
    have hur := h.getInterval_range dst
    unfold I64 at hr hur
    have h1 : (toU64 (d.getInterval dst).1 : Int) = (d.getInterval dst).1 := by
      unfold toU64
      omega
    have h2 : (toU64 (d.getInterval dst).2 : Int) = (d.getInterval dst).2 := by
      unfold toU64
      omega
    change (d.getInterval dst).1 ≤ signed (ρ dst) at hl
    change signed (ρ dst) ≤ (d.getInterval dst).2 at hu
    have hle := Nat.shiftRight_le (toU64 (d.getInterval dst).2) k
    refine tracks_between hcap ?_ ?_ (by omega)
    · rw [hres]
      exact shiftRight_mono k (by omega)
    · rw [hres]
      exact shiftRight_mono k (by omega)

end

theorem rejects_shr_w64 (hz : signedOf ρ .zero = 0) (hd : dst ≠ .zero) {v : BitVec 64}
    (hv : signed v < 0) :
    (shrImm d t dst k .w64).Rejects dst (update ρ dst v) ∧
      (shrReg d dst .w64).Rejects dst (update ρ dst v) := by
  have h0 : ((d.forget dst).assumeGeImm dst 0).Rejects dst (update ρ dst v) := by
    refine NumericDomain.rejects_assumeGeImm ?_ (by decide) (by decide) ?_
    · rw [signedOf, Function.update_of_ne hd.symm]
      exact hz
    · rw [signedOf, update_self]
      exact hv
  refine ⟨?_, h0⟩
  unfold shrImm
  dsimp only
  have hcap : (if 0 < k ∧ (2^64 - 1) >>> k ≤ 2^63 - 1 then ((d.forget dst).assumeGeImm dst
      0).assumeLeImm dst (toI64 ((2^64 - 1) >>> k)) else (d.forget dst).assumeGeImm dst 0).Rejects
        dst (update ρ dst v) := by
    split_ifs
    · exact h0.assumeLeImm _
    · exact h0
  split
  · exact (hcap.assumeGeImm _).assumeLeImm _
  · exact hcap

end Shr

section Handler
variable {s : State} {ρ : Valuation} {w : Width} {dst : Reg} {src : Operand}

/-- A known amount of at least the width, the narrow width, an amount other
than zero, or a destination without the top bit. -/
def ShrKept (s : State) (ρ : Valuation) (w : Width) (dst : Reg) (src : Operand) : Prop :=
  ShiftOp.oversized w (source s src) = true ∨ w = .w32 ∨
    (operandValue ρ src).toNat % 64 ≠ 0 ∨ 0 ≤ signedOf ρ dst

theorem represents_oversized (h : s.Represents ρ) (ht : s.domain.Tracks ρ)
    (hd : dst.isProgram = true) (v : BitVec 64) :
    (overwrite s dst (s.domain.forget dst) Tnum.unknown).Represents (update ρ dst v) :=
  represents_overwrite h hd (Tnum.has_unknown v) (ht.forget hd)

theorem represents_overwrite_iff_of {d : NumericDomain} {t : Tnum} {v : BitVec 64} {p : Prop}
    (h : s.Represents ρ) (hd : dst.isProgram = true) (ht : t.Has v)
    (hk : p → d.Tracks (update ρ dst v))
    (hn : ¬ p → d.Rejects dst (update ρ dst v)) :
    (overwrite s dst d t).Represents (update ρ dst v) ↔ p := by
  by_cases hp : p
  · exact iff_of_true (represents_overwrite h hd ht (hk hp)) hp
  · exact iff_of_false (not_represents_overwrite h hd ht (hn hp)) hp

/-- A logical right shift is sound in both widths, for known and unknown
amounts and any destination, but for a 64-bit shift by zero: then a negative
destination stays negative, and the bound zero excludes it. -/
theorem handleShr_represents_iff (h : s.Represents ρ) (hr : s.InRange)
    (hd : dst.isProgram = true) :
    (handleShr s w dst src).Represents
      (update ρ dst (ShiftOp.shr.run w (ρ dst) (operandValue ρ src))) ↔
    ShrKept s ρ w dst src := by
  have hz := (not_or.1 (Reg.isProgram_iff.1 hd)).1
  have ht := NumericDomain.tracks_of_ready (d := s.domain) ⟨h.domain, hr, h.zero⟩
  unfold handleShr ShrKept
  by_cases hover : ShiftOp.oversized w (source s src) = true
  · simp only [hover, if_true, true_or, iff_true]
    exact represents_oversized h ht hd _
  simp only [hover, Bool.false_eq_true, if_false, false_or]
  have hk := Nat.mod_lt (operandValue ρ src).toNat (ShiftOp.bitWidth_pos w)
  have htop := shr_nonneg_iff (ρ dst) ((operandValue ρ src).toNat % 64)
  cases src with
  | imm c =>
    dsimp only
    rw [immAmount_eq]
    have hhas := ShiftOp.shr.has_known w hk (h.tnum dst)
    cases w with
    | w32 =>
      simp only [true_or, iff_true]
      exact represents_overwrite h hd hhas (tracks_shrImm_w32 ht (h.tnum dst) hd)
    | w64 =>
      simp only [reduceCtorEq, false_or]
      rw [signedOf, ← htop]
      exact represents_overwrite_iff_of h hd hhas (tracks_shrImm_w64 ht hd)
        fun hv => (rejects_shr_w64 h.zero hz (Int.not_le.1 hv)).1
  | reg r =>
    have hhas := ShiftOp.shr.has_unknownAmount w (ρ dst) ((ρ r).toNat % bitWidth w)
    cases w with
    | w32 =>
      simp only [true_or, iff_true]
      exact represents_overwrite h hd hhas (tracks_shrReg_w32 ht hd)
    | w64 =>
      simp only [reduceCtorEq, false_or]
      rw [signedOf, ← htop]
      exact represents_overwrite_iff_of h hd hhas (tracks_shrReg_w64 ht hd)
        fun hv => (rejects_shr_w64 (t := Tnum.unknown) (k := 0) h.zero hz (Int.not_le.1 hv)).2

end Handler

theorem represents_new {d : NumericDomain} {ρ : Valuation} (h : d.Represents ρ) (hz : ρ .zero = 0) :
    (State.new d 0).Represents ρ := by
  refine ⟨h, fun r => ?_⟩
  by_cases hr : r = .zero
  · rw [hr, hz]
    exact (Tnum.has_constant_iff 0 0).2 rfl
  · have ht : (State.new d 0).getTnum r = Tnum.unknown := by
      cases r <;> first | rfl | contradiction
    rw [ht]
    exact Tnum.has_unknown _

def unconstrained : State := State.new (.zone Zone.Dbm.new) 0

theorem represents_unconstrained {ρ : Valuation} (hz : ρ .zero = 0) :
    unconstrained.Represents ρ := by
  have hsz : signedOf ρ .zero = 0 := by
    rw [signedOf, hz]
    rfl
  exact represents_new (Zone.tracks_new hsz).represents hz

theorem inRange_unconstrained : unconstrained.InRange :=
  fun _ => show ScalarBounds.unknown.InRange by decide

/-- `r1 >>= 0` leaves minus one, and the zone has it at least zero. -/
theorem unshifted_minus_one_lost :
    unconstrained.Represents minusOne ∧ ShiftOp.shr.run .w64 (-1) 0 = -1 ∧
      ¬ (handleShr unconstrained .w64 .r1 (.imm 0)).Represents
        (update minusOne .r1 (ShiftOp.shr.run .w64 (-1) 0)) := by
  refine ⟨represents_unconstrained rfl, by decide, ?_⟩
  have he : handleShr unconstrained .w64 .r1 (.imm 0) = overwrite unconstrained .r1
      (shrImm unconstrained.domain Tnum.unknown .r1 0 .w64)
      (ShiftOp.shr.known .w64 Tnum.unknown 0) := rfl
  rw [he]
  exact not_represents_overwrite (represents_unconstrained rfl) (by decide)
    (ShiftOp.shr.has_known .w64 (by decide) (Tnum.has_unknown _))
    (rejects_shr_w64 (by decide) (by decide) (by decide)).1

theorem minus_one_shifted_once :
    (handleShr unconstrained .w64 .r1 (.imm 1)).Represents
      (update minusOne .r1 (ShiftOp.shr.run .w64 (minusOne .r1)
        (operandValue minusOne (.imm 1)))) :=
  (handleShr_represents_iff (represents_unconstrained rfl) inRange_unconstrained (by decide)).2
    (Or.inr (Or.inr (Or.inl (by decide))))

end ZoneVerifier.ShiftTransfer
