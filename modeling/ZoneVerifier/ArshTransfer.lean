import ZoneVerifier.ShiftTransfer

/-!
# The arithmetic right shift

`handle_arsh` (`analysis/transfer/alu/shift.rs`). A 32-bit shift copies bit 31
and zero-extends, so its result is bounded by the signed low half only where
that half is not negative. A 64-bit shift moves both signed ends.
-/

set_option autoImplicit false

namespace ZoneVerifier.ShiftTransfer
open Word Ast Bounds Concrete Tristate Machine
open Numeric (NumericDomain)
open Tristate.Tnum (ShiftOp)
open Tristate.Tnum.ShiftOp (bitWidth)
open Function (update update_self)

/-- The signed low half after a 32-bit shift: the shifted signed bounds, or
else the tristate number if its sign bit is known. -/
def arshS32 (t : Tnum) (old : Int × Int) (k : Nat) : Int × Int :=
  let signedLo := toI32 t.trunc32.minValue.toNat
  let signedHi := toI32 t.trunc32.maxValue.toNat
  let (newMin, newMax) :=
    if old.1 ≠ -2^31 ∧ old.2 ≠ 2^31 - 1 then (old.1 / 2^k, old.2 / 2^k)
    else if signedLo ≤ signedHi ∧ (signedLo < 0 ↔ signedHi < 0) then
      (signedLo / 2^k, signedHi / 2^k)
    else (-2^31, 2^31 - 1)
  (max newMin (-2^31 / 2^k), min newMax ((2^31 - 1) / 2^k))

def lowerKnownZero (t : Tnum) : Prop := t.mask &&& 0xFFFFFFFF = 0 ∧ t.value &&& 0xFFFFFFFF = 0

instance (t : Tnum) : Decidable (lowerKnownZero t) := inferInstanceAs (Decidable (_ ∧ _))

def arshImm (d : NumericDomain) (t : Tnum) (dst : Reg) (k : Nat) : Width → NumericDomain
  | .w32 =>
    let (newMin, newMax) := arshS32 t (d.getS32Bounds dst) k
    let d := (d.forget dst).setS32Bounds dst newMin newMax
    if 0 ≤ newMin then (d.assumeGeImm dst newMin).assumeLeImm dst newMax
    else (d.assumeGeImm dst 0).assumeLeImm dst (2^32 - 1)
  | .w64 =>
    let (oldLo, oldHi) := d.getInterval dst
    let d := d.forget dst
    if k = 32 ∧ lowerKnownZero t then
      let newLo := if oldLo ≠ -2^63 then max (oldLo / 2^32) (-2^31) else -2^31
      let newHi := if oldHi ≠ 2^63 - 1 then min (oldHi / 2^32) (2^31 - 1) else 2^31 - 1
      (d.assumeGeImm dst newLo).assumeLeImm dst newHi
    else if 0 < k then
      let newLo := if oldLo ≠ -2^63 then max (-2^63 / 2^k) (oldLo / 2^k) else -2^63 / 2^k
      let newHi :=
        if oldHi ≠ 2^63 - 1 then min ((2^63 - 1) / 2^k) (oldHi / 2^k) else (2^63 - 1) / 2^k
      (d.assumeGeImm dst newLo).assumeLeImm dst newHi
    else if oldLo ≠ -2^63 ∧ oldHi ≠ 2^63 - 1 then (d.assumeGeImm dst oldLo).assumeLeImm dst oldHi
    else d

def arshReg (d : NumericDomain) (dst : Reg) : Width → NumericDomain
  | .w32 => ((d.forget dst).assumeGeImm dst (-2^31)).assumeLeImm dst (2^31 - 1)
  | .w64 => d.forget dst

def handleArsh (s : State) (w : Width) (dst : Reg) (src : Operand) : State :=
  let t := s.getTnum dst
  if ShiftOp.oversized w (source s src) then overwrite s dst (s.domain.forget dst) Tnum.unknown
  else
    match src with
    | .imm k =>
      overwrite s dst (arshImm s.domain t dst (immAmount w k) w)
        (ShiftOp.arsh.known w t (immAmount w k))
    | .reg _ => overwrite s dst (arshReg s.domain dst w) (ShiftOp.arsh.unknownAmount w)

section Words
variable {x : BitVec 64} {k : Nat} {a b : Int}

theorem signed_arsh (x : BitVec 64) (k : Nat) :
    signed (ShiftOp.arsh.runBy .w64 x k) = signed x / 2^k := by
  rw [ShiftOp.runBy, ShiftOp.word, signed, ← toInt_eq_toI64, BitVec.toInt_sshiftRight,
    Int.shiftRight_eq_div_pow, toInt_eq_toI64, signed]
  rfl

theorem toInt_low (x : BitVec 64) : (x.setWidth 32).toInt = toI32 x.toNat := by
  rw [BitVec.toInt_eq_toNat_cond, BitVec.toNat_setWidth]
  unfold toI32
  split_ifs <;> omega

theorem toNat_arsh_w32 (x : BitVec 64) (k : Nat) :
    (ShiftOp.arsh.runBy .w32 x k).toNat < 2^32 ∧
      toI32 (ShiftOp.arsh.runBy .w32 x k).toNat = toI32 x.toNat / 2^k := by
  have hlt := ((x.setWidth 32).sshiftRight k).isLt
  have hn : (ShiftOp.arsh.runBy .w32 x k).toNat = ((x.setWidth 32).sshiftRight k).toNat := by
    rw [ShiftOp.runBy, ShiftOp.word, BitVec.toNat_setWidth]
    exact Nat.mod_eq_of_lt (by omega)
  have hi : ((x.setWidth 32).sshiftRight k).toInt = toI32 x.toNat / 2^k := by
    rw [BitVec.toInt_sshiftRight, Int.shiftRight_eq_div_pow, toInt_low]
    rfl
  refine ⟨by omega, ?_⟩
  rw [← hi, ← toInt_low]
  congr 1
  apply BitVec.eq_of_toNat_eq
  rw [BitVec.toNat_setWidth, hn, Nat.mod_eq_of_lt hlt]

theorem ediv_pow_mono (k : Nat) (h : a ≤ b) : a / 2^k ≤ b / 2^k :=
  Int.ediv_le_ediv (pow_pos (by decide) k) h

theorem ediv_pow_nonneg_iff (a : Int) (k : Nat) : 0 ≤ a / 2^k ↔ 0 ≤ a :=
  Int.ediv_nonneg_iff_of_pos (pow_pos (by decide) k)

theorem ediv_pow_range {n : Int} (k : Nat) (h1 : -n ≤ a) (h2 : a < n) :
    -n ≤ a / 2^k ∧ a / 2^k < n := by
  have habs := Int.natAbs_ediv_le_natAbs a (2^k)
  have hsign := ediv_pow_nonneg_iff a k
  omega

end Words

section Between
variable {d : NumericDomain} {ρ : Valuation} {x : Reg} {v : BitVec 64} {lo hi : Int}

theorem assumeSge_unknown_of_neg (hlo : I64 lo) (hneg : lo < 0) :
    (ScalarBounds.unknown.assumeSge lo).umin = 0 ∧ 0 ≤ (ScalarBounds.unknown.assumeSge lo).smax ∧
      2^64 - 1 ≤ (ScalarBounds.unknown.assumeSge lo).umax := by
  have hhas : ∀ n < 2^64, lo ≤ toI64 n → (ScalarBounds.unknown.assumeSge lo).Has n := fun n hn h =>
    (ScalarBounds.has_assumeSge_iff (by decide) hlo hn (ScalarBounds.has_unknown hn)).2 h
  have h0 := hhas 0 (by decide) (Int.le_of_lt hneg)
  have htop := hhas (2^64 - 1) (by decide) (by rw [show toI64 (2^64 - 1) = -1 by decide]; omega)
  exact ⟨Nat.le_zero.1 h0.umin_le, h0.le_smax, htop.le_umax⟩

theorem sleKeeps_unknown (hlo : I64 lo) (hhi : I64 hi) (h1 : lo ≤ signed v)
    (hk : Interval.IntervalKept lo hi v) :
    (ScalarBounds.unknown.assumeSge lo).SleKeeps hi v.toNat := by
  by_cases hv : 0 ≤ signed v
  · exact Or.inr (Or.inl hv)
  by_cases hneg : hi < 0
  · exact Or.inl hneg
  have hc := assumeSge_unknown_of_neg hlo (by omega)
  refine Or.inr (Or.inr ⟨hc.2.1, fun he => ?_⟩)
  unfold Interval.IntervalKept at hk
  unfold I64 at hhi
  unfold lo32 toU64 at *
  omega

theorem tuple_forget_assumeGeImm (d : NumericDomain) (hx : x.isProgram = true)
    (hd : d.isInterval = true) :
    ((d.forget x).assumeGeImm x lo).tuple x = ScalarBounds.unknown.assumeSge lo := by
  cases d with
  | zone d => cases hd
  | interval s =>
    simp only [NumericDomain.forget, NumericDomain.assumeGeImm, NumericDomain.tuple,
      Interval.assumeGeImm, Interval.getBounds_modifyBounds, Interval.getBounds_forget s hx,
      if_true]

theorem tracks_ends (h : d.Tracks ρ) (hx : x.isProgram = true) (hlo : I64 lo) (hhi : I64 hi)
    (h1 : lo ≤ signed v) (h2 : signed v ≤ hi) (hk : d.intervalKept lo hi v) :
    (((d.forget x).assumeGeImm x lo).assumeLeImm x hi).Tracks (update ρ x v) := by
  have hv : signedOf (update ρ x v) x = signed v := by
    rw [signedOf, update_self]
  have hge := (h.forget (v := v) hx).assumeGeImm (x := x) hlo (by rw [hv]; exact h1)
  refine hge.assumeLeImm_of_keeps hhi (by rw [hv]; exact h2) fun hi => ?_
  have hd : d.isInterval = true := by cases d <;> first | rfl | cases hi
  rw [tuple_forget_assumeGeImm d hx hd, update_self]
  exact sleKeeps_unknown hlo hhi h1 (hk hd)

/-- Unsigned ends that both lie in the low half bind it for good. -/
theorem not_has_raise_assumeSle {b : ScalarBounds} {n : Nat} (hmin : b.umin = 0)
    (hmax : 2^64 - 1 ≤ b.umax) (h0 : 0 ≤ hi) (h32 : hi < 2^32) (hn : hi < lo32 n) :
    ¬ ((b.assumeSle hi).raise n).Has n := by
  intro hs
  have hupper : toU64 hi = hi.toNat := by
    unfold toU64
    omega
  have hcap : (b.capSle hi).umax = hi.toNat := by
    simp only [ScalarBounds.capSle]
    rw [if_pos h0, hupper]
    exact Nat.min_eq_right (by omega)
  have hcap0 : (b.capSle hi).umin = 0 := hmin
  have hlow := (ScalarBounds.low_of_has_raise_syncBounds hs (by rw [hcap0, hcap]; omega)).2
  rw [hcap] at hlow
  have hself : lo32 hi.toNat = hi.toNat := Nat.mod_eq_of_lt (by omega)
  omega

theorem rejects_ends (hx : x.isProgram = true) (hlo : I64 lo) (hk : ¬ d.intervalKept lo hi v) :
    (((d.forget x).assumeGeImm x lo).assumeLeImm x hi).Rejects x (update ρ x v) := by
  obtain ⟨hd, hlost⟩ : d.isInterval = true ∧ ¬ Interval.IntervalKept lo hi v :=
    Classical.not_imp.1 hk
  cases d with
  | zone d => cases hd
  | interval s =>
    have he : (Interval.assumeLeImm (Interval.assumeGeImm (s.forget x) x lo) x hi).getBounds x =
        (ScalarBounds.unknown.assumeSge lo).assumeSle hi := by
      simp only [Interval.assumeLeImm, Interval.assumeGeImm, Interval.getBounds_modifyBounds,
        Interval.getBounds_forget s hx, if_true]
    have hneg : lo < 0 ∧ 0 ≤ hi ∧ hi < 2^32 ∧ hi < lo32 v.toNat := by
      unfold Interval.IntervalKept at hlost
      omega
    have hc := assumeSge_unknown_of_neg hlo hneg.1
    intro hs
    rw [he, update_self] at hs
    exact not_has_raise_assumeSle hc.1 hc.2.2 hneg.2.1 hneg.2.2.1 hneg.2.2.2 hs

end Between

section Arsh
variable {d : NumericDomain} {ρ : Valuation} {t : Tnum} {dst x : Reg} {k : Nat}

/-- All three ways to compute the new ends shift the old ones; a shift by zero
of a half-open interval refines nothing. -/
theorem arshImm_w64 (h : d.Tracks ρ) (t : Tnum) (dst : Reg) (k : Nat) :
    arshImm d t dst k .w64 =
      if k = 0 ∧ ((d.getInterval dst).1 = -2^63 ∨ (d.getInterval dst).2 = 2^63 - 1) then
        d.forget dst
      else ((d.forget dst).assumeGeImm dst ((d.getInterval dst).1 / 2^k)).assumeLeImm dst
        ((d.getInterval dst).2 / 2^k) := by
  obtain ⟨hlo, hhi⟩ := h.getInterval_range dst
  unfold I64 at hlo hhi
  unfold arshImm
  dsimp only
  generalize (d.getInterval dst).1 = lo at hlo ⊢
  generalize (d.getInterval dst).2 = hi at hhi ⊢
  have hl : (if lo ≠ -2^63 then max (-2^63 / 2^k) (lo / 2^k) else -2^63 / 2^k) = lo / 2^k := by
    split_ifs with hne
    · exact Int.max_eq_right (ediv_pow_mono k hlo.1)
    · rw [not_not.1 hne]
  have hh : (if hi ≠ 2^63 - 1 then min ((2^63 - 1) / 2^k) (hi / 2^k) else (2^63 - 1) / 2^k) =
      hi / 2^k := by
    split_ifs with hne
    · exact Int.min_eq_right (ediv_pow_mono k (by omega))
    · rw [not_not.1 hne]
  rw [hl, hh]
  by_cases h32 : k = 32 ∧ lowerKnownZero t
  · have hl32 : (if lo ≠ -2^63 then max (lo / 2^32) (-2^31) else -2^31) = lo / 2^32 := by
      split_ifs <;> omega
    have hh32 : (if hi ≠ 2^63 - 1 then min (hi / 2^32) (2^31 - 1) else 2^31 - 1) = hi / 2^32 := by
      split_ifs <;> omega
    rw [if_pos h32, hl32, hh32, h32.1, if_neg (by omega)]
  rw [if_neg h32]
  by_cases hk : 0 < k
  · rw [if_pos hk, if_neg (by omega)]
  obtain rfl : k = 0 := by omega
  rw [if_neg hk, pow_zero, Int.ediv_one, Int.ediv_one]
  by_cases hfin : lo ≠ -2^63 ∧ hi ≠ 2^63 - 1
  · rw [if_pos hfin, if_neg (by omega)]
  · rw [if_neg hfin, if_pos (by omega)]

theorem maxValue_trunc32_lt (t : Tnum) : t.trunc32.maxValue.toNat < 2^32 := by
  have he : t.trunc32.maxValue = (t.value ||| t.mask) &&& 0xFFFFFFFF :=
    (BitVec.and_or_distrib_right).symm
  rw [he, toNat_and_low]
  exact lo32_lt _

theorem toI32_mono_of_sign {a b : Nat} (h : a ≤ b) (hb : b < 2^32)
    (hs : toI32 a < 0 ↔ toI32 b < 0) : toI32 a ≤ toI32 b := by
  unfold toI32 at *
  split_ifs at * <;> omega

theorem arshS32_spec {old : Int × Int} {v : BitVec 64} (ht : t.Has v)
    (hl : old.1 ≤ toI32 v.toNat) (hu : toI32 v.toNat ≤ old.2) :
    (arshS32 t old k).1 ≤ toI32 v.toNat / 2^k ∧ toI32 v.toNat / 2^k ≤ (arshS32 t old k).2 ∧
      -2^31 ≤ (arshS32 t old k).1 ∧ (arshS32 t old k).2 < 2^31 := by
  have hr := toI32_range v.toNat
  unfold I32 at hr
  have hmin := Tnum.minValue_le (Tnum.has_trunc32 ht)
  have hmax := Tnum.le_maxValue (Tnum.has_trunc32 ht)
  rw [toNat_and_low] at hmin hmax
  have hfloor := ediv_pow_range (a := -2^31) (n := 2^31) k (by omega) (by omega)
  have hceil := ediv_pow_range (a := 2^31 - 1) (n := 2^31) k (by omega) (by omega)
  have h1 := ediv_pow_mono k hr.1
  have h2 := ediv_pow_mono k (show toI32 v.toNat ≤ 2^31 - 1 by omega)
  unfold arshS32
  dsimp only
  split
  case isTrue =>
    have h3 := ediv_pow_mono k hl
    have h4 := ediv_pow_mono k hu
    omega
  case isFalse =>
    split
    case isTrue hs =>
      have hlt := maxValue_trunc32_lt t
      have hb := ScalarBounds.toI32_between_of_le hmin hmax hlt
        (toI32_mono_of_sign (hmin.trans hmax) hlt hs.2)
      have h3 := ediv_pow_mono k hb.1
      have h4 := ediv_pow_mono k hb.2
      omega
    case isFalse =>
      omega

/-- The signed low half is refined first; the whole word only where it is
known not to be negative. -/
theorem tracks_arshImm_w32 (h : d.Tracks ρ) (ht : t.Has (ρ dst)) (hd : dst.isProgram = true) :
    (arshImm d t dst k .w32).Tracks
      (update ρ dst (ShiftOp.arsh.runBy .w32 (ρ dst) k)) := by
  obtain ⟨hl, hu⟩ := NumericDomain.getS32Bounds_sound h.represents dst
  obtain ⟨h1, h2, h3, h4⟩ := arshS32_spec (k := k) ht hl hu
  obtain ⟨hlt, hres⟩ := toNat_arsh_w32 (ρ dst) k
  have hf := h.forget (v := ShiftOp.arsh.runBy .w32 (ρ dst) k) hd
  have hself : update ρ dst (ShiftOp.arsh.runBy .w32 (ρ dst) k) dst =
    ShiftOp.arsh.runBy .w32 (ρ dst) k := update_self ..
  generalize ShiftOp.arsh.runBy .w32 (ρ dst) k = v at *
  rw [← hres] at h1 h2
  have hr := toI32_range v.toNat
  unfold arshImm
  dsimp only
  generalize (arshS32 t (d.getS32Bounds dst) k).1 = newMin at *
  generalize (arshS32 t (d.getS32Bounds dst) k).2 = newMax at *
  have hmin : I32 newMin := by unfold I32; omega
  have hmax : I32 newMax := by unfold I32; omega
  have hs := hf.setS32Bounds hd hmin hmax (by rw [hself]; exact h1) (by rw [hself]; exact h2)
  have hv : signedOf (update ρ dst v) dst = v.toNat := by
    rw [signedOf, hself]
    exact toI64_of_lt (by omega)
  split
  case isTrue hpos =>
    have hlow : toI32 v.toNat = v.toNat := by
      unfold toI32 at *
      split_ifs at * <;> omega
    have hge := hs.assumeGeImm (x := dst) (c := newMin) (by unfold I64; omega) (by omega)
    exact hge.assumeLeImm (by unfold I64; omega) (by omega) (Or.inl (by omega))
  case isFalse =>
    have hge := hs.assumeGeImm (x := dst) (c := 0) (by decide) (by omega)
    exact hge.assumeLeImm (by decide) (by omega) (Or.inl (by omega))

def ArshEndsKept (d : NumericDomain) (dst : Reg) (v : BitVec 64) (k : Nat) : Prop :=
  (k = 0 ∧ ((d.getInterval dst).1 = -2^63 ∨ (d.getInterval dst).2 = 2^63 - 1)) ∨
    d.intervalKept ((d.getInterval dst).1 / 2^k) ((d.getInterval dst).2 / 2^k)
      (ShiftOp.arsh.runBy .w64 v k)

theorem arshImm_w64_spec (h : d.Tracks ρ) (hd : dst.isProgram = true) (t : Tnum) (k : Nat) :
    (ArshEndsKept d dst (ρ dst) k → (arshImm d t dst k .w64).Tracks
      (update ρ dst (ShiftOp.arsh.runBy .w64 (ρ dst) k))) ∧
    (¬ ArshEndsKept d dst (ρ dst) k → (arshImm d t dst k .w64).Rejects dst
      (update ρ dst (ShiftOp.arsh.runBy .w64 (ρ dst) k))) := by
  obtain ⟨hl, hu⟩ := NumericDomain.getInterval_sound h.represents h.zero dst
  obtain ⟨hlo, hhi⟩ := h.getInterval_range dst
  have h1 := ediv_pow_mono k hl
  have h2 := ediv_pow_mono k hu
  rw [signedOf, ← signed_arsh] at h1 h2
  have hlo' : I64 ((d.getInterval dst).1 / 2^k) := ediv_pow_range k hlo.1 hlo.2
  have hhi' : I64 ((d.getInterval dst).2 / 2^k) := ediv_pow_range k hhi.1 hhi.2
  rw [arshImm_w64 h]
  unfold ArshEndsKept
  split_ifs with hopen
  · exact ⟨fun _ => h.forget hd, fun hn => absurd (Or.inl hopen) hn⟩
  · simp only [hopen, false_or]
    exact ⟨tracks_ends h hd hlo' hhi' h1 h2, rejects_ends hd hlo'⟩

theorem arshReg_w32_spec (h : d.Tracks ρ) (hd : dst.isProgram = true) (k : Nat) :
    (0 ≤ toI32 (ρ dst).toNat → (arshReg d dst .w32).Tracks
      (update ρ dst (ShiftOp.arsh.runBy .w32 (ρ dst) k))) ∧
    (¬ 0 ≤ toI32 (ρ dst).toNat → (arshReg d dst .w32).Rejects dst
      (update ρ dst (ShiftOp.arsh.runBy .w32 (ρ dst) k))) := by
  obtain ⟨hlt, hres⟩ := toNat_arsh_w32 (ρ dst) k
  rw [← ediv_pow_nonneg_iff _ k, ← hres]
  generalize ShiftOp.arsh.runBy .w32 (ρ dst) k = v at *
  have hv : signedOf (update ρ dst v) dst = v.toNat := by
    rw [signedOf, update_self]
    exact toI64_of_lt (by omega)
  have hf := h.forget (v := v) hd
  have hhalf : 0 ≤ toI32 v.toNat ↔ v.toNat < 2^31 := by
    unfold toI32
    split_ifs <;> omega
  constructor
  · intro hs
    have hge := hf.assumeGeImm (x := dst) (c := -2^31) (by decide) (by omega)
    exact hge.assumeLeImm (by decide) (by omega) (Or.inl (by omega))
  · intro hs
    exact NumericDomain.rejects_assumeLeImm hf.zero (by decide) (by decide) (by omega)

end Arsh

section Handler
variable {s : State} {ρ : Valuation} {w : Width} {dst : Reg} {src : Operand}

/-- The destinations an arithmetic shift keeps: with an immediate, all in the
narrow width and in the wide one those that the moved ends keep; with a
register, those with bit 31 clear in the narrow width and all in the wide one. -/
def ArshKept (s : State) (ρ : Valuation) (dst : Reg) : Width → Operand → Prop
  | .w32, .imm _ => True
  | .w32, .reg _ => 0 ≤ toI32 (ρ dst).toNat
  | .w64, .imm c => ArshEndsKept s.domain dst (ρ dst) (immAmount .w64 c)
  | .w64, .reg _ => True

/-- An arithmetic right shift is sound with a 32-bit immediate and with a
64-bit amount in a register. A 32-bit shift by a register loses the words with
bit 31 set, since the bound is the signed one and the result is zero-extended;
a 64-bit immediate loses, in the interval domain, the negative words that a
small upper end excludes by their low half. -/
theorem handleArsh_represents_iff (h : s.Represents ρ) (hr : s.InRange)
    (hd : dst.isProgram = true) :
    (handleArsh s w dst src).Represents
      (update ρ dst (ShiftOp.arsh.run w (ρ dst) (operandValue ρ src))) ↔
    ShiftOp.oversized w (source s src) = true ∨ ArshKept s ρ dst w src := by
  have ht := NumericDomain.tracks_of_ready (d := s.domain) ⟨h.domain, hr, h.zero⟩
  unfold handleArsh
  by_cases hover : ShiftOp.oversized w (source s src) = true
  · simp only [hover, if_true, true_or, iff_true]
    exact represents_oversized h ht hd _
  simp only [hover, Bool.false_eq_true, if_false, false_or]
  have hk := Nat.mod_lt (operandValue ρ src).toNat (ShiftOp.bitWidth_pos w)
  cases src with
  | imm c =>
    have hhas := ShiftOp.arsh.has_known w hk (h.tnum dst)
    cases w with
    | w32 =>
      simp only [ArshKept, iff_true, immAmount_eq]
      exact represents_overwrite h hd hhas (tracks_arshImm_w32 ht (h.tnum dst) hd)
    | w64 =>
      simp only [ArshKept, immAmount_eq]
      obtain ⟨hkeep, hlose⟩ := arshImm_w64_spec ht hd _ _
      exact represents_overwrite_iff_of h hd hhas hkeep hlose
  | reg r =>
    have hhas := ShiftOp.arsh.has_unknownAmount w (ρ dst) ((ρ r).toNat % bitWidth w)
    cases w with
    | w32 =>
      obtain ⟨hkeep, hlose⟩ := arshReg_w32_spec ht hd _
      exact represents_overwrite_iff_of h hd hhas hkeep hlose
    | w64 =>
      simp only [ArshKept, iff_true]
      exact represents_overwrite h hd hhas (ht.forget hd)

end Handler

def topOfLowHalf : Valuation
  | .r1 => 0x80000000
  | _ => 0

/-- `w1 s>>= w2` by zero leaves `0x80000000`, and the zone has it below `2^31`;
`r1 s>>= 48` leaves minus one, whose low half exceeds 32767. -/
theorem shifted_signs_lost :
    (unconstrained.Represents topOfLowHalf ∧
      ¬ (handleArsh unconstrained .w32 .r1 (.reg .r2)).Represents
        (update topOfLowHalf .r1 (ShiftOp.arsh.run .w32 0x80000000 0))) ∧
    unconstrainedInterval.Represents minusOne ∧
      ¬ (handleArsh unconstrainedInterval .w64 .r1 (.imm 48)).Represents
        (update minusOne .r1 (ShiftOp.arsh.run .w64 (-1) 48)) := by
  refine ⟨⟨represents_unconstrained rfl, ?_⟩, represents_unconstrainedInterval, ?_⟩
  · have ht : unconstrained.domain.Tracks topOfLowHalf := Zone.tracks_new (by decide)
    exact not_represents_overwrite (represents_unconstrained rfl) (by decide)
      (ShiftOp.arsh.has_unknownAmount .w32 _ _) ((arshReg_w32_spec ht (by decide) 0).2 (by decide))
  · have ht := NumericDomain.tracks_of_ready (d := unconstrainedInterval.domain)
      ⟨represents_unconstrainedInterval.domain, inRange_unconstrainedInterval, by decide⟩
    have hlost : ¬ ArshEndsKept unconstrainedInterval.domain .r1 (-1) 48 := by
      rintro (h | h)
      · exact absurd h.1 (by decide)
      · exact absurd (h rfl) (by decide)
    exact not_represents_overwrite represents_unconstrainedInterval (by decide)
      (ShiftOp.arsh.has_known .w64 (by decide) (Tnum.has_unknown _))
      ((arshImm_w64_spec ht (by decide) _ 48).2 hlost)

theorem narrow_sign_shifted :
    (handleArsh unconstrained .w32 .r1 (.imm 4)).Represents
      (update topOfLowHalf .r1 (ShiftOp.arsh.run .w32 (topOfLowHalf .r1)
        (operandValue topOfLowHalf (.imm 4)))) :=
  (handleArsh_represents_iff (represents_unconstrained rfl) inRange_unconstrained (by decide)).2
    (Or.inr trivial)

end ZoneVerifier.ShiftTransfer
