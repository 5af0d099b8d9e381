import ZoneVerifier.BranchFallback
import ZoneVerifier.Refine
import ZoneVerifier.ZoneArith

/-!
# Truncating a register to its low half

A transfer function forgets its destination and then refines it step by step.
`Tracks` is what every step keeps whose bound the new word meets; `Rejects` says
that a bound excludes the word for good. A 32-bit operation leaves the
zero-extended low half of its result: `applyW32Truncation` forgets the register
unless its interval shows that the word is its own low half. `zext32Into64`
rewrites the eight bounds only: the matrix of the zone domain and the identity
of the interval domain still speak of the word before truncation.
-/

set_option autoImplicit false

open Function (update update_self)

namespace ZoneVerifier.Bounds.ScalarBounds
open Word

section Caps
variable (b : ScalarBounds)

theorem tightens_capSge (c : Int) : Tightens b (b.capSge c) := by
  refine { Tightens.refl b with smin := Int.le_max_left _ _, umin := ?_ }
  simp only [capSge]
  split_ifs
  · exact Nat.le_max_left _ _
  · exact Nat.le_refl _

theorem tightens_capSle (c : Int) : Tightens b (b.capSle c) :=
  { Tightens.refl b with smax := Int.min_le_left _ _ }

theorem tightens_assumeSge (c : Int) : Tightens b (b.assumeSge c) :=
  (tightens_capSge b c).trans (tightens_syncBounds _)

theorem tightens_assumeSle (c : Int) : Tightens b (b.assumeSle c) :=
  (tightens_capSle b c).trans (tightens_syncBounds _)

end Caps

theorem inRange_constant {c : Int} (h : I64 c) : (constant c).InRange where
  smin := h
  smax := h
  umin := toU64_lt c
  umax := toU64_lt c
  s32Min := toI32_range _
  s32Max := toI32_range _
  u32Min := lo32_lt _
  u32Max := lo32_lt _

/-- The first synchronisation step binds the low half once and for all. -/
theorem low_of_has_raise_syncBounds {b : ScalarBounds} {n : Nat}
    (h : (b.syncBounds.raise n).Has n) (hu : b.umin / 2^32 = b.umax / 2^32) :
    lo32 b.umin ≤ lo32 n ∧ lo32 n ≤ lo32 b.umax := by
  have htail : Tightens b.deduceFromU64 b.syncBounds := by
    have h1 := (tightens_deduceFromS64 b.deduceFromU64).trans (tightens_deduceS32FromU32 _)
    exact ((h1.trans (tightens_deduceU32FromS32 _)).trans (tightens_deduceMixed _)).trans
      (tightens_deduceU64FromS64 _)
  exact ((has_raise_deduceFromU64_iff b n).1 (htail.has_raise h)).2 hu

end ZoneVerifier.Bounds.ScalarBounds

namespace ZoneVerifier.Zone
open Word Ast Bounds Concrete

variable {d : Dbm} {ρ : Valuation} {x : Reg} {v : BitVec 64} {imm : Int}

theorem tracks_new (hz : signedOf ρ .zero = 0) : Tracks Dbm.new ρ := by
  refine ⟨fun i j hij => ?_, fun r => ?_, hz⟩
  · simp only [Dbm.new] at hij ⊢
    by_cases h : i = j
    · rw [if_pos h, h]
      omega
    · rw [if_neg h] at hij
      exact absurd hij (Int.lt_irrefl _)
  · exact Fits.of_inRange (b := ScalarBounds.unknown) (by decide)
      (ScalarBounds.has_unknown (ρ r).isLt)

theorem Tracks.assignImm (h : Tracks d ρ) (hx : x ≠ .zero) (hv : signed v = imm) :
    Tracks (assignImm d x imm) (update ρ x v) := by
  have hval : signedOf (update ρ x v) x = imm := by
    rw [signedOf, update_self, hv]
  have hf := h.forgetVar (v := v) hx
  have h1 : Tracks ((d.forgetVar x).addConstraint x .zero imm) (update ρ x v) :=
    hf.addConstraint (asserted_of_le (by rw [hval, hf.zero]; omega))
  have h2 : Tracks (if -2^63 < imm then
      ((d.forgetVar x).addConstraint x .zero imm).addConstraint .zero x (-imm)
      else (d.forgetVar x).addConstraint x .zero imm) (update ρ x v) := by
    split_ifs
    · exact h1.addConstraint (asserted_of_le (by rw [hval, hf.zero]; omega))
    · exact h1
  unfold Zone.assignImm
  dsimp only
  generalize (if -2^63 < imm then
      ((d.forgetVar x).addConstraint x .zero imm).addConstraint .zero x (-imm)
      else (d.forgetVar x).addConstraint x .zero imm) = e at h2 ⊢
  have hfit := h2.fits x
  have hn : toI64 (update ρ x v x).toNat = imm := hval
  have hr : I64 imm := hv ▸ signed_range v
  have hpin : Fits { e.bounds x with smin := imm, smax := imm }
      (update ρ x v x).toNat :=
    { hfit with
      has := { hfit.has with smin_le := Int.le_of_eq hn.symm, le_smax := Int.le_of_eq hn }
      smax := hr.2 }
  exact ((h2.setBounds hpin).close).syncBounds x

theorem asserted_of_assignImm (h : Satisfies (assignImm d x imm) ρ) :
    Asserted imm (signedOf ρ x - signedOf ρ .zero) := by
  unfold Zone.assignImm at h
  have h1 := (satisfies_close_iff _ ρ).1 (satisfies_of_syncBounds h)
  have h2 := satisfies_of_ite_addConstraint ((satisfies_setBounds_iff _ _ _ ρ).1 h1)
  exact ((satisfies_addConstraint_iff _ _ _ _ ρ).1 h2).2

end ZoneVerifier.Zone

namespace ZoneVerifier.Numeric.NumericDomain
open Word Ast Bounds Concrete
open Constraints (Ready)

/-- The word of `x` is excluded, and not by the unsigned maximum alone. -/
def Rejects (d : NumericDomain) (x : Reg) (ρ : Valuation) : Prop :=
  match d with
  | zone d => ¬ Zone.Satisfies d ρ
  | interval s => ¬ ((s.getBounds x).raise (ρ x).toNat).Has (ρ x).toNat

section Chain
variable {d : NumericDomain} {ρ : Valuation} {x : Reg} {v : BitVec 64} {c : Int}

theorem Tracks.forget (h : d.Tracks ρ) (hx : x.isProgram = true) :
    (d.forget x).Tracks (update ρ x v) := by
  cases d with
  | zone d =>
    have hx' := not_or.1 (Reg.isProgram_iff.1 hx)
    exact (Zone.Tracks.forgetVar h hx'.1).close
  | interval s => exact ready_forget (d := interval s) h hx

theorem Tracks.assumeEqImm (h : d.Tracks ρ) (hx : x.isProgram = true) (hv : signedOf ρ x = c) :
    (d.assumeEqImm x c).Tracks ρ := by
  cases d with
  | zone d => exact Zone.Tracks.assumeEqImm h hv
  | interval s =>
    refine ⟨Constraints.represents_assumeEqImm h hx hv, fun r => ?_, h.zero⟩
    rw [Interval.getBounds_assumeEqImm s hx]
    split_ifs
    · exact hv ▸ ScalarBounds.inRange_constant (signed_range (ρ x))
    · exact h.range r

theorem Tracks.getU32Bounds_lt (h : d.Tracks ρ) (x : Reg) : (d.getU32Bounds x).2 < 2^32 := by
  cases d with
  | zone d => exact (Zone.Tracks.fits h x).u32Max
  | interval s =>
    have hd : (derivedU32 (s.getBounds x)).2 < 2^32 := by
      unfold derivedU32
      split_ifs
      · exact lo32_lt _
      · decide
    unfold NumericDomain.getU32Bounds
    dsimp only
    split_ifs
    · exact Nat.lt_of_le_of_lt (Nat.min_le_left _ _) hd
    · exact hd

theorem Tracks.getU64Bounds_lt (h : d.Tracks ρ) (x : Reg) : (d.getU64Bounds x).2 < 2^64 := by
  cases d with
  | zone d => exact (Zone.Tracks.fits h x).umax
  | interval s => exact (h.range x).umax

theorem Rejects.not_represents (h : d.Rejects x ρ) : ¬ d.Represents ρ := by
  intro hr
  cases d with
  | zone d => exact h hr.sat
  | interval s => exact h (ScalarBounds.has_raise_of_has (hr.has x))

theorem Rejects.assumeGeImm (h : d.Rejects x ρ) (c : Int) : (d.assumeGeImm x c).Rejects x ρ := by
  cases d with
  | zone d => exact fun hs => h (Zone.satisfies_of_assumeGeImm hs)
  | interval s =>
    intro hs
    simp only [Interval.assumeGeImm, Interval.getBounds_modifyBounds, if_true] at hs
    exact h ((ScalarBounds.tightens_assumeSge _ c).has_raise hs)

theorem Rejects.assumeLeImm (h : d.Rejects x ρ) (c : Int) : (d.assumeLeImm x c).Rejects x ρ := by
  cases d with
  | zone d => exact fun hs => h (Zone.satisfies_of_assumeLeImm hs)
  | interval s =>
    intro hs
    simp only [Interval.assumeLeImm, Interval.getBounds_modifyBounds, if_true] at hs
    exact h ((ScalarBounds.tightens_assumeSle _ c).has_raise hs)

theorem rejects_assumeGeImm (hz : signedOf ρ .zero = 0) (hc : -Zone.posBound ≤ c)
    (hc' : c ≤ Zone.posBound) (hv : signedOf ρ x < c) : (d.assumeGeImm x c).Rejects x ρ := by
  cases d with
  | zone d =>
    intro hs
    have hk := Zone.geKept_of_satisfies hz hs
    unfold Zone.GeKept at hk
    omega
  | interval s =>
    intro hs
    simp only [Interval.assumeGeImm, Interval.getBounds_modifyBounds, if_true] at hs
    have h1 := ((ScalarBounds.tightens_syncBounds _).has_raise hs).smin_le
    have h2 : c ≤ ((s.getBounds x).capSge c).smin := Int.le_max_right _ _
    exact absurd (Int.le_trans h2 h1) (Int.not_le.2 hv)

theorem rejects_assumeLeImm (hz : signedOf ρ .zero = 0) (hc : -Zone.posBound ≤ c)
    (hc' : c ≤ Zone.posBound) (hv : c < signedOf ρ x) : (d.assumeLeImm x c).Rejects x ρ := by
  cases d with
  | zone d =>
    intro hs
    have hk := Zone.leKept_of_satisfies hz hs
    unfold Zone.LeKept at hk
    omega
  | interval s =>
    intro hs
    simp only [Interval.assumeLeImm, Interval.getBounds_modifyBounds, if_true] at hs
    have h1 := ((ScalarBounds.tightens_syncBounds _).has_raise hs).le_smax
    have h2 : ((s.getBounds x).capSle c).smax ≤ c := Int.min_le_right _ _
    exact absurd (Int.le_trans h1 h2) (Int.not_le.2 hv)

end Chain
end ZoneVerifier.Numeric.NumericDomain

namespace ZoneVerifier.Machine.State
open Ast Concrete Tristate
open Numeric (NumericDomain)

theorem represents_overwrite_iff {s : State} {ρ : Valuation} (h : s.Represents ρ) {dst : Reg}
    (hd : dst.isProgram = true) {v : BitVec 64} {t : Tnum} (ht : t.Has v) (d : NumericDomain) :
    (setTnum { s with domain := d } dst t).Represents (update ρ dst v) ↔
      d.Represents (update ρ dst v) := by
  have hz := (not_or.1 (Reg.isProgram_iff.1 hd)).1
  have hdom : (setTnum { s with domain := d } dst t).domain = d := Constraints.domain_setTnum _ _ _
  constructor
  · intro hr
    have := hr.domain
    rwa [hdom] at this
  · intro hr
    refine ⟨by rw [hdom]; exact hr, fun r => ?_⟩
    rw [getTnum_setTnum]
    by_cases hrd : r = dst
    · rw [if_pos ⟨hrd, hz⟩, hrd, update_self]
      exact ht
    · rw [if_neg fun hc => hrd hc.1, Function.update_of_ne hrd]
      exact h.tnum r

theorem represents_write_iff {s : State} {ρ : Valuation} (h : s.Represents ρ) {dst : Reg}
    (hd : dst.isProgram = true) {v : BitVec 64} (d : NumericDomain) (t : Tnum) :
    (setTnum { s with domain := d } dst t).Represents (update ρ dst v) ↔
      d.Represents (update ρ dst v) ∧ t.Has v := by
  by_cases ht : t.Has v
  · rw [represents_overwrite_iff h hd ht, and_iff_left ht]
  · refine iff_of_false (fun hr => ht ?_) fun hc => ht hc.2
    have hdst := hr.tnum dst
    rwa [getTnum_setTnum, if_pos ⟨rfl, (not_or.1 (Reg.isProgram_iff.1 hd)).1⟩,
      update_self] at hdst

end ZoneVerifier.Machine.State

namespace ZoneVerifier.Numeric.NumericDomain
open Word Ast Bounds Concrete
open Constraints (Ready)
open Function (update update_self update_of_ne)

def lowHalf (v : BitVec 64) : BitVec 64 := (v.setWidth 32).setWidth 64

theorem toNat_lowHalf (v : BitVec 64) : (lowHalf v).toNat = lo32 v.toNat := by
  simp only [lowHalf, BitVec.toNat_setWidth, lo32]
  omega

theorem signed_lowHalf (v : BitVec 64) : signed (lowHalf v) = lo32 v.toNat := by
  have hlt := lo32_lt v.toNat
  rw [signed, toNat_lowHalf, toI64_of_lt (by omega)]

theorem lowHalf_eq_self {v : BitVec 64} (h0 : 0 ≤ signed v) (h1 : signed v ≤ 2^32 - 1) :
    lowHalf v = v := by
  apply eq_of_signed_eq
  rw [signed_lowHalf, lo32_of_signed h0 (by omega)]

theorem lo32_between_sameUpper {lo hi : Int} {n : Nat} (hlo : I64 lo) (hhi : I64 hi)
    (h : toU64 lo / 2^32 = toU64 hi / 2^32) (h1 : lo ≤ toI64 n) (h2 : toI64 n ≤ hi) :
    lo32 (toU64 lo) ≤ lo32 n ∧ lo32 n ≤ lo32 (toU64 hi) := by
  unfold I64 at hlo hhi
  have hs : lo / 2^32 = hi / 2^32 := by
    unfold toU64 at h
    omega
  exact ScalarBounds.lo32_between_signed hs h1 h2

section Truncate
variable {d : NumericDomain} {ρ : Valuation} {x : Reg}

theorem Tracks.getInterval_range (h : d.Tracks ρ) (x : Reg) :
    I64 (d.getInterval x).1 ∧ I64 (d.getInterval x).2 := by
  cases d with
  | zone d =>
    obtain ⟨h1, h2⟩ := getInterval_sound h.represents h.zero x
    simp only [getInterval, Zone.getInterval, Zone.inf_eq] at h1 h2 ⊢
    unfold I64 at *
    split_ifs at h1 h2 ⊢ <;> omega
  | interval s => exact ⟨(h.range x).smin, (h.range x).smax⟩

theorem signedOf_lowHalf (ρ : Valuation) (x : Reg) :
    signedOf (update ρ x (lowHalf (ρ x))) x = lo32 (ρ x).toNat := by
  rw [signedOf, update_self, signed_lowHalf]

theorem Tracks.applyW32Truncation (h : d.Tracks ρ) (hx : x.isProgram = true) :
    (d.applyW32Truncation x).Tracks (update ρ x (lowHalf (ρ x))) := by
  obtain ⟨hl, hu⟩ := getInterval_sound h.represents h.zero x
  obtain ⟨hlr, hur⟩ := h.getInterval_range x
  have hlow := signedOf_lowHalf ρ x
  have hlt := lo32_lt (ρ x).toNat
  have hf := h.forget (v := lowHalf (ρ x)) hx
  unfold NumericDomain.applyW32Truncation
  dsimp only
  split_ifs with hsafe htight
  · have he : lowHalf (ρ x) = ρ x :=
      lowHalf_eq_self (Int.le_trans hsafe.1 hl) (Int.le_trans hu hsafe.2)
    rw [he, Function.update_eq_self]
    exact h
  · simp only [sameUpperHalf, decide_eq_true_eq] at htight
    obtain ⟨h1, h2⟩ := lo32_between_sameUpper hlr hur htight.2.2 hl hu
    have hhi := lo32_lt (toU64 (d.getInterval x).2)
    have hge := hf.assumeGeImm (c := lo32 (toU64 (d.getInterval x).1)) (x := x)
      (by unfold I64; omega) (by rw [hlow]; omega)
    exact hge.assumeLeImm (by unfold I64; omega) (by rw [hlow]; omega)
      (Or.inl (by rw [hlow]; omega))
  · have hge := hf.assumeGeImm (c := 0) (x := x) (by decide) (by rw [hlow]; omega)
    exact hge.assumeLeImm (by decide) (by rw [hlow]; omega) (Or.inl (by rw [hlow]; omega))

end Truncate

section Zext
variable {b : ScalarBounds} {n : Nat}

theorem toI32_lo32 (n : Nat) : toI32 (lo32 n) = toI32 n := by
  unfold toI32 lo32
  split_ifs <;> omega

theorem lo32_lo32 (n : Nat) : lo32 (lo32 n) = lo32 n := Nat.mod_mod _ _

theorem inRange_zextEnds (hb : b.InRange) : b.zextEnds.InRange := by
  obtain ⟨h1, h2, h3, h4, h5, h6, h7, h8⟩ := hb
  unfold I32 at h5 h6
  unfold ScalarBounds.zextEnds
  split_ifs <;> constructor <;> simp only [I64, I32] <;> omega

theorem has_zextEnds (h : b.Has n) : b.zextEnds.Has (lo32 n) := by
  obtain ⟨-, -, -, -, h5, h6, h7, h8⟩ := h
  have hlt := lo32_lt n
  have hs : toI64 (lo32 n) = lo32 n := toI64_of_lt (by omega)
  unfold ScalarBounds.zextEnds
  split_ifs with h0
  · have he : toI32 n = lo32 n := by
      unfold toI32 lo32 at *
      split_ifs at * <;> omega
    constructor <;> simp only [hs, toI32_lo32, lo32_lo32] <;> omega
  · constructor <;> simp only [hs, toI32_lo32, lo32_lo32] <;> omega

end Zext

section Kept
variable {d : NumericDomain} {ρ : Valuation} {x : Reg}

/-- What the domain relates to `x` also holds of its low half: every bounded
cell of the matrix, or every register with the same identity. -/
def ZextKept (d : NumericDomain) (ρ : Valuation) (x : Reg) : Prop :=
  match d with
  | zone d => ∀ j, j ≠ x →
      (d.data x j < Zone.inf → lo32 (ρ x).toNat - signedOf ρ j ≤ d.data x j) ∧
      (d.data j x < Zone.inf → signedOf ρ j - lo32 (ρ x).toNat ≤ d.data j x)
  | interval s => ∀ q, q ≠ x → q.isProgram = true →
      (∃ i, (s.getBounds x).scalarId = some i ∧ (s.getBounds q).scalarId = some i) →
        lowHalf (ρ x) = ρ x

theorem satisfies_lowHalf_iff {d : Zone.Dbm} (h : Zone.Satisfies d ρ) :
    Zone.Satisfies d (update ρ x (lowHalf (ρ x))) ↔ (zone d).ZextKept ρ x := by
  have hx := signedOf_lowHalf ρ x
  have hne : ∀ j, j ≠ x → signedOf (update ρ x (lowHalf (ρ x))) j = signedOf ρ j := by
    intro j hj
    rw [signedOf, update_of_ne hj, signedOf]
  constructor
  · intro hs j hj
    have h1 := hs x j
    have h2 := hs j x
    rw [hx, hne j hj] at h1 h2
    exact ⟨h1, h2⟩
  · intro hk i j hij
    by_cases hi : i = x
    · subst hi
      by_cases hj : j = i
      · subst hj
        have hd := h j j hij
        omega
      · rw [hx, hne j hj]
        exact (hk j hj).1 hij
    · rw [hne i hi]
      by_cases hj : j = x
      · subst hj
        rw [hx]
        exact (hk i hi).2 hij
      · rw [hne j hj]
        exact h i j hij

theorem represents_zext_zone_iff {d : Zone.Dbm} (h : Ready (zone d) ρ) (hx : x.isProgram = true) :
    ((zone d).zext32Into64 x).Represents (update ρ x (lowHalf (ρ x))) ↔
      (zone d).ZextKept ρ x := by
  have hp := Reg.isProgram_iff.1 hx
  have hz : ((zone d).zext32Into64 x) =
      zone (Zone.syncBounds (d.setBounds x (d.bounds x).zextEnds) x) := by
    unfold zext32Into64
    rw [if_neg hp]
  rw [hz, ← satisfies_lowHalf_iff h.rep.sat]
  constructor
  · intro hr
    have hs : Zone.Satisfies (Zone.syncBounds (d.setBounds x (d.bounds x).zextEnds) x)
        (update ρ x (lowHalf (ρ x))) := hr.sat
    exact (Zone.satisfies_setBounds_iff d x _ _).1 (Zone.satisfies_of_syncBounds hs)
  · intro hs
    -- the shadow tuple of `x` is rewritten, the others keep their words
    have ht : Zone.Tracks (d.setBounds x (d.bounds x).zextEnds)
        (update ρ x (lowHalf (ρ x))) := by
      refine ⟨hs, fun r => ?_, ?_⟩
      · simp only [Zone.Dbm.setBounds]
        by_cases hr : r = x
        · rw [if_pos hr, hr, update_self, toNat_lowHalf]
          exact Zone.Fits.of_inRange (inRange_zextEnds (h.range x)) (has_zextEnds (h.rep.has x))
        · rw [if_neg hr, update_of_ne hr]
          exact h.tracks.fits r
      · rw [signedOf, update_of_ne (Ne.symm (not_or.1 hp).1)]
        exact h.zero
    exact (ht.syncBounds x).represents

theorem represents_zext_interval_iff {s : Interval.IntervalState} (h : Ready (interval s) ρ)
    (hx : x.isProgram = true) :
    ((interval s).zext32Into64 x).Represents (update ρ x (lowHalf (ρ x))) ↔
      (interval s).ZextKept ρ x := by
  have hz : (interval s).zext32Into64 x = interval (s.modifyBounds x (·.assign32Into64)) := by
    unfold zext32Into64
    rw [if_neg (Reg.isProgram_iff.1 hx)]
  have hid : ∀ b : ScalarBounds, b.assign32Into64.scalarId = b.scalarId := by
    intro b
    unfold ScalarBounds.assign32Into64 ScalarBounds.zextEnds
    rw [ScalarBounds.scalarId_syncBounds]
    split_ifs <;> rfl
  have hids : ∀ r, ((s.modifyBounds x (·.assign32Into64)).getBounds r).scalarId =
      (s.getBounds r).scalarId := by
    intro r
    rw [Interval.getBounds_modifyBounds]
    by_cases hr : r = x
    · rw [if_pos hr, hid, hr]
    · rw [if_neg hr]
  have hhas : Interval.HasAll (s.modifyBounds x (·.assign32Into64))
      (update ρ x (lowHalf (ρ x))) := by
    intro r
    rw [Interval.getBounds_modifyBounds]
    by_cases hr : r = x
    · rw [if_pos hr, hr, update_self, toNat_lowHalf]
      have hlt := lo32_lt (ρ x).toNat
      exact ScalarBounds.has_syncBounds (inRange_zextEnds (h.range x)) (by omega)
        (has_zextEnds (h.hasAll x))
    · rw [if_neg hr, update_of_ne hr]
      exact h.hasAll r
  rw [hz]
  constructor
  · intro hr q hq hqp hshared
    obtain ⟨i, h1, h2⟩ := hshared
    have hnew := hr.linked x q i hx hqp (by rw [hids]; exact h1) (by rw [hids]; exact h2)
    rw [update_self, update_of_ne hq] at hnew
    rw [hnew]
    exact h.rep.linked q x i hqp hx h2 h1
  · intro hk
    refine ⟨hhas, fun r q i hr hq h1 h2 => ?_⟩
    rw [hids] at h1 h2
    have hold := h.rep.linked r q i hr hq h1 h2
    by_cases hrx : r = x
    · by_cases hqx : q = x
      · rw [hrx, hqx]
      · rw [hrx, update_self, update_of_ne hqx,
          hk q hqx hq ⟨i, hrx ▸ h1, h2⟩, ← hrx]
        exact hold
    · by_cases hqx : q = x
      · rw [hqx, update_self, update_of_ne hrx,
          hk r hrx hr ⟨i, hqx ▸ h2, h1⟩, ← hqx]
        exact hold
      · rw [update_of_ne hrx, update_of_ne hqx]
        exact hold

/-- Truncation is sound in both domains and the 32-bit queries are, while
zero-extension is exactly where the relations of the register survive it. -/
theorem truncation_sound_iff (h : Ready d ρ) (hx : x.isProgram = true) :
    ((d.applyW32Truncation x).Represents (update ρ x (lowHalf (ρ x))) ∧
      (d.zext32Into64 x).Represents (update ρ x (lowHalf (ρ x))) ∧
      ((d.getS32Bounds x).1 ≤ toI32 (ρ x).toNat ∧ toI32 (ρ x).toNat ≤ (d.getS32Bounds x).2) ∧
      ((d.getU32Bounds x).1 ≤ lo32 (ρ x).toNat ∧ lo32 (ρ x).toNat ≤ (d.getU32Bounds x).2)) ↔
    d.ZextKept ρ x := by
  have hzext : (d.zext32Into64 x).Represents (update ρ x (lowHalf (ρ x))) ↔
      d.ZextKept ρ x := by
    cases d with
    | zone d => exact represents_zext_zone_iff h hx
    | interval s => exact represents_zext_interval_iff h hx
  constructor
  · rintro ⟨-, hz, -⟩
    exact hzext.1 hz
  · intro hk
    exact ⟨((tracks_of_ready h).applyW32Truncation hx).represents, hzext.2 hk, getS32Bounds_sound h.rep x,
      getU32Bounds_sound h.rep x⟩

end Kept

def minusFive : Valuation
  | .r1 => -5
  | _ => 0

def pinned : Zone.Dbm := Zone.assignImm Zone.Dbm.new .r1 (-5)

theorem tracks_pinned : Zone.Tracks pinned minusFive := by
  have hnew := Zone.tracks_new (ρ := minusFive) (by decide)
  have he : update minusFive .r1 (-5) = minusFive := by
    funext r
    cases r <;> rfl
  have h := hnew.assignImm (x := .r1) (v := -5) (by decide) (show signed (-5) = -5 by decide)
  rwa [he] at h

/-- The matrix still says that `r1` is minus five. -/
theorem zext_keeps_the_old_word :
    (zone pinned).Represents minusFive ∧ signed (lowHalf (-5)) = 4294967291 ∧
      ¬ ((zone pinned).zext32Into64 .r1).Represents
        (update minusFive .r1 (lowHalf (-5))) := by
  refine ⟨tracks_pinned.represents, by decide, fun hr => ?_⟩
  have hs : Zone.Satisfies (Zone.syncBounds (pinned.setBounds .r1 (pinned.bounds .r1).zextEnds) .r1)
      (update minusFive .r1 (lowHalf (-5))) := hr.sat
  have hp := (Zone.satisfies_setBounds_iff pinned .r1 _ _).1 (Zone.satisfies_of_syncBounds hs)
  have ha := Zone.asserted_iff.1 (Zone.asserted_of_assignImm hp)
  rw [Zone.posBound_eq] at ha
  have hv : signedOf (update minusFive .r1 (lowHalf (-5))) .r1 = 4294967291 := by decide
  have hz : signedOf (update minusFive .r1 (lowHalf (-5))) .zero = 0 := by decide
  omega

theorem ready_new : Ready (zone Zone.Dbm.new) minusFive :=
  ⟨(Zone.tracks_new (by decide)).represents,
    fun _ => show ScalarBounds.unknown.InRange by decide, by decide⟩

theorem unrelated_word_extended :
    ((zone Zone.Dbm.new).zext32Into64 .r1).Represents
      (update minusFive .r1 (lowHalf (minusFive .r1))) := by
  refine ((truncation_sound_iff ready_new (x := .r1) (by decide)).2 fun j hj => ?_).2.1
  have hinf : ¬ Zone.inf < Zone.inf := Int.lt_irrefl _
  simp only [Zone.Dbm.new, if_neg hj, if_neg (Ne.symm hj)]
  exact ⟨fun h => absurd h hinf, fun h => absurd h hinf⟩

end ZoneVerifier.Numeric.NumericDomain
