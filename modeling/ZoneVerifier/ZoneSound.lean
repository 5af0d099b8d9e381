import ZoneVerifier.Concrete
import ZoneVerifier.Zone

/-!
# What a zone represents

A zone represents the valuations that satisfy every bounded cell of its matrix
and lie in every shadow tuple. Closing and synchronising preserve the
represented valuations. Each refinement keeps those that satisfy the one
constraint it adds, weakened by the clamping of large constants to `posBound`.
-/

set_option autoImplicit false

namespace ZoneVerifier.Zone
open Word Ast DiffBound Concrete Bounds.ScalarBounds
variable {d : Dbm} {c : Int} {n : Nat} {i j x : Reg} {b : ShadowBounds} {ρ : Valuation}

def Satisfies (d : Dbm) (ρ : Valuation) : Prop := Sat inf d.data (signedOf ρ)

structure Represents (d : Dbm) (ρ : Valuation) : Prop where
  sat : Satisfies d ρ
  has : ∀ r, (d.bounds r).Has (ρ r).toNat

theorem getInterval_bounds (h : Satisfies d ρ) (hz : signedOf ρ .zero = 0) (x : Reg) :
    (getInterval d x).1 ≤ signedOf ρ x ∧ signedOf ρ x ≤ (getInterval d x).2 := by
  have hr : I64 (signedOf ρ x) := signed_range (ρ x)
  have h1 := h .zero x
  have h2 := h x .zero
  unfold I64 at hr
  simp only [getInterval, Dbm.get]
  split_ifs <;> omega

theorem clampUpperBound_le_inf (c : Int) : clampUpperBound c ≤ inf := by
  unfold clampUpperBound negBound posBound inf
  split_ifs <;> omega

theorem le_clampUpperBound (h : clampUpperBound c ≠ inf) : c ≤ clampUpperBound c := by
  unfold clampUpperBound at *
  split_ifs at * <;> omega

theorem clampedAdd_sound (a b : Int) (ha : a < inf) (hb : b < inf) :
    inf ≤ clampedAdd a b ∨ a + b ≤ clampedAdd a b := by
  unfold clampedAdd
  rw [if_neg (by omega)]
  split_ifs
  · by_cases h : clampUpperBound (a + b) = inf
    · exact Or.inl (Int.le_of_eq h.symm)
    · exact Or.inr (le_clampUpperBound h)
  · exact Or.inl (Int.le_refl _)

/-- What the matrix asserts after the constraint `x - y ≤ c` is added. -/
def Asserted (c diff : Int) : Prop := clampUpperBound c ≠ inf → diff ≤ clampUpperBound c

theorem asserted_of_le {diff : Int} (h : diff ≤ c) : Asserted c diff :=
  fun hc => Int.le_trans h (le_clampUpperBound hc)

theorem asserted_iff {diff : Int} : Asserted c diff ↔ posBound < c ∨ diff ≤ max c (-posBound) := by
  unfold Asserted clampUpperBound negBound
  have : posBound < inf ∧ 0 < posBound := by unfold posBound inf; omega
  split_ifs <;> omega

theorem sat_addConstraint_iff (d : Dbm) (i j : Reg) (c : Int) (x : Reg → Int) :
    Sat inf (d.addConstraint i j c).data x ↔ Sat inf d.data x ∧ Asserted c (x i - x j) := by
  unfold Dbm.addConstraint Asserted
  split_ifs with h
  · simp [h]
  · have hlt : clampUpperBound c < inf :=
      Int.lt_iff_le_and_ne.2 ⟨clampUpperBound_le_inf c, h⟩
    simp only [sat_tighten_iff, hlt, h, ne_eq, not_false_eq_true, forall_const]

theorem satisfies_addConstraint_iff (d : Dbm) (i j : Reg) (c : Int) (ρ : Valuation) :
    Satisfies (d.addConstraint i j c) ρ ↔
      Satisfies d ρ ∧ Asserted c (signedOf ρ i - signedOf ρ j) :=
  sat_addConstraint_iff d i j c (signedOf ρ)

theorem satisfies_close_iff (d : Dbm) (ρ : Valuation) : Satisfies d.close ρ ↔ Satisfies d ρ := by
  simp only [Satisfies, Dbm.close]
  exact sat_close_iff clampedAdd_sound Reg.rows d.data (signedOf ρ)

theorem bounds_addConstraint (d : Dbm) (i j : Reg) (c : Int) :
    (d.addConstraint i j c).bounds = d.bounds := by
  unfold Dbm.addConstraint
  split_ifs <;> rfl

/-- The upper bounds of a shadow tuple fit their machine types and the tuple
describes the word; narrowing a tuple around the word keeps both. -/
structure Fits (b : ShadowBounds) (n : Nat) : Prop where
  has : b.Has n
  smax : b.smax < 2^63
  umax : b.umax < 2^64
  s32Max : b.s32Max < 2^31
  u32Max : b.u32Max < 2^32

theorem Fits.of_inRange (hb : b.InRange) (h : b.Has n) : Fits b n :=
  ⟨h, hb.smax.2, hb.umax, hb.s32Max.2, hb.u32Max⟩

theorem Fits.meetU64 {lo hi : Nat} (h : Fits b n) (hl : lo ≤ n) (hh : n ≤ hi) :
    Fits (b.meetU64 lo hi) n :=
  { h with
    has := (has_meetU64 b lo hi n).2 ⟨h.has, hl, hh⟩
    umax := Nat.lt_of_le_of_lt (Nat.min_le_left _ _) h.umax }

theorem Fits.meetS64 {lo hi : Int} (h : Fits b n) (hl : lo ≤ toI64 n) (hh : toI64 n ≤ hi) :
    Fits (b.meetS64 lo hi) n :=
  { h with
    has := (has_meetS64 b lo hi n).2 ⟨h.has, hl, hh⟩
    smax := Int.lt_of_le_of_lt (Int.min_le_left _ _) h.smax }

theorem Fits.meetU32 {lo hi : Nat} (h : Fits b n) (hl : lo ≤ lo32 n) (hh : lo32 n ≤ hi) :
    Fits (b.meetU32 lo hi) n :=
  { h with
    has := (has_meetU32 b lo hi n).2 ⟨h.has, hl, hh⟩
    u32Max := Nat.lt_of_le_of_lt (Nat.min_le_left _ _) h.u32Max }

theorem Fits.meetS32 {lo hi : Int} (h : Fits b n) (hl : lo ≤ toI32 n) (hh : toI32 n ≤ hi) :
    Fits (b.meetS32 lo hi) n :=
  { h with
    has := (has_meetS32 b lo hi n).2 ⟨h.has, hl, hh⟩
    s32Max := Int.lt_of_le_of_lt (Int.min_le_left _ _) h.s32Max }

theorem fits_syncU64FromS64 (hn : n < 2^64) (h : Fits b n) : Fits (syncU64FromS64 b) n := by
  unfold syncU64FromS64
  split_ifs with h0
  · have h1 := h.has.smin_le
    have h2 := h.has.le_smax
    have h3 := h.smax
    have h4 := toI64_of_lt ((toI64_nonneg_iff hn).1 (Int.le_trans h0 h1))
    refine h.meetU64 ?_ ?_ <;> unfold toU64 <;> omega
  · exact h

theorem fits_syncS64FromU64 (h : Fits b n) : Fits (syncS64FromU64 b) n := by
  unfold syncS64FromU64
  split_ifs with h0
  · have h1 := h.has.umin_le
    have h2 := h.has.le_umax
    rw [toI64_of_lt (n := b.umin) (by omega), toI64_of_lt (n := b.umax) (by omega)]
    refine h.meetS64 ?_ ?_ <;> rw [toI64_of_lt (n := n) (by omega)] <;> omega
  · exact h

theorem fits_syncU32FromS32 (h : Fits b n) : Fits (syncU32FromS32 b) n := by
  unfold syncU32FromS32
  split_ifs with h0
  · have h1 := h.has.s32Min_le
    have h2 := h.has.le_s32Max
    have h3 := h.s32Max
    refine h.meetU32 ?_ ?_ <;> unfold toI32 at h1 h2 <;> unfold lo32 toU64 <;>
      split_ifs at h1 h2 <;> omega
  · exact h

theorem fits_syncS32FromU32 (h : Fits b n) : Fits (syncS32FromU32 b) n := by
  unfold syncS32FromU32
  split_ifs with h0
  · have h1 := h.has.u32Min_le
    have h2 := h.has.le_u32Max
    refine h.meetS32 ?_ ?_ <;> unfold lo32 at h1 h2 <;> unfold toI32 <;> split_ifs <;> omega
  · exact h

theorem fits_syncS32FromS64 (hn : n < 2^64) (h : Fits b n) : Fits (syncS32FromS64 b) n := by
  unfold syncS32FromS64
  split_ifs with h0
  · have h1 := h.has.smin_le
    have h2 := h.has.le_smax
    refine h.meetS32 ?_ ?_ <;> unfold toI64 at h1 h2 <;> unfold toI32 toU64 <;>
      split_ifs at * <;> omega
  · exact h

theorem fits_syncU32FromU64 (h : Fits b n) : Fits (syncU32FromU64 b) n := by
  unfold syncU32FromU64
  split_ifs with h0
  · have h1 := h.has.umin_le
    have h2 := h.has.le_umax
    refine h.meetU32 ?_ ?_ <;> unfold lo32 <;> omega
  · exact h

theorem fits_sync64FromU32 (h : Fits b n) : Fits (sync64FromU32 b) n := by
  unfold sync64FromU32
  dsimp only
  split
  case isTrue h0 =>
    have h1 := h.has.u32Min_le
    have h2 := h.has.le_u32Max
    have h3 := h.has.le_umax
    have hl : lo32 n = n := Nat.mod_eq_of_lt (by omega)
    rw [hl] at h1 h2
    have hm := h.meetU64 h1 h2
    have hlo := hm.has.umin_le
    have hhi : (b.meetU64 b.u32Min b.u32Max).umax ≤ 2^32 - 1 :=
      Nat.le_trans (Nat.min_le_left _ _) h0
    have hhi' := hm.has.le_umax
    rw [toI64_of_lt (n := (b.meetU64 b.u32Min b.u32Max).umin) (by omega),
      toI64_of_lt (n := (b.meetU64 b.u32Min b.u32Max).umax) (by omega)]
    refine hm.meetS64 ?_ ?_ <;> rw [toI64_of_lt (n := n) (by omega)] <;> omega
  case isFalse => exact h

theorem fits_crossPollinate (hn : n < 2^64) (h : Fits b n) : Fits (crossPollinate b) n :=
  fits_sync64FromU32 (fits_syncU32FromU64 (fits_syncS32FromS64 hn (fits_syncS32FromU32
    (fits_syncU32FromS32 (fits_syncS64FromU64 (fits_syncU64FromS64 hn h))))))

/-- The invariant the refinements keep: `Represents` with the upper bounds of
every shadow tuple in range, and `Zero` holding zero. -/
structure Tracks (d : Dbm) (ρ : Valuation) : Prop where
  sat : Satisfies d ρ
  fits : ∀ r, Fits (d.bounds r) (ρ r).toNat
  zero : signedOf ρ .zero = 0

theorem Tracks.represents (h : Tracks d ρ) : Represents d ρ :=
  ⟨h.sat, fun r => (h.fits r).has⟩

theorem Represents.tracks (h : Represents d ρ) (hd : ∀ r, (d.bounds r).InRange)
    (hz : signedOf ρ .zero = 0) : Tracks d ρ :=
  ⟨h.sat, fun r => Fits.of_inRange (hd r) (h.has r), hz⟩

theorem Tracks.addConstraint (h : Tracks d ρ) (ha : Asserted c (signedOf ρ i - signedOf ρ j)) :
    Tracks (d.addConstraint i j c) ρ := by
  refine ⟨(satisfies_addConstraint_iff d i j c ρ).2 ⟨h.sat, ha⟩, ?_, h.zero⟩
  rw [bounds_addConstraint]
  exact h.fits

theorem Tracks.close (h : Tracks d ρ) : Tracks d.close ρ :=
  ⟨(satisfies_close_iff d ρ).2 h.sat, h.fits, h.zero⟩

theorem Tracks.setBounds (h : Tracks d ρ) (hb : Fits b (ρ x).toNat) :
    Tracks (d.setBounds x b) ρ := by
  refine ⟨h.sat, fun r => ?_, h.zero⟩
  unfold Dbm.setBounds
  dsimp only
  split_ifs with hr
  · rwa [hr]
  · exact h.fits r

theorem fits_syncFromDbm_of (hf : Fits (d.bounds x) n)
    (hu : d.data x .zero < inf → toI64 n ≤ d.data x .zero)
    (hl : d.data .zero x < inf → -toI64 n ≤ d.data .zero x) :
    Fits (syncFromDbm d x (d.bounds x)) n := by
  have h1 : Fits (if d.get x .zero < inf then
      { d.bounds x with smax := min (d.bounds x).smax (d.get x .zero) } else d.bounds x) n := by
    split_ifs with hm
    · have hm' := hu hm
      have hlt := hf.smax
      exact { hf with
        has := { hf.has with
          le_smax := Int.le_min.2 ⟨hf.has.le_smax, by unfold Dbm.get; omega⟩ }
        smax := by dsimp only; omega }
    · exact hf
  unfold syncFromDbm
  dsimp only
  split
  case isTrue hm =>
    have hm' := hl hm
    exact { h1 with
      has := { h1.has with
        smin_le := Int.max_le.2 ⟨h1.has.smin_le, by unfold Dbm.get; omega⟩ } }
  case isFalse => exact h1

theorem fits_syncFromDbm (h : Tracks d ρ) (x : Reg) :
    Fits (syncFromDbm d x (d.bounds x)) (ρ x).toNat := by
  have hu := h.sat x .zero
  have hl := h.sat .zero x
  have hv : signedOf ρ x = toI64 (ρ x).toNat := rfl
  rw [h.zero, hv] at hu hl
  exact fits_syncFromDbm_of (h.fits x) (fun hb => by have := hu hb; omega)
    (fun hb => by have := hl hb; omega)

theorem Tracks.syncBounds (h : Tracks d ρ) (x : Reg) : Tracks (syncBounds d x) ρ := by
  unfold Zone.syncBounds
  split
  case isTrue => exact h
  case isFalse =>
    dsimp only
    have hb := fits_crossPollinate (ρ x).isLt (fits_syncFromDbm h x)
    have h1 := h.setBounds hb
    generalize crossPollinate (syncFromDbm d x (d.bounds x)) = b at hb h1
    have hu : signedOf ρ x ≤ b.smax := hb.has.le_smax
    have hl : b.smin ≤ signedOf ρ x := hb.has.smin_le
    have h2 : Tracks (if b.smax < 2^63 - 1 then (d.setBounds x b).addConstraint x .zero b.smax
        else d.setBounds x b) ρ := by
      split_ifs
      · refine h1.addConstraint (asserted_of_le ?_)
        rw [h.zero]
        omega
      · exact h1
    split
    · refine h2.addConstraint (asserted_of_le ?_)
      rw [h.zero]
      omega
    · exact h2

theorem satisfies_of_addConstraint (h : Satisfies (d.addConstraint i j c) ρ) : Satisfies d ρ :=
  ((satisfies_addConstraint_iff d i j c ρ).1 h).1

theorem satisfies_setBounds_iff (d : Dbm) (x : Reg) (b : ShadowBounds) (ρ : Valuation) :
    Satisfies (d.setBounds x b) ρ ↔ Satisfies d ρ := Iff.rfl

theorem satisfies_of_ite_addConstraint {p : Prop} [Decidable p]
    (h : Satisfies (if p then d.addConstraint i j c else d) ρ) :
    Satisfies d ρ := by
  split at h
  · exact satisfies_of_addConstraint h
  · exact h

theorem satisfies_of_syncBounds (h : Satisfies (Zone.syncBounds d x) ρ) : Satisfies d ρ := by
  unfold Zone.syncBounds at h
  split at h
  case isTrue => exact h
  case isFalse =>
    generalize crossPollinate (syncFromDbm d x (d.bounds x)) = b at h
    have h1 := satisfies_of_ite_addConstraint (satisfies_of_ite_addConstraint h)
    exact (satisfies_setBounds_iff d x b ρ).1 h1

end ZoneVerifier.Zone

namespace ZoneVerifier.Zone
open Ast Concrete

/-- The clamped form of `c ≤ v`. -/
def GeKept (c v : Int) : Prop := c < -posBound ∨ min c posBound ≤ v

def LeKept (c v : Int) : Prop := posBound < c ∨ v ≤ max c (-posBound)

theorem posBound_eq : posBound = 1152921504606846975 := by decide

theorem inf_eq : inf = 2305843009213693951 := by decide

variable {c v diff : Int}

theorem geKept_of_le (h : c ≤ v) : GeKept c v := by
  unfold GeKept
  omega

theorem leKept_of_le (h : v ≤ c) : LeKept c v := by
  unfold LeKept
  omega

theorem asserted_neg_iff : Asserted (-c) (0 - v) ↔ GeKept c v := by
  rw [asserted_iff]
  unfold GeKept
  omega

theorem asserted_sub_zero_iff : Asserted c (v - 0) ↔ LeKept c v := by
  rw [asserted_iff, Int.sub_zero]
  rfl

theorem asserted_zero_iff : Asserted 0 diff ↔ diff ≤ 0 := by
  rw [asserted_iff, posBound_eq]
  omega

theorem asserted_neg_one_iff : Asserted (-1) diff ↔ diff ≤ -1 := by
  rw [asserted_iff, posBound_eq]
  omega

section Ops
variable {d : Dbm} {ρ : Valuation} {x y : Reg} {c : Int}

theorem satisfies_of_close_addConstraint {i j : Reg}
    (h : Satisfies (d.addConstraint i j c).close ρ) : Asserted c (signedOf ρ i - signedOf ρ j) :=
  ((satisfies_addConstraint_iff d i j c ρ).1 ((satisfies_close_iff _ ρ).1 h)).2

theorem geKept_of_satisfies (hz : signedOf ρ .zero = 0) (h : Satisfies (Zone.assumeGeImm d x c) ρ) :
    GeKept c (signedOf ρ x) := by
  unfold Zone.assumeGeImm at h
  split_ifs at h with h0
  · left
    rw [posBound_eq]
    omega
  · have ha := satisfies_of_close_addConstraint (satisfies_of_syncBounds h)
    rw [hz] at ha
    exact asserted_neg_iff.1 ha

theorem leKept_of_satisfies (hz : signedOf ρ .zero = 0) (h : Satisfies (Zone.assumeLeImm d x c) ρ) :
    LeKept c (signedOf ρ x) := by
  unfold Zone.assumeLeImm at h
  split_ifs at h with h0
  · left
    rw [posBound_eq]
    rw [inf_eq] at h0
    omega
  · have ha := satisfies_of_close_addConstraint (satisfies_of_syncBounds h)
    rw [hz] at ha
    exact asserted_sub_zero_iff.1 ha

section
variable (h : Tracks d ρ)
include h

theorem Tracks.assumeGeImm (hk : GeKept c (signedOf ρ x)) :
    Tracks (assumeGeImm d x c) ρ := by
  unfold Zone.assumeGeImm
  split_ifs
  · exact h
  · refine ((h.addConstraint ?_).close).syncBounds x
    rw [h.zero]
    exact asserted_neg_iff.2 hk

theorem represents_assumeGeImm_iff :
    Represents (assumeGeImm d x c) ρ ↔ GeKept c (signedOf ρ x) :=
  ⟨fun hr => geKept_of_satisfies h.zero hr.sat, fun hk => (h.assumeGeImm hk).represents⟩

theorem Tracks.assumeLeImm (hk : LeKept c (signedOf ρ x)) :
    Tracks (assumeLeImm d x c) ρ := by
  unfold Zone.assumeLeImm
  split_ifs
  · exact h
  · refine ((h.addConstraint ?_).close).syncBounds x
    rw [h.zero]
    exact asserted_sub_zero_iff.2 hk

theorem Tracks.assumeLtImm (hc : c ≠ -2^63) (hk : LeKept (c - 1) (signedOf ρ x)) :
    Tracks (assumeLtImm d x c) ρ := by
  unfold Zone.assumeLtImm
  rw [if_neg hc]
  split_ifs
  · exact h
  · refine ((h.addConstraint ?_).close).syncBounds x
    rw [h.zero]
    exact asserted_sub_zero_iff.2 hk

theorem Tracks.assumeEqImm (hv : signedOf ρ x = c) :
    Tracks (assumeEqImm d x c) ρ := by
  have h1 : Tracks (d.addConstraint x .zero c) ρ :=
    h.addConstraint (asserted_of_le (by rw [h.zero]; omega))
  have h2 : Tracks (if -2^63 < c then (d.addConstraint x .zero c).addConstraint .zero x (-c)
      else d.addConstraint x .zero c) ρ := by
    split_ifs
    · exact h1.addConstraint (asserted_of_le (by rw [h.zero]; omega))
    · exact h1
  exact h2.close.syncBounds x

theorem Tracks.addLe (hk : signedOf ρ x ≤ signedOf ρ y) :
    Tracks (d.addConstraint x y 0) ρ :=
  h.addConstraint (asserted_of_le (by omega))

theorem represents_assumeLe_iff :
    Represents (assumeLe d x y) ρ ↔ signedOf ρ x ≤ signedOf ρ y := by
  refine ⟨fun hr => ?_, fun hk => ((h.addLe hk).close).represents⟩
  have := asserted_zero_iff.1 (satisfies_of_close_addConstraint hr.sat)
  omega

theorem represents_assumeGt_iff :
    Represents (assumeGt d x y) ρ ↔ signedOf ρ y < signedOf ρ x := by
  refine ⟨fun hr => ?_, fun hk => ?_⟩
  · have := asserted_neg_one_iff.1 (satisfies_of_close_addConstraint hr.sat)
    omega
  · exact (h.addConstraint (asserted_of_le (by omega))).close.represents

theorem Tracks.assumeLeOffset (hk : signedOf ρ x < signedOf ρ y) :
    Tracks (assumeLeOffset d x y (-1)) ρ :=
  (h.addConstraint (asserted_of_le (by omega))).close

theorem represents_assumeLeOffset_iff :
    Represents (assumeLeOffset d x y (-1)) ρ ↔ signedOf ρ x < signedOf ρ y := by
  refine ⟨fun hr => ?_, fun hk => (h.assumeLeOffset hk).represents⟩
  have := asserted_neg_one_iff.1 (satisfies_of_close_addConstraint hr.sat)
  omega

theorem represents_intersectEqReg_iff :
    Represents (intersectEqReg d x y) ρ ↔ signedOf ρ x = signedOf ρ y := by
  constructor
  · intro hr
    have hs := satisfies_of_syncBounds (satisfies_of_syncBounds hr.sat)
    rw [satisfies_close_iff, satisfies_addConstraint_iff, satisfies_addConstraint_iff,
      asserted_zero_iff, asserted_zero_iff] at hs
    omega
  · intro hv
    have h1 := (h.addLe (x := x) (y := y) (by omega)).addLe (x := y) (y := x) (by omega)
    exact ((h1.close.syncBounds x).syncBounds y).represents

theorem represents_addConstraint_geZero_iff {i j : Reg} :
    Represents (assumeGeImm (d.addConstraint i j c).close x 0) ρ ↔
      Asserted c (signedOf ρ i - signedOf ρ j) ∧ 0 ≤ signedOf ρ x := by
  constructor
  · intro hr
    have hs := hr.sat
    unfold assumeGeImm at hs
    have hs := (satisfies_close_iff _ ρ).1 (satisfies_of_syncBounds hs)
    obtain ⟨h1, h2⟩ := (satisfies_addConstraint_iff _ _ _ _ ρ).1 hs
    rw [h.zero] at h2
    have hge := asserted_neg_iff.1 h2
    simp only [GeKept, posBound_eq] at hge
    exact ⟨satisfies_of_close_addConstraint h1, by omega⟩
  · rintro ⟨ha, h0⟩
    exact ((h.addConstraint ha).close.assumeGeImm (geKept_of_le h0)).represents

theorem represents_assumeLe_geZero_iff :
    Represents (assumeGeImm (assumeLe d x y) x 0) ρ ↔
      signedOf ρ x ≤ signedOf ρ y ∧ 0 ≤ signedOf ρ x := by
  refine (represents_addConstraint_geZero_iff h).trans (and_congr_left fun _ => ?_)
  rw [asserted_zero_iff]
  omega

theorem represents_assumeLt_geZero_iff :
    Represents (assumeGeImm (assumeLeOffset d x y (-1)) x 0) ρ ↔
      signedOf ρ x < signedOf ρ y ∧ 0 ≤ signedOf ρ x := by
  refine (represents_addConstraint_geZero_iff h).trans (and_congr_left fun _ => ?_)
  rw [asserted_neg_one_iff]
  omega

end

end Ops
end ZoneVerifier.Zone
