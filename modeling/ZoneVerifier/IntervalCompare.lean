import ZoneVerifier.IntervalKeep

/-!
# Comparing two registers in the interval domain

A comparison refines the intervals of its two registers, whatever the other
registers hold. `assumeLe` and `assumeLeOffset` cut the left register at the
largest value of the right one, so they inherit the loss of `assumeSle`;
`assumeGt` cuts each register at the far end of the other and loses every pair
that is ordered only inside the overlap.
-/

set_option autoImplicit false

namespace ZoneVerifier.Interval
open Word Ast Bounds Concrete

def Both (s : IntervalState) (ρ : Valuation) (x y : Reg) : Prop :=
  (s.getBounds x).Has (ρ x).toNat ∧ (s.getBounds y).Has (ρ y).toNat

instance (s : IntervalState) (ρ : Valuation) (x y : Reg) : Decidable (Both s ρ x y) :=
  inferInstanceAs (Decidable (_ ∧ _))

/-- What the upper end `c + y` of the right register does to the left one. -/
def OffsetKept (s : IntervalState) (ρ : Valuation) (x y : Reg) (c : Int) : Prop :=
  (s.getBounds y).smax ≠ 2^63 - 1 →
    (s.getBounds x).SleKeeps (satI64 ((s.getBounds y).smax + c)) (ρ x).toNat

section Compare
variable {s : IntervalState} {ρ : Valuation} {x y : Reg}

theorem both_modifyBounds_iff (f g : ScalarBounds → ScalarBounds) (hxy : y ≠ x) :
    Both ((s.modifyBounds x f).modifyBounds y g) ρ x y ↔
      (f (s.getBounds x)).Has (ρ x).toNat ∧ (g (s.getBounds y)).Has (ρ y).toNat := by
  unfold Both
  rw [getBounds_modifyBounds, if_neg (Ne.symm hxy), getBounds_modifyBounds, if_pos rfl,
    getBounds_modifyBounds, if_pos rfl, getBounds_modifyBounds, if_neg hxy]

theorem both_modifyLeft_iff (f : ScalarBounds → ScalarBounds) (hb : Both s ρ x y) :
    Both (s.modifyBounds x f) ρ x y ↔ (f (s.getBounds x)).Has (ρ x).toNat := by
  unfold Both
  rw [getBounds_modifyBounds, if_pos rfl, getBounds_modifyBounds]
  refine ⟨And.left, fun h => ⟨h, ?_⟩⟩
  by_cases hxy : y = x
  · rw [if_pos hxy, hxy]
    exact h
  · rw [if_neg hxy]
    exact hb.2

theorem getBounds_modifyIf (p : Prop) [Decidable p] (f : ScalarBounds → ScalarBounds) (r q : Reg) :
    (if p then s.modifyBounds r f else s).getBounds q =
      if q = r then if p then f (s.getBounds r) else s.getBounds r else s.getBounds q := by
  by_cases hp : p
  · rw [if_pos hp, if_pos hp, getBounds_modifyBounds]
  · rw [if_neg hp, if_neg hp]
    by_cases hq : q = r
    · rw [if_pos hq, hq]
    · rw [if_neg hq]

variable (hr : InRange s) (hb : Both s ρ x y)
include hr hb

theorem both_assumeLe_iff (hle : signedOf ρ x ≤ signedOf ρ y) :
    Both (assumeLe s x y) ρ x y ↔
      (s.getBounds x).SleKeeps (s.getBounds y).smax (ρ x).toNat := by
  have hmin : (s.getBounds x).smin ≤ signedOf ρ x := hb.1.smin_le
  have hmax : signedOf ρ y ≤ (s.getBounds y).smax := hb.2.le_smax
  have hcut : signedOf ρ x ≤ (s.getBounds y).smax := Int.le_trans hle hmax
  have hrest : (s.getBounds x).smin ≤ signedOf ρ y := Int.le_trans hmin hle
  have hsle := ScalarBounds.has_assumeSle_iff (hr x) (hr y).smax (ρ x).isLt hb.1
  unfold assumeLe
  rw [if_pos (Int.le_trans hmin hcut), if_pos (Int.le_trans hmin hcut)]
  by_cases hxy : y = x
  · -- the lower refinement falls on the tuple just refined, which it cannot repair
    subst hxy
    have hsge := ScalarBounds.has_assumeSge_iff_of_settled ((hr y).assumeSle (hr y).smax)
      (hr y).smin (ρ y).isLt (Or.inl (ScalarBounds.settled_syncBounds _))
    unfold Both
    rw [getBounds_modifyBounds, if_pos rfl, getBounds_modifyBounds, if_pos rfl, and_self, hsge,
      hsle]
    exact ⟨fun h => h.1.2, fun h => ⟨⟨hcut, h⟩, hrest⟩⟩
  · rw [both_modifyBounds_iff _ _ hxy, hsle,
      ScalarBounds.has_assumeSge_iff (hr y) (hr x).smin (ρ y).isLt hb.2]
    exact ⟨fun h => h.1.2, fun h => ⟨⟨hcut, h⟩, hrest⟩⟩

theorem both_assumeGt_iff (hlt : signedOf ρ y < signedOf ρ x) :
    Both (assumeGt s x y) ρ x y ↔ GtKept s ρ x y := by
  have hxy : y ≠ x := by
    rintro rfl
    exact absurd hlt (Int.lt_irrefl _)
  have hsge := ScalarBounds.has_assumeSge_iff (hr x) (satI64_range ((s.getBounds y).smax + 1))
    (ρ x).isLt hb.1
  have hsle := ScalarBounds.has_assumeSle_iff (hr y) (satI64_range ((s.getBounds x).smin - 1))
    (ρ y).isLt hb.2
  -- each half is a conditional refinement of its own register
  unfold assumeGt GtKept Both
  rw [getBounds_modifyIf, if_neg (Ne.symm hxy), getBounds_modifyIf, if_pos rfl,
    getBounds_modifyIf, if_pos rfl, getBounds_modifyIf, if_neg hxy]
  refine and_congr ?_ ?_
  · split_ifs with hp
    · rw [hsge]
      exact ⟨fun h _ => h, fun h => h hp⟩
    · exact ⟨fun _ hp' => absurd hp' hp, fun _ => hb.1⟩
  · split_ifs with hp
    · rw [hsle]
      exact ⟨fun h _ => h, fun h => h hp⟩
    · exact ⟨fun _ hp' => absurd hp' hp, fun _ => hb.2⟩

theorem both_assumeLeOffset_iff {c : Int} (hle : signedOf ρ x ≤ signedOf ρ y + c) :
    Both (assumeLeOffset s x y c) ρ x y ↔ OffsetKept s ρ x y c := by
  have hmax : signedOf ρ y ≤ (s.getBounds y).smax := hb.2.le_smax
  have hv : I64 (signedOf ρ x) := signed_range (ρ x)
  have hcut : signedOf ρ x ≤ satI64 ((s.getBounds y).smax + c) := by
    unfold I64 at hv
    unfold satI64
    omega
  have hsle := ScalarBounds.has_assumeSle_iff (hr x) (satI64_range ((s.getBounds y).smax + c))
    (ρ x).isLt hb.1
  unfold assumeLeOffset OffsetKept
  by_cases hm : (s.getBounds y).smax ≠ 2^63 - 1
  · rw [if_pos hm, both_modifyLeft_iff _ hb, hsle]
    exact ⟨fun h _ => h.2, fun h => ⟨hcut, h hm⟩⟩
  · rw [if_neg hm]
    exact ⟨fun _ hm' => absurd hm' hm, fun _ => hb⟩

theorem both_intersectEqReg (heq : ρ x = ρ y) : Both (intersectEqReg s x y) ρ x y := by
  unfold intersectEqReg
  split_ifs with hx
  · exact hb
  · rw [both_modifyLeft_iff _ hb]
    have hy : (s.getBounds y).Has (ρ x).toNat := by
      rw [heq]
      exact hb.2
    refine ScalarBounds.has_syncBounds (inRange_meetAll (hr x) (hr y)) (ρ x).isLt ?_
    refine (ScalarBounds.has_meetU32 _ _ _ _).2 ⟨(ScalarBounds.has_meetS32 _ _ _ _).2
      ⟨(ScalarBounds.has_meetU64 _ _ _ _).2 ⟨(ScalarBounds.has_meetS64 _ _ _ _).2
        ⟨hb.1, hy.smin_le, hy.le_smax⟩, hy.umin_le, hy.le_umax⟩, hy.s32Min_le, hy.le_s32Max⟩,
        hy.u32Min_le, hy.le_u32Max⟩

/-- The four comparisons of two registers keep the pairs that satisfy them
exactly when the cuts they make at each other's ends do. -/
theorem comparisons_sound_iff (c : Int) :
    ((signedOf ρ x ≤ signedOf ρ y → Both (assumeLe s x y) ρ x y) ∧
      (signedOf ρ y < signedOf ρ x → Both (assumeGt s x y) ρ x y) ∧
      (signedOf ρ x ≤ signedOf ρ y + c → Both (assumeLeOffset s x y c) ρ x y) ∧
      (ρ x = ρ y → Both (intersectEqReg s x y) ρ x y)) ↔
    (signedOf ρ x ≤ signedOf ρ y →
        (s.getBounds x).SleKeeps (s.getBounds y).smax (ρ x).toNat) ∧
      (signedOf ρ y < signedOf ρ x → GtKept s ρ x y) ∧
      (signedOf ρ x ≤ signedOf ρ y + c → OffsetKept s ρ x y c) := by
  constructor
  · rintro ⟨hle, hgt, hoff, -⟩
    exact ⟨fun h => (both_assumeLe_iff hr hb h).1 (hle h),
      fun h => (both_assumeGt_iff hr hb h).1 (hgt h),
      fun h => (both_assumeLeOffset_iff hr hb h).1 (hoff h)⟩
  · rintro ⟨hle, hgt, hoff⟩
    exact ⟨fun h => (both_assumeLe_iff hr hb h).2 (hle h),
      fun h => (both_assumeGt_iff hr hb h).2 (hgt h),
      fun h => (both_assumeLeOffset_iff hr hb h).2 (hoff h), both_intersectEqReg hr hb⟩

end Compare

def overlapping : IntervalState :=
  assignInterval (assignInterval IntervalState.new .r1 0 10) .r2 0 5

def threeAndOne : Valuation
  | .r1 => 3
  | .r2 => 1
  | _ => 0

theorem inRange_overlapping : InRange overlapping := by
  intro r
  cases r <;> decide

theorem greater_pair_lost :
    InRange overlapping ∧ Both overlapping threeAndOne .r1 .r2 ∧
      signedOf threeAndOne .r2 < signedOf threeAndOne .r1 ∧
      ¬ Both (assumeGt overlapping .r1 .r2) threeAndOne .r1 .r2 :=
  ⟨inRange_overlapping, by decide, by decide, by decide⟩

def eightAndOne : Valuation
  | .r1 => 8
  | .r2 => 1
  | _ => 0

theorem disjoint_pair_kept :
    signedOf eightAndOne .r2 < signedOf eightAndOne .r1 ∧
      Both (assumeGt overlapping .r1 .r2) eightAndOne .r1 .r2 := by
  have h := (comparisons_sound_iff inRange_overlapping
    (show Both overlapping eightAndOne .r1 .r2 by decide) 0).2
  have hk : GtKept overlapping eightAndOne .r1 .r2 :=
    ⟨fun _ => by decide, fun hp => absurd hp (by decide)⟩
  have hlt : signedOf eightAndOne .r2 < signedOf eightAndOne .r1 := by decide
  exact ⟨hlt, (h ⟨fun hle => absurd hle (by decide), fun _ => hk,
    fun hle => absurd hle (by decide)⟩).2.1 hlt⟩

end ZoneVerifier.Interval
