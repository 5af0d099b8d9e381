import ZoneVerifier.Bounds

/-!
# What a refinement of the scalar bounds keeps

Synchronising narrows every field except the unsigned maximum, which its last
step resets when the signed interval crosses zero. So of the four assumptions on
a tuple only `assumeSle`, which also cuts the unsigned maximum, can lose words
that meet the assumption: the negative ones that the reset does not bring back.
-/

set_option autoImplicit false

namespace ZoneVerifier.Bounds.ScalarBounds
open Word
variable {c : Int} {n : Nat} {b : ScalarBounds}

def raise (b : ScalarBounds) (u : Nat) : ScalarBounds := { b with umax := u }

/-- The reset of the unsigned maximum fires, and the 32-bit views deduced from
the old maximum before the reset do not exclude the word. -/
def Recovered (b : ScalarBounds) (n : Nat) : Prop :=
  b.smin < 0 ∧ 0 ≤ b.smax ∧ b.umax < 2^63 ∧
    (b.umin / 2^32 = b.umax / 2^32 → lo32 b.umin ≤ lo32 n ∧ lo32 n ≤ lo32 b.umax)

instance (b : ScalarBounds) (n : Nat) : Decidable (b.Recovered n) :=
  inferInstanceAs (Decidable (_ ∧ _ ∧ _ ∧ (_ → _)))

theorem has_raise_of_has (h : b.Has n) : (b.raise n).Has n :=
  { h with le_umax := Nat.le_refl n }

theorem has_of_has_raise {u : Nat} (h : (b.raise u).Has n) (hu : n ≤ b.umax) : b.Has n :=
  { h with le_umax := hu }

theorem InRange.raise {u : Nat} (hb : b.InRange) (hu : u < 2^64) : (b.raise u).InRange :=
  { hb with umax := hu }

section
variable (b : ScalarBounds)

theorem deduceFromS64_raise (u : Nat) :
    (b.raise u).deduceFromS64 = b.deduceFromS64.raise u := by
  unfold deduceFromS64 raise
  dsimp only
  split_ifs <;> rfl

theorem deduceS32FromU32_raise (u : Nat) :
    (b.raise u).deduceS32FromU32 = b.deduceS32FromU32.raise u := by
  unfold deduceS32FromU32 raise
  split_ifs <;> rfl

theorem deduceU32FromS32_raise (u : Nat) :
    (b.raise u).deduceU32FromS32 = b.deduceU32FromS32.raise u := by
  unfold deduceU32FromS32 raise
  dsimp only
  split_ifs <;> rfl

theorem deduceMixed_low :
    b.deduceMixed.s32Min = b.s32Min ∧ b.deduceMixed.s32Max = b.s32Max ∧
      b.deduceMixed.u32Min = b.u32Min ∧ b.deduceMixed.u32Max = b.u32Max := by
  cases b
  exact ⟨rfl, rfl, rfl, rfl⟩

theorem deduceMixed_narrows :
    b.smin ≤ b.deduceMixed.smin ∧ b.deduceMixed.smax ≤ b.smax ∧ b.umin ≤ b.deduceMixed.umin :=
  ⟨Int.le_max_left _ _, Int.min_le_left _ _, Nat.le_max_left _ _⟩

end

/-- Every step before the last one is a meet. -/
theorem has_raise_of_has_deduceMixed (h : (b.deduceMixed.raise n).Has n) : (b.raise n).Has n := by
  obtain ⟨e5, e6, e7, e8⟩ := deduceMixed_low b
  obtain ⟨l1, l2, l3⟩ := deduceMixed_narrows b
  have h5 : b.deduceMixed.s32Min ≤ toI32 n := h.s32Min_le
  have h6 : toI32 n ≤ b.deduceMixed.s32Max := h.le_s32Max
  have h7 : b.deduceMixed.u32Min ≤ lo32 n := h.u32Min_le
  have h8 : lo32 n ≤ b.deduceMixed.u32Max := h.le_u32Max
  exact ⟨Int.le_trans l1 h.smin_le, Int.le_trans h.le_smax l2, Nat.le_trans l3 h.umin_le,
    Nat.le_refl n, h5, h6, h7, h8⟩

theorem has_of_has_deduceU32FromS32 (h : b.deduceU32FromS32.Has n) : b.Has n := by
  unfold deduceU32FromS32 at h
  dsimp only at h
  split_ifs at h
  · exact ((has_meetU32 _ _ _ n).1 h).1
  · exact h

theorem has_of_has_deduceS32FromU32 (h : b.deduceS32FromU32.Has n) : b.Has n := by
  unfold deduceS32FromU32 at h
  split_ifs at h
  · exact ((has_meetS32 _ _ _ n).1 h).1
  · exact h

theorem has_of_has_deduceFromS64 (h : b.deduceFromS64.Has n) : b.Has n := by
  unfold deduceFromS64 at h
  dsimp only at h
  split_ifs at h
  · exact ((has_meetU32 _ _ _ n).1 ((has_meetS32 _ _ _ n).1 h).1).1
  · exact ((has_meetS32 _ _ _ n).1 h).1
  · exact ((has_meetU32 _ _ _ n).1 h).1
  · exact h
  · exact h

theorem has_raise_deduceFromU64_iff (b : ScalarBounds) (n : Nat) :
    (b.deduceFromU64.raise n).Has n ↔ (b.raise n).Has n ∧
      (b.umin / 2^32 = b.umax / 2^32 → lo32 b.umin ≤ lo32 n ∧ lo32 n ≤ lo32 b.umax) := by
  unfold deduceFromU64
  split
  case isFalse hu => exact ⟨fun h => ⟨h, fun h' => absurd h' hu⟩, And.left⟩
  case isTrue hu =>
    have hm : (b.meetU32 (lo32 b.umin) (lo32 b.umax)).raise n =
        (b.raise n).meetU32 (lo32 b.umin) (lo32 b.umax) := rfl
    split
    case isFalse =>
      rw [hm, has_meetU32]
      exact ⟨fun h => ⟨h.1, fun _ => h.2⟩, fun h => ⟨h.1, h.2 hu⟩⟩
    case isTrue hs =>
      have hm' : ((b.meetU32 (lo32 b.umin) (lo32 b.umax)).meetS32 (toI32 b.umin)
          (toI32 b.umax)).raise n = ((b.raise n).meetU32 (lo32 b.umin) (lo32 b.umax)).meetS32
          (toI32 b.umin) (toI32 b.umax) := rfl
      rw [hm', has_meetS32, has_meetU32]
      constructor
      · rintro ⟨h, _⟩
        exact ⟨h.1, fun _ => h.2⟩
      · rintro ⟨h, hl⟩
        exact ⟨⟨h, hl hu⟩, toI32_between (hl hu).1 (hl hu).2 hs⟩

/-- The fields the last step reads, before and after the first five steps. -/
structure SameSign (b c : ScalarBounds) : Prop where
  smin : c.smin < 0 ↔ b.smin < 0
  smax : 0 ≤ c.smax ↔ 0 ≤ b.smax
  umax : c.umax < 2^63 ↔ b.umax < 2^63

theorem withLow_toU64_nonneg {i : Int} {l : Nat} (hi : I64 i) (hl : l < 2^32) :
    0 ≤ toI64 (withLow (toU64 i) l) ↔ 0 ≤ i := by
  unfold I64 at hi
  unfold withLow toU64 toI64
  split_ifs <;> omega

theorem sameSign_deduceMixed (hb : b.InRange) : SameSign b b.deduceMixed := by
  have h1 := withLow_toU64_nonneg hb.smin hb.u32Min
  have h2 := withLow_toU64_nonneg hb.smax hb.u32Max
  refine ⟨?_, ?_, ?_⟩
  · simp only [deduceMixed, meetS64, meetU64]
    omega
  · simp only [deduceMixed, meetS64, meetU64]
    omega
  · simp only [deduceMixed, meetS64, meetU64, withLow]
    omega

theorem sameSign_steps (b : ScalarBounds) :
    let c := b.deduceFromU64.deduceFromS64.deduceS32FromU32.deduceU32FromS32
    c.smin = b.smin ∧ c.smax = b.smax ∧ c.umax = b.umax := by
  have h1 : ∀ b : ScalarBounds, b.deduceFromU64.smin = b.smin ∧ b.deduceFromU64.smax = b.smax ∧
      b.deduceFromU64.umax = b.umax := by
    intro b
    unfold deduceFromU64
    split_ifs <;> exact ⟨rfl, rfl, rfl⟩
  have h2 : ∀ b : ScalarBounds, b.deduceFromS64.smin = b.smin ∧ b.deduceFromS64.smax = b.smax ∧
      b.deduceFromS64.umax = b.umax := by
    intro b
    unfold deduceFromS64
    dsimp only
    split_ifs <;> exact ⟨rfl, rfl, rfl⟩
  have h3 : ∀ b : ScalarBounds, b.deduceS32FromU32.smin = b.smin ∧
      b.deduceS32FromU32.smax = b.smax ∧ b.deduceS32FromU32.umax = b.umax := by
    intro b
    unfold deduceS32FromU32
    split_ifs <;> exact ⟨rfl, rfl, rfl⟩
  have h4 : ∀ b : ScalarBounds, b.deduceU32FromS32.smin = b.smin ∧
      b.deduceU32FromS32.smax = b.smax ∧ b.deduceU32FromS32.umax = b.umax := by
    intro b
    unfold deduceU32FromS32
    dsimp only
    split_ifs <;> exact ⟨rfl, rfl, rfl⟩
  simp only [h1, h2, h3, h4, and_self]

theorem has_raise_sync_iff (hb : b.InRange) (hn : n < 2^64) :
    (b.deduceFromU64.deduceFromS64.deduceS32FromU32.deduceU32FromS32.deduceMixed.raise n).Has n ↔
      (b.deduceFromU64.raise n).Has n := by
  constructor
  · intro h
    have h4 := has_raise_of_has_deduceMixed h
    rw [← deduceU32FromS32_raise, ← deduceS32FromU32_raise, ← deduceFromS64_raise] at h4
    exact has_of_has_deduceFromS64 (has_of_has_deduceS32FromU32 (has_of_has_deduceU32FromS32 h4))
  · intro h
    have r2 := (hb.deduceFromU64.raise hn).deduceFromS64
    have h3 := has_deduceS32FromU32 r2 (has_deduceFromS64 h)
    have h5 := has_deduceMixed r2.deduceS32FromU32.deduceU32FromS32 hn
      (has_deduceU32FromS32 r2.deduceS32FromU32 h3)
    rw [deduceFromS64_raise, deduceS32FromU32_raise, deduceU32FromS32_raise] at h5
    have h6 := has_raise_of_has h5
    exact h6

theorem has_deduceU64FromS64_iff (hb : b.InRange) (hn : n < 2^64) :
    b.deduceU64FromS64.Has n ↔
      (b.raise n).Has n ∧ (n ≤ b.umax ∨ (b.smin < 0 ∧ 0 ≤ b.smax ∧ b.umax < 2^63)) := by
  constructor
  · intro h
    unfold deduceU64FromS64 at h
    split_ifs at h with h0 h1
    · have hm := ((has_meetU64 _ _ _ n).1 h).1
      exact ⟨has_raise_of_has hm, Or.inl hm.le_umax⟩
    · exact ⟨{ h with le_umax := Nat.le_refl n }, Or.inr h1⟩
    · exact ⟨has_raise_of_has h, Or.inl h.le_umax⟩
  · rintro ⟨h, hu | hr⟩
    · exact has_deduceU64FromS64 hb hn (has_of_has_raise h hu)
    · unfold deduceU64FromS64
      rw [if_neg (by omega), if_pos hr]
      exact { h with le_umax := Nat.le_sub_one_of_lt hn }

theorem le_umax_deduceMixed_iff (h : (b.deduceMixed.raise n).Has n) :
    n ≤ b.deduceMixed.umax ↔ n ≤ b.umax := by
  have hl : lo32 n ≤ b.deduceMixed.u32Max := h.le_u32Max
  rw [(deduceMixed_low b).2.2.2] at hl
  have hw : n ≤ b.umax → n ≤ withLow b.umax b.u32Max := fun hn => le_withLow hn hl
  simp only [deduceMixed, meetS64, meetU64]
  omega

theorem has_syncBounds_iff (hb : b.InRange) (hn : n < 2^64) :
    b.syncBounds.Has n ↔ (b.raise n).Has n ∧ (n ≤ b.umax ∨ b.Recovered n) := by
  have r4 := hb.deduceFromU64.deduceFromS64.deduceS32FromU32.deduceU32FromS32
  have hsync := has_raise_sync_iff hb hn
  have hmax := le_umax_deduceMixed_iff (n := n)
    (b := b.deduceFromU64.deduceFromS64.deduceS32FromU32.deduceU32FromS32)
  obtain ⟨e1, e2, e3⟩ := sameSign_steps b
  obtain ⟨s1, s2, s3⟩ := sameSign_deduceMixed r4
  rw [has_raise_deduceFromU64_iff] at hsync
  unfold syncBounds
  rw [has_deduceU64FromS64_iff r4.deduceMixed hn, s1, s2, s3, e1, e2, e3]
  rw [e3] at hmax
  constructor
  · rintro ⟨h5, hu | hr⟩
    · exact ⟨(hsync.1 h5).1, Or.inl ((hmax h5).1 hu)⟩
    · exact ⟨(hsync.1 h5).1, Or.inr ⟨hr.1, hr.2.1, hr.2.2, (hsync.1 h5).2⟩⟩
  · rintro ⟨h, hu | hr⟩
    · have h5 := hsync.2 ⟨h, fun e => lo32_between e h.umin_le hu⟩
      exact ⟨h5, Or.inl ((hmax h5).2 hu)⟩
    · exact ⟨hsync.2 ⟨h, hr.2.2.2⟩, Or.inr ⟨hr.1, hr.2.1, hr.2.2.1⟩⟩

theorem has_raise_capSge_iff (hc : I64 c) (hn : n < 2^64) (h : b.Has n) :
    ((b.capSge c).raise n).Has n ↔ c ≤ toI64 n := by
  constructor
  · intro h'
    have h1 := h'.smin_le
    simp only [raise, capSge] at h1
    omega
  · intro hcn
    refine { h with smin_le := Int.max_le.2 ⟨h.smin_le, hcn⟩, umin_le := ?_, le_umax := Nat.le_refl n }
    simp only [raise, capSge]
    split_ifs with h0
    · exact Nat.max_le.2 ⟨h.umin_le, toU64_le_of_le hc hn h0 hcn⟩
    · exact h.umin_le

theorem has_assumeSge_iff (hb : b.InRange) (hc : I64 c) (hn : n < 2^64) (h : b.Has n) :
    (b.assumeSge c).Has n ↔ c ≤ toI64 n := by
  unfold assumeSge
  rw [has_syncBounds_iff (hb.capSge hc) hn, has_raise_capSge_iff hc hn h]
  exact and_iff_left (Or.inl h.le_umax)

theorem has_raise_capSle_iff (h : b.Has n) : ((b.capSle c).raise n).Has n ↔ toI64 n ≤ c := by
  constructor
  · intro h'
    have h1 := h'.le_smax
    simp only [raise, capSle] at h1
    omega
  · intro hcn
    exact { h with le_smax := Int.le_min.2 ⟨h.le_smax, hcn⟩, le_umax := Nat.le_refl n }

/-- When the upper signed refinement keeps a word at or below the bound `c`: a
negative word survives a nonnegative bound only through the reset. -/
def SleKeeps (b : ScalarBounds) (c : Int) (n : Nat) : Prop :=
  c < 0 ∨ 0 ≤ toI64 n ∨ (0 ≤ b.smax ∧
    (b.umin / 2^32 = toU64 c / 2^32 → lo32 b.umin ≤ lo32 n ∧ lo32 n ≤ lo32 (toU64 c)))

instance (b : ScalarBounds) (c : Int) (n : Nat) : Decidable (b.SleKeeps c n) :=
  inferInstanceAs (Decidable (_ ∨ _ ∨ (_ ∧ (_ → _))))

theorem umax_or_recovered_capSle_iff (hc : I64 c) (hn : n < 2^64) (h : b.Has n) (hcn : toI64 n ≤ c) :
    (n ≤ (b.capSle c).umax ∨ (b.capSle c).Recovered n) ↔ b.SleKeeps c n := by
  have hs := h.smin_le
  have hu := h.le_umax
  unfold SleKeeps Recovered
  simp only [capSle]
  unfold I64 at hc
  by_cases hc0 : 0 ≤ c
  · have hcu : ((toU64 c : Nat) : Int) = c := by unfold toU64; omega
    rw [if_pos hc0]
    by_cases hv : 0 ≤ toI64 n
    · have hnv := toI64_of_lt ((toI64_nonneg_iff hn).1 hv)
      have hle : n ≤ min b.umax (toU64 c) := by omega
      simp only [hle, hv, true_or, or_true]
    · have hlt : ¬ n < 2^63 := fun hlt => hv ((toI64_nonneg_iff hn).2 hlt)
      have hm : min b.umax (toU64 c) = toU64 c := by omega
      have hnle : ¬ n ≤ toU64 c := by omega
      have h63 : toU64 c < 2^63 := by omega
      have hsm : b.smin < 0 := by omega
      have h0 : 0 ≤ min b.smax c ↔ 0 ≤ b.smax := by omega
      simp only [hm, hnle, hv, h63, hsm, h0, Int.not_lt.2 hc0, true_and, false_or]
  · rw [if_neg hc0]
    simp only [hu, Int.not_le.1 hc0, true_or]

theorem has_assumeSle_iff (hb : b.InRange) (hc : I64 c) (hn : n < 2^64) (h : b.Has n) :
    (b.assumeSle c).Has n ↔ toI64 n ≤ c ∧ b.SleKeeps c n := by
  unfold assumeSle
  rw [has_syncBounds_iff (hb.capSle hc) hn, has_raise_capSle_iff h]
  exact and_congr_right (umax_or_recovered_capSle_iff hc hn h)

theorem InRange.assumeSge (hb : b.InRange) (hc : I64 c) : (b.assumeSge c).InRange :=
  (hb.capSge hc).syncBounds

theorem InRange.assumeSle (hb : b.InRange) (hc : I64 c) : (b.assumeSle c).InRange :=
  (hb.capSle hc).syncBounds

end ZoneVerifier.Bounds.ScalarBounds

namespace ZoneVerifier.Bounds.ScalarBounds
open Word
variable {b : ScalarBounds}

/-- Every bound of `c` except the unsigned maximum is at least as tight as in `b`. -/
structure Tightens (b c : ScalarBounds) : Prop where
  smin : b.smin ≤ c.smin
  smax : c.smax ≤ b.smax
  umin : b.umin ≤ c.umin
  s32Min : b.s32Min ≤ c.s32Min
  s32Max : c.s32Max ≤ b.s32Max
  u32Min : b.u32Min ≤ c.u32Min
  u32Max : c.u32Max ≤ b.u32Max

section Order
variable {b c e : ScalarBounds} {n : Nat}

theorem Tightens.refl (b : ScalarBounds) : Tightens b b := by
  constructor <;> rfl

theorem Tightens.trans (h : Tightens b c) (h' : Tightens c e) : Tightens b e where
  smin := Int.le_trans h.smin h'.smin
  smax := Int.le_trans h'.smax h.smax
  umin := Nat.le_trans h.umin h'.umin
  s32Min := Int.le_trans h.s32Min h'.s32Min
  s32Max := Int.le_trans h'.s32Max h.s32Max
  u32Min := Nat.le_trans h.u32Min h'.u32Min
  u32Max := Nat.le_trans h'.u32Max h.u32Max

/-- A word that a bound other than the unsigned maximum excludes stays excluded. -/
theorem Tightens.has_raise (h : Tightens b c) (hc : (c.raise n).Has n) : (b.raise n).Has n where
  smin_le := Int.le_trans h.smin hc.smin_le
  le_smax := Int.le_trans hc.le_smax h.smax
  umin_le := Nat.le_trans h.umin hc.umin_le
  le_umax := Nat.le_refl n
  s32Min_le := Int.le_trans h.s32Min hc.s32Min_le
  le_s32Max := Int.le_trans hc.le_s32Max h.s32Max
  u32Min_le := Nat.le_trans h.u32Min hc.u32Min_le
  le_u32Max := Nat.le_trans hc.le_u32Max h.u32Max

end Order

section Steps
variable (b : ScalarBounds)

theorem tightens_meetU64 (lo hi : Nat) : Tightens b (b.meetU64 lo hi) :=
  { Tightens.refl b with umin := Nat.le_max_left _ _ }

theorem tightens_meetS64 (lo hi : Int) : Tightens b (b.meetS64 lo hi) :=
  { Tightens.refl b with smin := Int.le_max_left _ _, smax := Int.min_le_left _ _ }

theorem tightens_meetU32 (lo hi : Nat) : Tightens b (b.meetU32 lo hi) :=
  { Tightens.refl b with u32Min := Nat.le_max_left _ _, u32Max := Nat.min_le_left _ _ }

theorem tightens_meetS32 (lo hi : Int) : Tightens b (b.meetS32 lo hi) :=
  { Tightens.refl b with s32Min := Int.le_max_left _ _, s32Max := Int.min_le_left _ _ }

theorem tightens_deduceFromU64 : Tightens b b.deduceFromU64 := by
  unfold deduceFromU64
  split_ifs
  · exact (tightens_meetU32 b _ _).trans (tightens_meetS32 _ _ _)
  · exact tightens_meetU32 b _ _
  · exact Tightens.refl b

theorem tightens_deduceFromS64 : Tightens b b.deduceFromS64 := by
  unfold deduceFromS64
  dsimp only
  split_ifs
  · exact (tightens_meetU32 b _ _).trans (tightens_meetS32 _ _ _)
  · exact tightens_meetS32 b _ _
  · exact tightens_meetU32 b _ _
  · exact Tightens.refl b
  · exact Tightens.refl b

theorem tightens_deduceS32FromU32 : Tightens b b.deduceS32FromU32 := by
  unfold deduceS32FromU32
  split_ifs
  · exact tightens_meetS32 b _ _
  · exact Tightens.refl b

theorem tightens_deduceU32FromS32 : Tightens b b.deduceU32FromS32 := by
  unfold deduceU32FromS32
  dsimp only
  split_ifs
  · exact tightens_meetU32 b _ _
  · exact Tightens.refl b

theorem tightens_deduceMixed : Tightens b b.deduceMixed :=
  (tightens_meetU64 b _ _).trans (tightens_meetS64 _ _ _)

theorem tightens_deduceU64FromS64 : Tightens b b.deduceU64FromS64 := by
  unfold deduceU64FromS64
  split_ifs
  · exact tightens_meetU64 b _ _
  · exact { Tightens.refl b with }
  · exact Tightens.refl b

theorem tightens_syncBounds : Tightens b b.syncBounds := by
  have h1 := (tightens_deduceFromU64 b).trans (tightens_deduceFromS64 _)
  have h2 := (h1.trans (tightens_deduceS32FromU32 _)).trans (tightens_deduceU32FromS32 _)
  exact (h2.trans (tightens_deduceMixed _)).trans (tightens_deduceU64FromS64 _)

end Steps

/-- The signed interval crosses zero, yet the unsigned maximum lies below every
negative word. -/
def Crosses (b : ScalarBounds) : Prop := b.smin < 0 ∧ 0 ≤ b.smax ∧ b.umax < 2^63

instance (b : ScalarBounds) : Decidable b.Crosses :=
  inferInstanceAs (Decidable (_ ∧ _ ∧ _))

theorem umax_deduceU64FromS64 (b : ScalarBounds) :
    (b.Crosses → b.deduceU64FromS64.umax = 2^64 - 1) ∧
      (¬ b.Crosses → b.deduceU64FromS64.umax ≤ b.umax) := by
  unfold deduceU64FromS64 Crosses
  constructor
  · intro h
    rw [if_neg (Int.not_le.2 h.1), if_pos h]
  · intro h
    split_ifs
    · exact Nat.min_le_left _ _
    · exact Nat.le_refl _

theorem crosses_sync_iff (hb : b.InRange) :
    b.deduceFromU64.deduceFromS64.deduceS32FromU32.deduceU32FromS32.deduceMixed.Crosses ↔
      b.Crosses := by
  obtain ⟨s1, s2, s3⟩ := sameSign_deduceMixed
    hb.deduceFromU64.deduceFromS64.deduceS32FromU32.deduceU32FromS32
  obtain ⟨e1, e2, e3⟩ := sameSign_steps b
  unfold Crosses
  rw [s1, s2, s3, e1, e2, e3]

theorem umax_syncBounds (hb : b.InRange) :
    (b.Crosses → b.syncBounds.umax = 2^64 - 1) ∧
      (¬ b.Crosses → b.syncBounds.umax ≤ b.umax) := by
  obtain ⟨h1, h2⟩ := umax_deduceU64FromS64
    b.deduceFromU64.deduceFromS64.deduceS32FromU32.deduceU32FromS32.deduceMixed
  rw [crosses_sync_iff hb] at h1 h2
  refine ⟨h1, fun h => Nat.le_trans (h2 h) ?_⟩
  have he := (sameSign_steps b).2.2
  rw [← he]
  exact Nat.min_le_left _ _

/-- Synchronising keeps every described word, also when it is repeated. No bound
gets looser, except that a crossing tuple loses its unsigned maximum. -/
theorem syncBounds_reduces {b : ScalarBounds} {n : Nat} (hb : b.InRange) (hn : n < 2^64)
    (h : b.Has n) :
    b.syncBounds.Has n ∧ Tightens b b.syncBounds ∧
      (¬ b.Crosses → b.syncBounds.umax ≤ b.umax) ∧
      (b.Crosses → b.syncBounds.umax = 2^64 - 1) ∧ b.syncBounds.syncBounds.Has n := by
  have hsync := has_syncBounds hb hn h
  exact ⟨hsync, tightens_syncBounds b, (umax_syncBounds hb).2, (umax_syncBounds hb).1,
    has_syncBounds hb.syncBounds hn hsync⟩

theorem syncBounds_reduces_unknown :
    unknown.InRange ∧ unknown.Has 7 ∧ unknown.syncBounds.syncBounds.Has 7 ∧
      unknown.syncBounds.umax ≤ unknown.umax := by
  have hr : unknown.InRange := by decide
  have h := syncBounds_reduces hr (by decide) (show unknown.Has 7 by decide)
  exact ⟨hr, by decide, h.2.2.2.2, h.2.2.1 (by decide)⟩

/-- A word between minus one and five, and at most five as an unsigned number. -/
def crossing : ScalarBounds := { unknown with smin := -1, smax := 5, umax := 5 }

theorem unsigned_maximum_widened :
    crossing.InRange ∧ crossing.Has 5 ∧ crossing.umax < crossing.syncBounds.umax := by
  decide

theorem InRange.capUle (hb : b.InRange) (c : Nat) : (b.capUle c).InRange := by
  obtain ⟨h1, h2, h3, h4, h5, h6, h7, h8⟩ := hb
  refine ⟨h1, ?_, h3, Nat.lt_of_le_of_lt (Nat.min_le_left _ _) h4, h5, h6, h7, h8⟩
  simp only [ScalarBounds.capUle]
  split_ifs with hc
  · have he := toI64_of_lt (n := c) (by omega)
    unfold I64 at *
    omega
  · exact h2

theorem InRange.capUge (hb : b.InRange) {c : Nat} (hc : c < 2^64) : (b.capUge c).InRange := by
  obtain ⟨h1, h2, h3, h4, h5, h6, h7, h8⟩ := hb
  refine ⟨?_, h2, Nat.max_lt.2 ⟨h3, hc⟩, h4, h5, h6, h7, h8⟩
  simp only [ScalarBounds.capUge]
  split_ifs with hc
  · have he := toI64_of_lt (n := c) (by omega)
    unfold I64 at *
    omega
  · exact h1

section Assumptions
variable {b : ScalarBounds} {n : Nat}

theorem has_capUle {c : Nat} (h : b.Has n) (hc : n ≤ c) : (b.capUle c).Has n := by
  refine { h with le_smax := ?_, le_umax := Nat.le_min.2 ⟨h.le_umax, hc⟩ }
  simp only [capUle]
  split_ifs with hs
  · refine Int.le_min.2 ⟨h.le_smax, ?_⟩
    rw [toI64_of_lt (n := n) (by omega), toI64_of_lt (n := c) (by omega)]
    omega
  · exact h.le_smax

theorem has_capUge {c : Nat} (hn : n < 2^64) (h : b.Has n) (hc : c ≤ n) :
    (b.capUge c).Has n := by
  refine { h with smin_le := ?_, umin_le := Nat.max_le.2 ⟨h.umin_le, hc⟩ }
  simp only [capUge]
  split_ifs with hs
  · refine Int.max_le.2 ⟨h.smin_le, ?_⟩
    have hlt := (toI64_nonneg_iff hn).1 (Int.le_trans hs.2 h.smin_le)
    rw [toI64_of_lt hlt, toI64_of_lt (n := c) (by omega)]
    omega
  · exact h.smin_le

variable (hb : b.InRange) (hn : n < 2^64) (h : b.Has n)
include hb hn h

/-- The four assumptions keep the words that meet them, except that a negative
word survives an upper signed bound `c ≥ 0` only under `SleKeeps`. -/
theorem assumptions_sound_iff {c : Int} (hc : I64 c) (u : Nat) :
    ((toI64 n ≤ c → (b.assumeSle c).Has n) ∧ (c ≤ toI64 n → (b.assumeSge c).Has n) ∧
      (n ≤ u → (b.assumeUle u).Has n) ∧ (u ≤ n → (b.assumeUge u).Has n)) ↔
    (toI64 n ≤ c → b.SleKeeps c n) := by
  have hsle := has_assumeSle_iff hb hc hn h
  constructor
  · rintro ⟨hs, -⟩ hcn
    exact (hsle.1 (hs hcn)).2
  · intro hk
    refine ⟨fun hcn => hsle.2 ⟨hcn, hk hcn⟩, (has_assumeSge_iff hb hc hn h).2,
      fun hc => has_syncBounds (hb.capUle _) hn (has_capUle h hc),
      fun hc => has_syncBounds (hb.capUge (Nat.lt_of_le_of_lt hc hn)) hn (has_capUge hn h hc)⟩

end Assumptions

theorem assumptions_sound_at_seven :
    unknown.InRange ∧ unknown.Has 7 ∧ (unknown.assumeSle 9).Has 7 ∧ (unknown.assumeUge 3).Has 7 := by
  have hr : unknown.InRange := by decide
  have h := (assumptions_sound_iff hr (n := 7) (by decide) (by decide) (c := 9) (by decide) 3).2
    (by decide)
  exact ⟨hr, by decide, h.1 (by decide), h.2.2.2 (by decide)⟩

/-- Minus one meets the assumption but is excluded by the low half deduced from
the capped unsigned maximum. -/
theorem minus_one_lost_below_five :
    unknown.InRange ∧ unknown.Has (2^64 - 1) ∧ toI64 (2^64 - 1) ≤ 5 ∧
      ¬ (unknown.assumeSle 5).Has (2^64 - 1) := by
  decide

end ZoneVerifier.Bounds.ScalarBounds
