import ZoneVerifier.IntervalArith

/-!
# Adding a constant in the interval domain

The four scalar intervals are moved with a check that both ends agree on
overflow, so the wrapped sum of a described word is described again. The
offset of a pointer and its accessible range are moved with saturation: a
saturated offset describes another address.
-/

set_option autoImplicit false

namespace ZoneVerifier.Interval
open Word Ast Bounds Concrete

section Pairs

theorem add_mod_of_lt {m a b : Nat} (ha : a < m) (hb : b < m) :
    (a + b) % m = if m ≤ a + b then a + b - m else a + b := by
  split_ifs with h
  · rw [Nat.mod_eq_sub_mod h, Nat.mod_eq_of_lt (by omega)]
  · exact Nat.mod_eq_of_lt (by omega)

theorem addPairU_has (imm : Nat) {width lo hi n : Nat} (hlo : lo ≤ n) (hhi : n ≤ hi)
    (hr : hi < 2^width) (hi' : imm < 2^width) :
    (addPairU width lo hi imm).1 ≤ (n + imm) % 2^width ∧
      (n + imm) % 2^width ≤ (addPairU width lo hi imm).2 := by
  unfold addPairU
  rw [add_mod_of_lt (a := lo) (by omega) hi', add_mod_of_lt (a := hi) hr hi',
    add_mod_of_lt (a := n) (by omega) hi']
  generalize 2^width = m at *
  split_ifs <;> dsimp only <;> omega

theorem wrapS_eq {width : Nat} (hw : 0 < width) {i : Int}
    (hi : -(2 * 2^(width - 1)) ≤ i ∧ i < 2 * 2^(width - 1)) :
    wrapS width i = i - (if 2^(width - 1) ≤ i then 2 * 2^(width - 1) else 0) +
      (if i < -2^(width - 1) then 2 * 2^(width - 1) else 0) := by
  have hm : (2 : Int)^width = 2 * 2^(width - 1) := by
    rw [← pow_succ', Nat.sub_add_cancel hw]
  unfold wrapS
  rw [hm]
  generalize (2 : Int)^(width - 1) = h at *
  split_ifs with h1 h2 h2
  · omega
  · rw [← Int.sub_emod_right, Int.emod_eq_of_lt (by omega) (by omega)]
    omega
  · rw [← Int.add_emod_right, Int.emod_eq_of_lt (by omega) (by omega)]
    omega
  · rw [Int.emod_eq_of_lt (by omega) (by omega)]
    omega

theorem addPairS_has (width : Nat) (hw : 0 < width) (imm : Int) {lo hi v : Int}
    (hlo : lo ≤ v) (hhi : v ≤ hi) (hl : -2^(width - 1) ≤ lo) (hh : hi < 2^(width - 1))
    (hi' : -2^(width - 1) ≤ imm ∧ imm < 2^(width - 1)) :
    (addPairS width lo hi imm).1 ≤ wrapS width (v + imm) ∧
      wrapS width (v + imm) ≤ (addPairS width lo hi imm).2 := by
  unfold addPairS
  rw [wrapS_eq hw (i := lo + imm) (by omega), wrapS_eq hw (i := hi + imm) (by omega),
    wrapS_eq hw (i := v + imm) (by omega)]
  generalize (2 : Int)^(width - 1) = h at *
  -- the sign of the immediate says at which end a sum can leave the range
  rcases Int.le_total 0 imm with hpos | hneg
  · rw [if_neg (show ¬ lo + imm < -h by omega), if_neg (show ¬ hi + imm < -h by omega),
      if_neg (show ¬ v + imm < -h by omega)]
    split_ifs <;> dsimp only <;> omega
  · rw [if_neg (show ¬ h ≤ lo + imm by omega), if_neg (show ¬ h ≤ hi + imm by omega),
      if_neg (show ¬ h ≤ v + imm by omega)]
    split_ifs <;> dsimp only <;> omega

theorem addPairU_lt {width lo hi imm : Nat} :
    (addPairU width lo hi imm).1 < 2^width ∧ (addPairU width lo hi imm).2 < 2^width := by
  have hpos : 0 < 2^width := Nat.two_pow_pos width
  unfold addPairU
  split_ifs
  · exact ⟨Nat.mod_lt _ hpos, Nat.mod_lt _ hpos⟩
  · exact ⟨hpos, Nat.sub_lt hpos (by decide)⟩

theorem wrapS_range {width : Nat} (hw : 0 < width) (i : Int) :
    -2^(width - 1) ≤ wrapS width i ∧ wrapS width i < 2^(width - 1) := by
  have hm : (2 : Int)^width = 2 * 2^(width - 1) := by
    rw [← pow_succ', Nat.sub_add_cancel hw]
  have hpos : (0 : Int) < 2^(width - 1) := pow_pos (by decide) _
  unfold wrapS
  rw [hm]
  generalize (2 : Int)^(width - 1) = h at *
  have h1 := Int.emod_nonneg (i + h) (b := 2 * h) (by omega)
  have h2 := Int.emod_lt_of_pos (i + h) (b := 2 * h) (by omega)
  omega

theorem addPairS_range (width : Nat) (hw : 0 < width) (lo hi imm : Int) :
    (-2^(width - 1) ≤ (addPairS width lo hi imm).1 ∧
      (addPairS width lo hi imm).1 < 2^(width - 1)) ∧
    (-2^(width - 1) ≤ (addPairS width lo hi imm).2 ∧
      (addPairS width lo hi imm).2 < 2^(width - 1)) := by
  have hpos : (0 : Int) < 2^(width - 1) := pow_pos (by decide) _
  unfold addPairS
  split_ifs
  · exact ⟨wrapS_range hw _, wrapS_range hw _⟩
  · omega

end Pairs

section Scalars
variable {b : ScalarBounds} {n : Nat} {c : Int}

theorem toI64_add_eq_wrapS {m n : Nat} (hm : m < 2^64) (hn : n < 2^64) :
    toI64 ((m + n) % 2^64) = wrapS 64 (toI64 m + toI64 n) := by
  have h1 := toI64_range hm
  have h2 := toI64_range hn
  unfold I64 at h1 h2
  rw [toI64_add hm hn, wrapS_eq (by decide) (by omega)]
  rfl

theorem toI32_add_eq_wrapS (m n : Nat) :
    toI32 ((m + n) % 2^64) = wrapS 32 (toI32 m + toI32 n) := by
  have h1 := toI32_range m
  have h2 := toI32_range n
  unfold I32 at h1 h2
  rw [toI32_add, wrapS_eq (by decide) (by omega)]
  rfl

theorem lo32_add_mod (m n : Nat) : lo32 ((m + n) % 2^64) = (lo32 m + lo32 n) % 2^32 := by
  unfold lo32
  omega

theorem inRange_addImmEnds (b : ScalarBounds) (imm : Int) : (addImmEnds b imm).InRange where
  smin := (addPairS_range 64 (by decide) _ _ _).1
  smax := (addPairS_range 64 (by decide) _ _ _).2
  umin := addPairU_lt.1
  umax := addPairU_lt.2
  s32Min := (addPairS_range 32 (by decide) _ _ _).1
  s32Max := (addPairS_range 32 (by decide) _ _ _).2
  u32Min := addPairU_lt.1
  u32Max := addPairU_lt.2

theorem has_addImmEnds (hb : b.InRange) (hn : n < 2^64) (hc : I64 c) (h : b.Has n) :
    (addImmEnds b c).Has ((n + toU64 c) % 2^64) := by
  have hu := addPairU_has (toU64 c) h.umin_le h.le_umax hb.umax (toU64_lt c)
  have hs := addPairS_has 64 (by decide) c h.smin_le h.le_smax hb.smin.1
    hb.smax.2 hc
  have hu32 := addPairU_has (lo32 (toU64 c)) h.u32Min_le h.le_u32Max hb.u32Max (lo32_lt _)
  have hs32 := addPairS_has 32 (by decide) (toI32 (toU64 c)) h.s32Min_le
    h.le_s32Max hb.s32Min.1 hb.s32Max.2 (toI32_range _)
  have e64 : wrapS 64 (toI64 n + c) = toI64 ((n + toU64 c) % 2^64) := by
    rw [toI64_add_eq_wrapS hn (toU64_lt c), toI64_toU64 hc]
  rw [e64] at hs
  rw [← toI32_add_eq_wrapS] at hs32
  rw [← lo32_add_mod] at hu32
  exact ⟨hs.1, hs.2, hu.1, hu.2, hs32.1, hs32.2, hu32.1, hu32.2⟩

end Scalars

section Pointers

/-- The address `p` lies between `off` and `off + var_off` behind the anchor,
and the bytes of the range end at or before `last`. -/
structure Describes (po : PtrOffset) (anchor last p : Int) : Prop where
  low : anchor + po.off ≤ p
  high : p ≤ anchor + po.off + po.varOff
  room : ∀ n, po.range = some n → p + n ≤ last

/-- Neither the offset nor the range is moved out of the machine range. The
range may be cut off at the top, where it only promises less. -/
def ShiftFits (po : PtrOffset) (c : Int) : Prop :=
  I64 (po.off + c) ∧ ∀ n, po.range = some n → -2^63 ≤ n - c

theorem describes_shift {po : PtrOffset} {c anchor last p : Int} (hf : ShiftFits po c)
    (h : Describes po anchor last p) : Describes (po.shift c) anchor last (p + c) := by
  obtain ⟨hoff, hrange⟩ := hf
  have hsat : satI64 (po.off + c) = po.off + c := satI64_of_range hoff
  have h1 := h.low
  have h2 := h.high
  refine ⟨?_, ?_, ?_⟩
  · simp only [PtrOffset.shift, hsat]
    omega
  · simp only [PtrOffset.shift, hsat]
    omega
  · intro n hn
    simp only [PtrOffset.shift, Option.map_eq_some_iff] at hn
    obtain ⟨r, hr, rfl⟩ := hn
    have h3 := h.room r hr
    have h4 := hrange r hr
    unfold satI64
    omega

/-- A saturated offset misses an end of the addresses it should describe, and a
range cut off at the bottom promises bytes that are not there. -/
theorem shiftFits_of_describes {po : PtrOffset} {c : Int}
    (h : ∀ anchor last p, Describes po anchor last p →
      Describes (po.shift c) anchor last (p + c)) : ShiftFits po c := by
  have hlow : Describes po 0 (po.off + po.range.getD 0) po.off :=
    ⟨by omega, by omega, fun n hn => by rw [hn]; rfl⟩
  have hhigh : Describes po 0 (po.off + po.varOff + po.range.getD 0) (po.off + po.varOff) :=
    ⟨by omega, by omega, fun n hn => by rw [hn]; rfl⟩
  have hl := h _ _ _ hlow
  have hh := (h _ _ _ hhigh).high
  have hlo := hl.low
  simp only [PtrOffset.shift] at hlo hh
  refine ⟨?_, fun n hn => ?_⟩
  · unfold I64
    unfold satI64 at hlo hh
    omega
  · have hr := hl.room (satI64 (n - c)) (by simp only [PtrOffset.shift, hn, Option.map_some])
    rw [hn] at hr
    simp only [Option.getD_some] at hr
    unfold satI64 at hr
    omega

theorem getPtrOffset_applyAddImm (s : IntervalState) {dst : Reg} (hd : dst.isProgram = true)
    (c : Int) : (applyAddImm s dst c).getPtrOffset dst = (s.getPtrOffset dst).map (·.shift c) := by
  rw [applyAddImm, if_neg (Reg.isProgram_iff.1 hd)]
  simp [IntervalState.getPtrOffset, IntervalState.modifyPtrOffset, IntervalState.modifyBounds,
    IntervalState.update]

theorem getBounds_applyAddImm (s : IntervalState) {dst : Reg} (hd : dst.isProgram = true)
    (c : Int) : (applyAddImm s dst c).getBounds dst = addImmBounds (s.getBounds dst) c := by
  rw [applyAddImm, if_neg (Reg.isProgram_iff.1 hd)]
  exact getBounds_modified s dst _ _

end Pointers

/-- Adding a constant keeps the wrapped sum in the eight bounds, and keeps the
description of a pointer exactly when neither part of it saturates. -/
theorem applyAddImm_sound_iff {s : IntervalState} (hs : InRange s) {dst : Reg}
    (hd : dst.isProgram = true) {c : Int} (hc : I64 c) :
    ((∀ v : BitVec 64, (s.getBounds dst).Has v.toNat →
        ((applyAddImm s dst c).getBounds dst).Has (v + BitVec.ofInt 64 c).toNat) ∧
      (∀ po, s.getPtrOffset dst = some po →
        ∃ po', (applyAddImm s dst c).getPtrOffset dst = some po' ∧ po'.anchor = po.anchor ∧
          ∀ anchor last p, Describes po anchor last p → Describes po' anchor last (p + c))) ↔
    (∀ po, s.getPtrOffset dst = some po → ShiftFits po c) := by
  rw [getPtrOffset_applyAddImm s hd, getBounds_applyAddImm s hd]
  constructor
  · rintro ⟨-, hp⟩ po hpo
    obtain ⟨po', hpo', -, hdesc⟩ := hp po hpo
    rw [hpo, Option.map_some, Option.some.injEq] at hpo'
    subst hpo'
    exact shiftFits_of_describes hdesc
  · intro hf
    constructor
    · intro v hv
      rw [BitVec.toNat_add, toNat_ofInt]
      exact ScalarBounds.has_syncBounds (inRange_addImmEnds _ c) (Nat.mod_lt _ (by decide))
        (has_addImmEnds (hs dst) v.isLt hc hv)
    · intro po hpo
      exact ⟨po.shift c, by rw [hpo, Option.map_some], rfl,
        fun _ _ _ h => describes_shift (hf po hpo) h⟩

/-- `r1` points at the largest offset behind the packet start. -/
def lastOffset : IntervalState :=
  IntervalState.new.update .r1 (RegInterval.withPtrOffset ScalarBounds.unknown
    { PtrOffset.atAnchor .anchorData with off := 2^63 - 1 })

theorem saturated_offset_misplaced :
    ∃ po po', lastOffset.getPtrOffset .r1 = some po ∧
      (applyAddImm lastOffset .r1 1).getPtrOffset .r1 = some po' ∧
      Describes po 0 0 (2^63 - 1) ∧ ¬ Describes po' 0 0 (2^63 - 1 + 1) := by
  refine ⟨_, _, rfl, rfl, ⟨by decide, by decide, fun n hn => by cases hn⟩, fun h => ?_⟩
  exact absurd h.high (by decide)

theorem step_back_described :
    ∃ po', (applyAddImm lastOffset .r1 (-8)).getPtrOffset .r1 = some po' ∧
      Describes po' 0 0 (2^63 - 1 + -8) := by
  have hfit : ∀ po, lastOffset.getPtrOffset .r1 = some po → ShiftFits po (-8) := by
    intro po hpo
    cases hpo
    exact ⟨by decide, fun n hn => by cases hn⟩
  have hr1 : Reg.isProgram .r1 = true := rfl
  obtain ⟨po', hpo', -, h⟩ := ((applyAddImm_sound_iff (fun r => by cases r <;> decide) hr1 (c := -8)
    (by decide)).2 hfit).2 _ rfl
  exact ⟨po', hpo', h 0 0 (2^63 - 1) ⟨by decide, by decide, fun n hn => by cases hn⟩⟩

end ZoneVerifier.Interval
