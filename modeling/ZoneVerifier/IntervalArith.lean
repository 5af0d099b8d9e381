import ZoneVerifier.IntervalRefine

/-!
# Addition and subtraction of scalars in the interval domain

`apply_add_reg` and `apply_sub_reg` add the ends of the eight bounds with
saturation, while the machine wraps. A sum that wraps is covered only where
the ends of the operands lie so far apart that the saturated interval reaches
around; the other views are then cut by `sync_bounds`.
-/

set_option autoImplicit false

namespace ZoneVerifier.Interval
open Word Ast Bounds Bounds.ScalarBounds

/-- A signed sum `s` that leaves `[-m, m)` comes back inside the ends. -/
def SignedWrap (m lo hi s : Int) : Prop :=
  (m ≤ s → lo ≤ s - 2 * m) ∧ (s < -m → s + 2 * m ≤ hi)

/-- Where the sum of `x` and `y` wraps in one of the four views, the ends of
that view leave room for the wrapped value. -/
@[mk_iff]
structure AddCovered (b c : ScalarBounds) (x y : Nat) : Prop where
  s64 : SignedWrap (2^63) (b.smin + c.smin) (b.smax + c.smax) (toI64 x + toI64 y)
  u64 : 2^64 ≤ x + y → b.umin + c.umin + 2^64 ≤ x + y
  s32 : SignedWrap (2^31) (b.s32Min + c.s32Min) (b.s32Max + c.s32Max) (toI32 x + toI32 y)
  u32 : 2^32 ≤ lo32 x + lo32 y → b.u32Min + c.u32Min + 2^32 ≤ lo32 x + lo32 y

/-- The same for the difference. A borrow out of the unsigned 64-bit view is
also covered when the signed view crosses zero, since `sync_bounds` then gives
the unsigned maximum back. -/
structure SubCovered (b c : ScalarBounds) (x y : Nat) : Prop where
  s64 : SignedWrap (2^63) (b.smin - c.smax) (b.smax - c.smin) (toI64 x - toI64 y)
  u64 : x < y → x + 2^64 + c.umin ≤ b.umax + y ∨
    (b.smin < c.smax ∧ c.smin ≤ b.smax ∧ b.umax < c.umin + 2^63 ∧
      (b.umax < c.umin + 2^32 → lo32 (2^64 - y + x) ≤ b.umax - c.umin))
  s32 : SignedWrap (2^31) (b.s32Min - c.s32Max) (b.s32Max - c.s32Min) (toI32 x - toI32 y)
  u32 : lo32 x < lo32 y → lo32 x + 2^32 + c.u32Min ≤ b.u32Max + lo32 y

section Wrap

variable {x y : Nat} (hx : x < 2^64) (hy : y < 2^64)
include hx hy

theorem toI64_add : toI64 ((x + y) % 2^64) = toI64 x + toI64 y -
    (if 2^63 ≤ toI64 x + toI64 y then 2^64 else 0) +
    (if toI64 x + toI64 y < -2^63 then 2^64 else 0) := by
  unfold toI64
  split_ifs <;> omega

theorem toI64_sub : toI64 ((2^64 - y + x) % 2^64) = toI64 x - toI64 y -
    (if 2^63 ≤ toI64 x - toI64 y then 2^64 else 0) +
    (if toI64 x - toI64 y < -2^63 then 2^64 else 0) := by
  unfold toI64
  split_ifs <;> omega

omit hx hy in
theorem toI32_add : toI32 ((x + y) % 2^64) = toI32 x + toI32 y -
    (if 2^31 ≤ toI32 x + toI32 y then 2^32 else 0) +
    (if toI32 x + toI32 y < -2^31 then 2^32 else 0) := by
  unfold toI32
  split_ifs <;> omega

omit hx in
theorem toI32_sub : toI32 ((2^64 - y + x) % 2^64) = toI32 x - toI32 y -
    (if 2^31 ≤ toI32 x - toI32 y then 2^32 else 0) +
    (if toI32 x - toI32 y < -2^31 then 2^32 else 0) := by
  unfold toI32
  split_ifs <;> omega

omit hx hy in
theorem lo32_add : lo32 ((x + y) % 2^64) =
    lo32 x + lo32 y - (if 2^32 ≤ lo32 x + lo32 y then 2^32 else 0) := by
  unfold lo32
  split_ifs <;> omega

omit hx in
theorem lo32_sub : lo32 ((2^64 - y + x) % 2^64) =
    (if lo32 x < lo32 y then 2^32 else 0) + lo32 x - lo32 y := by
  unfold lo32
  split_ifs <;> omega

end Wrap

theorem saturated_iff_signedWrap {m lo hi s v : Int} (hm : 0 < m) (hlo : lo ≤ s) (hhi : s ≤ hi)
    (hs : -(2 * m) ≤ s ∧ s < 2 * m)
    (hv : v = s - (if m ≤ s then 2 * m else 0) + (if s < -m then 2 * m else 0)) :
    (max (-m) (min lo (m - 1)) ≤ v ∧ v ≤ max (-m) (min hi (m - 1))) ↔ SignedWrap m lo hi s := by
  unfold SignedWrap
  split_ifs at hv <;> omega

theorem has_raise_iff {b : ScalarBounds} {n : Nat} : (b.raise n).Has n ↔
    (b.smin ≤ toI64 n ∧ toI64 n ≤ b.smax) ∧ b.umin ≤ n ∧
      (b.s32Min ≤ toI32 n ∧ toI32 n ≤ b.s32Max) ∧ (b.u32Min ≤ lo32 n ∧ lo32 n ≤ b.u32Max) := by
  simp only [has_iff, raise, le_refl, true_and, and_assoc]

section Ends
variable {b c : ScalarBounds} {x y : Nat} (hx : x < 2^64) (hy : y < 2^64)
variable (hbx : b.Has x) (hcy : c.Has y)

theorem inRange_addEnds (hb : b.InRange) (hc : c.InRange) : (addEnds b c).InRange := by
  obtain ⟨_, _, _, _, _, _, _, _⟩ := hb
  obtain ⟨_, _, _, _, _, _, _, _⟩ := hc
  constructor <;> simp only [addEnds, satI64, satI32, satU64, I64, I32] <;> omega

theorem inRange_subEnds (hb : b.InRange) (hc : c.InRange) : (subEnds b c).InRange := by
  obtain ⟨_, _, _, _, _, _, _, _⟩ := hb
  obtain ⟨_, _, _, _, _, _, _, _⟩ := hc
  constructor <;> simp only [subEnds, satI64, satI32, I64, I32] <;> omega

include hx hy hbx hcy

theorem addEnds_s64_iff : ((addEnds b c).smin ≤ toI64 ((x + y) % 2^64) ∧
      toI64 ((x + y) % 2^64) ≤ (addEnds b c).smax) ↔
    SignedWrap (2^63) (b.smin + c.smin) (b.smax + c.smax) (toI64 x + toI64 y) := by
  have h1 := toI64_range hx
  have h2 := toI64_range hy
  unfold I64 at h1 h2
  exact saturated_iff_signedWrap (by decide) (Int.add_le_add hbx.smin_le hcy.smin_le)
    (Int.add_le_add hbx.le_smax hcy.le_smax) ⟨by omega, by omega⟩ (toI64_add hx hy)

theorem subEnds_s64_iff : ((subEnds b c).smin ≤ toI64 ((2^64 - y + x) % 2^64) ∧
      toI64 ((2^64 - y + x) % 2^64) ≤ (subEnds b c).smax) ↔
    SignedWrap (2^63) (b.smin - c.smax) (b.smax - c.smin) (toI64 x - toI64 y) := by
  have h1 := toI64_range hx
  have h2 := toI64_range hy
  unfold I64 at h1 h2
  exact saturated_iff_signedWrap (by decide) (Int.sub_le_sub hbx.smin_le hcy.le_smax)
    (Int.sub_le_sub hbx.le_smax hcy.smin_le) ⟨by omega, by omega⟩ (toI64_sub hx hy)

omit hx hy in
theorem addEnds_s32_iff : ((addEnds b c).s32Min ≤ toI32 ((x + y) % 2^64) ∧
      toI32 ((x + y) % 2^64) ≤ (addEnds b c).s32Max) ↔
    SignedWrap (2^31) (b.s32Min + c.s32Min) (b.s32Max + c.s32Max) (toI32 x + toI32 y) := by
  have h1 := toI32_range x
  have h2 := toI32_range y
  unfold I32 at h1 h2
  exact saturated_iff_signedWrap (by decide) (Int.add_le_add hbx.s32Min_le hcy.s32Min_le)
    (Int.add_le_add hbx.le_s32Max hcy.le_s32Max) ⟨by omega, by omega⟩ toI32_add

omit hx in
theorem subEnds_s32_iff : ((subEnds b c).s32Min ≤ toI32 ((2^64 - y + x) % 2^64) ∧
      toI32 ((2^64 - y + x) % 2^64) ≤ (subEnds b c).s32Max) ↔
    SignedWrap (2^31) (b.s32Min - c.s32Max) (b.s32Max - c.s32Min) (toI32 x - toI32 y) := by
  have h1 := toI32_range x
  have h2 := toI32_range y
  unfold I32 at h1 h2
  exact saturated_iff_signedWrap (by decide) (Int.sub_le_sub hbx.s32Min_le hcy.le_s32Max)
    (Int.sub_le_sub hbx.le_s32Max hcy.s32Min_le) ⟨by omega, by omega⟩ (toI32_sub hy)

omit hx hy in
theorem addEnds_u32_iff : ((addEnds b c).u32Min ≤ lo32 ((x + y) % 2^64) ∧
      lo32 ((x + y) % 2^64) ≤ (addEnds b c).u32Max) ↔
    (2^32 ≤ lo32 x + lo32 y → b.u32Min + c.u32Min + 2^32 ≤ lo32 x + lo32 y) := by
  have h1 := hbx.u32Min_le
  have h2 := hbx.le_u32Max
  have h3 := hcy.u32Min_le
  have h4 := hcy.le_u32Max
  have h5 := lo32_lt x
  have h6 := lo32_lt y
  rw [lo32_add]
  simp only [addEnds]
  split_ifs <;> omega

omit hx in
theorem subEnds_u32_iff : ((subEnds b c).u32Min ≤ lo32 ((2^64 - y + x) % 2^64) ∧
      lo32 ((2^64 - y + x) % 2^64) ≤ (subEnds b c).u32Max) ↔
    (lo32 x < lo32 y → lo32 x + 2^32 + c.u32Min ≤ b.u32Max + lo32 y) := by
  have h1 := hbx.u32Min_le
  have h2 := hbx.le_u32Max
  have h3 := hcy.u32Min_le
  have h4 := hcy.le_u32Max
  have h6 := lo32_lt y
  rw [lo32_sub hy]
  simp only [subEnds]
  split_ifs <;> omega

theorem addEnds_umin_le_iff : (addEnds b c).umin ≤ (x + y) % 2^64 ↔
    (2^64 ≤ x + y → b.umin + c.umin + 2^64 ≤ x + y) := by
  have h1 := hbx.umin_le
  have h2 := hcy.umin_le
  simp only [addEnds, satU64]
  omega

theorem has_addBounds_iff (hb : b.InRange) (hc : c.InRange) :
    (addBounds b c).Has ((x + y) % 2^64) ↔ AddCovered b c x y := by
  have hmax : (x + y) % 2^64 ≤ (addEnds b c).umax := by
    have h1 := hbx.le_umax
    have h2 := hcy.le_umax
    simp only [addEnds, satU64]
    omega
  rw [addBounds, has_syncBounds_iff (inRange_addEnds hb hc) (Nat.mod_lt _ (by decide)),
    and_iff_left (Or.inl hmax), has_raise_iff, addEnds_s64_iff hx hy hbx hcy,
    addEnds_s32_iff hbx hcy, addEnds_u32_iff hbx hcy, addEnds_umin_le_iff hx hy hbx hcy]
  exact (addCovered_iff b c x y).symm

theorem subEnds_umin_le : (subEnds b c).umin ≤ (2^64 - y + x) % 2^64 := by
  have h1 := hbx.umin_le
  have h2 := hcy.le_umax
  simp only [subEnds]
  omega

theorem subEnds_umax_iff :
    ((2^64 - y + x) % 2^64 ≤ (subEnds b c).umax ∨ (subEnds b c).Recovered ((2^64 - y + x) % 2^64)) ↔
      (x < y → x + 2^64 + c.umin ≤ b.umax + y ∨
        (b.smin < c.smax ∧ c.smin ≤ b.smax ∧ b.umax < c.umin + 2^63 ∧
          (b.umax < c.umin + 2^32 → lo32 (2^64 - y + x) ≤ b.umax - c.umin))) := by
  have h1 := hbx.umin_le
  have h2 := hbx.le_umax
  have h3 := hcy.umin_le
  have h4 := hcy.le_umax
  by_cases hxy : x < y
  · -- the difference borrows: no lower end is left, and the maximum decides
    have hr : (2^64 - y + x) % 2^64 = 2^64 - y + x := Nat.mod_eq_of_lt (by omega)
    have hmin : (subEnds b c).umin = 0 := by
      simp only [subEnds]
      omega
    have hneg : (subEnds b c).smin < 0 ↔ b.smin < c.smax := by
      simp only [subEnds, satI64]
      omega
    have hpos : 0 ≤ (subEnds b c).smax ↔ c.smin ≤ b.smax := by
      simp only [subEnds, satI64]
      omega
    rw [hr, forall_prop_of_true hxy, Recovered, hmin, hneg, hpos]
    simp only [subEnds]
    refine or_congr (by omega) (and_congr_right' (and_congr_right' (and_congr (by omega) ?_)))
    unfold lo32
    omega
  · have hr : (2^64 - y + x) % 2^64 = x - y := by omega
    rw [hr, forall_prop_of_false hxy, iff_true]
    left
    simp only [subEnds]
    omega

theorem has_subBounds_iff (hb : b.InRange) (hc : c.InRange) :
    (subBounds b c).Has ((2^64 - y + x) % 2^64) ↔ SubCovered b c x y := by
  rw [subBounds, has_syncBounds_iff (inRange_subEnds hb hc) (Nat.mod_lt _ (by decide)),
    has_raise_iff, subEnds_s64_iff hx hy hbx hcy,
    subEnds_s32_iff hy hbx hcy, subEnds_u32_iff hy hbx hcy, subEnds_umax_iff hx hy hbx hcy]
  constructor
  · rintro ⟨⟨h1, -, h3, h4⟩, h2⟩
    exact ⟨h1, h2, h3, h4⟩
  · rintro ⟨h1, h2, h3, h4⟩
    exact ⟨⟨h1, subEnds_umin_le hx hy hbx hcy, h3, h4⟩, h2⟩

end Ends

/-- The result lies in the bounds of its register, and a state that was not
contradictory before has not become so. -/
def Keeps (s s' : IntervalState) (dst : Reg) (v : BitVec 64) : Prop :=
  (s'.getBounds dst).Has v.toNat ∧ (s.isInconsistent = false → s'.isInconsistent = false)

structure SameBut (s s' : IntervalState) (dst : Reg) : Prop where
  others : ∀ r, r ≠ dst → s'.regs r = s.regs r
  packetLower : s'.packetSizeLowerBound = s.packetSizeLowerBound
  packetUpper : s'.packetSizeUpperBound = s.packetSizeUpperBound
  metaLower : s'.metaSizeLowerBound = s.metaSizeLowerBound
  metaUpper : s'.metaSizeUpperBound = s.metaSizeUpperBound

theorem sameBut_update (s : IntervalState) (r : Reg) (v : RegInterval) :
    SameBut s (s.update r v) r :=
  ⟨fun _ h => if_neg h, rfl, rfl, rfl, rfl⟩

theorem SameBut.trans {s s' s'' : IntervalState} {r : Reg} (h : SameBut s s' r)
    (h' : SameBut s' s'' r) : SameBut s s'' r :=
  ⟨fun q hq => (h'.others q hq).trans (h.others q hq), h'.packetLower.trans h.packetLower,
    h'.packetUpper.trans h.packetUpper, h'.metaLower.trans h.metaLower,
    h'.metaUpper.trans h.metaUpper⟩

theorem SameBut.isInconsistent {s s' : IntervalState} {r : Reg} (h : SameBut s s' r) {n : Nat}
    (hn : (s'.getBounds r).Has n) (hs : s.isInconsistent = false) : s'.isInconsistent = false := by
  simp only [IntervalState.isInconsistent, Bool.or_eq_false_iff, List.any_eq_false, Bool.or_eq_true,
    decide_eq_true_eq, not_or, Int.not_lt, Nat.not_lt, h.packetLower, h.packetUpper, h.metaLower,
    h.metaUpper] at hs ⊢
  refine ⟨⟨fun q hq => ?_, hs.1.2⟩, hs.2⟩
  by_cases hqr : q = r
  · subst hqr
    exact ⟨Int.le_trans hn.smin_le hn.le_smax, Nat.le_trans hn.umin_le hn.le_umax⟩
  · rw [h.others q hqr]
    exact hs.1.1 q hq

section Transfer
variable {s : IntervalState} {dst src : Reg}

theorem keeps_iff {s' : IntervalState} {v : BitVec 64} (h : SameBut s s' dst) :
    Keeps s s' dst v ↔ (s'.getBounds dst).Has v.toNat :=
  ⟨And.left, fun hv => ⟨hv, h.isInconsistent hv⟩⟩

variable (hd : dst ≠ .zero) (ha : dst.isAnchor = false)
include hd ha

theorem applyAddReg_eq (next : Nat) : ∃ f : PtrOffset → PtrOffset,
    (applyAddReg s dst src next).1 =
      (s.modifyBounds dst (addBounds · (s.getBounds src))).modifyPtrOffset dst f := by
  rw [applyAddReg, if_neg (by simp [hd, ha])]
  dsimp only
  cases (s.getBounds src).getConstant with
  | none | some k => exact ⟨_, rfl⟩

theorem applySubReg_eq : ∃ f : PtrOffset → PtrOffset, applySubReg s dst src =
    (s.modifyBounds dst (subBounds · (s.getBounds src))).modifyPtrOffset dst f :=
  ⟨_, by rw [applySubReg, if_neg (by simp [hd, ha])]⟩

omit hd ha in
theorem getBounds_modified (s : IntervalState) (dst : Reg) (g : ScalarBounds → ScalarBounds)
    (f : PtrOffset → PtrOffset) :
    ((s.modifyBounds dst g).modifyPtrOffset dst f).getBounds dst = g (s.getBounds dst) := by
  simp [IntervalState.getBounds, IntervalState.modifyBounds, IntervalState.modifyPtrOffset,
    IntervalState.update]

omit hd ha in
theorem sameBut_modified (s : IntervalState) (dst : Reg) (g : ScalarBounds → ScalarBounds)
    (f : PtrOffset → PtrOffset) :
    SameBut s ((s.modifyBounds dst g).modifyPtrOffset dst f) dst :=
  (sameBut_update s dst _).trans (sameBut_update _ dst _)

/-- Addition and subtraction of scalar registers keep the wrapped result, and
with it the path, exactly where the ends of the operands cover the wrap. -/
theorem keeps_add_sub_iff (hs : InRange s) (next : Nat) {x y : BitVec 64}
    (hx : (s.getBounds dst).Has x.toNat) (hy : (s.getBounds src).Has y.toNat) :
    (Keeps s (applyAddReg s dst src next).1 dst (x + y) ↔
      AddCovered (s.getBounds dst) (s.getBounds src) x.toNat y.toNat) ∧
    (Keeps s (applySubReg s dst src) dst (x - y) ↔
      SubCovered (s.getBounds dst) (s.getBounds src) x.toNat y.toNat) := by
  constructor
  · obtain ⟨f, hf⟩ := @applyAddReg_eq s dst src hd ha next
    rw [hf, keeps_iff (sameBut_modified s dst _ f), getBounds_modified, BitVec.toNat_add]
    exact has_addBounds_iff x.isLt y.isLt hx hy (hs dst) (hs src)
  · obtain ⟨f, hf⟩ := @applySubReg_eq s dst src hd ha
    rw [hf, keeps_iff (sameBut_modified s dst _ f), getBounds_modified, BitVec.toNat_sub]
    exact has_subBounds_iff x.isLt y.isLt hx hy (hs dst) (hs src)

end Transfer

def minusOneAndOne : IntervalState :=
  assignImm (assignImm IntervalState.new .r1 (-1)) .r2 1

/-- The sum `0` of the two constants is lost, and the path with it. -/
theorem sum_of_constants_lost :
    (minusOneAndOne.getBounds .r1).Has (-1 : BitVec 64).toNat ∧
    (minusOneAndOne.getBounds .r2).Has (1 : BitVec 64).toNat ∧
    minusOneAndOne.isInconsistent = false ∧
    ¬ Keeps minusOneAndOne (applyAddReg minusOneAndOne .r1 .r2 0).1 .r1 (-1 + 1) ∧
    (applyAddReg minusOneAndOne .r1 .r2 0).1.isInconsistent = true := by
  have hlost : (applyAddReg minusOneAndOne .r1 .r2 0).1.isInconsistent = true := by decide
  refine ⟨by decide, by decide, by decide, fun h => ?_, hlost⟩
  exact Bool.noConfusion ((h.2 (by decide)).symm.trans hlost)

theorem doubled_one_kept :
    Keeps minusOneAndOne (applyAddReg minusOneAndOne .r2 .r2 0).1 .r2 (1 + 1) := by
  refine ((keeps_add_sub_iff (by decide) (by decide) (fun r => by cases r <;> decide) 0
    (by decide) (by decide)).1).2 ⟨?_, by decide, ?_, by decide⟩
  · unfold SignedWrap
    decide
  · unfold SignedWrap
    decide

end ZoneVerifier.Interval
