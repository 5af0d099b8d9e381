import Mathlib.Algebra.Order.Group.Abs
import ZoneVerifier.SaturatedClosure
import ZoneVerifier.ZoneArith

/-!
# Exact closure, projection and assignment

`Dbm::close` is the closure loop with `clamped_add`, which drops sums above
`POS_BOUND` and weakens those below `NEG_BOUND` (`domains/zone/dbm.rs`). It never
changes the integer valuations a matrix admits, and finds the least weights
exactly where they can be stored. Dropping a register is exact where the other
cells imply every bound through it; an assignment (`domains/zone/ops.rs`) then
adds two cells.
-/

set_option autoImplicit false

namespace ZoneVerifier.Zone
open Ast Bounds DiffBound

def Admits (d : Dbm) (x : Reg → Int) : Prop := Sat inf d.data x

def Storable (c : Int) : Prop := negBound ≤ c ∧ c ≤ posBound

instance (c : Int) : Decidable (Storable c) := inferInstanceAs (Decidable (_ ∧ _))

def EntriesInRange (d : Dbm) : Prop := ∀ i j, -inf ≤ d.data i j ∧ d.data i j ≤ inf

def ShadowEmpty (d : Dbm) : Prop :=
  ∃ r, (d.bounds r).s32Max < (d.bounds r).s32Min ∨ (d.bounds r).u32Max < (d.bounds r).u32Min ∨
    (d.bounds r).smax < (d.bounds r).smin ∨ (d.bounds r).umax < (d.bounds r).umin

theorem saturating_clampedAdd : Saturating inf (-inf) Storable clampedAdd where
  sound := clampedAdd_sound
  low_le a b := by
    unfold clampedAdd clampUpperBound negBound posBound inf
    split_ifs <;> omega
  le a b c ha hb ha' hb' hc hfit := by
    unfold Storable at hfit
    unfold clampedAdd clampUpperBound Word.I64 negBound posBound inf at *
    split_ifs <;> omega
  result a b h := by
    unfold Storable
    unfold clampedAdd clampUpperBound negBound posBound inf at *
    split_ifs at * <;> omega
  lt_top c h := by
    unfold Storable posBound inf at *
    omega

theorem data_close (d : Dbm) : d.close.data = close inf clampedAdd Reg.rows d.data := by
  rw [Dbm.close]

theorem admits_close_iff (d : Dbm) (x : Reg → Int) : Admits d.close x ↔ Admits d x := by
  unfold Admits
  rw [data_close]
  exact sat_close_iff clampedAdd_sound Reg.rows d.data x

theorem isInconsistent_iff (d : Dbm) :
    d.isInconsistent = true ↔ (∃ r, d.data r r < 0) ∨ ShadowEmpty d := by
  unfold Dbm.isInconsistent ShadowEmpty
  simp only [Bool.or_eq_true, List.any_eq_true, decide_eq_true_eq, Reg.mem_rows, true_and, or_assoc]

theorem shadowEmpty_close (d : Dbm) : ShadowEmpty d.close ↔ ShadowEmpty d := by
  unfold ShadowEmpty
  rw [Dbm.close]

/-- A reported inconsistency is a negative cycle or an empty shadow range. -/
theorem inconsistent_of_close {d : Dbm} (h : d.close.isInconsistent = true) :
    NegCycle inf d.data ∨ ShadowEmpty d := by
  rw [isInconsistent_iff, shadowEmpty_close, data_close] at h
  rcases h with ⟨r, hr⟩ | hs
  · exact Or.inl (negCycle_of_close saturating_clampedAdd (by decide) hr)
  · exact Or.inr hs

theorem isInconsistent_close_iff {d : Dbm} (hd : EntriesInRange d)
    (hfit : PathsFit inf Storable d.data) :
    d.close.isInconsistent = true ↔ NegCycle inf d.data ∨ ShadowEmpty d := by
  refine ⟨inconsistent_of_close, fun h => ?_⟩
  rw [isInconsistent_iff, shadowEmpty_close, data_close]
  rcases h with hneg | hs
  · exact Or.inl (exists_close_neg saturating_clampedAdd hfit (fun p q => (hd p q).1)
      Reg.mem_rows hneg)
  · exact Or.inr hs

section Small
variable {d : Dbm}

/-- Entries so small that no path can leave the stored range. -/
def SmallEntries (d : Dbm) : Prop := ∀ i j, d.data i j < inf → |d.data i j| ≤ posBound / 16

theorem storable_of_small (hd : SmallEntries d) {i j : Reg} {ps : List Reg} (hps : ps.Nodup)
    (hw : IsWalk inf d.data i ps j) : Storable (weight d.data i ps j) := by
  have hlen : ps.length ≤ 15 := hps.length_le_card
  have hwt := abs_le.1 (abs_weight_le hd hw)
  have hb : 0 ≤ posBound / 16 ∧ posBound / 16 * 16 ≤ posBound := by decide
  have hmul : posBound / 16 * (ps.length + 1) ≤ posBound / 16 * 16 :=
    Int.mul_le_mul_of_nonneg_left (by omega) hb.1
  unfold Storable negBound
  omega

theorem shortestFit_of_small (hn : ¬ NegCycle inf d.data) (hd : SmallEntries d) :
    ShortestFit inf Storable d.data := by
  rintro i j w ⟨⟨ps, hw, rfl⟩, hmin⟩
  obtain ⟨qs, hqs, hwq, hle⟩ := exists_nodup_walk hn hw
  have hge : weight d.data i ps j ≤ weight d.data i qs j := hmin ⟨qs, hwq, rfl⟩
  have heq : weight d.data i ps j = weight d.data i qs j := Int.le_antisymm hge hle
  exact Or.inl (heq ▸ storable_of_small hd hqs hwq)

end Small

/-- Closing keeps the admitted valuations. Without a negative cycle it yields
the least weights exactly when those can be stored, and the matrix is then
closed. A reported inconsistency is genuine, and none is missed if the weights
of paths can be stored; a negative cycle means that no valuation is admitted. -/
theorem close_canonical (d : Dbm) (hd : EntriesInRange d) :
    (∀ x, Admits d.close x ↔ Admits d x) ∧
    (¬ NegCycle inf d.data →
      (Exact inf d.data d.close.data ↔ ShortestFit inf Storable d.data) ∧
      (ShortestFit inf Storable d.data → Closed inf clampedAdd d.close.data)) ∧
    (d.close.isInconsistent = true → NegCycle inf d.data ∨ ShadowEmpty d) ∧
    (PathsFit inf Storable d.data →
      (d.close.isInconsistent = true ↔ NegCycle inf d.data ∨ ShadowEmpty d)) ∧
    (NegCycle inf d.data ↔ ¬ ∃ x, Admits d x) := by
  refine ⟨admits_close_iff d, fun hn => ?_, inconsistent_of_close, isInconsistent_close_iff hd,
    negCycle_iff⟩
  rw [data_close]
  have hiff := exact_close_iff saturating_clampedAdd hn (fun p q => (hd p q).1) Reg.mem_rows
  exact ⟨hiff, fun hfit => (hiff.2 hfit).closed saturating_clampedAdd⟩

def twoSteps : Dbm := (Dbm.new.addConstraint .r1 .r2 5).addConstraint .r2 .r3 7

theorem two_steps_closed :
    Exact inf twoSteps.data twoSteps.close.data ∧ Closed inf clampedAdd twoSteps.close.data := by
  have hrange : EntriesInRange twoSteps := by
    intro i j
    revert i j
    decide
  have hsmall : SmallEntries twoSteps := by
    intro i j
    revert i j
    decide
  have hsat : Admits twoSteps fun _ => 0 := by
    intro i j
    revert i j
    decide
  have hn : ¬ NegCycle inf twoSteps.data := hsat.not_negCycle
  have hfit := shortestFit_of_small hn hsmall
  have h := (close_canonical twoSteps hrange).2.1 hn
  exact ⟨h.1.2 hfit, h.2 hfit⟩

def heavySteps : Dbm := (Dbm.new.addConstraint .r1 .r2 (2^60 - 1)).addConstraint .r2 .r3 (2^60 - 1)

def heavyPotential : Reg → Int
  | .r1 => 2^61 - 2
  | .r2 => 2^60 - 1
  | .r3 => 0
  | _ => 2^60 - 1

theorem admits_heavySteps : Admits heavySteps heavyPotential := by
  intro i j
  revert i j
  decide

theorem heavySteps_not_exact : ¬ Exact inf heavySteps.data heavySteps.close.data := by
  have hrange : EntriesInRange heavySteps := by
    intro i j
    revert i j
    decide
  have hn : ¬ NegCycle inf heavySteps.data := admits_heavySteps.not_negCycle
  have hwalk : IsWalk inf heavySteps.data .r1 [.r2] .r3 := by decide
  have hleast : Shortest inf heavySteps.data .r1 .r3 (2^61 - 2) := by
    refine ⟨⟨[.r2], hwalk, by decide⟩, ?_⟩
    rintro c ⟨ps, hw, rfl⟩
    exact admits_heavySteps.le_weight hw
  rw [data_close, exact_close_iff saturating_clampedAdd hn (fun p q => (hrange p q).1) Reg.mem_rows]
  intro hfit
  exact absurd (hfit .r1 .r3 _ hleast) (by decide)

/-- A negative cycle that rounding hides: any two of its steps add up to more
than `POS_BOUND` or less than `NEG_BOUND`. -/
def hiddenCycle : Dbm :=
  { Dbm.new with
    data := fun i j =>
      match i, j with
      | .r1, .r2 => 120 * 2^54
      | .r2, .r3 => -40 * 2^54
      | .r3, .r4 => -40 * 2^54
      | .r4, .r1 => -41 * 2^54
      | i, j => if i = j then 0 else inf }

/-- What the rounded sums around the cycle cannot undercut. -/
def hiddenFloor : Reg → Reg → Int
  | .r1, .r2 => 120 * 2^54
  | .r1, .r4 => 56 * 2^54
  | .r2, .r3 => -40 * 2^54
  | .r2, .r4 => negBound
  | .r2, .r1 => negBound
  | .r3, .r4 => -40 * 2^54
  | .r3, .r1 => negBound
  | .r3, .r2 => 56 * 2^54
  | .r4, .r1 => -41 * 2^54
  | i, j => if i = j then 0 else inf

theorem clampedAdd_mono {a b a' b' : Int} (h1 : a ≤ a') (h2 : b ≤ b') (ha : -inf ≤ a)
    (hb : -inf ≤ b) : clampedAdd a b ≤ clampedAdd a' b' := by
  unfold clampedAdd clampUpperBound Word.I64 negBound posBound inf at *
  split_ifs <;> omega

theorem low_le_hiddenFloor : ∀ i j, -inf ≤ hiddenFloor i j := by
  decide

theorem hiddenFloor_closed : ∀ i k, hiddenFloor i k < inf → ∀ j, hiddenFloor k j < inf →
    hiddenFloor i j ≤ clampedAdd (hiddenFloor i k) (hiddenFloor k j) := by
  decide

theorem hiddenFloor_le_close (i j : Reg) : hiddenFloor i j ≤ hiddenCycle.close.data i j := by
  rw [data_close]
  refine Cells.close (C := fun i j a => hiddenFloor i j ≤ a) ?_ ?_ Reg.rows i j
  · intro i k j a b ha hb ha' hb'
    have h := hiddenFloor_closed i k (Int.lt_of_le_of_lt ha ha') j (Int.lt_of_le_of_lt hb hb')
    exact Int.le_trans h (clampedAdd_mono ha hb (low_le_hiddenFloor i k) (low_le_hiddenFloor k j))
  · intro i j
    revert i j
    decide

/-- A least weight above `POS_BOUND` is lost; a negative cycle may be missed;
and an empty shadow range is reported although the matrix admits a valuation. -/
theorem closure_rounds :
    (¬ NegCycle inf heavySteps.data ∧ ¬ Exact inf heavySteps.data heavySteps.close.data) ∧
    (NegCycle inf hiddenCycle.data ∧ hiddenCycle.close.isInconsistent = false) ∧
    (Admits (Dbm.new.setBounds .r1 { ScalarBounds.unknown with smin := 1, smax := 0 }) (fun _ => 0) ∧
      (Dbm.new.setBounds .r1 { ScalarBounds.unknown with
        smin := 1, smax := 0 }).close.isInconsistent = true) := by
  refine ⟨⟨admits_heavySteps.not_negCycle, heavySteps_not_exact⟩, ⟨?_, ?_⟩, ?_, ?_⟩
  · exact ⟨.r1, [.r2, .r3, .r4], by decide, by decide⟩
  · rw [← Bool.not_eq_true, isInconsistent_iff, shadowEmpty_close]
    rintro (⟨r, hr⟩ | ⟨r, hr⟩)
    · have hle := hiddenFloor_le_close r r
      have hdiag : hiddenFloor r r = 0 := by cases r <;> rfl
      omega
    · have hb : hiddenCycle.bounds r = ScalarBounds.unknown := rfl
      rw [hb] at hr
      revert hr
      decide
  · intro i j
    revert i j
    decide
  · rw [isInconsistent_iff, shadowEmpty_close]
    exact Or.inr ⟨.r1, by decide⟩

end ZoneVerifier.Zone

namespace ZoneVerifier.Zone
open Word Ast Bounds DiffBound
open Function (update update_of_ne update_idem update_eq_self update_self)

def Represented (d : Dbm) (v : Reg → Int) : Prop := Admits d v ∧ v .zero = 0

/-- `e` represents what `d` does with an arbitrary value for `x`. -/
def Forgets (d e : Dbm) (x : Reg) : Prop :=
  ∀ w, Represented e w ↔ ∃ v a, Represented d v ∧ w = update v x a

/-- `e` represents what `d` does after `x := f`. -/
def Assigns (d e : Dbm) (x : Reg) (f : (Reg → Int) → Int) : Prop :=
  ∀ w, Represented e w ↔ ∃ v, Represented d v ∧ w = update v x (f v)

/-- The cells that do not mention `x` imply every bound through `x`. -/
def OthersImply (d : Dbm) (x : Reg) : Prop :=
  ∀ w, Represented (d.forgetVar x) w → ∀ i j, i ≠ x → j ≠ x → d.data i x < inf →
    d.data x j < inf → w i - w j ≤ d.data i x + d.data x j

/-- Every bound through `x` can be stored, or is in its cell all the same. -/
def SumsStored (d : Dbm) (x : Reg) : Prop :=
  ∀ i j, i ≠ x → j ≠ x → d.data i x < inf → d.data x j < inf →
    Storable (d.data i x + d.data x j) ∨
      (d.data i j < inf ∧ d.data i j ≤ d.data i x + d.data x j)

section Forget
variable {d : Dbm} {x : Reg} {w : Reg → Int}

theorem admits_forgetVar_iff :
    Admits (d.forgetVar x) w ↔
      ∀ i j, i ≠ x → j ≠ x → d.data i j < inf → w i - w j ≤ d.data i j := by
  constructor
  · intro h i j hi hj hij
    have hcell : (d.forgetVar x).data i j = d.data i j := if_neg (not_or.2 ⟨hi, hj⟩)
    have := h i j
    rw [hcell] at this
    exact this hij
  · intro h i j
    unfold Dbm.forgetVar
    dsimp only
    split_ifs with hx he
    · subst he
      omega
    · exact fun hlt => absurd hlt (Int.lt_irrefl _)
    · exact h i j (not_or.1 hx).1 (not_or.1 hx).2

theorem admits_forgetVar_update (a : Int) :
    Admits (d.forgetVar x) (update w x a) ↔ Admits (d.forgetVar x) w := by
  rw [admits_forgetVar_iff, admits_forgetVar_iff]
  constructor
  · intro h i j hi hj hij
    have := h i j hi hj hij
    rwa [update_of_ne hi, update_of_ne hj] at this
  · intro h i j hi hj hij
    rw [update_of_ne hi, update_of_ne hj]
    exact h i j hi hj hij

theorem Admits.forgetVar (h : Admits d w) : Admits (d.forgetVar x) w :=
  admits_forgetVar_iff.2 fun i j _ _ => h i j

theorem represented_forgetVar_update (hx : x ≠ .zero) (a : Int) :
    Represented (d.forgetVar x) (update w x a) ↔ Represented (d.forgetVar x) w := by
  unfold Represented
  rw [admits_forgetVar_update, update_of_ne hx.symm]

theorem exists_represented (hx : x ≠ .zero) (hdiag : 0 ≤ d.data x x) (hi : OthersImply d x)
    (hw : Represented (d.forgetVar x) w) : ∃ a, Represented d (update w x a) := by
  obtain ⟨a, ha⟩ := exists_sat_update (admits_forgetVar_iff.1 hw.1) hdiag (hi w hw)
  refine ⟨a, ha, ?_⟩
  rw [update_of_ne hx.symm]
  exact hw.2

theorem othersImply_of (h : ∀ w, Represented (d.forgetVar x) w →
    ∃ v, Represented d v ∧ ∀ i, i ≠ x → w i = v i) : OthersImply d x := by
  intro w hw i j hi hj hix hxj
  obtain ⟨v, hv, hagree⟩ := h w hw
  have h1 := hv.1 i x hix
  have h2 := hv.1 x j hxj
  rw [hagree i hi, hagree j hj]
  omega

theorem forgets_iff (hx : x ≠ .zero) (hdiag : 0 ≤ d.data x x) :
    Forgets d (d.forgetVar x) x ↔ OthersImply d x := by
  constructor
  · intro h
    refine othersImply_of fun w hw => ?_
    obtain ⟨v, a, hv, rfl⟩ := (h w).1 hw
    exact ⟨v, hv, fun i hi => update_of_ne hi a v⟩
  · intro hi w
    constructor
    · intro hw
      obtain ⟨a, ha⟩ := exists_represented hx hdiag hi hw
      refine ⟨_, w x, ha, ?_⟩
      rw [update_idem, update_eq_self]
    · rintro ⟨v, a, hv, rfl⟩
      exact (represented_forgetVar_update hx a).2 ⟨hv.1.forgetVar, hv.2⟩

/-- An update that drops `x` and then pins it to a value of the others is as
exact as the dropping. -/
theorem assigns_iff {e : Dbm} {f : (Reg → Int) → Int} (hx : x ≠ .zero) (hdiag : 0 ≤ d.data x x)
    (hf : ∀ w a, f (update w x a) = f w)
    (he : ∀ w, Represented e w ↔ Represented (d.forgetVar x) w ∧ w x = f w) :
    Assigns d e x f ↔ OthersImply d x := by
  constructor
  · intro h
    refine othersImply_of fun w hw => ?_
    have hpin : Represented e (update w x (f w)) := by
      refine (he _).2 ⟨(represented_forgetVar_update hx _).2 hw, ?_⟩
      rw [update_self, hf]
    obtain ⟨v, hv, hwv⟩ := (h _).1 hpin
    refine ⟨v, hv, fun i hi => ?_⟩
    have := congrFun hwv i
    rwa [update_of_ne hi, update_of_ne hi] at this
  · intro hi w
    constructor
    · intro hw
      obtain ⟨hoff, hval⟩ := (he w).1 hw
      obtain ⟨a, ha⟩ := exists_represented hx hdiag hi hoff
      refine ⟨_, ha, ?_⟩
      rw [hf, update_idem, ← hval, update_eq_self]
    · rintro ⟨v, hv, rfl⟩
      refine (he _).2 ⟨(represented_forgetVar_update hx _).2 ⟨hv.1.forgetVar, hv.2⟩, ?_⟩
      rw [update_self, hf]

/-- In a closed matrix only the sums that cannot be stored may be missing. -/
theorem SumsStored.othersImply (hs : SumsStored d x) (hc : Closed inf clampedAdd d.data)
    (hr : EntriesInRange d) : OthersImply d x := by
  intro w hw i j hi hj hix hxj
  have hcell : d.data i j < inf ∧ d.data i j ≤ d.data i x + d.data x j := by
    rcases hs i j hi hj hix hxj with hfit | hle
    · have hadd := saturating_clampedAdd.le _ _ _ (hr i x).1 (hr x j).1 hix hxj (Int.le_refl _) hfit
      have hle := Int.le_trans (hc x i j hix hxj) hadd
      exact ⟨Int.lt_of_le_of_lt hle (saturating_clampedAdd.lt_top _ hfit), hle⟩
    · exact hle
  exact Int.le_trans (admits_forgetVar_iff.1 hw.1 i j hi hj hcell.1) hcell.2

end Forget

section Assign
variable {d : Dbm} {x y : Reg} {c : Int} {w : Reg → Int}

theorem admits_addConstraint_iff (d : Dbm) (i j : Reg) (hc : Storable c) :
    Admits (d.addConstraint i j c) w ↔ Admits d w ∧ w i - w j ≤ c := by
  unfold Admits
  rw [sat_addConstraint_iff, asserted_iff]
  unfold Storable negBound at hc
  exact and_congr_right fun _ => by omega

theorem Admits.addConstraint {i j : Reg} (h : Admits d w) (hc : w i - w j ≤ c) :
    Admits (d.addConstraint i j c) w :=
  (sat_addConstraint_iff d i j c w).2 ⟨h, asserted_of_le hc⟩

theorem Admits.of_addConstraint {i j : Reg} (h : Admits (d.addConstraint i j c) w) : Admits d w :=
  ((sat_addConstraint_iff d i j c w).1 h).1

theorem Storable.neg (hc : Storable c) : Storable (-c) := by
  unfold Storable negBound at *
  omega

theorem Storable.i64 (hc : Storable c) : I64 c ∧ -2^63 < c := by
  unfold Storable negBound posBound inf at hc
  unfold I64
  omega

theorem admits_pin_iff (hc : Storable c) :
    Admits (((d.forgetVar x).addConstraint x y c).addConstraint y x (-c)) w ↔
      Admits (d.forgetVar x) w ∧ w x = w y + c := by
  rw [admits_addConstraint_iff _ y x hc.neg, admits_addConstraint_iff _ x y hc, and_assoc]
  exact and_congr_right fun _ => by omega

theorem represented_assignRegOffset_iff (hc : Storable c) :
    Represented (assignRegOffset d x y c) w ↔
      Represented (d.forgetVar x) w ∧ w x = w y + c := by
  unfold Represented assignRegOffset
  dsimp only
  rw [if_pos hc.i64.2, admits_close_iff, admits_pin_iff hc, and_right_comm]

theorem represented_assignReg_iff :
    Represented (assignReg d x y) w ↔ Represented (d.forgetVar x) w ∧ w x = w y := by
  have h := admits_pin_iff (d := d) (x := x) (y := y) (w := w) (c := 0) (by decide)
  unfold Represented assignReg
  rw [Int.neg_zero, Int.add_zero] at h
  rw [admits_close_iff, h, and_right_comm]

theorem Admits.of_syncBounds (h : Admits (syncBounds d x) w) : Admits d w := by
  unfold syncBounds at h
  split_ifs at h with hx
  · exact h
  dsimp only at h
  generalize crossPollinate (syncFromDbm d x (d.bounds x)) = b at h
  have h1 : Admits (if b.smax < 2^63 - 1 then (d.setBounds x b).addConstraint x .zero b.smax
      else d.setBounds x b) w := by
    split at h
    · exact h.of_addConstraint
    · exact h
  split at h1
  · exact h1.of_addConstraint
  · exact h1

theorem Admits.syncBounds (h : Admits d w) (hz : w .zero = 0) (hi : I64 (w x))
    (hfit : Fits (d.bounds x) (toU64 (w x))) : Admits (syncBounds d x) w := by
  have hval := toI64_toU64 hi
  have hb : Fits (crossPollinate (syncFromDbm d x (d.bounds x))) (toU64 (w x)) := by
    refine fits_crossPollinate (toU64_lt _) (fits_syncFromDbm_of hfit (fun hlt => ?_) fun hlt => ?_)
    · have := h x .zero hlt
      omega
    · have := h .zero x hlt
      omega
  unfold Zone.syncBounds
  split_ifs
  · exact h
  dsimp only
  generalize crossPollinate (syncFromDbm d x (d.bounds x)) = b at hb
  have hu := hb.has.le_smax
  have hl := hb.has.smin_le
  have h1 : Admits (d.setBounds x b) w := h
  have h2 : Admits (if b.smax < 2^63 - 1 then (d.setBounds x b).addConstraint x .zero b.smax
      else d.setBounds x b) w := by
    split_ifs
    · exact h1.addConstraint (by omega)
    · exact h1
  split
  · exact h2.addConstraint (by omega)
  · exact h2

theorem fits_pinned (hi : I64 c) :
    Fits { ScalarBounds.unknown with smin := c, smax := c } (toU64 c) := by
  have hval := toI64_toU64 hi
  have hu := Fits.of_inRange (b := ScalarBounds.unknown) (by decide)
    (ScalarBounds.has_unknown (toU64_lt c))
  exact { hu with
    has := { hu.has with smin_le := Int.le_of_eq hval.symm, le_smax := Int.le_of_eq hval }
    smax := hi.2 }

theorem represented_assignImm_iff (hc : Storable c) :
    Represented (assignImm d x c) w ↔ Represented (d.forgetVar x) w ∧ w x = c := by
  have hbounds : (((d.forgetVar x).addConstraint x .zero c).addConstraint .zero x (-c)).bounds x =
      ScalarBounds.unknown := by
    rw [bounds_addConstraint, bounds_addConstraint]
    exact if_pos rfl
  unfold Represented assignImm
  dsimp only
  rw [if_pos hc.i64.2, hbounds]
  generalize he : ((d.forgetVar x).addConstraint x .zero c).addConstraint .zero x (-c) = e
  have hpin : Admits e w ↔ Admits (d.forgetVar x) w ∧ w x = w .zero + c := he ▸ admits_pin_iff hc
  constructor
  · rintro ⟨h, hz⟩
    have h1 : Admits e w := (admits_close_iff _ w).1 h.of_syncBounds
    have h2 := hpin.1 h1
    exact ⟨⟨h2.1, hz⟩, by omega⟩
  · rintro ⟨⟨h, hz⟩, hval⟩
    have h1 : Admits e w := hpin.2 ⟨h, by omega⟩
    have h2 : Admits (e.setBounds x { ScalarBounds.unknown with smin := c, smax := c }).close w :=
      (admits_close_iff _ w).2 h1
    have hfit : Fits ((e.setBounds x { ScalarBounds.unknown with
        smin := c, smax := c }).close.bounds x) (toU64 (w x)) := by
      have hb : (e.setBounds x { ScalarBounds.unknown with smin := c, smax := c }).close.bounds x =
          { ScalarBounds.unknown with smin := c, smax := c } := if_pos rfl
      rw [hb, hval]
      exact fits_pinned hc.i64.1
    exact ⟨h2.syncBounds hz (hval ▸ hc.i64.1) hfit, hz⟩

end Assign

/-- On a closed consistent matrix the projection of a register and the
assignments to it, from another register and with a constant that can be
stored, are exact if and only if the other cells imply the bounds through it.
That is so if the sums through it can be stored. -/
theorem updates_exact_iff {d : Dbm} (hr : EntriesInRange d) (hc : Closed inf clampedAdd d.data)
    (hcons : d.isInconsistent = false) {x : Reg} (hx : x ≠ .zero) :
    (Forgets d (d.forgetVar x) x ↔ OthersImply d x) ∧
    (∀ y, y ≠ x → (Assigns d (assignReg d x y) x (fun v => v y) ↔ OthersImply d x)) ∧
    (∀ c, Storable c → (Assigns d (assignImm d x c) x (fun _ => c) ↔ OthersImply d x)) ∧
    (∀ y c, y ≠ x → Storable c →
      (Assigns d (assignRegOffset d x y c) x (fun v => v y + c) ↔ OthersImply d x)) ∧
    (SumsStored d x → OthersImply d x) := by
  have hdiag : 0 ≤ d.data x x := by
    refine Int.not_lt.1 fun hlt => ?_
    rw [(isInconsistent_iff d).2 (Or.inl ⟨x, hlt⟩)] at hcons
    cases hcons
  refine ⟨forgets_iff hx hdiag, fun y hy => ?_, fun c hfit => ?_, fun y c hy hfit => ?_,
    fun hs => hs.othersImply hc hr⟩
  · refine assigns_iff hx hdiag (fun w a => ?_) fun w => represented_assignReg_iff
    exact update_of_ne hy a w
  · exact assigns_iff hx hdiag (fun _ _ => rfl) fun w => represented_assignImm_iff hfit
  · refine assigns_iff hx hdiag (fun w a => ?_) fun w => represented_assignRegOffset_iff hfit
    rw [update_of_ne hy]

def fiveAbove : Dbm := (Dbm.new.addConstraint .r1 .r2 5).addConstraint .r2 .r1 (-5)

theorem five_above_forgotten : Forgets fiveAbove (fiveAbove.forgetVar .r2) .r2 := by
  have hrange : EntriesInRange fiveAbove := by
    intro i j
    revert i j
    decide
  have hclosed : ∀ i k, fiveAbove.data i k < inf → ∀ j, fiveAbove.data k j < inf →
      fiveAbove.data i j ≤ clampedAdd (fiveAbove.data i k) (fiveAbove.data k j) := by
    decide
  have hsums : ∀ i j, fiveAbove.data i .r2 < inf → fiveAbove.data .r2 j < inf →
      Storable (fiveAbove.data i .r2 + fiveAbove.data .r2 j) := by
    decide
  have h := updates_exact_iff hrange (fun k i j hi hj => hclosed i k hi j hj) (by decide)
    (x := .r2) (by decide)
  exact h.1.2 (h.2.2.2.2 fun i j _ _ hi hj => Or.inl (hsums i j hi hj))

def onlyR1 (n : Int) : Reg → Int
  | .r1 => n
  | _ => 0

theorem admits_new_zero : Admits Dbm.new fun _ => 0 := by
  intro i j
  revert i j
  decide

theorem closed_heavySteps : Closed inf clampedAdd heavySteps.data := by
  have hclosed : ∀ i k, heavySteps.data i k < inf → ∀ j, heavySteps.data k j < inf →
      heavySteps.data i j ≤ clampedAdd (heavySteps.data i k) (heavySteps.data k j) := by
    decide
  exact fun k i j hi hj => hclosed i k hi j hj

/-- Without `r2` the sum of two steps is lost; an offset above `POS_BOUND` is
only a lower bound; and a register assigned to itself is forgotten, or with a
negative offset contradicts itself. -/
theorem updates_inexact :
    (Closed inf clampedAdd heavySteps.data ∧ heavySteps.isInconsistent = false ∧
      ¬ Forgets heavySteps (heavySteps.forgetVar .r2) .r2) ∧
    ¬ Assigns Dbm.new (assignRegOffset Dbm.new .r1 .r2 (2^60)) .r1 (fun v => v .r2 + 2^60) ∧
    ¬ Assigns fiveAbove (assignReg fiveAbove .r1 .r1) .r1 (fun v => v .r1) ∧
    ¬ Assigns Dbm.new (assignRegOffset Dbm.new .r1 .r1 (-1)) .r1 (fun v => v .r1 + -1) := by
  refine ⟨⟨closed_heavySteps, by decide, fun h => ?_⟩, fun h => ?_, fun h => ?_, fun h => ?_⟩
  · have hw : Represented (heavySteps.forgetVar .r2) (onlyR1 (2^61)) := by
      refine ⟨fun i j => ?_, rfl⟩
      revert i j
      decide
    obtain ⟨v, a, hv, he⟩ := (h _).1 hw
    have hv1 : 2^61 = v .r1 := (congrFun he .r1).trans (update_of_ne (by decide) a v)
    have hv3 : 0 = v .r3 := (congrFun he .r3).trans (update_of_ne (by decide) a v)
    have h1 := hv.1 .r1 .r2 (by decide)
    have h2 := hv.1 .r2 .r3 (by decide)
    rw [show heavySteps.data .r1 .r2 = 2^60 - 1 by decide] at h1
    rw [show heavySteps.data .r2 .r3 = 2^60 - 1 by decide] at h2
    omega
  · have hw : Represented (assignRegOffset Dbm.new .r1 .r2 (2^60)) (onlyR1 (2^60 + 1)) := by
      refine ⟨(admits_close_iff _ _).2 ?_, rfl⟩
      rw [if_pos (by decide)]
      unfold Admits
      rw [sat_addConstraint_iff, sat_addConstraint_iff, asserted_iff, asserted_iff]
      refine ⟨⟨fun i j => ?_, by decide⟩, by decide⟩
      revert i j
      decide
    obtain ⟨v, _, he⟩ := (h _).1 hw
    have hv2 : 0 = v .r2 := (congrFun he .r2).trans (update_of_ne (by decide) _ v)
    have hv1 : 2^60 + 1 = v .r2 + 2^60 := (congrFun he .r1).trans (update_self ..)
    omega
  · have hw : Represented (assignReg fiveAbove .r1 .r1) (onlyR1 1) := by
      refine ⟨(admits_close_iff _ _).2 ?_, rfl⟩
      refine Admits.addConstraint (Admits.addConstraint (fun i j => ?_) (by decide)) (by decide)
      revert i j
      decide
    obtain ⟨v, hv, he⟩ := (h _).1 hw
    rw [update_eq_self] at he
    have := hv.1 .r2 .r1 (by decide)
    rw [← he, show fiveAbove.data .r2 .r1 = -5 by decide] at this
    exact absurd this (by decide)
  · have hw := ((h _).2 ⟨_, ⟨admits_new_zero, rfl⟩, rfl⟩).1
    have h1 := (admits_close_iff _ _).1 hw
    rw [if_pos (by decide)] at h1
    have h2 := ((admits_addConstraint_iff _ _ _ (by decide)).1 h1.of_addConstraint).2
    omega

end ZoneVerifier.Zone
