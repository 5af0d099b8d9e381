import ZoneVerifier.Word

/-!
# Scalar bounds of the interval domain

A register carries a signed and an unsigned interval for all 64 bits and for
the low 32 bits (`ScalarBounds`, `domains/interval/state.rs`). `Has` is the
set of words the eight bounds describe. `syncBounds` propagates knowledge
between the four views; it never drops a described word, although its last
step may widen the unsigned maximum again.
-/

set_option autoImplicit false

namespace ZoneVerifier.Bounds
open Word

structure ScalarBounds where
  smin : Int
  smax : Int
  umin : Nat
  umax : Nat
  s32Min : Int
  s32Max : Int
  u32Min : Nat
  u32Max : Nat
  scalarId : Option Nat
  deriving DecidableEq, Repr

namespace ScalarBounds
variable {i c : Int} {n l m : Nat} {b : ScalarBounds}

@[mk_iff]
structure InRange (b : ScalarBounds) : Prop where
  smin : I64 b.smin
  smax : I64 b.smax
  umin : b.umin < 2^64
  umax : b.umax < 2^64
  s32Min : I32 b.s32Min
  s32Max : I32 b.s32Max
  u32Min : b.u32Min < 2^32
  u32Max : b.u32Max < 2^32

@[mk_iff]
structure Has (b : ScalarBounds) (n : Nat) : Prop where
  smin_le : b.smin ≤ toI64 n
  le_smax : toI64 n ≤ b.smax
  umin_le : b.umin ≤ n
  le_umax : n ≤ b.umax
  s32Min_le : b.s32Min ≤ toI32 n
  le_s32Max : toI32 n ≤ b.s32Max
  u32Min_le : b.u32Min ≤ lo32 n
  le_u32Max : lo32 n ≤ b.u32Max

instance (b : ScalarBounds) : Decidable b.InRange := decidable_of_iff' _ (inRange_iff b)

instance (b : ScalarBounds) (n : Nat) : Decidable (b.Has n) := decidable_of_iff' _ (has_iff b n)

def unknown : ScalarBounds :=
  { smin := -2^63, smax := 2^63 - 1, umin := 0, umax := 2^64 - 1, s32Min := -2^31,
    s32Max := 2^31 - 1, u32Min := 0, u32Max := 2^32 - 1, scalarId := none }

def constant (val : Int) : ScalarBounds :=
  { smin := val, smax := val, umin := toU64 val, umax := toU64 val, s32Min := toI32 (toU64 val),
    s32Max := toI32 (toU64 val), u32Min := lo32 (toU64 val), u32Max := lo32 (toU64 val),
    scalarId := none }

section
variable (b)

def isConstant : Bool := b.smin == b.smax && b.umin == b.umax

def getConstant : Option Int := if b.isConstant then some b.smin else none

def meetU64 (lo hi : Nat) : ScalarBounds :=
  { b with umin := max b.umin lo, umax := min b.umax hi }

def meetS64 (lo hi : Int) : ScalarBounds :=
  { b with smin := max b.smin lo, smax := min b.smax hi }

def meetU32 (lo hi : Nat) : ScalarBounds :=
  { b with u32Min := max b.u32Min lo, u32Max := min b.u32Max hi }

def meetS32 (lo hi : Int) : ScalarBounds :=
  { b with s32Min := max b.s32Min lo, s32Max := min b.s32Max hi }

/-- Step (1): the unsigned 64-bit interval has constant upper bits. -/
def deduceFromU64 : ScalarBounds :=
  if b.umin / 2^32 = b.umax / 2^32 then
    let c := b.meetU32 (lo32 b.umin) (lo32 b.umax)
    if toI32 b.umin ≤ toI32 b.umax then c.meetS32 (toI32 b.umin) (toI32 b.umax) else c
  else b

/-- Step (2): the signed 64-bit interval has constant upper bits. -/
def deduceFromS64 : ScalarBounds :=
  if b.smin / 2^32 = b.smax / 2^32 then
    let lo := toU64 b.smin
    let hi := toU64 b.smax
    let c := if lo32 lo ≤ lo32 hi then b.meetU32 (lo32 lo) (lo32 hi) else b
    if toI32 lo ≤ toI32 hi then c.meetS32 (toI32 lo) (toI32 hi) else c
  else b

/-- Step (3). -/
def deduceS32FromU32 : ScalarBounds :=
  if toI32 b.u32Min ≤ toI32 b.u32Max then b.meetS32 (toI32 b.u32Min) (toI32 b.u32Max) else b

/-- Step (4). -/
def deduceU32FromS32 : ScalarBounds :=
  let lo := lo32 (toU64 b.s32Min)
  let hi := lo32 (toU64 b.s32Max)
  if lo ≤ hi then b.meetU32 lo hi else b

def withLow (n l : Nat) : Nat := n / 2^32 * 2^32 + l

/-- Step (5): the low half is substituted into both 64-bit intervals. -/
def deduceMixed : ScalarBounds :=
  (b.meetU64 (withLow b.umin b.u32Min) (withLow b.umax b.u32Max)).meetS64
    (toI64 (withLow (toU64 b.smin) b.u32Min)) (toI64 (withLow (toU64 b.smax) b.u32Max))

/-- Step (6): a sign-crossing interval gets its unsigned maximum back. -/
def deduceU64FromS64 : ScalarBounds :=
  if 0 ≤ b.smin then b.meetU64 (toU64 b.smin) (toU64 b.smax)
  else if b.smin < 0 ∧ 0 ≤ b.smax ∧ b.umax < 2^63 then { b with umax := 2^64 - 1 }
  else b

def syncBounds : ScalarBounds :=
  b.deduceFromU64.deduceFromS64.deduceS32FromU32.deduceU32FromS32.deduceMixed.deduceU64FromS64

def forget32ThenSync : ScalarBounds :=
  { b with s32Min := -2^31, s32Max := 2^31 - 1, u32Min := 0, u32Max := 2^32 - 1 }.syncBounds

/-- The fields `assumeSle` writes before it synchronises. -/
def capSle (c : Int) : ScalarBounds :=
  { b with smax := min b.smax c, umax := if 0 ≤ c then min b.umax (toU64 c) else b.umax }

def assumeSle (c : Int) : ScalarBounds := (b.capSle c).syncBounds

def capSge (c : Int) : ScalarBounds :=
  { b with smin := max b.smin c, umin := if 0 ≤ c then max b.umin (toU64 c) else b.umin }

def assumeSge (c : Int) : ScalarBounds := (b.capSge c).syncBounds

def capUle (c : Nat) : ScalarBounds :=
  { b with umax := min b.umax c, smax := if c ≤ 2^63 - 1 then min b.smax (toI64 c) else b.smax }

def assumeUle (c : Nat) : ScalarBounds := (b.capUle c).syncBounds

def capUge (c : Nat) : ScalarBounds :=
  { b with
    umin := max b.umin c
    smin := if c ≤ 2^63 - 1 ∧ 0 ≤ b.smin then max b.smin (toI64 c) else b.smin }

def assumeUge (c : Nat) : ScalarBounds := (b.capUge c).syncBounds

def zextEnds : ScalarBounds :=
  if 0 ≤ b.s32Min ∧ 0 ≤ b.s32Max then
    { b with umin := b.u32Min, umax := b.u32Max, smin := b.s32Min, smax := b.s32Max }
  else { b with umin := b.u32Min, umax := b.u32Max, smin := 0, smax := 2^32 - 1 }

def assign32Into64 : ScalarBounds := b.zextEnds.syncBounds

theorem has_meetU64 (lo hi n : Nat) :
    (b.meetU64 lo hi).Has n ↔ b.Has n ∧ lo ≤ n ∧ n ≤ hi := by
  simp only [has_iff, meetU64]
  omega

theorem has_meetS64 (lo hi : Int) (n : Nat) :
    (b.meetS64 lo hi).Has n ↔ b.Has n ∧ lo ≤ toI64 n ∧ toI64 n ≤ hi := by
  simp only [has_iff, meetS64]
  omega

theorem has_meetU32 (lo hi n : Nat) :
    (b.meetU32 lo hi).Has n ↔ b.Has n ∧ lo ≤ lo32 n ∧ lo32 n ≤ hi := by
  simp only [has_iff, meetU32]
  omega

theorem has_meetS32 (lo hi : Int) (n : Nat) :
    (b.meetS32 lo hi).Has n ↔ b.Has n ∧ lo ≤ toI32 n ∧ toI32 n ≤ hi := by
  simp only [has_iff, meetS32]
  omega

end

theorem has_unknown (h : n < 2^64) : unknown.Has n := by
  have h64 := toI64_range h
  have h32 := toI32_range n
  have hl := lo32_lt n
  simp only [I64, I32] at h64 h32
  constructor <;> simp only [unknown] <;> omega

theorem has_constant (h : n < 2^64) : (constant (toI64 n)).Has n := by
  constructor <;> simp [constant, toU64_toI64 h]

theorem getConstant_eq_some {k : Int} (h : b.getConstant = some k) :
    b.smin = k ∧ b.smax = k ∧ b.umin = b.umax := by
  unfold getConstant isConstant at h
  split_ifs at h with hc
  simp only [Bool.and_eq_true, beq_iff_eq] at hc
  cases h
  exact ⟨rfl, hc.1.symm, hc.2⟩

theorem lo32_between {k : Nat} (h : m / 2^32 = k / 2^32) (h1 : m ≤ n) (h2 : n ≤ k) :
    lo32 m ≤ lo32 n ∧ lo32 n ≤ lo32 k := by
  unfold lo32
  omega

theorem toI32_between {k : Nat} (h1 : lo32 m ≤ lo32 n) (h2 : lo32 n ≤ lo32 k)
    (h : toI32 m ≤ toI32 k) : toI32 m ≤ toI32 n ∧ toI32 n ≤ toI32 k := by
  unfold lo32 at h1 h2
  unfold toI32 at *
  split_ifs at * <;> omega

theorem toI32_between_of_le {a b : Nat} (h1 : a ≤ lo32 n) (h2 : lo32 n ≤ b) (hb : b < 2^32)
    (h : toI32 a ≤ toI32 b) : toI32 a ≤ toI32 n ∧ toI32 n ≤ toI32 b := by
  unfold lo32 at h1 h2
  exact toI32_between (by unfold lo32; omega) (by unfold lo32; omega) h

theorem lo32_between_signed {j : Int} (h : i / 2^32 = j / 2^32) (h1 : i ≤ toI64 n)
    (h2 : toI64 n ≤ j) :
    lo32 (toU64 i) ≤ lo32 n ∧ lo32 n ≤ lo32 (toU64 j) := by
  unfold toI64 at h1 h2
  unfold lo32 toU64
  split_ifs at h1 h2 <;> omega

theorem lo32_between_s32 {j : Int} (hi : I32 i) (hj : I32 j) (h1 : i ≤ toI32 n) (h2 : toI32 n ≤ j)
    (h : lo32 (toU64 i) ≤ lo32 (toU64 j)) :
    lo32 (toU64 i) ≤ lo32 n ∧ lo32 n ≤ lo32 (toU64 j) := by
  unfold I32 at hi hj
  unfold toI32 at h1 h2
  unfold lo32 toU64 at *
  split_ifs at h1 h2 <;> omega

theorem withLow_le (hl : l < 2^32) (h1 : m ≤ n) (h2 : l ≤ lo32 n) : withLow m l ≤ n := by
  unfold withLow
  unfold lo32 at h2
  omega

theorem le_withLow (h1 : n ≤ m) (h2 : lo32 n ≤ l) : n ≤ withLow m l := by
  unfold withLow
  unfold lo32 at h2
  omega

theorem signed_withLow_le (hi : I64 i) (hn : n < 2^64) (hl : l < 2^32) (h1 : i ≤ toI64 n)
    (h2 : l ≤ lo32 n) : toI64 (withLow (toU64 i) l) ≤ toI64 n := by
  unfold I64 at hi
  unfold lo32 at h2
  unfold withLow toU64
  unfold toI64 at *
  split_ifs at * <;> omega

theorem le_signed_withLow (hi : I64 i) (hn : n < 2^64) (hl : l < 2^32) (h1 : toI64 n ≤ i)
    (h2 : lo32 n ≤ l) : toI64 n ≤ toI64 (withLow (toU64 i) l) := by
  unfold I64 at hi
  unfold lo32 at h2
  unfold withLow toU64
  unfold toI64 at *
  split_ifs at * <;> omega

theorem has_deduceFromU64 (h : b.Has n) : b.deduceFromU64.Has n := by
  unfold deduceFromU64
  split
  case isTrue hu =>
    obtain ⟨hl, hh⟩ := lo32_between hu h.umin_le h.le_umax
    have hm := (has_meetU32 b _ _ n).2 ⟨h, hl, hh⟩
    split
    case isTrue hs => exact (has_meetS32 _ _ _ n).2 ⟨hm, toI32_between hl hh hs⟩
    case isFalse => exact hm
  case isFalse => exact h

theorem has_deduceFromS64 (h : b.Has n) : b.deduceFromS64.Has n := by
  unfold deduceFromS64
  dsimp only
  split
  case isTrue hs =>
    obtain ⟨hl, hh⟩ := lo32_between_signed hs h.smin_le h.le_smax
    rw [if_pos (Nat.le_trans hl hh)]
    have hm := (has_meetU32 b _ _ n).2 ⟨h, hl, hh⟩
    split
    case isTrue ht => exact (has_meetS32 _ _ _ n).2 ⟨hm, toI32_between hl hh ht⟩
    case isFalse => exact hm
  case isFalse => exact h

section
variable (hb : b.InRange)
include hb

theorem has_deduceS32FromU32 (h : b.Has n) : b.deduceS32FromU32.Has n := by
  unfold deduceS32FromU32
  split_ifs with hs
  · exact (has_meetS32 _ _ _ n).2
      ⟨h, toI32_between_of_le h.u32Min_le h.le_u32Max hb.u32Max hs⟩
  · exact h

theorem has_deduceU32FromS32 (h : b.Has n) : b.deduceU32FromS32.Has n := by
  unfold deduceU32FromS32
  dsimp only
  split_ifs with hs
  · exact (has_meetU32 _ _ _ n).2
      ⟨h, lo32_between_s32 hb.s32Min hb.s32Max h.s32Min_le h.le_s32Max hs⟩
  · exact h

theorem has_deduceMixed (hn : n < 2^64) (h : b.Has n) : b.deduceMixed.Has n := by
  refine (has_meetS64 _ _ _ n).2 ⟨(has_meetU64 _ _ _ n).2 ⟨h, ?_, ?_⟩, ?_, ?_⟩
  · exact withLow_le hb.u32Min h.umin_le h.u32Min_le
  · exact le_withLow h.le_umax h.le_u32Max
  · exact signed_withLow_le hb.smin hn hb.u32Min h.smin_le h.u32Min_le
  · exact le_signed_withLow hb.smax hn hb.u32Max h.le_smax h.le_u32Max

theorem has_deduceU64FromS64 (hn : n < 2^64) (h : b.Has n) :
    b.deduceU64FromS64.Has n := by
  unfold deduceU64FromS64
  split_ifs with h0 h1
  · have hlt : n < 2^63 := (toI64_nonneg_iff hn).1 (Int.le_trans h0 h.smin_le)
    have he := toI64_of_lt hlt
    have h2 := h.smin_le
    have h3 := h.le_smax
    have h4 := hb.smax
    unfold I64 at h4
    refine (has_meetU64 _ _ _ n).2 ⟨h, ?_, ?_⟩ <;> unfold toU64 <;> omega
  · exact ⟨h.smin_le, h.le_smax, h.umin_le, by simp only; omega, h.s32Min_le, h.le_s32Max,
      h.u32Min_le, h.le_u32Max⟩
  · exact h

theorem InRange.meetU64 {lo hi : Nat} (h : lo < 2^64) :
    (b.meetU64 lo hi).InRange :=
  { hb with
    umin := Nat.max_lt.2 ⟨hb.umin, h⟩
    umax := Nat.lt_of_le_of_lt (Nat.min_le_left _ _) hb.umax }

theorem InRange.meetS64 {lo hi : Int} (h : I64 lo) (h' : I64 hi) :
    (b.meetS64 lo hi).InRange := by
  obtain ⟨h1, h2, h3, h4, h5, h6, h7, h8⟩ := hb
  unfold I64 at h h' h1 h2
  refine ⟨?_, ?_, h3, h4, h5, h6, h7, h8⟩ <;> simp only [ScalarBounds.meetS64, I64] <;> omega

theorem InRange.meetU32 {lo hi : Nat} (h : lo < 2^32) :
    (b.meetU32 lo hi).InRange :=
  { hb with
    u32Min := Nat.max_lt.2 ⟨hb.u32Min, h⟩
    u32Max := Nat.lt_of_le_of_lt (Nat.min_le_left _ _) hb.u32Max }

theorem InRange.meetS32 {lo hi : Int} (h : I32 lo) (h' : I32 hi) :
    (b.meetS32 lo hi).InRange := by
  obtain ⟨h1, h2, h3, h4, h5, h6, h7, h8⟩ := hb
  unfold I32 at h h' h5 h6
  refine ⟨h1, h2, h3, h4, ?_, ?_, h7, h8⟩ <;> simp only [ScalarBounds.meetS32, I32] <;> omega

end

theorem withLow_lt (hn : n < 2^64) (hl : l < 2^32) : withLow n l < 2^64 := by
  unfold withLow
  omega

section
variable (hb : b.InRange)
include hb

theorem InRange.deduceFromU64 : b.deduceFromU64.InRange := by
  unfold ScalarBounds.deduceFromU64
  split_ifs
  · exact (hb.meetU32 (lo32_lt _)).meetS32 (toI32_range _) (toI32_range _)
  · exact hb.meetU32 (lo32_lt _)
  · exact hb

theorem InRange.deduceFromS64 : b.deduceFromS64.InRange := by
  unfold ScalarBounds.deduceFromS64
  dsimp only
  split_ifs
  · exact (hb.meetU32 (lo32_lt _)).meetS32 (toI32_range _) (toI32_range _)
  · exact hb.meetS32 (toI32_range _) (toI32_range _)
  · exact hb.meetU32 (lo32_lt _)
  · exact hb
  · exact hb

theorem InRange.deduceS32FromU32 : b.deduceS32FromU32.InRange := by
  unfold ScalarBounds.deduceS32FromU32
  split_ifs
  · exact hb.meetS32 (toI32_range _) (toI32_range _)
  · exact hb

theorem InRange.deduceU32FromS32 : b.deduceU32FromS32.InRange := by
  unfold ScalarBounds.deduceU32FromS32
  dsimp only
  split_ifs
  · exact hb.meetU32 (lo32_lt _)
  · exact hb

theorem InRange.deduceMixed : b.deduceMixed.InRange :=
  (hb.meetU64 (withLow_lt hb.umin hb.u32Min)).meetS64
    (toI64_range (withLow_lt (toU64_lt _) hb.u32Min))
    (toI64_range (withLow_lt (toU64_lt _) hb.u32Max))

theorem InRange.deduceU64FromS64 : b.deduceU64FromS64.InRange := by
  unfold ScalarBounds.deduceU64FromS64
  split_ifs
  · exact hb.meetU64 (toU64_lt _)
  · exact { hb with umax := Nat.sub_lt (by decide) (by decide) }
  · exact hb

theorem InRange.syncBounds : b.syncBounds.InRange :=
  hb.deduceFromU64.deduceFromS64.deduceS32FromU32.deduceU32FromS32.deduceMixed.deduceU64FromS64

theorem has_syncBounds (hn : n < 2^64) (h : b.Has n) : b.syncBounds.Has n := by
  have r1 := hb.deduceFromU64
  have r2 := r1.deduceFromS64
  have r3 := r2.deduceS32FromU32
  have r4 := r3.deduceU32FromS32
  have h2 := has_deduceFromS64 (has_deduceFromU64 h)
  have h4 := has_deduceU32FromS32 r3 (has_deduceS32FromU32 r2 h2)
  exact has_deduceU64FromS64 r4.deduceMixed hn (has_deduceMixed r4 hn h4)

theorem InRange.capSge (hc : I64 c) : (b.capSge c).InRange := by
  obtain ⟨h1, h2, h3, h4, h5, h6, h7, h8⟩ := hb
  unfold I64 at h1 hc
  refine ⟨?_, h2, ?_, h4, h5, h6, h7, h8⟩
  · simp only [ScalarBounds.capSge, I64]
    omega
  · simp only [ScalarBounds.capSge]
    split_ifs
    · exact Nat.max_lt.2 ⟨h3, toU64_lt c⟩
    · exact h3

theorem InRange.capSle (hc : I64 c) : (b.capSle c).InRange := by
  obtain ⟨h1, h2, h3, h4, h5, h6, h7, h8⟩ := hb
  unfold I64 at h2 hc
  refine ⟨h1, ?_, h3, ?_, h5, h6, h7, h8⟩
  · simp only [ScalarBounds.capSle, I64]
    omega
  · simp only [ScalarBounds.capSle]
    split_ifs
    · exact Nat.lt_of_le_of_lt (Nat.min_le_left _ _) h4
    · exact h4

end

theorem toU64_le_of_le (hc : I64 c) (hn : n < 2^64) (h0 : 0 ≤ c) (h : c ≤ toI64 n) :
    toU64 c ≤ n := by
  unfold I64 at hc
  unfold toI64 at h
  unfold toU64
  split_ifs at h <;> omega

end ScalarBounds
end ZoneVerifier.Bounds
