import ZoneVerifier.IntervalArith
import ZoneVerifier.RegExec
import ZoneVerifier.ShiftTransfer

/-!
# Multiplying by a constant

Both domains scale the ends of the register and saturate. A product that does
not overflow lies between the scaled ends; one that wraps is kept only if the
saturated ends happen to leave room for it. The interval domain scales the
unsigned ends as well, and every negative word overflows there.
-/

set_option autoImplicit false

open Function (update)

namespace ZoneVerifier.Interval
open Word Bounds Concrete

variable {b : ScalarBounds} {v : BitVec 64} {m : Int}

structure MulCovered (b : ScalarBounds) (v : BitVec 64) (m : Int) : Prop where
  signed : ¬ I64 (signed v * m) →
    satI64 (b.smin * m) ≤ Concrete.signed (v * BitVec.ofInt 64 m) ∧
      Concrete.signed (v * BitVec.ofInt 64 m) ≤ satI64 (b.smax * m)
  unsigned : 2^64 ≤ v.toNat * toU64 m →
    satU64 (b.umin * toU64 m) ≤ (v * BitVec.ofInt 64 m).toNat ∧
      ((v * BitVec.ofInt 64 m).toNat ≤ satU64 (b.umax * toU64 m) ∨
        (mulEnds b m).Recovered (v * BitVec.ofInt 64 m).toNat)

theorem signed_mul_of_fits (hm : I64 m) (h : I64 (signed v * m)) :
    signed (v * BitVec.ofInt 64 m) = signed v * m := by
  have hi : (BitVec.ofInt 64 m).toInt = m := by
    rw [toInt_eq_toI64, toNat_ofInt, toI64_toU64 hm]
  have hv : v.toInt = signed v := toInt_eq_toI64 v
  unfold I64 at h
  rw [signed, ← toInt_eq_toI64, BitVec.toInt_mul, hi, hv, Int.bmod_def]
  split_ifs <;> omega

theorem inRange_mulEnds (b : ScalarBounds) (m : Int) : (mulEnds b m).InRange := by
  have hun : ScalarBounds.unknown.InRange := by decide
  refine ⟨satI64_range _, satI64_range _, ?_, ?_, hun.s32Min, hun.s32Max, hun.u32Min,
    hun.u32Max⟩ <;>
  · simp only [mulEnds, satU64]
    omega

theorem forget32ThenSync_mulEnds (b : ScalarBounds) (m : Int) :
    (mulEnds b m).forget32ThenSync = (mulEnds b m).syncBounds := rfl

theorem has_mulEnds_iff (h : b.Has v.toNat) (hm : I64 m) (h1 : 0 ≤ m) :
    (mulEnds b m).forget32ThenSync.Has (v * BitVec.ofInt 64 m).toNat ↔ MulCovered b v m := by
  have hp := (v * BitVec.ofInt 64 m).isLt
  have h32 := toI32_range (v * BitVec.ofInt 64 m).toNat
  have hl := lo32_lt (v * BitVec.ofInt 64 m).toNat
  have hsmin : b.smin * m ≤ signed v * m := Int.mul_le_mul_of_nonneg_right h.smin_le h1
  have hsmax : signed v * m ≤ b.smax * m := Int.mul_le_mul_of_nonneg_right h.le_smax h1
  have humin : b.umin * toU64 m ≤ v.toNat * toU64 m := Nat.mul_le_mul_right _ h.umin_le
  have humax : v.toNat * toU64 m ≤ b.umax * toU64 m := Nat.mul_le_mul_right _ h.le_umax
  have hsig : I64 (signed v * m) → satI64 (b.smin * m) ≤ signed (v * BitVec.ofInt 64 m) ∧
      signed (v * BitVec.ofInt 64 m) ≤ satI64 (b.smax * m) := by
    intro hf
    rw [signed_mul_of_fits hm hf]
    unfold I64 at hf
    unfold satI64
    omega
  have huns : v.toNat * toU64 m < 2^64 → satU64 (b.umin * toU64 m) ≤
      (v * BitVec.ofInt 64 m).toNat ∧ (v * BitVec.ofInt 64 m).toNat ≤ satU64 (b.umax * toU64 m) := by
    intro hf
    rw [BitVec.toNat_mul, toNat_ofInt, Nat.mod_eq_of_lt hf]
    unfold satU64
    omega
  rw [forget32ThenSync_mulEnds, ScalarBounds.has_syncBounds_iff (inRange_mulEnds b m) hp,
    has_raise_iff]
  unfold I32 at h32
  constructor
  · rintro ⟨⟨hs, hu, -⟩, hmax⟩
    exact ⟨fun _ => hs, fun _ => ⟨hu, hmax⟩⟩
  · rintro ⟨hs, hu⟩
    have hs' := (Classical.em (I64 (signed v * m))).elim hsig hs
    refine ⟨⟨hs', ?_, ?_, ?_⟩, ?_⟩
    · exact (Nat.lt_or_ge (v.toNat * toU64 m) (2^64)).elim (fun hf => (huns hf).1)
        fun hf => (hu hf).1
    · simp only [mulEnds, ScalarBounds.unknown]
      omega
    · simp only [mulEnds, ScalarBounds.unknown]
      omega
    · exact (Nat.lt_or_ge (v.toNat * toU64 m) (2^64)).elim (fun hf => Or.inl (huns hf).2)
        fun hf => (hu hf).2

theorem mul_ofInt_zero (v : BitVec 64) : v * BitVec.ofInt 64 0 = 0#64 := by
  have h0 : BitVec.ofInt 64 0 = 0#64 := by decide
  rw [h0, BitVec.mul_zero]

theorem mul_ofInt_one (v : BitVec 64) : v * BitVec.ofInt 64 1 = v := by
  have h1 : BitVec.ofInt 64 1 = 1#64 := by decide
  rw [h1, BitVec.mul_one]

def mulBounds (b : ScalarBounds) (m : Int) : ScalarBounds :=
  if m = 0 then ScalarBounds.constant 0
  else if 0 < m then (mulEnds b m).forget32ThenSync
  else ScalarBounds.unknown

theorem applyMulImm_eq (s : IntervalState) {x : Ast.Reg} (hx : x.isProgram = true) (hm : m ≠ 1) :
    applyMulImm s x m =
      s.update x { bounds := mulBounds (s.getBounds x) m, ptrOffset := none } := by
  have hp := Ast.Reg.isProgram_iff.1 hx
  have hp' := not_or.1 hp
  unfold applyMulImm mulBounds
  rw [if_neg hp]
  split_ifs
  · rw [assignZero, assignImm, if_pos hp', IntervalState.set, if_pos hp'.1]
    rfl
  · rfl
  · rw [IntervalState.forget, if_pos hp']
    rfl

theorem has_mulBounds_iff (h : b.Has v.toNat) (hm : I64 m) (h1 : m ≠ 1) :
    (mulBounds b m).Has (v * BitVec.ofInt 64 m).toNat ↔ (1 < m → MulCovered b v m) := by
  unfold mulBounds
  split_ifs with h0 hpos
  · subst h0
    rw [mul_ofInt_zero]
    exact ⟨fun _ h => absurd h (by decide), fun _ => by decide⟩
  · rw [has_mulEnds_iff h hm (by omega)]
    exact ⟨fun hc _ => hc, fun hc => hc (by omega)⟩
  · exact ⟨fun _ hc => absurd hc (by omega), fun _ => ScalarBounds.has_unknown (BitVec.isLt _)⟩

theorem inRange_mulBounds (b : ScalarBounds) (m : Int) : (mulBounds b m).InRange := by
  unfold mulBounds
  split_ifs
  · decide
  · exact (inRange_mulEnds b m).syncBounds
  · decide

theorem scalarId_mulBounds (b : ScalarBounds) (m : Int) : (mulBounds b m).scalarId = none := by
  unfold mulBounds
  split_ifs
  · rfl
  · exact ScalarBounds.scalarId_syncBounds _
  · rfl

end ZoneVerifier.Interval

namespace ZoneVerifier.Zone
open Word Ast Concrete

def MulCovered (d : Dbm) (x : Reg) (v : BitVec 64) (m : Int) : Prop :=
  ¬ I64 (signed v * m) →
    ((getInterval d x).1 ≠ -2^63 →
      GeKept (satI64 ((getInterval d x).1 * m)) (signed (v * BitVec.ofInt 64 m))) ∧
    ((getInterval d x).2 ≠ 2^63 - 1 →
      LeKept (satI64 ((getInterval d x).2 * m)) (signed (v * BitVec.ofInt 64 m)))

section Mul
variable {d : Dbm} {ρ : Valuation} {x : Reg} {m : Int}

def mulLo (d : Dbm) (x : Reg) (m : Int) : Option Int :=
  if (getInterval d x).1 ≠ -2^63 then some (satI64 ((getInterval d x).1 * m)) else none

def mulHi (d : Dbm) (x : Reg) (m : Int) : Option Int :=
  if (getInterval d x).2 ≠ 2^63 - 1 then some (satI64 ((getInterval d x).2 * m)) else none

theorem applyMulImm_eq (d : Dbm) (x : Reg) (hm : 1 < m) :
    applyMulImm d x m = withEnds d x (mulLo d x m) (mulHi d x m) := by
  unfold applyMulImm withEnds mulLo mulHi
  rw [if_neg (by omega), if_neg (by omega), if_neg (by omega)]
  dsimp only
  split_ifs <;> rfl

theorem mulEnds_iff (h : Satisfies d ρ) (hz : signedOf ρ .zero = 0) (hm : I64 m) (h1 : 1 < m) :
    ((∀ c, mulLo d x m = some c → GeKept c (signed (ρ x * BitVec.ofInt 64 m))) ∧
      (∀ c, mulHi d x m = some c → LeKept c (signed (ρ x * BitVec.ofInt 64 m)))) ↔
    MulCovered d x (ρ x) m := by
  obtain ⟨hlo, hhi⟩ := getInterval_bounds h hz x
  have hl : (getInterval d x).1 * m ≤ signed (ρ x) * m :=
    Int.mul_le_mul_of_nonneg_right hlo (by omega)
  have hh : signed (ρ x) * m ≤ (getInterval d x).2 * m :=
    Int.mul_le_mul_of_nonneg_right hhi (by omega)
  unfold mulLo mulHi MulCovered
  constructor
  · rintro ⟨h2, h3⟩ _
    exact ⟨fun hne => h2 _ (if_pos hne), fun hne => h3 _ (if_pos hne)⟩
  · intro hk
    by_cases hf : I64 (signed (ρ x) * m)
    · -- without overflow the product lies between the saturated ends
      rw [Interval.signed_mul_of_fits hm hf]
      unfold I64 at hf
      constructor
      · intro c hc
        split_ifs at hc
        cases hc
        exact geKept_of_le (by unfold satI64; omega)
      · intro c hc
        split_ifs at hc
        cases hc
        exact leKept_of_le (by unfold satI64; omega)
    · obtain ⟨h2, h3⟩ := hk hf
      constructor
      · intro c hc
        split_ifs at hc with hne
        cases hc
        exact h2 hne
      · intro c hc
        split_ifs at hc with hne
        cases hc
        exact h3 hne

theorem Tracks.applyMulImm (h : Tracks d ρ) (hx : x ≠ .zero) (hm : I64 m) (h1 : 1 < m)
    (hk : MulCovered d x (ρ x) m) :
    Tracks (applyMulImm d x m) (update ρ x (ρ x * BitVec.ofInt 64 m)) := by
  obtain ⟨hlo, hhi⟩ := (mulEnds_iff h.sat h.zero hm h1).2 hk
  have hf := h.forgetVar (v := ρ x * BitVec.ofInt 64 m) hx
  rw [applyMulImm_eq d x h1]
  rw [← signedOf_update_self ρ x] at hlo hhi
  exact ((hf.geEnd hlo).leEnd hhi).close

theorem mulCovered_of_represents (h : Tracks d ρ) (hx : x ≠ .zero) (hm : I64 m) (h1 : 1 < m)
    (hr : Represents (Zone.applyMulImm d x m) (update ρ x (ρ x * BitVec.ofInt 64 m))) :
    MulCovered d x (ρ x) m := by
  have hs := hr.sat
  rw [applyMulImm_eq d x h1] at hs
  exact (mulEnds_iff h.sat h.zero hm h1).1 ((satisfies_withEnds_iff h.sat h.zero hx _ _ _).1 hs)

end Mul
end ZoneVerifier.Zone

namespace ZoneVerifier.Numeric.NumericDomain
open Word Ast Bounds Concrete
open Constraints (Ready)

/-- Scaling by a constant above one must not lose a product that overflows. -/
def MulKept (d : NumericDomain) (x : Reg) (v : BitVec 64) (m : Int) : Prop :=
  1 < m →
    match d with
    | zone d => Zone.MulCovered d x v m
    | interval s => Interval.MulCovered (s.getBounds x) v m

section Mul
variable {d : NumericDomain} {ρ : Valuation} {x : Reg} {v : BitVec 64} {m : Int}

theorem Tracks.applyMulImm (h : d.Tracks ρ) (hx : x.isProgram = true) (hm : I64 m)
    (hk : d.MulKept x (ρ x) m) :
    (d.applyMulImm x m).Tracks (update ρ x (ρ x * BitVec.ofInt 64 m)) := by
  have hp := Reg.isProgram_iff.1 hx
  have hp' := not_or.1 hp
  cases d with
  | zone d =>
    have hcases : m = 0 ∨ m = 1 ∨ m < 0 ∨ 1 < m := by omega
    rcases hcases with rfl | rfl | hneg | hpos
    · have he : Zone.applyMulImm d x 0 = Zone.assignImm d x 0 := if_pos rfl
      simp only [NumericDomain.applyMulImm, he, Interval.mul_ofInt_zero]
      exact Zone.Tracks.assignImm h hp'.1 (by decide)
    · have he : Zone.applyMulImm d x 1 = d := by
        rw [Zone.applyMulImm, if_neg (by decide), if_pos rfl]
      simp only [NumericDomain.applyMulImm, he, Interval.mul_ofInt_one, Function.update_eq_self]
      exact h
    · have he : Zone.applyMulImm d x m = Zone.forget d x := by
        rw [Zone.applyMulImm, if_neg (by omega), if_neg (by omega), if_pos hneg]
      simp only [NumericDomain.applyMulImm, he]
      exact (Zone.Tracks.forgetVar h hp'.1).close
    · exact Zone.Tracks.applyMulImm h hp'.1 hm hpos (hk hpos)
  | interval s =>
    by_cases h1 : m = 1
    · subst h1
      have he : Interval.applyMulImm s x 1 = s := by
        rw [Interval.applyMulImm, if_neg hp, if_neg (by decide), if_pos rfl]
      simp only [NumericDomain.applyMulImm, he, Interval.mul_ofInt_one, Function.update_eq_self]
      exact h
    · simp only [NumericDomain.applyMulImm, Interval.applyMulImm_eq s hx h1]
      exact ready_update h hx ((Interval.has_mulBounds_iff (h.hasAll x) hm h1).2 hk)
        (Interval.inRange_mulBounds _ m) (Interval.scalarId_mulBounds _ m)

theorem has_applyMulImm_iff {s : Interval.IntervalState} (hx : x.isProgram = true)
    (hm : I64 m) (hv : (s.getBounds x).Has v.toNat) :
    ((Interval.applyMulImm s x m).getBounds x).Has (v * BitVec.ofInt 64 m).toNat ↔
      (interval s).MulKept x v m := by
  by_cases h1 : m = 1
  · subst h1
    have he : Interval.applyMulImm s x 1 = s := by
      rw [Interval.applyMulImm, if_neg (Reg.isProgram_iff.1 hx), if_neg (by decide), if_pos rfl]
    rw [he, Interval.mul_ofInt_one]
    exact ⟨fun _ h => absurd h (by decide), fun _ => hv⟩
  · rw [Interval.applyMulImm_eq s hx h1, Interval.getBounds_update, if_pos rfl]
    exact Interval.has_mulBounds_iff hv hm h1

/-- Multiplying by a constant is sound exactly when no overflowing product is
lost between the scaled ends. -/
theorem applyMulImm_sound_iff (hx : x.isProgram = true) (hm : I64 m) :
    (∀ d ρ, Ready (zone d) ρ →
      (((zone d).applyMulImm x m).Represents (update ρ x (ρ x * BitVec.ofInt 64 m)) ↔
        (zone d).MulKept x (ρ x) m)) ∧
    (∀ s (v : BitVec 64), (s.getBounds x).Has v.toNat →
      (((Interval.applyMulImm s x m).getBounds x).Has (v * BitVec.ofInt 64 m).toNat ↔
        (interval s).MulKept x v m)) := by
  refine ⟨fun d ρ h => ⟨fun hr hpos => ?_, fun hk => ?_⟩,
    fun s v hv => has_applyMulImm_iff hx hm hv⟩
  · exact Zone.mulCovered_of_represents h.tracks (not_or.1 (Reg.isProgram_iff.1 hx)).1 hm hpos hr
  · exact ((tracks_of_ready h).applyMulImm hx hm hk).represents

end Mul

def large : Zone.Dbm := Zone.Dbm.new.addConstraint .zero .r1 (-2^34)

def powerOfTwo : Valuation
  | .r1 => 17179869184
  | _ => 0

theorem ready_large : Ready (zone large) powerOfTwo := by
  have ht : Zone.Tracks large powerOfTwo :=
    (Zone.tracks_new (by decide)).addConstraint (Zone.asserted_of_le (by decide))
  refine ⟨ht.represents, fun _ => ?_, by decide⟩
  rw [large, Zone.bounds_addConstraint]
  exact show ScalarBounds.unknown.InRange by decide

/-- `2^34 * 2^30` wraps to zero, which the zone excludes; the interval domain
already loses the product of minus one and two. -/
theorem products_lost :
    ((zone large).Represents powerOfTwo ∧ ¬ ((zone large).applyMulImm .r1 (2^30)).Represents
      (update powerOfTwo .r1 (powerOfTwo .r1 * BitVec.ofInt 64 (2^30)))) ∧
    ((Interval.assignImm Interval.IntervalState.new .r1 (-1)).getBounds .r1).Has
      (-1 : BitVec 64).toNat ∧
    ¬ ((Interval.applyMulImm (Interval.assignImm Interval.IntervalState.new .r1 (-1)) .r1
      2).getBounds .r1).Has (-1 * BitVec.ofInt 64 2 : BitVec 64).toNat := by
  refine ⟨⟨ready_large.rep, fun hr => ?_⟩, by decide, by decide⟩
  have hk := Zone.mulCovered_of_represents ready_large.tracks (by decide) (by decide) (by decide) hr
  have hlo := (hk (by decide)).1 (by decide)
  have hv : signed (powerOfTwo .r1 * BitVec.ofInt 64 (2^30)) = 0 := by decide
  have hs : satI64 ((Zone.getInterval large .r1).1 * 2^30) = 2^63 - 1 := by decide
  rw [hv, hs, Zone.GeKept, Zone.posBound_eq] at hlo
  omega

theorem small_product_kept :
    ((zone large).applyMulImm .r1 3).Represents
      (update powerOfTwo .r1 (powerOfTwo .r1 * BitVec.ofInt 64 3)) :=
  ((applyMulImm_sound_iff (by decide) (by decide)).1 large powerOfTwo ready_large).2
    fun _ hover => absurd (show I64 (signed (powerOfTwo .r1) * 3) by decide) hover

end ZoneVerifier.Numeric.NumericDomain

namespace ZoneVerifier.MulTransfer
open Word Ast Concrete RegExec Tristate Machine ShiftTransfer
open Numeric (NumericDomain)

/-- The domain part of `handle_mul`, before a 32-bit result is truncated. -/
def mulDomain (d : NumericDomain) (dst : Reg) : Operand → NumericDomain
  | .imm c => d.applyMulImm dst c
  | .reg _ => d.forget dst

def handleMul (s : State) (w : Width) (dst : Reg) (src : Operand) : State :=
  let d := mulDomain s.domain dst src
  let d := if w = .w32 then d.applyW32Truncation dst else d
  State.setTnum { s with domain := d } dst Tnum.unknown

/-- A register operand has no condition, since the destination is forgotten. -/
def MulKept (s : State) (ρ : Valuation) (dst : Reg) : Operand → Prop
  | .imm c => I64 c ∧ s.domain.MulKept dst (ρ dst) c
  | .reg _ => True

theorem aluResult_mul_w32 (x y : BitVec 64) :
    aluResult .w32 .mul x y = NumericDomain.lowHalf (x * y) := by
  simp only [aluResult, aluWord, NumericDomain.lowHalf,
    BitVec.setWidth_mul _ _ (show 32 ≤ 64 by decide)]

theorem represents_handleMul {s : State} {ρ : Valuation} {dst : Reg} (src : Operand) (w : Width)
    (h : s.Represents ρ) (hr : s.InRange) (hd : dst.isProgram = true) (hk : MulKept s ρ dst src) :
    (handleMul s w dst src).Represents
      (update ρ dst (aluResult w .mul (ρ dst) (operandValue ρ src))) := by
  have ht := NumericDomain.tracks_of_ready (d := s.domain) ⟨h.domain, hr, h.zero⟩
  have h64 : (mulDomain s.domain dst src).Tracks (update ρ dst (ρ dst * operandValue ρ src)) := by
    cases src with
    | imm c => exact ht.applyMulImm hd hk.1 hk.2
    | reg r => exact ht.forget hd
  refine (State.represents_overwrite_iff h hd (Tnum.has_unknown _) _).2 ?_
  cases w with
  | w64 => exact h64.represents
  | w32 =>
    -- the 32-bit product is the low half of the 64-bit one
    have h32 := h64.applyW32Truncation hd
    rw [Function.update_self, Function.update_idem] at h32
    rw [aluResult_mul_w32]
    exact h32.represents

theorem tripled : (handleMul unconstrained .w32 .r1 (.imm 3)).Represents
    (update minusOne .r1 (aluResult .w32 .mul (minusOne .r1) 3)) :=
  represents_handleMul (.imm 3) .w32 (represents_unconstrained rfl) inRange_unconstrained
    rfl ⟨by decide, fun _ hover => absurd (show I64 (signed (minusOne .r1) * 3) by decide) hover⟩

end ZoneVerifier.MulTransfer
