import ZoneVerifier.Outcome

/-!
# Soundness of static branch resolution

The signed ranges behind a verdict contain the word that is compared. The upper
end of the combined range can be below it in one case, `Capped`: a 64-bit
comparison of a negative word whose signed maximum is nonnegative and is used as
an unsigned bound. A verdict disagrees with a comparison of scalars only for
words that the capped range leaves out, and `OutcomeMisleads` says for which
constants it does.
-/

set_option autoImplicit false

namespace ZoneVerifier.Outcome
open Word Ast Tristate Machine Numeric Concrete

section Bounds
variable {s : State} {ρ : Valuation}

theorem widthTnum_has (h : s.Represents ρ) (x : Reg) (w : Width) :
    (widthTnum s x w).Has (widthBits w (ρ x)) := by
  cases w with
  | w64 => exact h.tnum x
  | w32 => exact Tnum.has_trunc32 (h.tnum x)

theorem tnum_range (h : s.Represents ρ) (x : Reg) (w : Width) :
    (widthTnum s x w).minValue.toNat ≤ readU w (ρ x) ∧
      readU w (ρ x) ≤ (widthTnum s x w).maxValue.toNat := by
  have ht := widthTnum_has h x w
  rw [← toNat_widthBits]
  exact ⟨Tnum.minValue_le ht, Tnum.le_maxValue ht⟩

theorem combined_w32_sound (h : s.Represents ρ) (x : Reg) :
    (getCombinedBounds s x .w32).1 ≤ readU .w32 (ρ x) ∧
      readU .w32 (ρ x) ≤ (getCombinedBounds s x .w32).2 := by
  obtain ⟨h1, h2⟩ := tnum_range h x .w32
  obtain ⟨h3, h4⟩ := NumericDomain.getU32Bounds_sound h.domain x
  change _ ≤ lo32 (ρ x).toNat at h1
  change lo32 (ρ x).toNat ≤ _ at h2
  change _ ≤ lo32 (ρ x).toNat ∧ lo32 (ρ x).toNat ≤ _
  unfold getCombinedBounds
  dsimp only
  split_ifs <;> dsimp only <;> omega

/-- The signed maximum of a negative word is used as an unsigned bound. -/
def Capped (s : State) (ρ : Valuation) (x : Reg) : Prop :=
  signedOf ρ x < 0 ∧ 0 ≤ (s.domain.getInterval x).2 ∧ (s.domain.getInterval x).2 ≠ 2^63 - 1 ∧
    max (s.getTnum x).minValue.toNat (s.domain.getU64Bounds x).1 ≤
      (s.domain.getInterval x).2.toNat

instance (s : State) (ρ : Valuation) (x : Reg) : Decidable (Capped s ρ x) :=
  inferInstanceAs (Decidable (_ ∧ _ ∧ _ ∧ _))

theorem combined_w64_bounds (h : s.Represents ρ) (x : Reg) :
    (getCombinedBounds s x .w64).1 ≤ (ρ x).toNat ∧
      (¬ Capped s ρ x → (ρ x).toNat ≤ (getCombinedBounds s x .w64).2) := by
  obtain ⟨h1, h2⟩ := tnum_range h x .w64
  obtain ⟨h3, h4⟩ := NumericDomain.getU64Bounds_sound h.domain x
  obtain ⟨h5, h6⟩ := NumericDomain.getInterval_sound h.domain h.zero x
  change (s.getTnum x).minValue.toNat ≤ (ρ x).toNat at h1
  change (ρ x).toNat ≤ (s.getTnum x).maxValue.toNat at h2
  have h8 : 0 ≤ signedOf ρ x → ((ρ x).toNat : Int) = signedOf ρ x := toNat_of_signed_nonneg
  unfold Capped getCombinedBounds widthTnum
  refine ⟨?_, fun hc => ?_⟩ <;> dsimp only <;> split_ifs <;> dsimp only <;> omega

theorem combined_ordered (h : s.Represents ρ) (x : Reg) (w : Width) :
    (getCombinedBounds s x w).1 ≤ (getCombinedBounds s x w).2 := by
  obtain ⟨h1, h2⟩ := tnum_range h x w
  unfold getCombinedBounds
  dsimp only
  split_ifs <;> dsimp only <;> omega

theorem getInterval_upper_lt (hr : s.InRange) (x : Reg) : (s.domain.getInterval x).2 < 2^63 := by
  obtain ⟨types, domain⟩ := s
  cases domain with
  | zone d =>
    simp only [NumericDomain.getInterval, Zone.getInterval, Zone.inf_eq]
    split_ifs <;> omega
  | interval ivl => exact (hr x).smax.2

theorem combined_of_capped (hr : s.InRange) (h : s.Represents ρ) {x : Reg}
    (hc : Capped s ρ x) :
    getCombinedBounds s x .w64 = (max (s.getTnum x).minValue.toNat (s.domain.getU64Bounds x).1,
      (s.domain.getInterval x).2.toNat) := by
  obtain ⟨hneg, h0, hmax, hle⟩ := hc
  obtain ⟨_, h2⟩ := tnum_range h x .w64
  obtain ⟨_, h4⟩ := NumericDomain.getU64Bounds_sound h.domain x
  obtain ⟨h5, _⟩ := NumericDomain.getInterval_sound h.domain h.zero x
  have hu : ((ρ x).toNat : Int) = signedOf ρ x + 2^64 := toNat_of_signed_neg hneg
  have hv := (signed_range (ρ x)).1
  have hi := getInterval_upper_lt hr x
  change (ρ x).toNat ≤ (s.getTnum x).maxValue.toNat at h2
  change -2^63 ≤ signedOf ρ x at hv
  have hlo : ¬ ((s.domain.getInterval x).1 ≠ -2^63 ∧ 0 ≤ (s.domain.getInterval x).1) := by omega
  have hhi : min (min (s.getTnum x).maxValue.toNat (s.domain.getU64Bounds x).2)
      (s.domain.getInterval x).2.toNat = (s.domain.getInterval x).2.toNat := by omega
  have hcap : (s.domain.getInterval x).2 ≠ 2^63 - 1 ∧ 0 ≤ (s.domain.getInterval x).2 ∧
      ¬ (Width.w64 = Width.w32 ∧ 0xFFFFFFFF < (s.domain.getInterval x).2) := ⟨hmax, h0, by simp⟩
  unfold getCombinedBounds widthTnum
  dsimp only
  rw [if_neg hlo, if_pos hcap, hhi, if_pos hle]

theorem combinedSigned_sound (h : s.Represents ρ) (x : Reg) :
    (getCombinedSignedBounds s x).1 ≤ signedOf ρ x ∧
      signedOf ρ x ≤ (getCombinedSignedBounds s x).2 := by
  obtain ⟨h1, h2⟩ := tnum_range h x .w64
  obtain ⟨h3, h4⟩ := NumericDomain.getInterval_sound h.domain h.zero x
  change (s.getTnum x).minValue.toNat ≤ (ρ x).toNat at h1
  change (ρ x).toNat ≤ (s.getTnum x).maxValue.toNat at h2
  have hlo : 2^63 - 1 < (s.getTnum x).minValue.toNat →
      toI64 (s.getTnum x).minValue.toNat ≤ signedOf ρ x := by
    intro hm
    unfold signedOf signed toI64
    split_ifs <;> omega
  have hhi : (s.getTnum x).maxValue.toNat ≤ 2^63 - 1 →
      signedOf ρ x ≤ toI64 (s.getTnum x).maxValue.toNat := by
    intro hm
    unfold signedOf signed toI64
    split_ifs <;> omega
  unfold getCombinedSignedBounds
  dsimp only
  constructor
  · split_ifs <;> omega
  · split_ifs <;> omega

theorem u64CombinedToS32_sound {lo hi n : Nat} {r : Int × Int} (hl : lo ≤ lo32 n)
    (hh : lo32 n ≤ hi) (hr : u64CombinedToS32 lo hi = some r) :
    r.1 ≤ toI32 n ∧ toI32 n ≤ r.2 := by
  unfold u64CombinedToS32 at hr
  split_ifs at hr with h1 h2
  cases hr
  unfold toI32
  unfold lo32 at hl hh
  constructor <;> split_ifs <;> omega

theorem signedRange_sound (h : s.Represents ρ) (w : Width) (x : Reg) :
    (signedRange s w x).1 ≤ readS w (ρ x) ∧ readS w (ρ x) ≤ (signedRange s w x).2 := by
  cases w with
  | w64 => exact combinedSigned_sound h x
  | w32 =>
    obtain ⟨hl, hh⟩ := combined_w32_sound h x
    simp only [signedRange]
    cases hc : u64CombinedToS32 (getCombinedBounds s x .w32).1 (getCombinedBounds s x .w32).2 with
    | none => exact NumericDomain.getS32Bounds_sound h.domain x
    | some r => exact u64CombinedToS32_sound hl hh hc

theorem combined_le (h : s.Represents ρ) (x : Reg) (w : Width) :
    (getCombinedBounds s x w).1 ≤ readU w (ρ x) := by
  cases w with
  | w64 => exact (combined_w64_bounds h x).1
  | w32 => exact (combined_w32_sound h x).1

end Bounds

end ZoneVerifier.Outcome

namespace ZoneVerifier.Outcome
open Word Ast RegTypes Tristate Machine Numeric Concrete

def Agrees (verdict : Option Bool) (p : Prop) : Prop :=
  ∀ b, verdict = some b → (p ↔ b = true)

theorem agrees_none (p : Prop) : Agrees none p := by
  intro b h
  cases h

theorem agrees_some {b : Bool} {p : Prop} : Agrees (some b) p ↔ (p ↔ b = true) :=
  ⟨fun h => h b rfl, fun h _ hb => by cases hb; exact h⟩

theorem agrees_true {p : Prop} : Agrees (some true) p ↔ p := by
  simp [agrees_some]

theorem agrees_false {p : Prop} : Agrees (some false) p ↔ ¬ p := by
  simp [agrees_some]

theorem agrees_congr {v : Option Bool} {p q : Prop} (h : p ↔ q) : Agrees v p ↔ Agrees v q :=
  forall_congr' fun _ => forall_congr' fun _ => by rw [h]

theorem agrees_map_not {v : Option Bool} {p : Prop} :
    Agrees (v.map (!·)) (¬ p) ↔ Agrees v p := by
  cases v with
  | none => exact iff_of_true (agrees_none _) (agrees_none _)
  | some b => cases b <;> simp [agrees_some]

section Verdicts
variable {s : State} {ρ : Valuation}
variable {b a : BitVec 64} {overlap : Bool} {op : CmpOp} {lo hi : Nat} {w : Width}

theorem immValue_eq (w : Width) (i : Int) : immValue w i = widthBits w (BitVec.ofInt 64 i) := by
  cases w with
  | w64 => rfl
  | w32 =>
    have hlt := lo32_lt (toU64 i)
    apply BitVec.eq_of_toNat_eq
    simp only [immValue, widthBits]
    rw [toNat_and_low, toNat_ofInt, BitVec.toNat_ofNat]
    exact Nat.mod_eq_of_lt (by omega)

theorem signedImm_eq (w : Width) {i : Int} (hi : I64 i) :
    signedImm w i = readS w (BitVec.ofInt 64 i) := by
  cases w with
  | w64 => exact (signed_ofInt hi).symm
  | w32 =>
    simp only [signedImm, readS]
    rw [toNat_ofInt]

/-- A verdict against the range `[lo, hi]` is wrong about the word `u`, which
is at least `lo`. -/
def Misled (op : CmpOp) (lo hi m u : Nat) (overlap : Bool) : Prop :=
  match op with
  | .ult | .uge => hi < m ∧ m ≤ u
  | .ule | .ugt => hi ≤ m ∧ m < u
  | .eq | .ne => (lo = m ∧ hi = m ∧ u ≠ m ∧ overlap = true) ∨ (hi < m ∧ m = u)
  | _ => False

theorem not_misled_of_le {m u : Nat} (h : u ≤ hi) (hl : lo ≤ u) :
    ¬ Misled op lo hi m u overlap := by
  unfold Misled
  split
  · omega
  · omega
  · omega
  · omega
  · rintro (⟨rfl, rfl, hne, _⟩ | ⟨h1, rfl⟩) <;> omega
  · rintro (⟨rfl, rfl, hne, _⟩ | ⟨h1, rfl⟩) <;> omega
  · exact id

def isUnsignedOrder (op : CmpOp) : Prop := op = .ult ∨ op = .uge ∨ op = .ule ∨ op = .ugt

def isSignedOrder (op : CmpOp) : Prop := op = .slt ∨ op = .sge ∨ op = .sle ∨ op = .sgt

theorem unsigned_agrees_iff (hop : isUnsignedOrder op) (hl : lo ≤ readU w a) (ho : lo ≤ hi) :
    Agrees (unsignedOutcome op lo hi (readU w b)) (CmpHolds w op a b) ↔
      ¬ Misled op lo hi (readU w b) (readU w a) overlap := by
  rcases hop with rfl | rfl | rfl | rfl <;>
    simp only [unsignedOutcome, CmpHolds, Misled] <;>
    split_ifs <;>
    simp only [agrees_true, agrees_false, agrees_none, true_iff] <;>
    omega

theorem signed_agrees {lo hi : Int} (hop : isSignedOrder op) (hl : lo ≤ readS w a)
    (hh : readS w a ≤ hi) :
    Agrees (signedOutcome op lo hi (readS w b)) (CmpHolds w op a b) := by
  rcases hop with rfl | rfl | rfl | rfl <;>
    simp only [signedOutcome, CmpHolds] <;>
    split_ifs <;>
    simp only [agrees_true, agrees_false, agrees_none] <;>
    omega

theorem test_agrees {t : Tnum} (ht : t.Has (widthBits w a)) :
    Agrees (testOutcome t (widthBits w b)) (CmpHolds w .test a b) := by
  have hiff : CmpHolds w .test a b ↔ widthBits w a &&& widthBits w b ≠ 0 := by
    simp only [CmpHolds]
    rw [← toNat_widthBits, widthBits_and, ne_eq, ne_eq, not_iff_not]
    exact ⟨fun h => BitVec.eq_of_toNat_eq h, fun h => by rw [h]; rfl⟩
  rw [agrees_congr hiff]
  unfold testOutcome
  split_ifs with h1 h2
  · rw [agrees_true]
    exact fun h0 => h1 (Tnum.value_and_eq_zero ht h0)
  · rw [agrees_false, not_not]
    exact Tnum.and_eq_zero_of_maxValue ht h2
  · exact agrees_none _

theorem tnumOverlapImm_of_eq (h : s.Represents ρ) {x : Reg} {v : BitVec 64}
    (hv : widthBits w (ρ x) = v) : tnumOverlapImm s x w v = true := by
  have ht := widthTnum_has h x w
  rw [hv] at ht
  unfold tnumOverlapImm
  rw [beq_iff_eq, ← ht, BitVec.and_assoc, BitVec.and_self]

theorem tnumOverlapImm_of_readU (h : s.Represents ρ) {x : Reg} (heq : readU w (ρ x) = readU w b) :
    tnumOverlapImm s x w (widthBits w b) = true := by
  apply tnumOverlapImm_of_eq h
  apply BitVec.eq_of_toNat_eq
  rw [toNat_widthBits, toNat_widthBits, heq]

def eqRangeOutcome (lo hi m : Nat) (overlap : Bool) : Option Bool :=
  if overlap = false then some false
  else if lo = hi ∧ lo = m then some true
  else if m < lo ∨ hi < m then some false
  else none

theorem eqRange_agrees_iff {m u : Nat} (hl : lo ≤ u) (hover : u = m → overlap = true) :
    Agrees (eqRangeOutcome lo hi m overlap) (u = m) ↔ ¬ Misled .eq lo hi m u overlap := by
  simp only [eqRangeOutcome, Misled]
  split_ifs with h1 h2 h3
  · have hne : u ≠ m := fun heq => by simp [hover heq] at h1
    simp only [agrees_false, h1, hne, Ne.symm hne]
    simp
  · obtain ⟨rfl, rfl⟩ := h2
    simp only [agrees_true, Bool.not_eq_false] at *
    simp only [h1, eq_self, and_true, true_and]
    omega
  · simp only [agrees_false]
    omega
  · simp only [agrees_none, true_iff]
    omega

theorem eqOutcome_w64 (x : Reg) (v : BitVec 64) :
    eqOutcome s .w64 x v = eqRangeOutcome (getCombinedBounds s x .w64).1
      (getCombinedBounds s x .w64).2 v.toNat (tnumOverlapImm s x .w64 v) := by
  simp [eqOutcome, eqRangeOutcome]

theorem eqOutcome_w32 (x : Reg) (v : BitVec 64) :
    eqOutcome s .w32 x v =
      if toI32 v.toNat < (s.domain.getS32Bounds x).1 ∨ (s.domain.getS32Bounds x).2 < toI32 v.toNat
      then some false
      else eqRangeOutcome (getCombinedBounds s x .w32).1
        (getCombinedBounds s x .w32).2 v.toNat (tnumOverlapImm s x .w32 v) := by
  simp [eqOutcome, eqRangeOutcome]

theorem eq_agrees_w32 (h : s.Represents ρ) (x : Reg) (b : BitVec 64) :
    Agrees (eqOutcome s .w32 x (widthBits .w32 b)) (CmpHolds .w32 .eq (ρ x) b) := by
  obtain ⟨hl, hh⟩ := combined_w32_sound h x
  obtain ⟨h1, h2⟩ := NumericDomain.getS32Bounds_sound h.domain x
  rw [eqOutcome_w32, toNat_widthBits]
  split_ifs with hout
  · rw [agrees_false]
    intro heq
    simp only [CmpHolds, readU] at heq hout
    have hs : toI32 (ρ x).toNat = toI32 (lo32 b.toNat) := by
      rw [← heq]
      exact (readS_widthBits .w32 (ρ x)).symm.trans (by rw [readS, toNat_widthBits]; rfl)
    omega
  · exact (eqRange_agrees_iff hl (tnumOverlapImm_of_readU h)).2 (not_misled_of_le hh hl)

/-- The constants for which the capped range gives a wrong 64-bit verdict on
the register `x`. -/
def CapMisleads (s : State) (ρ : Valuation) (x : Reg) (op : CmpOp) (m : BitVec 64) : Prop :=
  Capped s ρ x ∧
    Misled op (max (s.getTnum x).minValue.toNat (s.domain.getU64Bounds x).1)
      (s.domain.getInterval x).2.toNat m.toNat (ρ x).toNat (tnumOverlapImm s x .w64 m)

theorem capMisleads_iff (hr : s.InRange) (h : s.Represents ρ) (x : Reg) (op : CmpOp)
    (m : BitVec 64) :
    Misled op (getCombinedBounds s x .w64).1 (getCombinedBounds s x .w64).2 m.toNat (ρ x).toNat
      (tnumOverlapImm s x .w64 m) ↔ CapMisleads s ρ x op m := by
  by_cases hc : Capped s ρ x
  · rw [combined_of_capped hr h hc]
    exact ⟨fun hm => ⟨hc, hm⟩, fun hm => hm.2⟩
  · exact iff_of_false (not_misled_of_le ((combined_w64_bounds h x).2 hc)
      (combined_w64_bounds h x).1)
      fun hm => hc hm.1

theorem eq_agrees_iff (h : s.Represents ρ) (x : Reg) (w : Width) (b : BitVec 64) :
    Agrees (eqOutcome s w x (widthBits w b)) (CmpHolds w .eq (ρ x) b) ↔
      ¬ Misled .eq (getCombinedBounds s x w).1 (getCombinedBounds s x w).2 (readU w b)
        (readU w (ρ x)) (tnumOverlapImm s x w (widthBits w b)) := by
  cases w with
  | w64 =>
    rw [eqOutcome_w64, toNat_widthBits]
    exact eqRange_agrees_iff (combined_le h x .w64) (tnumOverlapImm_of_readU h)
  | w32 =>
    obtain ⟨hl, hh⟩ := combined_w32_sound h x
    exact iff_of_true (eq_agrees_w32 h x b) (not_misled_of_le hh hl)

theorem scalarOutcomeImm_agrees_iff (h : s.Represents ρ) (w : Width) (x : Reg) (op : CmpOp)
    {i : Int} (hi : I64 i) :
    Agrees (scalarOutcomeImm s w x op i) (CmpHolds w op (ρ x) (BitVec.ofInt 64 i)) ↔
      ¬ Misled op (getCombinedBounds s x w).1 (getCombinedBounds s x w).2
        (readU w (BitVec.ofInt 64 i)) (readU w (ρ x)) (tnumOverlapImm s x w (immValue w i)) := by
  have hl := combined_le h x w
  have hs : isSignedOrder op → Agrees (signedOutcome op (signedRange s w x).1
      (signedRange s w x).2 (signedImm w i)) (CmpHolds w op (ρ x) (BitVec.ofInt 64 i)) := by
    intro hop
    rw [signedImm_eq _ hi]
    exact signed_agrees hop (signedRange_sound h w x).1 (signedRange_sound h w x).2
  rw [immValue_eq]
  cases op with
  | uge | ule | ugt | ult =>
    simp only [scalarOutcomeImm]
    rw [immValue_eq, toNat_widthBits]
    exact unsigned_agrees_iff (by simp [isUnsignedOrder]) hl (combined_ordered h x w)
  | slt | sle | sgt | sge => exact iff_of_true (hs (by simp [isSignedOrder])) id
  | eq =>
    simp only [scalarOutcomeImm]
    rw [immValue_eq]
    exact eq_agrees_iff h x w _
  | ne =>
    simp only [scalarOutcomeImm]
    rw [immValue_eq]
    exact agrees_map_not.trans (eq_agrees_iff h x w _)
  | test =>
    simp only [scalarOutcomeImm]
    rw [immValue_eq]
    exact iff_of_true (test_agrees (widthTnum_has h x w)) id

end Verdicts

section Resolution
variable {s : State} {ρ : Valuation} {op : CmpOp} {r left : Reg} {w : Width}

theorem knownConst_sound (h : s.Represents ρ) {v : Int} (hk : knownConst s w r = some v) :
    I64 v ∧ widthBits w (ρ r) = widthBits w (BitVec.ofInt 64 v) := by
  unfold knownConst at hk
  split at hk
  · next t ht =>
    cases hk
    simp only [Tnum.constValue] at ht
    split_ifs at ht with hc
    cases ht
    have hv := Tnum.eq_value_of_isConst hc (widthTnum_has h r w)
    refine ⟨toI64_range (BitVec.isLt _), ?_⟩
    rw [← hv]
    exact (congrArg (widthBits w) (ofInt_signed _)).trans (widthBits_idem w _) |>.symm
  · next ht =>
    obtain ⟨h1, h2⟩ := NumericDomain.getInterval_sound h.domain h.zero r
    dsimp only at hk
    split_ifs at hk with hc
    cases hk
    have hv : signedOf ρ r = (s.domain.getInterval r).1 := by omega
    rw [← hv]
    exact ⟨signed_range _, by rw [signedOf, ofInt_signed]⟩

theorem cmpHolds_flip (w : Width) (op : CmpOp) (a b : BitVec 64) :
    CmpHolds w (flipCmpOp op) b a ↔ CmpHolds w op a b := by
  cases op <;> simp only [flipCmpOp, CmpHolds, BitVec.and_comm, eq_comm, ne_eq]

theorem knownConst_w64 (h : s.Represents ρ) {v : Int} (hk : knownConst s .w64 r = some v) :
    BitVec.ofInt 64 v = ρ r :=
  (knownConst_sound h hk).2.symm

theorem not_capped_of_knownConst (hr : s.InRange) (h : s.Represents ρ)
    (hk : (knownConst s .w64 r).isSome = true) : ¬ Capped s ρ r := by
  rintro ⟨hneg, h0, hmax, hle⟩
  have hu : ((ρ r).toNat : Int) = signedOf ρ r + 2^64 := toNat_of_signed_neg hneg
  have hv := (signed_range (ρ r)).1
  change -2^63 ≤ signedOf ρ r at hv
  obtain ⟨v, hv'⟩ := Option.isSome_iff_exists.1 hk
  unfold knownConst at hv'
  split at hv'
  · next t ht =>
    simp only [Tnum.constValue] at ht
    split_ifs at ht with hc
    have hval := Tnum.eq_value_of_isConst hc (widthTnum_has h r .w64)
    have hmin : (s.getTnum r).minValue = ρ r := hval.symm
    rw [hmin] at hle
    have hi := getInterval_upper_lt hr r
    omega
  · next ht =>
    obtain ⟨h1, h2⟩ := NumericDomain.getInterval_sound h.domain h.zero r
    dsimp only at hv'
    split_ifs at hv' with hc
    omega

theorem conditionOutcomeImm_scalar {x : Reg} {i : Int} (hx : (s.types.get x).isScalar = true) :
    conditionOutcomeImm s w x op i = scalarOutcomeImm s w x op i := by
  have hn : (s.types.get x).isNullChecked = false := by
    cases hty : s.types.get x <;> simp_all [RegType.isScalar, RegType.isNullChecked]
  simp [conditionOutcomeImm, hn, RegType.isPointer, hx]

theorem pktPtrBranchTaken_scalar {right : Reg} (hx : (s.types.get left).isScalar = true) :
    pktPtrBranchTaken s left op right = none := by
  have h1 : s.types.get left ≠ .ptrToPacket := fun h => by simp [h, RegType.isScalar] at hx
  have h2 : s.types.get left ≠ .ptrToPacketEnd := fun h => by simp [h, RegType.isScalar] at hx
  simp [pktPtrBranchTaken, h1, h2]

/-- The operand is a scalar register or an immediate of the machine type. -/
def ScalarOperand (s : State) : Operand → Prop
  | .reg r => (s.types.get r).isScalar = true
  | .imm i => I64 i

/-- A 64-bit comparison is decided against a range that a negative word is
outside of. -/
def OutcomeMisleads (s : State) (ρ : Valuation) (left : Reg) (op : CmpOp) : Operand → Prop
  | .imm i => CapMisleads s ρ left op (BitVec.ofInt 64 i)
  | .reg r =>
    ((knownConst s .w64 r).isSome = true ∧ CapMisleads s ρ left op (ρ r)) ∨
      ((knownConst s .w64 left).isSome = true ∧ CapMisleads s ρ r (flipCmpOp op) (ρ left))

theorem conditionOutcomeImm_agrees_iff (hr : s.InRange) (h : s.Represents ρ) {x : Reg}
    (hx : (s.types.get x).isScalar = true) (w : Width) (op : CmpOp) {i : Int} (hi : I64 i) :
    Agrees (conditionOutcomeImm s w x op i) (CmpHolds w op (ρ x) (BitVec.ofInt 64 i)) ↔
      ¬ (w = .w64 ∧ CapMisleads s ρ x op (BitVec.ofInt 64 i)) := by
  rw [conditionOutcomeImm_scalar hx, scalarOutcomeImm_agrees_iff h w x op hi]
  cases w with
  | w64 =>
    rw [immValue_eq]
    exact not_congr ((capMisleads_iff hr h x op _).trans (by simp))
  | w32 =>
    obtain ⟨hl, hh⟩ := combined_w32_sound h x
    exact iff_of_true (not_misled_of_le hh hl) (by simp)

theorem conditionOutcome_reg (hl : (s.types.get left).isScalar = true) :
    conditionOutcome s w left op (.reg r) =
      match resolveConst s w left op r with
      | some (x, op', v) => conditionOutcomeImm s w x op' v
      | none => none := by
  have hp : (s.types.get left).isPointer = false := by simp [RegType.isPointer, hl]
  unfold conditionOutcome
  dsimp only
  rcases resolveConst s w left op r with _ | ⟨x, op', v⟩ <;>
    simp [pktPtrBranchTaken_scalar hl, hp]

theorem conditionOutcome_reg_agrees_iff (hr : s.InRange) (h : s.Represents ρ)
    (hl : (s.types.get left).isScalar = true) (hrt : (s.types.get r).isScalar = true) (w : Width)
    (op : CmpOp) :
    Agrees (conditionOutcome s w left op (.reg r)) (CmpHolds w op (ρ left) (ρ r)) ↔
      ¬ (w = .w64 ∧ OutcomeMisleads s ρ left op (.reg r)) := by
  rw [conditionOutcome_reg hl]
  unfold resolveConst
  cases hkr : knownConst s w r with
  | some v =>
    obtain ⟨hv, heq⟩ := knownConst_sound h hkr
    rw [agrees_congr (cmpHolds_congr rfl heq op)]
    refine (conditionOutcomeImm_agrees_iff hr h hl w op hv).trans (not_congr ?_)
    refine and_congr_right ?_
    rintro rfl
    have hc : ¬ Capped s ρ r := not_capped_of_knownConst hr h (by simp [hkr])
    rw [knownConst_w64 h hkr]
    constructor
    · intro hm
      exact Or.inl ⟨by simp [hkr], hm⟩
    · rintro (⟨_, hm⟩ | ⟨_, hm⟩)
      · exact hm
      · exact absurd hm.1 hc
  | none =>
    cases hkl : knownConst s w left with
    | none =>
      refine iff_of_true (agrees_none _) ?_
      rintro ⟨rfl, ⟨hk, _⟩ | ⟨hk, _⟩⟩
      · simp [hkr] at hk
      · simp [hkl] at hk
    | some v =>
      obtain ⟨hv, heq⟩ := knownConst_sound h hkl
      rw [← agrees_congr (cmpHolds_flip w op _ _), agrees_congr (cmpHolds_congr rfl heq _)]
      refine (conditionOutcomeImm_agrees_iff hr h hrt w (flipCmpOp op) hv).trans (not_congr ?_)
      refine and_congr_right ?_
      rintro rfl
      rw [knownConst_w64 h hkl]
      constructor
      · intro hm
        exact Or.inr ⟨by simp [hkl], hm⟩
      · rintro (⟨hk, _⟩ | ⟨_, hm⟩)
        · simp [hkr] at hk
        · exact hm

/-- A verdict on a comparison of scalars is wrong exactly for the words that
the signed maximum cuts off. -/
theorem conditionOutcome_agrees_iff (s : State) (ρ : Valuation) (w : Width) (left : Reg)
    (op : CmpOp) (right : Operand) (hr : s.InRange) (h : s.Represents ρ)
    (hl : (s.types.get left).isScalar = true) (hop : ScalarOperand s right) :
    Agrees (conditionOutcome s w left op right)
        (CmpHolds w op (ρ left) (operandValue ρ right)) ↔
      ¬ (w = .w64 ∧ OutcomeMisleads s ρ left op right) := by
  cases right with
  | imm i => exact conditionOutcomeImm_agrees_iff hr h hl w op hop
  | reg r => exact conditionOutcome_reg_agrees_iff hr h hl hop w op

end Resolution

section Straddling
open ZoneVerifier.Interval (IntervalState assignInterval applyAddImm)

/-- The state after `r1` has been bounded to `[0, 15]` and `r1 += -5`. -/
def straddling : State :=
  State.new (.interval (applyAddImm (assignInterval IntervalState.new .r1 0 15) .r1 (-5))) 0

theorem straddling_inRange : straddling.InRange := by
  intro r
  cases r <;> decide

theorem straddling_represents : straddling.Represents minusOne :=
  .of_unlinked rfl (by decide) (by decide) (by decide)

/-- `if r1 < 100` is taken to hold always, and `r1 = -1` does not satisfy it. -/
theorem conditionOutcome_drops_minusOne :
    straddling.InRange ∧ straddling.Represents minusOne ∧
      conditionOutcome straddling .w64 .r1 .ult (.imm 100) = some true ∧
      ¬ CmpHolds .w64 .ult (minusOne .r1) (operandValue minusOne (.imm 100)) :=
  ⟨straddling_inRange, straddling_represents, by decide, by decide⟩

theorem conditionOutcome_agrees_straddling :
    Agrees (conditionOutcome straddling .w64 .r1 .sle (.imm 100))
        (CmpHolds .w64 .sle (minusOne .r1) (operandValue minusOne (.imm 100))) ↔
      ¬ (Width.w64 = .w64 ∧ OutcomeMisleads straddling minusOne .r1 .sle (.imm 100)) :=
  conditionOutcome_agrees_iff straddling minusOne .w64 .r1 .sle (.imm 100) straddling_inRange
    straddling_represents rfl (show I64 100 by decide)

end Straddling
end ZoneVerifier.Outcome
