import ZoneVerifier.BranchFallback

/-!
# When a branch keeps the valuation

`SideKept` says, for a comparison that holds, which represented valuations the
refinement of the numeric domain keeps; the fallbacks and the bit test keep all.
So the two states after a comparison together represent every valuation of the
state before it, except where a comparison taken up directly by the domain
excludes it. `RefinementKeeps` is that condition, read off the state before the
branch.
-/

set_option autoImplicit false

namespace ZoneVerifier.Constraints
open Word Ast Machine Numeric Concrete Outcome
open ZoneVerifier.Interval (IntervalState)

/-- The condition on the state before the branch under which the refinement by
`left op right` keeps the valuation. -/
def SideKept (d : NumericDomain) (ρ : Valuation) (left : Reg) (op : CmpOp) (right : Operand) :
    Prop :=
  match op, right with
  | .uge, .imm _ => 0 ≤ signedOf ρ left
  | .ugt, .imm c => 0 ≤ signedOf ρ left ∨ c = 2^63 - 1
  | .slt, .imm c => capKept d ρ left (c - 1)
  | .sle, .imm c => capKept d ρ left c
  | .ne, .imm c => neKept d ρ left c
  | .uge, .reg r => leKept d ρ r left
  | .sge, .reg r => leKept d ρ r left
  | .ugt, .reg r => gtKept d ρ left r
  | .sgt, .reg r => gtKept d ρ left r
  | .ule, .reg r => leKept d ρ left r ∧ 0 ≤ signedOf ρ left
  | .sle, .reg r => leKept d ρ left r
  | .ult, .reg r => ltKept d ρ left r ∧ 0 ≤ signedOf ρ left
  | .slt, .reg r => ltKept d ρ left r
  | .eq, .reg r => eqKept d ρ left r
  | _, _ => True

variable {op : CmpOp}

section Side
variable {d : NumericDomain} {ρ : Valuation} {left : Reg} {c : Int}

theorem cmp_imm_signed (hc : I64 c)
    (h : CmpHolds .w64 op (ρ left) (BitVec.ofInt 64 c)) :
    match op with
    | .slt => signedOf ρ left < c
    | .sle => signedOf ρ left ≤ c
    | .sgt => c < signedOf ρ left
    | .sge => c ≤ signedOf ρ left
    | .eq => signedOf ρ left = c
    | .ne => signedOf ρ left ≠ c
    | _ => True := by
  have hs : readS .w64 (BitVec.ofInt 64 c) = c := signed_ofInt hc
  cases op with
  | slt | sle | sgt | sge =>
    simp only [CmpHolds, hs] at h
    exact h
  | eq =>
    have heq : ρ left = BitVec.ofInt 64 c := BitVec.eq_of_toNat_eq h
    show signedOf ρ left = c
    rw [signedOf, heq]
    exact signed_ofInt hc
  | ne =>
    intro heq
    apply h
    show (ρ left).toNat = (BitVec.ofInt 64 c).toNat
    rw [← heq, signedOf, ofInt_signed]
  | uge | ule | ugt | ult | test => trivial

theorem cmp_imm_unsigned (hc : I64 c) (h0 : 0 ≤ c)
    (h : CmpHolds .w64 op (ρ left) (BitVec.ofInt 64 c)) :
    match op with
    | .ult => 0 ≤ signedOf ρ left ∧ signedOf ρ left < c
    | .ule => 0 ≤ signedOf ρ left ∧ signedOf ρ left ≤ c
    | .ugt => 0 ≤ signedOf ρ left → c < signedOf ρ left
    | .uge => 0 ≤ signedOf ρ left → c ≤ signedOf ρ left
    | _ => True := by
  have hu : ((readU .w64 (BitVec.ofInt 64 c) : Nat) : Int) = c := by
    show (((BitVec.ofInt 64 c).toNat : Nat) : Int) = c
    rw [toNat_ofInt]
    unfold toU64 I64 at *
    omega
  have hpos : 0 ≤ signedOf ρ left → (((ρ left).toNat : Nat) : Int) = signedOf ρ left :=
    toNat_of_signed_nonneg
  have hneg : signedOf ρ left < 0 → (((ρ left).toNat : Nat) : Int) = signedOf ρ left + 2^64 :=
    toNat_of_signed_neg
  have hmin := (signed_range (ρ left)).1
  change -2^63 ≤ signedOf ρ left at hmin
  unfold I64 at hc
  cases op with
  | ult | ule | ugt | uge =>
    simp only [CmpHolds] at h ⊢
    simp only [readU] at h hu
    omega
  | eq | ne | slt | sle | sgt | sge | test => trivial

theorem wrapI64_succ (hc : I64 c) : wrapI64 (c + 1) = if c = 2^63 - 1 then -2^63 else c + 1 := by
  unfold wrapI64 toI64 toU64
  unfold I64 at hc
  split_ifs <;> omega

theorem refineSide_imm_iff (h : Ready d ρ) (hl : left.isProgram = true) (hc : I64 c)
    (hu : isUnsigned op = true → 0 ≤ c) (hcmp : CmpHolds .w64 op (ρ left) (BitVec.ofInt 64 c)) :
    (refineSide d left op (.imm c)).Represents ρ ↔ SideKept d ρ left op (.imm c) := by
  have hsig := cmp_imm_signed hc hcmp
  have hwrap := wrapI64_succ hc
  cases op with
  | uge =>
    have hun := cmp_imm_unsigned hc (hu rfl) hcmp
    exact (represents_assumeGeLinked_iff h hc hl).trans (geImmKept_iff_nonneg (hu rfl) hun)
  | ugt =>
    have h0 := hu rfl
    have hun := cmp_imm_unsigned hc h0 hcmp
    refine (represents_assumeGeLinked_iff h (wrapI64_range _) hl).trans ?_
    rw [hwrap]
    by_cases hmax : c = 2^63 - 1
    · rw [if_pos hmax]
      have hmin := (signed_range (ρ left)).1
      exact iff_of_true (geImmKept_of_le hmin) (Or.inr hmax)
    · rw [if_neg hmax, geImmKept_iff_nonneg (by omega) fun hv => by have := hun hv; omega]
      exact ⟨Or.inl, fun hv => hv.resolve_right hmax⟩
  | ult =>
    obtain ⟨h1, h2⟩ := cmp_imm_unsigned hc (hu rfl) hcmp
    have hpos : 0 < c := by omega
    show (if 0 < c then _ else _ : NumericDomain).Represents ρ ↔ True
    rw [if_pos hpos]
    exact iff_of_true (represents_assumeLt_nonneg h hc hl h2 h1) trivial
  | ule =>
    obtain ⟨h1, h2⟩ := cmp_imm_unsigned hc (hu rfl) hcmp
    exact iff_of_true (represents_assumeLe_nonneg h hc hl h2 h1) trivial
  | sge => exact iff_of_true ((represents_assumeGeLinked_iff h hc hl).2 (geImmKept_of_le hsig)) trivial
  | sgt =>
    have hlt := (signed_range (ρ left)).2
    change signedOf ρ left < 2^63 at hlt
    change c < signedOf ρ left at hsig
    refine iff_of_true ((represents_assumeGeLinked_iff h (wrapI64_range _) hl).2 ?_) trivial
    rw [hwrap, if_neg (by omega)]
    exact geImmKept_of_le hsig
  | slt => exact represents_assumeLtLinked_iff h hc hl hsig
  | sle => exact represents_assumeLeLinked_iff h hc hl hsig
  | eq => exact iff_of_true (represents_assumeEqLinked h hl hsig) trivial
  | ne =>
    refine represents_refineNeImm_iff h hl hc hsig fun heq => hcmp ?_
    show (ρ left).toNat = (BitVec.ofInt 64 c).toNat
    rw [heq, toNat_ofInt]
  | test => exact iff_of_true h.rep trivial

theorem refineSide_reg_iff (h : Ready d ρ) (hl : left.isProgram = true) {r : Reg}
    (hcmp : op ≠ .eq → op ≠ .ne → CmpHolds .w64 op (ρ left) (ρ r)) :
    (refineSide d left op (.reg r)).Represents ρ ↔ SideKept d ρ left op (.reg r) := by
  have hne : (op = .ugt ∨ op = .sgt) → r ≠ left := by
    rintro (rfl | rfl) rfl
    · exact Nat.lt_irrefl _ (hcmp (by decide) (by decide))
    · exact Int.lt_irrefl _ (hcmp (by decide) (by decide))
  cases op with
  | uge | sge =>
    have heq : d.assumeGe left r = d.assumeLe r left := by cases d <;> rfl
    rw [refineSide, heq]
    exact represents_assumeLe_iff h r left
  | ugt => exact represents_assumeGt_iff h (hne (Or.inl rfl))
  | sgt => exact represents_assumeGt_iff h (hne (Or.inr rfl))
  | ule => exact represents_assumeLe_geZero_iff h hl r
  | sle => exact represents_assumeLe_iff h left r
  | ult => exact represents_assumeLt_geZero_iff h hl r
  | slt => exact represents_assumeLeOffset_iff h left r
  | eq => exact represents_intersectEqReg_iff h hl r
  | ne | test => exact iff_of_true h.rep trivial

end Side

variable {bounds b : Int × Int}

section Resolve
variable {s : State} {ρ : Valuation} {left : Reg} {w : Width} {op : CmpOp} {right : Operand}

theorem truncateImm_range (w : Width) (op : CmpOp) {val : Int} (h : I64 val) :
    I64 (truncateImm w op val) := by
  cases w with
  | w64 => exact h
  | w32 =>
    have h1 := toI32_range (toU64 val)
    have h2 := lo32_lt (toU64 val)
    simp only [truncateImm]
    unfold I32 at h1
    split_ifs <;> unfold I64 <;> omega

theorem widthBits_truncateImm (w : Width) (op : CmpOp) (val : Int) :
    widthBits w (BitVec.ofInt 64 (truncateImm w op val)) = widthBits w (BitVec.ofInt 64 val) := by
  cases w with
  | w64 => rfl
  | w32 =>
    apply BitVec.eq_of_toNat_eq
    rw [toNat_widthBits, toNat_widthBits]
    simp only [readU]
    rw [toNat_ofInt, toNat_ofInt]
    simp only [truncateImm]
    unfold toI32 lo32 toU64
    split_ifs <;> omega

theorem resolve_sound (op : CmpOp) (h : s.Represents ρ) (hop : ValidOperand right) :
    ValidOperand (resolveRightOperand s.domain right w op).1 ∧
      widthBits w (operandValue ρ (resolveRightOperand s.domain right w op).1) =
        widthBits w (operandValue ρ right) := by
  unfold resolveRightOperand
  cases right with
  | imm i => exact ⟨truncateImm_range w op hop, widthBits_truncateImm w op i⟩
  | reg r =>
    dsimp only
    cases hf : s.domain.getFixedValue r with
    | none => exact ⟨hop, rfl⟩
    | some k =>
      have hk := NumericDomain.getFixedValue_sound h.domain h.zero hf
      have hrange : I64 k := hk ▸ signed_range (ρ r)
      refine ⟨truncateImm_range w op hrange, (widthBits_truncateImm w op k).trans ?_⟩
      rw [← hk, signedOf, ofInt_signed]
      rfl

theorem resolve_bounds (op : CmpOp) (h : s.Represents ρ) (hop : ValidOperand right) :
    (resolveRightOperand s.domain right w op).2.1 ≤
        signed (operandValue ρ (resolveRightOperand s.domain right w op).1) ∧
      signed (operandValue ρ (resolveRightOperand s.domain right w op).1) ≤
        (resolveRightOperand s.domain right w op).2.2 := by
  have himm : ∀ k, I64 k → k ≤ signed (BitVec.ofInt 64 k) ∧ signed (BitVec.ofInt 64 k) ≤ k := by
    intro k hk
    rw [signed_ofInt hk]
    exact ⟨Int.le_refl k, Int.le_refl k⟩
  unfold resolveRightOperand
  cases right with
  | imm i => exact himm _ (truncateImm_range w op hop)
  | reg r =>
    dsimp only
    cases hf : s.domain.getFixedValue r with
    | none => exact NumericDomain.getInterval_sound h.domain h.zero r
    | some k =>
      have hk := NumericDomain.getFixedValue_sound h.domain h.zero hf
      have hrange : I64 k := hk ▸ signed_range (ρ r)
      exact himm _ (truncateImm_range w op hrange)

theorem canApply_order
    (hcan : canApplyDbmConstraint s left op w bounds right = true) :
    (isSigned op = true → w = .w32 →
      fitsInI32 (getCombinedSignedBounds s left) = true ∧ fitsInI32 bounds = true) ∧
    (isUnsigned op = true → w = .w32 →
      fitsInU32 (getCombinedSignedBounds s left) = true ∧ fitsInU32 bounds = true) ∧
    (isUnsigned op = true → w = .w64 → isImm right = true → 0 ≤ bounds.1) ∧
    ((op = .eq ∨ op = .ne) → isImm right = true → w = .w64) := by
  have hex : isSigned op = true → isUnsigned op = false := by cases op <;> decide
  have heq : (op = .eq ∨ op = .ne) → isSigned op = false ∧ isUnsigned op = false := by
    rintro (rfl | rfl) <;> decide
  unfold canApplyDbmConstraint at hcan
  split_ifs at hcan with h1 h2 h3 h4 h5
  · refine ⟨fun _ _ => by simpa using hcan, fun hu => ?_, fun hu => ?_, fun he => ?_⟩
    · simp [hex h3.2] at hu
    · simp [hex h3.2] at hu
    · simp [heq he] at h3
  · refine ⟨fun hs => ?_, fun _ _ => by simpa using hcan, fun _ hw => ?_, fun he => ?_⟩
    · simp [hex hs] at h4
    · simp [hw] at h4
    · simp [heq he] at h4
  · refine ⟨fun hs => ?_, fun _ hw => absurd ⟨hw, h5⟩ h4, fun _ _ hi => ?_, fun he => ?_⟩
    · simp [hex hs] at h5
    · cases right with
      | reg r => cases hi
      | imm i =>
        simp only [Bool.or_false, Bool.and_eq_true, decide_eq_true_eq] at hcan
        exact hcan.2
    · simp [heq he] at h5
  · refine ⟨fun hs hw => absurd ⟨hw, hs⟩ h3, fun hu => absurd hu h5, fun hu => absurd hu h5,
      fun he hi => ?_⟩
    cases w with
    | w64 => rfl
    | w32 => exact absurd ⟨rfl, he, hi⟩ h2

theorem readS_of_fits {a : BitVec 64} (hf : fitsInI32 b = true)
    (h1 : b.1 ≤ signed a) (h2 : signed a ≤ b.2) : readS .w32 a = readS .w64 a := by
  have hf := of_decide_eq_true hf
  exact toI32_of_signed ⟨by omega, by omega⟩

theorem readU_of_fits {a : BitVec 64} (hf : fitsInU32 b = true)
    (h1 : b.1 ≤ signed a) (h2 : signed a ≤ b.2) : readU .w32 a = readU .w64 a := by
  have hf := of_decide_eq_true hf
  have h32 := lo32_of_signed (v := a) (by omega) (by omega)
  have h64 := toNat_of_signed_nonneg (v := a) (by omega)
  simp only [readU]
  omega

theorem cmp64_of_canApply {a b : BitVec 64} (h : s.Represents ρ)
    (ha : a = ρ left) (h1 : bounds.1 ≤ signed b) (h2 : signed b ≤ bounds.2)
    (hcan : canApplyDbmConstraint s left op w bounds right = true)
    (hord : isSigned op = true ∨ isUnsigned op = true) (hcmp : CmpHolds w op a b) :
    CmpHolds .w64 op a b := by
  obtain ⟨hs, hu, _, _⟩ := canApply_order hcan
  obtain ⟨hl1, hl2⟩ := combinedSigned_sound h left
  cases w with
  | w64 => exact hcmp
  | w32 =>
    subst ha
    rcases hord with ho | ho
    · obtain ⟨f1, f2⟩ := hs ho rfl
      have e1 := readS_of_fits f1 hl1 hl2
      have e2 := readS_of_fits f2 h1 h2
      cases op <;> first | (simp only [CmpHolds, e1, e2] at hcmp ⊢; exact hcmp) | cases ho
    · obtain ⟨f1, f2⟩ := hu ho rfl
      have e1 := readU_of_fits f1 hl1 hl2
      have e2 := readU_of_fits f2 h1 h2
      cases op <;> first | (simp only [CmpHolds, e1, e2] at hcmp ⊢; exact hcmp) | cases ho

theorem refineSide_resolved_iff (hr : s.InRange) (h : s.Represents ρ)
    (hl : left.isProgram = true) (hop : ValidOperand right) (hcmp : op ≠ .test)
    (hholds : CmpHolds w op (ρ left) (operandValue ρ right))
    (hcan : canApplyDbmConstraint s left op w (resolveRightOperand s.domain right w op).2
      (resolveRightOperand s.domain right w op).1 = true) :
    (refineSide s.domain left op (resolveRightOperand s.domain right w op).1).Represents ρ ↔
      SideKept s.domain ρ left op (resolveRightOperand s.domain right w op).1 := by
  have hready : Ready s.domain ρ := ⟨h.domain, hr, h.zero⟩
  obtain ⟨hvalid, hbits⟩ := resolve_sound (w := w) op h hop
  obtain ⟨h1, h2⟩ := resolve_bounds (w := w) op h hop
  obtain ⟨_, hfit, hnonneg, hw⟩ := canApply_order hcan
  have hres := (cmpHolds_congr rfl hbits.symm op).1 hholds
  have hord := cmp64_of_canApply h rfl h1 h2 hcan
  have hkind : isSigned op = true ∨ isUnsigned op = true ∨ op = .eq ∨ op = .ne := by
    cases op <;> simp_all [isSigned, isUnsigned]
  cases hright : (resolveRightOperand s.domain right w op).1 with
  | imm c =>
    rw [hright] at hvalid hres hord hnonneg hw h1
    have hlow : (resolveRightOperand s.domain right w op).2.1 ≤ c := by
      have := signed_ofInt (i := c) hvalid
      change _ ≤ signed (BitVec.ofInt 64 c) at h1
      omega
    refine refineSide_imm_iff hready hl hvalid ?_ ?_
    · intro ho
      cases w with
      | w64 => exact Int.le_trans (hnonneg ho rfl rfl) hlow
      | w32 =>
        have hf := (hfit ho rfl).2
        have := of_decide_eq_true hf
        omega
    · rcases hkind with ho | ho | ho
      · exact hord (Or.inl ho) hres
      · exact hord (Or.inr ho) hres
      · rw [hw ho rfl] at hres
        exact hres
  | reg r =>
    rw [hright] at hres hord
    refine refineSide_reg_iff hready hl fun hne hne' => ?_
    rcases hkind with ho | ho | ho | ho
    · exact hord (Or.inl ho) hres
    · exact hord (Or.inr ho) hres
    · exact absurd ho hne
    · exact absurd ho hne'

end Resolve
end ZoneVerifier.Constraints

namespace ZoneVerifier.Constraints
open Word Ast Tristate Machine Concrete Outcome
open ZoneVerifier.Interval (IntervalState)

section Side
variable {s : State} {ρ : Valuation} {left : Reg} {w : Width} {op : CmpOp} {right : Operand}

/-- The comparison is refined directly, and the refinement keeps the valuation. -/
def DirectKept (s : State) (ρ : Valuation) (left : Reg) (op : CmpOp) (w : Width)
    (right : Operand) : Prop :=
  ¬ (isImm right = true ∧ s.types.get left = .ptrToCtx) →
    canApplyDbmConstraint s left op w (resolveRightOperand s.domain right w op).2
      (resolveRightOperand s.domain right w op).1 = true →
    SideKept s.domain ρ left op (resolveRightOperand s.domain right w op).1

theorem represents_eqSide_iff {imm : Option Int}
    (himm : ∀ v, imm = some v → w = .w64 → op = .eq →
      s.Represents ρ ∧ ρ left = BitVec.ofInt 64 v) :
    (eqSide s left op w imm).Represents ρ ↔ s.Represents ρ := by
  unfold eqSide
  split
  · next v =>
    obtain ⟨hrep, hv⟩ := himm v rfl rfl rfl
    have hhas := (Tnum.has_constant_iff (BitVec.ofInt 64 v) (ρ left)).2 hv
    exact iff_of_true (represents_setTnum hrep hhas) hrep
  · exact Iff.rfl

section
variable (hr : s.InRange) (h : s.Represents ρ) (hl : left.isProgram = true)
  (hop : ValidOperand right) (hcmp : op ≠ .test)
include hr h hl hop hcmp

theorem numericSide_iff
    (hholds : CmpHolds w op (ρ left) (operandValue ρ right)) :
    (numericSide s left op w (resolveRightOperand s.domain right w op).1
        (resolveRightOperand s.domain right w op).2).Represents ρ ↔
      (canApplyDbmConstraint s left op w (resolveRightOperand s.domain right w op).2
        (resolveRightOperand s.domain right w op).1 = true →
      SideKept s.domain ρ left op (resolveRightOperand s.domain right w op).1) := by
  obtain ⟨hvalid, hbits⟩ := resolve_sound (w := w) op h hop
  have hres := (cmpHolds_congr rfl hbits.symm op).1 hholds
  unfold numericSide
  by_cases hcan : canApplyDbmConstraint s left op w (resolveRightOperand s.domain right w op).2
      (resolveRightOperand s.domain right w op).1 = true
  · rw [if_pos hcan]
    have hiff := refineSide_resolved_iff hr h hl hop hcmp hholds hcan
    exact ⟨fun hrep _ => hiff.1 hrep.domain,
      fun hkept => represents_withDomain h (hiff.2 (hkept hcan))⟩
  · rw [if_neg hcan]
    refine iff_of_true ?_ fun hcan' => absurd hcan' hcan
    split_ifs with h1 h2 h3
    · obtain ⟨rfl, hu⟩ := h1
      exact represents_unsignedConstSide hr h hu hres
    · obtain ⟨rfl, hs⟩ := h2
      exact represents_w32SignedSide hr h hl hvalid hs hres
    · obtain ⟨rfl, ho⟩ := h3
      have hsig : isSigned op = false := by
        cases op <;> simp_all [isSigned, isUnsigned]
      exact represents_w32UnsignedSide hr h hl hvalid hsig hres
    · exact h

/-- The state of the side that is taken represents the valuation exactly when
the direct refinement, if there is one, keeps it. -/
theorem branchSide_iff
    (hholds : CmpHolds w op (ρ left) (operandValue ρ right)) :
    (branchSide s left op w right).Represents ρ ↔ DirectKept s ρ left op w right := by
  unfold branchSide DirectKept
  by_cases hctx : isImm right = true ∧ s.types.get left = .ptrToCtx
  · rw [if_pos hctx]
    exact iff_of_true h fun hctx' => absurd hctx hctx'
  · rw [if_neg hctx, imp_iff_right hctx]
    have hnum := numericSide_iff hr h hl hop hcmp hholds
    refine (represents_eqSide_iff fun v hv hw heq => ?_).trans hnum
    -- an equality with a constant is always kept, so its tnum is set on a state that is sound
    subst hw heq
    have himm : (resolveRightOperand s.domain right .w64 .eq).1 = .imm v := by
      cases hright : (resolveRightOperand s.domain right .w64 .eq).1 with
      | imm c =>
        rw [hright] at hv
        cases hv
        rfl
      | reg r =>
        rw [hright] at hv
        cases hv
    refine ⟨hnum.2 fun _ => ?_, ?_⟩
    · rw [himm]
      trivial
    · have hbits := (resolve_sound (w := .w64) .eq h hop).2
      rw [himm] at hbits
      have hval : ρ left = operandValue ρ right := BitVec.eq_of_toNat_eq hholds
      rw [hval]
      exact hbits.symm

end

def TakenSideRepresents (s : State) (ρ : Valuation) (left : Reg) (op : CmpOp) (w : Width)
    (right : Operand) : Prop :=
  (CmpHolds w op (ρ left) (operandValue ρ right) →
    (applyJmpConstraints s s left op w right).1.Represents ρ) ∧
  (¬ CmpHolds w op (ρ left) (operandValue ρ right) →
    (applyJmpConstraints s s left op w right).2.Represents ρ)

def takenCmp (ρ : Valuation) (left : Reg) (op : CmpOp) (w : Width) (right : Operand) : CmpOp :=
  if CmpHolds w op (ρ left) (operandValue ρ right) then op else negateCmp op

def RefinementKeeps (s : State) (ρ : Valuation) (left : Reg) (op : CmpOp) (w : Width)
    (right : Operand) : Prop :=
  op = .test ∨ DirectKept s ρ left (takenCmp ρ left op w right) w right

/-- A branch keeps a represented valuation exactly when the direct refinement
by the comparison that holds keeps it. -/
theorem applyJmpConstraints_represents_iff (s : State) (ρ : Valuation) (left : Reg) (op : CmpOp)
    (w : Width) (right : Operand) (hr : s.InRange) (h : s.Represents ρ)
    (hl : left.isProgram = true) (hop : ValidOperand right) :
    TakenSideRepresents s ρ left op w right ↔ RefinementKeeps s ρ left op w right := by
  unfold TakenSideRepresents RefinementKeeps takenCmp
  by_cases htest : op = .test
  · subst htest
    refine iff_of_true ?_ (Or.inl rfl)
    exact represents_applyTestConstraints hr h
  · rw [applyJmpConstraints_eq s left w right htest, or_iff_right htest]
    by_cases hholds : CmpHolds w op (ρ left) (operandValue ρ right)
    · rw [if_pos hholds]
      have hiff := branchSide_iff hr h hl hop htest hholds
      exact ⟨fun hk => hiff.1 (hk.1 hholds), fun hk => ⟨fun _ => hiff.2 hk, absurd hholds⟩⟩
    · rw [if_neg hholds]
      have hneg := (cmpHolds_negate htest (ρ left) (operandValue ρ right)).2 hholds
      have hne : negateCmp op ≠ .test := by
        cases op <;> first | exact absurd rfl htest | decide
      have hiff := branchSide_iff hr h hl hop hne hneg
      exact ⟨fun hk => hiff.1 (hk.2 hholds), fun hk => ⟨fun hy => absurd hy hholds, fun _ => hiff.2 hk⟩⟩

/-- `if r1 >= 5`, compared unsigned: the word of `-1` takes the branch and is
then excluded by the signed bound `5 ≤ r1`. -/
theorem applyJmpConstraints_loses_minusOne :
    unconstrainedInterval.InRange ∧ unconstrainedInterval.Represents minusOne ∧
      CmpHolds .w64 .uge (minusOne .r1) (operandValue minusOne (.imm 5)) ∧
      ¬ (applyJmpConstraints unconstrainedInterval unconstrainedInterval .r1 .uge .w64 (.imm 5)).1.Represents
        minusOne := by
  refine ⟨inRange_unconstrainedInterval, represents_unconstrainedInterval, by decide, fun h => ?_⟩
  have hhas := h.domain.has .r1
  revert hhas
  decide

theorem applyJmpConstraints_represents_minusOne :
    TakenSideRepresents unconstrainedInterval minusOne .r1 .sge .w64 (.imm 5) ↔
      RefinementKeeps unconstrainedInterval minusOne .r1 .sge .w64 (.imm 5) :=
  applyJmpConstraints_represents_iff unconstrainedInterval minusOne .r1 .sge .w64 (.imm 5)
    inRange_unconstrainedInterval represents_unconstrainedInterval rfl (show I64 5 by decide)

end Side
end ZoneVerifier.Constraints
