import ZoneVerifier.ProofReplay

/-!
# Replay arithmetic

Replay adds with overflow checks, so the bound it ends with is the integer sum
of the contributions, through every nesting of compositions, and the pair it
ends with is the one the last step puts out. The checker compares that sum
with the declared bound. The validator computes it too but compares it with
nothing, so it accepts an entry whatever bound the entry declares.
-/

set_option autoImplicit false

namespace ZoneVerifier.Replay
open Ast Certificate Fallible
open Machine (State)
open ProofStep (total contribution)

theorem guard_eq_some {p : Prop} [Decidable p] {u : Unit} :
    (guard p : Option Unit) = some u ↔ p := by
  by_cases h : p <;> simp [guard, h]

section Steps
variable {explored : Explored} {prog : List Instr} {pcs pcs' : ProofCheckState}

theorem replayFact_eq_some {factPc factLeft factRight : Nat} {factC : Int}
    (h : replayFact explored prog factPc factLeft factRight factC = some pcs) :
    ∃ state, getUniqueState explored factPc = some state ∧
      verifyFact factPc factLeft factRight factC state prog ∧
      pcs = ⟨factLeft, factRight, factC⟩ := by
  simp only [replayFact, bind, Option.bind_eq_some_iff, guard_eq_some] at h
  obtain ⟨state, hs, _, _, _, hv, h⟩ := h
  exact ⟨state, hs, hv, (Option.some.inj h).symm⟩

theorem replayDerive_eq_some {pcStart pcEnd sourceReg targetReg : Nat} {offset : Int}
    (h : replayDerive prog pcs pcStart pcEnd sourceReg targetReg offset = some pcs') :
    sourceReg = pcs.currentLeft ∧
      verifyDerive pcStart pcEnd sourceReg targetReg offset prog ∧
      pcs' = ⟨targetReg, 0, pcs.accumulatedBound - offset⟩ := by
  simp only [replayDerive, bind, Option.bind_eq_some_iff, guard_eq_some] at h
  obtain ⟨_, hsource, _, hv, bound, hb, h⟩ := h
  rw [← Option.some.inj h, checked_eq_some hb]
  exact ⟨hsource, hv, rfl⟩

theorem replayTransfer_eq_some
    {stepPc preLeftReg preRightReg postLeftReg postRightReg : Nat} {delta : Int}
    (h : replayTransfer explored prog pcs stepPc preLeftReg preRightReg postLeftReg postRightReg
      delta = some pcs') :
    ∃ state instr, preLeftReg = pcs.currentLeft ∧ preRightReg = pcs.currentRight ∧
      getUniqueState explored stepPc = some state ∧ prog[stepPc]? = some instr ∧
      verifyTransfer preLeftReg preRightReg postLeftReg postRightReg delta state instr ∧
      pcs' = ⟨postLeftReg, postRightReg, pcs.accumulatedBound + delta⟩ := by
  simp only [replayTransfer, bind, Option.bind_eq_some_iff, guard_eq_some] at h
  obtain ⟨_, ⟨hl, hr⟩, state, hs, instr, hi, _, hv, bound, hb, h⟩ := h
  rw [← Option.some.inj h, checked_eq_some hb]
  exact ⟨state, instr, hl, hr, hs, hi, hv, rfl⟩

theorem verifyCompose_eq_some {step : ProofStep} (h : verifyCompose explored prog step = some pcs) :
    ∃ left right via leftResult rightResult, step = .compose left right via ∧
      replayChain explored prog left = some leftResult ∧ leftResult.currentRight = via ∧
      replayChain explored prog right = some rightResult ∧ rightResult.currentLeft = via ∧
      pcs = ⟨leftResult.currentLeft, rightResult.currentRight,
        leftResult.accumulatedBound + rightResult.accumulatedBound⟩ := by
  cases step with
  | fact | derive | transfer => simp [verifyCompose] at h
  | compose left right via =>
    simp only [verifyCompose, bind, Option.bind_eq_some_iff, guard_eq_some] at h
    obtain ⟨leftResult, hl, _, hlv, rightResult, hr, _, hrv, bound, hb, h⟩ := h
    rw [← Option.some.inj h, checked_eq_some hb]
    exact ⟨left, right, via, leftResult, rightResult, rfl, hl, hlv, hr, hrv, rfl⟩

end Steps

/-- The state is about the registers the step puts out. -/
def ProofCheckState.AtOutput (pcs : ProofCheckState) (step : ProofStep) : Prop :=
  pcs.currentLeft = step.outputLeftReg ∧ pcs.currentRight = step.outputRightReg

def ProofCheckState.Sums (pcs : ProofCheckState) (steps : List ProofStep) : Prop :=
  (∀ last, steps.getLast? = some last → pcs.AtOutput last) ∧
    pcs.accumulatedBound = total steps

variable {entry : AnnotationEntry}

section Exact
variable (explored : Explored) (prog : List Instr)

theorem outputLeftReg_compose {left right : List ProofStep} {via : Nat} {last : ProofStep}
    (h : left.getLast? = some last) :
    (ProofStep.compose left right via).outputLeftReg = last.outputLeftReg := by
  simp only [ProofStep.outputLeftReg, ProofStep.atEnd, ProofStep.atLast_eq, h, Option.elim_some]

theorem outputRightReg_compose {left right : List ProofStep} {via : Nat} {last : ProofStep}
    (h : right.getLast? = some last) :
    (ProofStep.compose left right via).outputRightReg = last.outputRightReg := by
  simp only [ProofStep.outputRightReg, ProofStep.atEnd, ProofStep.atLast_eq, h, Option.elim_some]

theorem exists_getLast_of_replayChain {steps : List ProofStep} {pcs : ProofCheckState}
    (h : replayChain explored prog steps = some pcs) : ∃ last, steps.getLast? = some last := by
  cases steps with
  | nil => simp [replayChain] at h
  | cons step rest => exact ⟨_, List.getLast?_cons⟩

mutual

theorem replayChain_sums (steps : List ProofStep) (pcs : ProofCheckState)
    (h : replayChain explored prog steps = some pcs) : pcs.Sums steps := by
  cases steps with
  | nil => simp [replayChain] at h
  | cons first rest =>
    cases first with
    | derive | transfer => simp [replayChain] at h
    | fact factPc factLeft factRight factC =>
      simp only [replayChain, bind, Option.bind_eq_some_iff] at h
      obtain ⟨start, hf, h⟩ := h
      obtain ⟨_, _, _, rfl⟩ := replayFact_eq_some hf
      obtain ⟨hlast, hsum⟩ := replaySteps_sums rest _ _
        (.fact factPc factLeft factRight factC) ⟨rfl, rfl⟩ h
      exact ⟨hlast, hsum⟩
    | compose left right via =>
      rw [replayChain] at h
      split_ifs at h with hrest
      rw [List.isEmpty_iff] at hrest
      subst hrest
      obtain ⟨hout, hsum⟩ := verifyCompose_sums _ _ h
      constructor
      · intro last hlast
        cases hlast
        exact hout
      · rw [hsum, total, total, add_zero]

theorem replaySteps_sums (rest : List ProofStep) (pcs pcs' : ProofCheckState) (prev : ProofStep)
    (hprev : pcs.AtOutput prev) (h : replaySteps explored prog pcs rest = some pcs') :
    (∀ last, (prev :: rest).getLast? = some last → pcs'.AtOutput last) ∧
      pcs'.accumulatedBound = pcs.accumulatedBound + total rest := by
  cases rest with
  | nil =>
    cases h
    constructor
    · intro last hlast
      cases hlast
      exact hprev
    · rw [total, add_zero]
  | cons step rest =>
    rw [List.getLast?_cons_cons, total]
    cases step with
    | fact => simp [replaySteps] at h
    | derive pcStart pcEnd sourceReg targetReg offset =>
      simp only [replaySteps, bind, Option.bind_eq_some_iff] at h
      obtain ⟨mid, hd, h⟩ := h
      obtain ⟨_, _, rfl⟩ := replayDerive_eq_some hd
      obtain ⟨hlast, hsum⟩ := replaySteps_sums rest _ _
        (.derive pcStart pcEnd sourceReg targetReg offset) ⟨rfl, rfl⟩ h
      refine ⟨hlast, ?_⟩
      simp only [hsum, contribution]
      omega
    | transfer stepPc preLeftReg preRightReg postLeftReg postRightReg delta =>
      simp only [replaySteps, bind, Option.bind_eq_some_iff] at h
      obtain ⟨mid, ht, h⟩ := h
      obtain ⟨_, _, _, _, _, _, _, rfl⟩ := replayTransfer_eq_some ht
      obtain ⟨hlast, hsum⟩ := replaySteps_sums rest _ _
        (.transfer stepPc preLeftReg preRightReg postLeftReg postRightReg delta) ⟨rfl, rfl⟩ h
      refine ⟨hlast, ?_⟩
      simp only [hsum, contribution]
      omega
    | compose left right via =>
      simp only [replaySteps, bind, Option.bind_eq_some_iff] at h
      obtain ⟨result, hc, bound, hb, h⟩ := h
      obtain ⟨hout, hresult⟩ := verifyCompose_sums _ _ hc
      obtain ⟨hlast, hsum⟩ := replaySteps_sums rest
        ⟨result.currentLeft, result.currentRight, bound⟩ _ (.compose left right via) hout h
      refine ⟨hlast, ?_⟩
      simp only [hsum, checked_eq_some hb, hresult]
      omega

theorem verifyCompose_sums (step : ProofStep) (pcs : ProofCheckState)
    (h : verifyCompose explored prog step = some pcs) :
    pcs.AtOutput step ∧ pcs.accumulatedBound = step.contribution := by
  cases step with
  | fact | derive | transfer => simp [verifyCompose] at h
  | compose left right via =>
    obtain ⟨_, _, _, leftResult, rightResult, hstep, hl, _, hr, _, rfl⟩ := verifyCompose_eq_some h
    cases hstep
    obtain ⟨hleft, hleftSum⟩ := replayChain_sums left _ hl
    obtain ⟨hright, hrightSum⟩ := replayChain_sums right _ hr
    obtain ⟨leftLast, hll⟩ := exists_getLast_of_replayChain explored prog hl
    obtain ⟨rightLast, hrl⟩ := exists_getLast_of_replayChain explored prog hr
    refine ⟨⟨?_, ?_⟩, ?_⟩
    · rw [outputLeftReg_compose hll]
      exact (hleft leftLast hll).1
    · rw [outputRightReg_compose hrl]
      exact (hright rightLast hrl).2
    · rw [contribution, hleftSum, hrightSum]

end

/-- The comparison the validator leaves out is made by the checker. -/
theorem checkProof_declares_sum {v : VerifiedEntry}
    (h : checkProof explored prog entry = some v) :
    entry.bound = total entry.proof ∧ v = ⟨entry.leftReg, entry.rightReg, entry.bound⟩ := by
  simp only [checkProof, bind, Option.bind_eq_some_iff, guard_eq_some] at h
  obtain ⟨_, _, result, hr, _, _, _, hb, h⟩ := h
  exact ⟨hb.symm.trans (replayChain_sums explored prog _ _ hr).2, (Option.some.inj h).symm⟩

end Exact

/-- The validator accepts the entry; the indices only occur in error texts. -/
def Accepted (prog : List Instr) (pcIdx annPc eidx : Nat) (entry : AnnotationEntry) : Prop :=
  validateEntry prog.length pcIdx annPc eidx entry = .ok ()

/-- Replay is exact. The validator accepts an entry whatever bound it declares, so it
guarantees the bounds declared for a chain only if it never accepts the chain. -/
theorem replay_exact_iff (prog : List Instr) (pcIdx annPc eidx : Nat) (entry : AnnotationEntry) :
    (∀ explored pcs, replayChain explored prog entry.proof = some pcs → pcs.Sums entry.proof) ∧
    (∀ b, Accepted prog pcIdx annPc eidx { entry with bound := b } ↔
      Accepted prog pcIdx annPc eidx entry) ∧
    ((∀ b, Accepted prog pcIdx annPc eidx { entry with bound := b } → total entry.proof = b) ↔
      ¬ Accepted prog pcIdx annPc eidx entry) := by
  have hindep : ∀ b, Accepted prog pcIdx annPc eidx { entry with bound := b } ↔
      Accepted prog pcIdx annPc eidx entry := fun _ => Iff.rfl
  refine ⟨fun explored pcs h => replayChain_sums explored prog _ _ h, hindep, ?_⟩
  constructor
  · intro hsum ha
    have hnext := hsum (total entry.proof + 1) ((hindep _).2 ha)
    omega
  · intro hno b hb
    exact absurd ((hindep b).1 hb) hno

def fiveProgram : List Instr := [.alu .w64 .mov .r1 (.imm 5), .jmp 2, .exit]

def fiveExplored : Explored := fun _ =>
  [State.new (.interval (Interval.assignImm Interval.IntervalState.new .r1 5)) 1]

def fiveEntry : AnnotationEntry := ⟨2, 0, -8, [.fact 1 2 0 5]⟩

/-- `r2 - r1` is bounded by the branch and grows by four, and `r1` is five. -/
def composedProof : List ProofStep :=
  [.compose [.fact 0 3 2 0, .transfer 1 3 2 3 2 4] [.fact 0 2 0 5, .transfer 1 2 0 2 0 0] 2]

theorem composed_checked : (9 : Int) = total composedProof := by
  have h : checkProof fiveExplored
      [.ifCmp .w64 .r2 .ugt (.reg .r1) 2, .alu .w64 .add .r2 (.imm 4), .exit]
      ⟨3, 0, 9, composedProof⟩ = some ⟨3, 0, 9⟩ := by decide
  exact (checkProof_declares_sum _ _ h).1

theorem wrong_bound_accepted :
    validateCertificateForProgram ⟨version, [⟨2, [fiveEntry]⟩]⟩ fiveProgram = .ok () ∧
      replayChain fiveExplored fiveProgram fiveEntry.proof = some ⟨2, 0, 5⟩ ∧
      total fiveEntry.proof = 5 ∧ fiveEntry.bound = -8 := by
  refine ⟨rfl, ?_, rfl, rfl⟩
  decide

end ZoneVerifier.Replay
