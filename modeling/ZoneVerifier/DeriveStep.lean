import ZoneVerifier.TransferStep

/-!
# Soundness of a derivation

A derivation claims that a segment leaves `source = target + offset` and trades a
bound on `source` for one on `target`. The link survives when control runs
straight through, the registers differ and nothing writes them unseen. The bound
carries over exactly when the sum does not wrap and the right register of the
input fact, which is replaced by zero, is not positive.
-/

set_option autoImplicit false

namespace ZoneVerifier.Replay
open Word Ast Concrete RegExec

def DeriveSound (source r target : Reg) (offset : Int) (ρ : Valuation) : Prop :=
  ∀ b, signedOf ρ source - signedOf ρ r ≤ b →
    signedOf ρ target - signedOf ρ .zero ≤ b - offset

def copy (source target : Reg) : Instr := .alu .w64 .mov source (.reg target)

/-- The checker sees every write of the two registers. -/
def Seen (source target : Reg) (instr : Instr) : Prop :=
  ∀ q, q = source ∨ q = target → q ∈ writtenRegs instr → instrWritesReg instr q = true

structure Tracked (prog : List Instr) (pcStart pcEnd : Nat) (source target : Reg) : Prop where
  distinct : source ≠ target
  straight : Straight prog pcStart pcEnd
  seen : ∃ before behind, segment prog pcStart pcEnd = before ++ copy source target :: behind ∧
    ∀ instr ∈ behind, Seen source target instr

/-- The word of `source` is that of `target` moved by the offset. -/
def Linked (source target : Reg) (offset : Int) (ρ : Valuation) : Prop :=
  ρ source = ρ target + BitVec.ofInt 64 offset

section Link
variable {source target : Reg} {offset : Int} {ρ ρ' : Valuation}

theorem deriveStep_linked {instr : Instr} {s : LinkState}
    (h : deriveStep source target ⟨offset, true⟩ instr = some s) :
    (instr = copy source target ∧ s = ⟨0, true⟩) ∨
      (∃ imm, instr = .alu .w64 .add source (.imm imm) ∧ s = ⟨wrapI64 (offset + imm), true⟩) ∨
      (instrWritesReg instr source = false ∧ instrWritesReg instr target = false ∧
        s = ⟨offset, true⟩) := by
  have hkeep : keepLink source target ⟨offset, true⟩ instr = some s →
      instrWritesReg instr source = false ∧ instrWritesReg instr target = false ∧
        s = ⟨offset, true⟩ := by
    intro h
    unfold keepLink at h
    split_ifs at h with hw
    cases h
    simpa using hw
  unfold deriveStep at h
  split at h
  · split_ifs at h with hc
    · obtain ⟨rfl, rfl⟩ := hc
      exact .inl ⟨rfl, (Option.some.inj h).symm⟩
    · exact .inr (.inr (hkeep h))
  · split_ifs at h with hc
    · obtain ⟨rfl, _⟩ := hc
      exact .inr (.inl ⟨_, rfl, (Option.some.inj h).symm⟩)
    · exact .inr (.inr (hkeep h))
  · exact .inr (.inr (hkeep h))

theorem ofInt_wrapI64 (i : Int) : BitVec.ofInt 64 (wrapI64 i) = BitVec.ofInt 64 i := by
  apply BitVec.eq_of_toNat_eq
  rw [toNat_ofInt, toNat_ofInt, wrapI64, toU64_toI64 (toU64_lt i)]

theorem Linked.copied (hne : source ≠ target) (h : Exec (copy source target) ρ ρ') :
    Linked source target 0 ρ' := by
  rw [copy, exec_alu_iff] at h
  subst h
  simp [Linked, aluResult, aluWord, operandValue, Function.update_of_ne (Ne.symm hne)]

theorem Linked.shifted (hne : source ≠ target) {imm : Int}
    (h : Exec (.alu .w64 .add source (.imm imm)) ρ ρ') (hl : Linked source target offset ρ) :
    Linked source target (wrapI64 (offset + imm)) ρ' := by
  rw [exec_alu_iff] at h
  subst h
  unfold Linked at *
  rw [ofInt_wrapI64, BitVec.ofInt_add, Function.update_self, Function.update_of_ne (Ne.symm hne)]
  simp only [aluResult, aluWord, operandValue, hl]
  rw [BitVec.add_assoc]

theorem Linked.kept {instr : Instr} (h : Exec instr ρ ρ') (hs : source ∉ writtenRegs instr)
    (ht : target ∉ writtenRegs instr) (hl : Linked source target offset ρ) :
    Linked source target offset ρ' := by
  rw [Linked, h.1 _ hs, h.1 _ ht]
  exact hl

theorem linked_behind (hne : source ≠ target) {behind : List Instr} {s : LinkState}
    (hseen : ∀ instr ∈ behind, Seen source target instr)
    (hfold : behind.foldlM (deriveStep source target) ⟨offset, true⟩ = some s)
    (hl : Linked source target offset ρ) (h : ExecSeq behind ρ ρ') :
    Linked source target s.accumulatedOffset ρ' := by
  induction behind generalizing offset ρ with
  | nil =>
    cases hfold
    rwa [h]
  | cons instr behind ih =>
    obtain ⟨mid, hmid, hfold⟩ := Option.bind_eq_some_iff.1 hfold
    obtain ⟨ρm, hexec, hrest⟩ := h
    have hseen' := fun i hi => hseen i (List.mem_cons_of_mem _ hi)
    obtain ⟨rfl, rfl⟩ | ⟨imm, rfl, rfl⟩ | ⟨hws, hwt, rfl⟩ := deriveStep_linked hmid
    · exact ih hseen' hfold (Linked.copied hne hexec) hrest
    · exact ih hseen' hfold (hl.shifted hne hexec) hrest
    · have hunseen : ∀ q, q = source ∨ q = target → q ∉ writtenRegs instr := by
        intro q hq hw
        have := hseen instr List.mem_cons_self q hq hw
        rcases hq with rfl | rfl <;> simp_all
      exact ih hseen' hfold
        (hl.kept hexec (hunseen source (.inl rfl)) (hunseen target (.inr rfl))) hrest

end Link

theorem verifyDerive_eq_true {prog : List Instr} {pcStart pcEnd : Nat} {source target : Reg}
    {offset : Int} (h : verifyDerive pcStart pcEnd source.idx target.idx offset prog = true) :
    pcStart ≤ pcEnd ∧ (segment prog pcStart pcEnd).foldlM (deriveStep source target) ⟨0, false⟩ =
      some ⟨offset, true⟩ := by
  unfold verifyDerive at h
  split_ifs at h with hpc
  simp only [Reg.idxToReg_idx, Option.any_eq_true, Bool.and_eq_true, decide_eq_true_eq] at h
  obtain ⟨⟨off, linked⟩, hfold, hlinked, hoff⟩ := h
  simp only at hlinked hoff
  subst hlinked hoff
  exact ⟨by omega, hfold⟩

theorem linked_of_run {prog : List Instr} {pcStart pcEnd : Nat} {source target : Reg}
    {offset : Int} {ρ ρ' : Valuation}
    (hv : verifyDerive pcStart pcEnd source.idx target.idx offset prog = true)
    (ht : Tracked prog pcStart pcEnd source target) (hrun : SegmentRun prog pcStart pcEnd ρ ρ') :
    Linked source target offset ρ' := by
  obtain ⟨hpc, hfold⟩ := verifyDerive_eq_true hv
  obtain ⟨before, behind, hseg, hseen⟩ := ht.seen
  have hexec := execSeq_of_run ht.straight hrun le_rfl (by omega)
  change ExecSeq (segment prog pcStart pcEnd) ρ ρ' at hexec
  rw [hseg] at hfold hexec
  obtain ⟨ρ₁, _, ρ₂, hcopy, hbehind⟩ := execSeq_append hexec
  rw [List.foldlM_append] at hfold
  obtain ⟨s, _, hfold⟩ := Option.bind_eq_some_iff.1 hfold
  rw [List.foldlM_cons] at hfold
  have hlink : deriveStep source target s (copy source target) = some ⟨0, true⟩ := by
    simp [deriveStep, copy]
  rw [hlink] at hfold
  exact linked_behind ht.distinct hseen hfold (Linked.copied ht.distinct hcopy) hbehind

theorem derive_sound_iff {prog : List Instr} {pcStart pcEnd : Nat} {source target r : Reg}
    {offset : Int} {ρ ρ' : Valuation} (ho : I64 offset)
    (hv : verifyDerive pcStart pcEnd source.idx target.idx offset prog = true)
    (ht : Tracked prog pcStart pcEnd source target) (hrun : SegmentRun prog pcStart pcEnd ρ ρ')
    (hz : signedOf ρ' .zero = 0) :
    DeriveSound source r target offset ρ' ↔
      signedOf ρ' target + offset < 2^63 ∧
        (signedOf ρ' r ≤ 0 ∨ signedOf ρ' target + offset < -2^63) := by
  have hlink := linked_of_run hv ht hrun
  have hsum : signedOf ρ' source = wrapI64 (signedOf ρ' target + offset) := by
    have hadd := signed_add .w64 (ρ' target) (BitVec.ofInt 64 offset)
    rw [signed_ofInt ho] at hadd
    rw [signedOf, hlink]
    exact hadd
  have ht : I64 (signedOf ρ' target) := signed_range (ρ' target)
  have hr : I64 (signedOf ρ' r) := signed_range (ρ' r)
  unfold I64 at ht hr ho
  have hwrap := @wrapI64_cases (signedOf ρ' target + offset) (by omega) (by omega)
  unfold DeriveSound
  rw [hz, hsum]
  constructor
  · intro h
    have := h _ le_rfl
    omega
  · intro h b hb
    omega

def fives : Valuation := fun r => if r = .zero then 0 else 5

theorem exec_copy_fives : Exec (copy .r1 .r2) fives fives := by
  rw [copy, exec_alu_iff]
  ext r
  cases r <;> rfl

theorem exec_jmp (target : Nat) (ρ : Valuation) : Exec (.jmp target) ρ ρ :=
  ⟨fun _ _ => rfl, fun _ hr => (List.not_mem_nil hr).elim⟩

/-- `r1 = r2` is accepted with an input fact `r1 - r3 ≤ 0`, whose right register is dropped. The
second segment jumps over its copy. -/
theorem accepted_derivations_unsound :
    (verifyDerive 0 0 Reg.r1.idx Reg.r2.idx 0 [copy .r1 .r2] = true ∧
        SegmentRun [copy .r1 .r2] 0 0 fives fives ∧
        signedOf fives .r1 - signedOf fives .r3 ≤ 0 ∧
        ¬ DeriveSound .r1 .r3 .r2 0 fives) ∧
      (verifyDerive 0 2 Reg.r1.idx Reg.r2.idx 0 [.jmp 2, copy .r1 .r2, .jmp 3] = true ∧
        SegmentRun [.jmp 2, copy .r1 .r2, .jmp 3] 0 2 (Function.update fives .r1 0)
          (Function.update fives .r1 0) ∧
        ¬ DeriveSound .r1 .zero .r2 0 (Function.update fives .r1 0)) := by
  refine ⟨⟨by decide, ?_, by decide, ?_⟩, by decide, ?_, ?_⟩
  · exact .single ⟨le_rfl, le_rfl, _, rfl, exec_copy_fives, rfl⟩
  · intro h
    exact absurd (h 0 (by decide)) (by decide)
  · apply Relation.ReflTransGen.head (b := (2, _))
    · exact ⟨by decide, by decide, _, rfl, exec_jmp _ _, rfl⟩
    · exact .single ⟨by decide, by decide, _, rfl, exec_jmp _ _, rfl⟩
  · intro h
    exact absurd (h 0 (by decide)) (by decide)

def twoAdditions : List Instr :=
  [copy .r1 .r2, .alu .w64 .add .r1 (.imm 3), .alu .w64 .add .r1 (.imm 4)]

theorem twoAdditions_tracked : Tracked twoAdditions 0 2 .r1 .r2 where
  distinct := by decide
  straight := by
    intro pc instr _ hpc hinstr target ht
    obtain rfl | rfl | rfl : pc = 0 ∨ pc = 1 ∨ pc = 2 := by omega
    all_goals
      cases hinstr
      cases ht
  seen := by
    refine ⟨[], [.alu .w64 .add .r1 (.imm 3), .alu .w64 .add .r1 (.imm 4)], rfl, ?_⟩
    intro instr hi q hq hw
    simp only [List.mem_cons, List.not_mem_nil, or_false] at hi
    rcases hi with rfl | rfl <;> simpa [writtenRegs, instrWritesReg, eq_comm] using hw

theorem twoAdditions_sound :
    SegmentRun twoAdditions 0 2 fives (Function.update fives .r1 12) ∧
      DeriveSound .r1 .zero .r2 7 (Function.update fives .r1 12) := by
  have hrun : SegmentRun twoAdditions 0 2 fives (Function.update fives .r1 12) := by
    apply Relation.ReflTransGen.head (b := (1, fives))
    · exact ⟨by decide, by decide, _, rfl, exec_copy_fives, rfl⟩
    apply Relation.ReflTransGen.head (b := (2, Function.update fives .r1 8))
    · exact ⟨by decide, by decide, _, rfl, exec_alu_iff.2 (by ext r; cases r <;> rfl), rfl⟩
    · exact .single ⟨by decide, by decide, _, rfl, exec_alu_iff.2 (by ext r; cases r <;> rfl), rfl⟩
  refine ⟨hrun, (derive_sound_iff (by decide) (by decide) twoAdditions_tracked hrun rfl).2 ?_⟩
  decide

end ZoneVerifier.Replay
