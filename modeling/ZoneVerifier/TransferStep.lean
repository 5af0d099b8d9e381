import ZoneVerifier.ProofReplay
import ZoneVerifier.RegExec
import ZoneVerifier.Represent

/-!
# Soundness of one transfer step

An accepted transfer turns a bound on the difference of one pair of registers
into a bound on another pair. The rules argue with integers and look at neither
the width nor every written register, so this holds exactly where the result is
not wrapped or truncated to the wrong side, a copy does not widen the tracked
difference, and a passthrough leaves both registers alone.
-/

set_option autoImplicit false

namespace ZoneVerifier.Replay
open Word Ast Concrete RegExec
open Machine (State unconstrainedInterval represents_newInterval)

/-- What a transfer from `l - r` to `l' - r'` by `c` promises of the executions from `ρ`. -/
def TransferSound (instr : Instr) (l r l' r' : Reg) (c : Int) (ρ : Valuation) : Prop :=
  ∀ ρ', Exec instr ρ ρ' → ∀ b, signedOf ρ l - signedOf ρ r ≤ b →
    signedOf ρ' l' - signedOf ρ' r' ≤ b + c

def after (ρ : Valuation) (dst : Reg) (v : Int) (q : Reg) : Int :=
  if q = dst then v else signedOf ρ q

theorem transferSound_iff_diff {instr : Instr} {l r l' r' : Reg} {c : Int} {ρ : Valuation} :
    TransferSound instr l r l' r' c ρ ↔ ∀ ρ', Exec instr ρ ρ' →
      signedOf ρ' l' - signedOf ρ' r' ≤ signedOf ρ l - signedOf ρ r + c := by
  constructor
  · intro h ρ' he
    exact h ρ' he _ le_rfl
  · intro h ρ' he b hb
    have := h ρ' he
    omega

theorem transferSound_alu {w : Width} {op : AluOp} {dst l r l' r' : Reg} {src : Operand} {c : Int}
    {ρ : Valuation} {v : Int} (hv : signed (aluResult w op (ρ dst) (operandValue ρ src)) = v) :
    TransferSound (.alu w op dst src) l r l' r' c ρ ↔
      after ρ dst v l' - after ρ dst v r' ≤ signedOf ρ l - signedOf ρ r + c := by
  have hafter : ∀ q, signedOf
      (Function.update ρ dst (aluResult w op (ρ dst) (operandValue ρ src))) q =
      after ρ dst v q := by
    intro q
    by_cases hq : q = dst
    · subst hq
      simp [signedOf, after, hv]
    · simp [signedOf, after, hq]
  simp only [transferSound_iff_diff, exec_alu_iff, forall_eq, hafter]

section Rules
variable (l r l' r' : Reg) (c : Int) (ρ : Valuation)

/-- A copy carries the tracked value unchanged, or overwrites one tracked register by the other
one without widening the difference. -/
def MovSafe (w : Width) (dst src : Reg) : Prop :=
  l = r ∨
    (l' = dst → if l = src then lowest w ≤ signedOf ρ l
      else wrapTo w (signedOf ρ src) ≤ signedOf ρ l) ∧
    (r' = dst → if r = src then signedOf ρ r < beyond w
      else signedOf ρ r ≤ wrapTo w (signedOf ρ src))

/-- The sum does not wrap, or be truncated, to the wrong side. -/
def AddImmSafe (w : Width) (dst : Reg) : Prop :=
  if l = r then 0 ≤ c
  else (dst = l → lowest w ≤ signedOf ρ l + c) ∧ (dst = r → signedOf ρ r - c < beyond w)

/-- Of a 32-bit sum only the low half remains. A sum that fits is safe as a
64-bit one is; one that is cut must not lose too much, or too little. -/
def AddReg32Safe (dst src : Reg) : Prop :=
  let sum := signedOf ρ dst + signedOf ρ src
  if 0 ≤ sum ∧ sum < 2^32 then
    (l' = dst → l = dst ∨ signedOf ρ dst ≤ c) ∧ (r' = dst → -signedOf ρ src ≤ c)
  else
    (l' = dst → sum % 2^32 - signedOf ρ r' ≤ signedOf ρ l - signedOf ρ r + c) ∧
      (r' = dst → signedOf ρ l' - sum % 2^32 ≤ signedOf ρ l - signedOf ρ r + c)

/-- A 64-bit sum must not wrap to the wrong side; a register added on the right needs a real lower
bound, and one that absorbs the left register an upper bound on its own value. -/
def AddReg64Safe (dst src : Reg) : Prop :=
  let sum := signedOf ρ dst + signedOf ρ src
  (l' = dst → -2^63 ≤ sum ∧ (l = dst ∨ signedOf ρ dst ≤ c ∨ 2^63 ≤ sum)) ∧
    (r' = dst → sum < 2^63 ∧ (-signedOf ρ src ≤ c ∨ sum < -2^63))

def AddRegSafe (w : Width) (dst src : Reg) : Prop :=
  if l' = r' then signedOf ρ r ≤ signedOf ρ l + c
  else
    match w with
    | .w64 => AddReg64Safe l l' r' c ρ dst src
    | .w32 => AddReg32Safe l r l' r' c ρ dst src

/-- Every word the instruction may leave in a tracked register keeps the difference. -/
def Keeps (instr : Instr) : Prop :=
  l = r ∨
    (l ∈ writtenRegs instr → ∀ x, Outcome instr ρ x → signed x ≤ signedOf ρ l) ∧
    (r ∈ writtenRegs instr → ∀ x, Outcome instr ρ x → signedOf ρ r ≤ signed x)

def TransferSafe (instr : Instr) : Prop :=
  match instr with
  | .alu w .mov dst (.reg src) => MovSafe l r l' r' ρ w dst src
  | .alu w .add dst (.imm _) => AddImmSafe l r c ρ w dst
  | .alu w .add dst (.reg src) => AddRegSafe l r l' r' c ρ w dst src
  | instr => Keeps l r ρ instr

end Rules

section Sound
variable {l r l' r' : Reg} {c : Int} {ρ : Valuation} {instr : Instr} {dst src : Reg} {w : Width}

theorem mov_sound_iff (h : verifyMov l.idx r.idx l'.idx r'.idx c dst src = true) :
    TransferSound (.alu w .mov dst (.reg src)) l r l' r' c ρ ↔ MovSafe l r l' r' ρ w dst src := by
  obtain ⟨hkept, rfl, rfl, rfl⟩ := verifyMov_iff.1 h
  have hle := wrapTo_le_iff w (signedOf ρ src)
  have hge := le_wrapTo_iff w (signedOf ρ src)
  rw [transferSound_alu (signed_mov w (ρ dst) (ρ src))]
  change after ρ dst (wrapTo w (signedOf ρ src)) _ - after ρ dst (wrapTo w (signedOf ρ src)) _ ≤ _ ↔
    _
  unfold MovSafe after
  by_cases hlr : l = r
  · subst hlr
    simp
  · -- Which tracked register is copied, and whether the copy lands on the other one.
    by_cases hl : l = src <;> by_cases hr : r = src <;> by_cases hdl : dst = l <;>
      by_cases hdr : dst = r <;> grind

theorem verifyAddImm_eq_true {imm : Int}
    (h : verifyAddImm l.idx r.idx l'.idx r'.idx c dst imm = true) :
    l' = l ∧ r' = r ∧
      (dst = l ∧ c = imm ∨ dst ≠ l ∧ dst = r ∧ c = wrapI64 (-imm) ∨
        dst ≠ l ∧ dst ≠ r ∧ c = 0) := by
  simp only [verifyAddImm, passes, Reg.idx_inj, ne_eq] at h
  split_ifs at h with hleft hright hpass <;> rw [decide_eq_true_eq] at h
  · exact ⟨hleft.2.1.symm, hleft.2.2.symm, .inl ⟨hleft.1, h⟩⟩
  · have hl : dst ≠ l := fun hl => hleft ⟨hl, hright.2⟩
    exact ⟨hright.2.1.symm, hright.2.2.symm, .inr (.inl ⟨hl, hright.1, h⟩)⟩
  · exact ⟨h.1.symm, h.2.1.symm, .inr (.inr ⟨hpass.1, hpass.2, h.2.2⟩)⟩

theorem addImm_sound_iff {imm : Int} (h : verifyAddImm l.idx r.idx l'.idx r'.idx c dst imm = true) :
    TransferSound (.alu w .add dst (.imm imm)) l r l' r' c ρ ↔ AddImmSafe l r c ρ w dst := by
  have hval : ∀ z : Int, z % 2^64 = (signedOf ρ dst + imm) % 2^64 →
      signed (aluResult w .add (ρ dst) (operandValue ρ (.imm imm))) = wrapTo w z := by
    intro z hz
    rw [signed_add]
    apply wrapTo_congr
    have himm := signed_emod (BitVec.ofInt 64 imm)
    rw [toNat_ofInt, toU64] at himm
    change (signedOf ρ dst + signed (BitVec.ofInt 64 imm)) % 2^64 = z % 2^64
    omega
  unfold AddImmSafe
  obtain ⟨rfl, rfl, ⟨rfl, rfl⟩ | ⟨hl, rfl, rfl⟩ | ⟨hl, hr, rfl⟩⟩ := verifyAddImm_eq_true h
  · -- The left register moves by the constant.
    rw [transferSound_alu (hval _ rfl)]
    have hle := wrapTo_le_iff w (signedOf ρ dst + c)
    unfold after
    split_ifs <;> grind
  · -- The right register moves by the negated contribution.
    have hneg : (signedOf ρ dst - wrapI64 (-imm)) % 2^64 = (signedOf ρ dst + imm) % 2^64 := by
      unfold wrapI64 toI64 toU64
      split_ifs <;> omega
    rw [transferSound_alu (hval _ hneg)]
    have hle := le_wrapTo_iff w (signedOf ρ dst - wrapI64 (-imm))
    unfold after
    grind
  · rw [transferSound_alu rfl]
    unfold after
    grind

theorem verifyAddReg_eq_true {state : State}
    (h : verifyAddReg l.idx r.idx l'.idx r'.idx c state dst src = true) :
    (dst = l ∧ l' = l ∧ r' = r ∧ (state.domain.getInterval src).2 ≤ c) ∨
      (dst ≠ l ∧ dst = r ∧ l' = l ∧ r' = r) ∨
      (src = l ∧ dst ≠ l ∧ dst ≠ r ∧ l' = dst ∧ r' = r) ∨
      (dst = l ∧ r = .zero ∧ l' = l ∧ r' = src ∧ c = 0) ∨
      (dst ≠ l ∧ dst ≠ r ∧ l' = l ∧ r' = r ∧ c = 0) := by
  simp only [verifyAddReg, passes, Reg.idx_inj, ne_eq] at h
  split_ifs at h with hleft hright habsorb hpivot hpass
  · exact .inl ⟨hleft.1, hleft.2.1.symm, hleft.2.2.symm, of_decide_eq_true h⟩
  · have hl : dst ≠ l := fun hl => hleft ⟨hl, hright.2⟩
    exact .inr (.inl ⟨hl, hright.1, hright.2.1.symm, hright.2.2.symm⟩)
  · exact .inr (.inr (.inl habsorb))
  · exact .inr (.inr (.inr (.inl hpivot)))
  · obtain ⟨hl, hr, hc⟩ := of_decide_eq_true h
    exact .inr (.inr (.inr (.inr ⟨hpass.1, hpass.2, hl.symm, hr.symm, hc⟩)))

theorem addReg_sound_iff {state : State} (hc : I64 c) (hrep : state.domain.Represents ρ)
    (hz : signedOf ρ .zero = 0) (h : verifyAddReg l.idx r.idx l'.idx r'.idx c state dst src = true) :
    TransferSound (.alu w .add dst (.reg src)) l r l' r' c ρ ↔
      AddRegSafe l r l' r' c ρ w dst src := by
  have hmax := (Numeric.NumericDomain.getInterval_sound hrep hz src).2
  have hd : I64 (signedOf ρ dst) := signed_range (ρ dst)
  have hs : I64 (signedOf ρ src) := signed_range (ρ src)
  unfold I64 at hc hd hs
  have hwrap := @wrapI64_cases (signedOf ρ dst + signedOf ρ src) (by omega) (by omega)
  rw [transferSound_alu (signed_add w (ρ dst) (ρ src))]
  change after ρ dst (wrapTo w (signedOf ρ dst + signedOf ρ src)) _ -
    after ρ dst (wrapTo w (signedOf ρ dst + signedOf ρ src)) _ ≤ _ ↔ _
  unfold AddRegSafe after
  by_cases heq : l' = r'
  · subst heq
    rw [if_pos rfl, sub_self]
    omega
  rw [if_neg heq]
  -- The five rules: left and right addition, absorption, pivot, passthrough.
  cases w with
  | w64 | w32 =>
    simp only [wrapTo, AddReg64Safe, AddReg32Safe]
    obtain ⟨rfl, rfl, rfl, hle⟩ | ⟨hl, rfl, rfl, rfl⟩ | ⟨rfl, hl, hr, rfl, rfl⟩ |
      ⟨rfl, rfl, rfl, rfl, rfl⟩ | ⟨hl, hr, rfl, rfl, rfl⟩ := verifyAddReg_eq_true h <;> grind

theorem outcome_of_two_written (hl : l ∈ writtenRegs instr) (hr : r ∈ writtenRegs instr)
    (hne : l ≠ r) (x : BitVec 64) : Outcome instr ρ x := by
  cases instr with
  | call | callRel | loadPacket => trivial
  | atomic op size fetch base off src =>
    simp only [writtenRegs] at hl hr
    split_ifs at hl hr <;> simp_all
  | _ => simp_all [writtenRegs]

theorem extremes_of_two_written (hl : l ∈ writtenRegs instr) (hr : r ∈ writtenRegs instr)
    (hne : l ≠ r) (h : TransferSound instr l r l r 0 ρ) :
    signedOf ρ l = 2^63 - 1 ∧ signedOf ρ r = -2^63 := by
  have hsl : I64 (signedOf ρ l) := signed_range (ρ l)
  have hsr : I64 (signedOf ρ r) := signed_range (ρ r)
  have hmax : signed (BitVec.ofInt 64 (2^63 - 1)) = 2^63 - 1 := signed_ofInt (by decide)
  have hmin : signed (BitVec.ofInt 64 (-2^63)) = -2^63 := signed_ofInt (by decide)
  have hdiff := transferSound_iff_diff.1 h _ (exec_of_outcomes
    (fun q => if q = l then BitVec.ofInt 64 (2^63 - 1) else BitVec.ofInt 64 (-2^63))
    fun _ _ => outcome_of_two_written hl hr hne _)
  simp only [signedOf, if_pos hl, if_pos hr, if_neg (Ne.symm hne), if_true, hmax, hmin] at hdiff
  unfold I64 at hsl hsr
  simp only [signedOf] at hsl hsr ⊢
  omega

theorem passthrough_sound_iff (instr : Instr) :
    TransferSound instr l r l r 0 ρ ↔ Keeps l r ρ instr := by
  constructor
  · intro h
    by_cases hlr : l = r
    · exact .inl hlr
    refine .inr ⟨fun hl x hx => ?_, fun hr x hx => ?_⟩
    · have hrange := signed_range x
      unfold I64 at hrange
      by_cases hr : r ∈ writtenRegs instr
      · have := extremes_of_two_written hl hr hlr h
        omega
      · obtain ⟨ρ', he, hw⟩ := exists_exec hx
        have hdiff := transferSound_iff_diff.1 h ρ' he
        rw [he.frame hr, signedOf, hw l hl] at hdiff
        omega
    · have hrange := signed_range x
      unfold I64 at hrange
      by_cases hl : l ∈ writtenRegs instr
      · have := extremes_of_two_written hl hr hlr h
        omega
      · obtain ⟨ρ', he, hw⟩ := exists_exec hx
        have hdiff := transferSound_iff_diff.1 h ρ' he
        have hr' : signedOf ρ' r = signed x := congrArg signed (hw r hr)
        rw [he.frame hl, hr'] at hdiff
        omega
  · rintro (rfl | ⟨hleft, hright⟩)
    · rw [transferSound_iff_diff]
      simp
    · rw [transferSound_iff_diff]
      intro ρ' he
      have hl : signedOf ρ' l ≤ signedOf ρ l := by
        by_cases hl : l ∈ writtenRegs instr
        · exact hleft hl _ (he.2 l hl)
        · exact (he.frame hl).le
      have hr : signedOf ρ r ≤ signedOf ρ' r := by
        by_cases hr : r ∈ writtenRegs instr
        · exact hright hr _ (he.2 r hr)
        · exact (he.frame hr).ge
      omega

theorem passthrough_iff (h : verifyPassthrough l.idx r.idx l'.idx r'.idx c instr = true) :
    TransferSound instr l r l' r' c ρ ↔ Keeps l r ρ instr := by
  rw [verifyPassthrough, Bool.and_eq_true, decide_eq_true_eq] at h
  obtain ⟨_, hl, hr, rfl⟩ := h
  rw [← Reg.idx_injective hl, ← Reg.idx_injective hr]
  exact passthrough_sound_iff instr

end Sound

theorem transfer_sound_iff {state : State} {instr : Instr} {l r l' r' : Reg} {c : Int}
    {ρ : Valuation} (hc : I64 c) (hrep : state.domain.Represents ρ) (hz : signedOf ρ .zero = 0)
    (hv : verifyTransfer l.idx r.idx l'.idx r'.idx c state instr = true) :
    TransferSound instr l r l' r' c ρ ↔ TransferSafe l r l' r' c ρ instr := by
  cases instr with
  | alu w op dst src =>
    cases op with
    | mov =>
      cases src with
      | reg src => exact mov_sound_iff hv
      | imm imm => exact passthrough_iff hv
    | add =>
      cases src with
      | reg src => exact addReg_sound_iff hc hrep hz hv
      | imm imm => exact addImm_sound_iff hv
    | _ => exact passthrough_iff hv
  | _ => exact passthrough_iff hv

/-- `w2 = w1` is accepted as a copy of `r1`, although it clears the upper half; `r1 = (s8) r2` and
a call to a subprogram are accepted as leaving `r1` alone. -/
theorem accepted_transfers_unsound :
    unconstrainedInterval.domain.Represents minusOne ∧
      (verifyTransfer Reg.r1.idx Reg.zero.idx Reg.r2.idx Reg.zero.idx 0 unconstrainedInterval
          (.alu .w32 .mov .r2 (.reg .r1)) = true ∧
        ¬ TransferSound (.alu .w32 .mov .r2 (.reg .r1)) .r1 .zero .r2 .zero 0 minusOne) ∧
      (verifyTransfer Reg.r1.idx Reg.zero.idx Reg.r1.idx Reg.zero.idx 0 unconstrainedInterval
          (.movSx .w64 .b8 .r1 (.reg .r2)) = true ∧
        ¬ TransferSound (.movSx .w64 .b8 .r1 (.reg .r2)) .r1 .zero .r1 .zero 0 minusOne) ∧
      (verifyTransfer Reg.r1.idx Reg.zero.idx Reg.r1.idx Reg.zero.idx 0 unconstrainedInterval
          (.callRel 7) = true ∧
        ¬ TransferSound (.callRel 7) .r1 .zero .r1 .zero 0 minusOne) := by
  refine ⟨represents_newInterval rfl, ⟨by decide, ?_⟩, ⟨by decide, ?_⟩, ⟨by decide, ?_⟩⟩
  · rw [mov_sound_iff (by decide)]
    unfold MovSafe
    decide
  · rw [passthrough_iff (by decide)]
    rintro (h | ⟨h, _⟩)
    · cases h
    · exact absurd (h (by decide) _ rfl) (by decide)
  · rw [passthrough_iff (by decide)]
    rintro (h | ⟨h, _⟩)
    · cases h
    · exact absurd (h (by decide) 0 trivial) (by decide)

theorem addImm_transfer_sound :
    TransferSound (.alu .w64 .add .r1 (.imm 4)) .r1 .r3 .r1 .r3 4 minusOne := by
  apply (@transfer_sound_iff unconstrainedInterval _ _ _ _ _ _ _ (by decide) (represents_newInterval rfl) rfl
    (by decide)).2
  unfold TransferSafe AddImmSafe
  decide

end ZoneVerifier.Replay
