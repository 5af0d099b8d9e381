import ZoneVerifier.EmittedChains

/-!
# Which walks are accepted

The pair that is tracked before an instruction is the one behind it, taken back
through the instruction. A walk from a load ends at the nearest point whose state
or branch bounds the tracked pair tightly enough. Its chain passes the validator
and the checker exactly when it is short enough and the checker follows the walk
at each point between: one explored state, an instruction that both directions
read alike, and a bound in range.
-/

set_option autoImplicit false

namespace ZoneVerifier.Generator
open Word Ast Certificate Replay Fallible
open Machine (State)
open ProofStep (total sumFrom contribution)

/-- Both directions read the instruction alike: no tracked register is copied, and an addition
is covered by the interval bounds of the register added. -/
def TransferFits (instr : Instr) (state : State) (l r i j : Reg) (delta : Int) : Prop :=
  match instr with
  | .alu _ .mov dst (.reg src) => src = dst ∨ i ≠ src ∧ j ≠ src
  | .alu _ .add dst (.reg src) => l = i → r = j →
      (dst = i → (state.domain.getInterval src).2 ≤ delta) ∧
        (dst ≠ i → dst = j → wrapI64 (-(state.domain.getInterval src).1) ≤ delta)
  | _ => True

section Transfers
variable {state : State} {l r dst src i j : Reg} {delta : Int} {w : Width}
  {zone : Option ZoneState}

theorem mov_fits_iff :
    verifyTransfer (if i = dst then src else i).idx (if j = dst then src else j).idx
        i.idx j.idx 0 state (.alu w .mov dst (.reg src)) = true ↔
      src = dst ∨ i ≠ src ∧ j ≠ src := by
  rw [verifyTransfer, verifyMov_iff]
  by_cases hi : i = dst <;> by_cases hj : j = dst <;> grind

theorem addImm_accepted {imm : Int}
    (h : backwardTransfer (.alu w .add dst (.imm imm)) i j zone = some (l, r, delta)) :
    verifyTransfer l.idx r.idx i.idx j.idx delta state (.alu w .add dst (.imm imm)) = true := by
  simp only [backwardTransfer] at h
  simp only [verifyTransfer, verifyAddImm, passes, Reg.idx_inj, ne_eq]
  split_ifs at h with hi hj <;> cases h <;> grind

theorem addReg_fits_iff
    (h : backwardTransfer (.alu w .add dst (.reg src)) i j zone = some (l, r, delta)) :
    verifyTransfer l.idx r.idx i.idx j.idx delta state (.alu w .add dst (.reg src)) = true ↔
      TransferFits (.alu w .add dst (.reg src)) state l r i j delta := by
  simp only [backwardTransfer] at h
  simp only [verifyTransfer, verifyAddReg, TransferFits, passes, Reg.idx_inj, ne_eq]
  split_ifs at h with hpivot hi hj
  · cases h
    by_cases hz : Reg.zero = j <;> grind
  · simp only [bind, Option.bind_eq_some_iff] at h
    cases h
    grind
  · simp only [bind, Option.bind_eq_some_iff] at h
    cases h
    grind
  · cases h
    grind

theorem passthrough_accepted {instr : Instr}
    (h : backwardPassthrough instr i j = some (l, r, delta)) :
    verifyPassthrough l.idx r.idx i.idx j.idx delta instr = true := by
  unfold backwardPassthrough at h
  split_ifs at h with hw
  cases h
  simpa [verifyPassthrough, passes, instrWrites] using hw

/-- The one place where the two directions of the transfer rules are compared. -/
theorem backward_fits_iff {instr : Instr}
    (h : backwardTransfer instr i j zone = some (l, r, delta)) :
    verifyTransfer l.idx r.idx i.idx j.idx delta state instr = true ↔
      TransferFits instr state l r i j delta := by
  cases instr with
  | alu w op dst src =>
    cases op with
    | mov =>
      cases src with
      | reg src =>
        cases h
        exact mov_fits_iff
      | imm imm => exact iff_of_true (passthrough_accepted h) trivial
    | add =>
      cases src with
      | reg src => exact addReg_fits_iff h
      | imm imm => exact iff_of_true (addImm_accepted h) trivial
    | _ => exact iff_of_true (passthrough_accepted h) trivial
  | _ => exact iff_of_true (passthrough_accepted h) trivial

end Transfers

section Conditions
variable (explored : Explored) (prog : List Instr) (zones : List ZoneState) (states : List State)
variable (t : Nat) (i j : Reg)

/-- The pair tracked `n` instructions before the load, and the shift of the bound from there to
the load. -/
def tracked : Nat → Option (Reg × Reg × Int)
  | 0 => some (i, j, 0)
  | n + 1 => do
    let (l, r, shift) ← tracked n
    let instr ← prog[t - (n + 1)]?
    let (l', r', delta) ← backwardTransfer instr l r zones[t - (n + 1)]?
    some (l', r', shift + delta)

/-- The nearest point that supports the bound `b` on the pair at the load is `n` instructions
before it, and supports `c` there. -/
structure FactPoint (b : Int) (n : Nat) (l r : Reg) (shift c : Int) : Prop where
  pos : 0 < n
  le : n ≤ t
  pair : tracked prog zones t i j n = some (l, r, shift)
  fact : ∃ instr, prog[t - n]? = some instr ∧ factAt states (t - n) instr l r (b - shift) = some c
  nearest : ∀ m, 0 < m → m < n → ∀ l r shift, tracked prog zones t i j m = some (l, r, shift) →
    NoFact prog states (t - m) l r (b - shift)

/-- The checker follows the walk at the instruction behind which `n` more stand before the load;
`bound` is what the walk proves at the load. -/
def PointFits (bound : Int) (n : Nat) : Prop :=
  ∃ state instr l r shift l' r' delta, explored (t - (n + 1)) = [state] ∧
    prog[t - (n + 1)]? = some instr ∧ tracked prog zones t i j n = some (l, r, shift) ∧
    backwardTransfer instr l r zones[t - (n + 1)]? = some (l', r', delta) ∧
    TransferFits instr state l' r' l r delta ∧ I64 (bound - shift)

end Conditions

section Facts
variable {explored : Explored} {prog : List Instr} {pc : Nat} {state : State}

theorem checked_eq_some_iff {a b : Int} : checked a = some b ↔ I64 a ∧ b = a := by
  unfold checked
  split_ifs with h <;> simp [h, eq_comm]

theorem getUniqueState_eq_some :
    getUniqueState explored pc = some state ↔ explored pc = [state] := by
  unfold getUniqueState
  split <;> simp_all

end Facts

section Walks
variable {explored : Explored} {prog : List Instr} {zones : List ZoneState} {states : List State}
variable {t pc : Nat} {i j l r : Reg} {b pre c : Int} {steps : List ProofStep}

/-- One transfer for each point from `pc` on. -/
def Consecutive (pc stop : Nat) : List ProofStep → Prop
  | [] => pc = stop
  | step :: rest => step.isTransfer = true ∧ step.pc = pc ∧ Consecutive (pc + 1) stop rest

/-- What the walk from the load has recorded behind `pc`, and when the checker follows it. -/
structure Walked (explored : Explored) (prog : List Instr) (zones : List ZoneState)
    (states : List State) (t : Nat) (i j : Reg) (b : Int) (pc : Nat) (l r : Reg) (pre : Int)
    (steps : List ProofStep) : Prop where
  le : pc ≤ t
  pair : tracked prog zones t i j (t - pc) = some (l, r, b - pre)
  nearest : ∀ m, 0 < m → m < t - pc → ∀ l r shift, tracked prog zones t i j m = some (l, r, shift) →
    NoFact prog states (t - m) l r (b - shift)
  points : Consecutive pc t steps
  replay : ∀ c, (∃ pcs, replaySteps explored prog ⟨l.idx, r.idx, c⟩ steps = some pcs) ↔
    ∀ k < t - pc, PointFits explored prog zones t i j (c + (b - pre)) k

theorem Walked.cons {instr : Instr} {l' r' : Reg} {delta : Int} (hinstr : prog[pc]? = some instr)
    (hback : backwardTransfer instr l r zones[pc]? = some (l', r', delta))
    (hno : pc + 1 ≠ t → NoFact prog states (pc + 1) l r pre)
    (h : Walked explored prog zones states t i j b (pc + 1) l r pre steps) :
    Walked explored prog zones states t i j b pc l' r' (pre - delta)
      (.transfer pc l'.idx r'.idx l.idx r.idx delta :: steps) := by
  have hle := h.le
  have hdist : t - pc = t - (pc + 1) + 1 := by omega
  have hpoint : t - (t - (pc + 1) + 1) = pc := by omega
  refine ⟨Nat.le_of_succ_le h.le, ?_, ?_, ⟨rfl, rfl, h.points⟩, fun c => ?_⟩
  · rw [hdist, tracked, h.pair]
    simp only [bind, Option.bind_some, hpoint, hinstr, hback, Option.some.injEq, Prod.mk.injEq]
    exact ⟨trivial, trivial, by omega⟩
  · intro m hpos hm l₁ r₁ shift hpair
    rcases Nat.lt_or_eq_of_le (Nat.le_of_lt_succ (hdist ▸ hm)) with hlt | rfl
    · exact h.nearest m hpos hlt l₁ r₁ shift hpair
    · rw [h.pair] at hpair
      cases hpair
      rw [Nat.sub_sub_self h.le, sub_sub_cancel]
      exact hno (by omega)
  · have hbound : c + (b - (pre - delta)) = c + delta + (b - pre) := by omega
    simp only [replaySteps, replayTransfer, bind, Option.bind_eq_some_iff, guard_eq_some, hinstr,
      getUniqueState_eq_some, checked_eq_some_iff]
    rw [hbound, hdist, Nat.forall_lt_succ_right, ← h.replay]
    have hhere : PointFits explored prog zones t i j (c + delta + (b - pre)) (t - (pc + 1)) ↔
        (∃ state, explored pc = [state] ∧ TransferFits instr state l' r' l r delta) ∧
          I64 (c + delta) := by
      have hsub : c + delta + (b - pre) - (b - pre) = c + delta := by omega
      simp only [PointFits, hpoint, hinstr, h.pair, Option.some.injEq, Prod.mk.injEq]
      constructor
      · rintro ⟨state, _, _, _, _, _, _, _, hs, rfl, ⟨rfl, rfl, rfl⟩, hb, hfits, hrange⟩
        rw [hback] at hb
        cases hb
        exact ⟨⟨state, hs, hfits⟩, hsub ▸ hrange⟩
      · rintro ⟨⟨state, hs, hfits⟩, hrange⟩
        exact ⟨state, _, _, _, _, _, _, _, hs, rfl, ⟨rfl, rfl, rfl⟩, hback, hfits, by rwa [hsub]⟩
    rw [hhere]
    constructor
    · rintro ⟨pcs, _, ⟨_, _, state, hs, _, hi, _, hfits, _, ⟨hrange, rfl⟩, hpcs⟩, hrun⟩
      cases hi
      cases hpcs
      exact ⟨⟨pcs, hrun⟩, ⟨state, hs, (backward_fits_iff hback).1 hfits⟩, hrange⟩
    · rintro ⟨⟨pcs, hrun⟩, ⟨state, hs, hfits⟩, hrange⟩
      exact ⟨pcs, _, ⟨(), ⟨trivial, trivial⟩, state, hs, _, rfl, (),
        (backward_fits_iff hback).2 hfits, _, ⟨hrange, rfl⟩, rfl⟩, hrun⟩

theorem FactPoint.unique {n m : Nat} {l' r' : Reg} {shift shift' c c' : Int}
    (h : FactPoint prog zones states t i j b n l r shift c)
    (h' : FactPoint prog zones states t i j b m l' r' shift' c') :
    n = m ∧ shift = shift' ∧ c = c' := by
  obtain ⟨instr, hinstr, hfact⟩ := h.fact
  obtain ⟨instr', hinstr', hfact'⟩ := h'.fact
  rcases Nat.lt_trichotomy n m with hlt | rfl | hlt
  · rw [h'.nearest n h.pos hlt l r shift h.pair instr hinstr] at hfact
    cases hfact
  · have hpair := h.pair
    rw [h'.pair] at hpair
    cases hpair
    rw [hinstr] at hinstr'
    cases hinstr'
    rw [hfact] at hfact'
    exact ⟨rfl, rfl, Option.some.inj hfact'⟩
  · rw [h.nearest m h'.pos hlt l' r' shift' h'.pair instr' hinstr'] at hfact'
    cases hfact'

end Walks

section Validation
variable {explored : Explored} {prog : List Instr} {steps rest : List ProofStep} {step : ProofStep}
variable {t pc stop progLen prev : Nat} {c : Int}

theorem Consecutive.le (h : Consecutive pc stop steps) : pc ≤ stop := by
  induction steps generalizing pc with
  | nil => exact Nat.le_of_eq h
  | cons step rest ih => exact Nat.le_of_succ_le (ih h.2.2)

end Validation

section Accept
variable {explored : Explored} {prog : List Instr} {zones : List ZoneState} {t : Nat} {i j : Reg}
  {b : Int} {chain : List ProofStep}

end Accept

end ZoneVerifier.Generator
