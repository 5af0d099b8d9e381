import ZoneVerifier.Generator
import ZoneVerifier.ReplayExact

/-!
# The walk backward from a load

The walk records one transfer for each point between the fact and the load, each
the inverse of its instruction. What one point passes on to the point before it
holds where the walk ends.
-/

set_option autoImplicit false

namespace ZoneVerifier.Generator
open Word Ast Certificate
open Machine (State)

section Walk
variable {earlier : Reg → Reg → Int → List ProofStep → Option (List ProofStep)}
variable {prog : List Instr} {zones : List ZoneState} {states : List State}
variable {b : Int} {chain steps : List ProofStep} {pc stop : Nat} {i j : Reg}

/-- Neither the state nor the branch at a point supports the bound. -/
def NoFact (prog : List Instr) (states : List State) (pc : Nat) (i j : Reg) (b : Int) : Prop :=
  ∀ instr, prog[pc]? = some instr → factAt states pc instr i j b = none

theorem traceAt_eq_some
    (h : traceAt prog zones states pc earlier i j b steps = some chain) :
    ∃ instr l r delta, prog[pc]? = some instr ∧
      backwardTransfer instr i j zones[pc]? = some (l, r, delta) ∧
      ((∃ c, factAt states pc instr l r (b - delta) = some c ∧ chain = .fact pc l.idx r.idx c ::
          .transfer pc l.idx r.idx i.idx j.idx delta :: steps) ∨
        NoFact prog states pc l r (b - delta) ∧
          earlier l r (b - delta) (.transfer pc l.idx r.idx i.idx j.idx delta :: steps) =
            some chain) := by
  simp only [traceAt, bind, Option.bind_eq_some_iff] at h
  obtain ⟨instr, hinstr, ⟨l, r, delta⟩, hback, preBound, hpre, h⟩ := h
  cases checked_eq_some hpre
  refine ⟨instr, l, r, delta, hinstr, hback, ?_⟩
  cases hfact : factAt states pc instr l r (b - delta) with
  | some c =>
    rw [hfact] at h
    exact .inl ⟨c, rfl, (Option.some.inj h).symm⟩
  | none =>
    rw [hfact] at h
    refine .inr ⟨fun instr' hinstr' => ?_, h⟩
    cases hinstr.symm.trans hinstr'
    exact hfact

/-- What each point of the walk passes on to the point before it holds where the walk ends. -/
theorem backwardTrace_rule {P : Nat → Reg → Reg → Int → List ProofStep → Prop}
    (hstep : ∀ {pc instr i j b l r delta steps}, prog[pc]? = some instr →
      backwardTransfer instr i j zones[pc]? = some (l, r, delta) →
      (pc + 1 ≠ stop → NoFact prog states (pc + 1) i j b) → P (pc + 1) i j b steps →
      P pc l r (b - delta) (.transfer pc l.idx r.idx i.idx j.idx delta :: steps))
    (hinit : P stop i j b []) (h : backwardTrace prog zones states stop i j b = some chain) :
    ∃ pc instr l r pre c first rest, prog[pc]? = some instr ∧
      factAt states pc instr l r pre = some c ∧ P pc l r pre (first :: rest) ∧
      chain = .fact pc l.idx r.idx c :: first :: rest := by
  cases hstop : stop with
  | zero =>
    rw [hstop] at h
    cases h
  | succ pc =>
    have hno : pc + 1 ≠ stop → NoFact prog states (pc + 1) i j b := fun hne => absurd hstop.symm hne
    rw [hstop] at h hinit
    change traceFrom prog zones states pc i j b [] = some chain at h
    clear hstop
    generalize [] = steps at hinit h
    induction pc generalizing i j b steps with
    | zero =>
      obtain ⟨instr, l, r, delta, hinstr, hback, ⟨c, hfact, hchain⟩ | ⟨_, h⟩⟩ := traceAt_eq_some h
      · exact ⟨0, instr, l, r, _, c, _, _, hinstr, hfact, hstep hinstr hback hno hinit, hchain⟩
      · cases h
    | succ pc ih =>
      obtain ⟨instr, l, r, delta, hinstr, hback, ⟨c, hfact, hchain⟩ | ⟨hnone, h⟩⟩ :=
        traceAt_eq_some h
      · exact ⟨pc + 1, instr, l, r, _, c, _, _, hinstr, hfact, hstep hinstr hback hno hinit,
          hchain⟩
      · exact ih (fun _ => hnone) _ (hstep hinstr hback hno hinit) h

def Ends (step : ProofStep) (l r : Reg) : Prop :=
  step.outputLeftReg = l.idx ∧ step.outputRightReg = r.idx

/-- The next step takes up the pair a step ends with, no earlier in the program. -/
def Follows (step next : ProofStep) : Prop :=
  ∃ (pc : Nat) (l r i j : Reg) (delta : Int),
    next = .transfer pc l.idx r.idx i.idx j.idx delta ∧ Ends step l r ∧ step.pc ≤ pc

/-- The copies and additions, whose effect on the pair is inverted. -/
def invertible : Instr → Bool
  | .alu _ .mov _ (.reg _) => true
  | .alu _ .add _ _ => true
  | _ => false

/-- A step is the inverse of its instruction; one without an inverse writes neither register. -/
def Carried (prog : List Instr) (zones : List ZoneState) (step : ProofStep) : Prop :=
  ∃ pc instr l r i j delta, step = .transfer pc l.idx r.idx i.idx j.idx delta ∧
    prog[pc]? = some instr ∧ backwardTransfer instr i j zones[pc]? = some (l, r, delta) ∧
    (invertible instr = false → (l, r, delta) = (i, j, 0) ∧
      instrWrites instr i = false ∧ instrWrites instr j = false)

theorem backwardTransfer_passes {instr : Instr} {zone : Option ZoneState} {delta : Int}
    {l r : Reg} (h : backwardTransfer instr i j zone = some (l, r, delta))
    (hinstr : invertible instr = false) :
    (l, r, delta) = (i, j, 0) ∧ instrWrites instr i = false ∧ instrWrites instr j = false := by
  have hpass : backwardTransfer instr i j zone = backwardPassthrough instr i j := by
    unfold backwardTransfer
    split
    iterate 3 cases hinstr
    rfl
  rw [hpass, backwardPassthrough] at h
  split_ifs at h with hw
  exact ⟨(Option.some.inj h).symm, by simpa using hw⟩

/-- What the walk has recorded behind `pc`, where it asks for `pre` on the pair `l`, `r`. -/
structure Trail (prog : List Instr) (zones : List ZoneState) (i j : Reg) (b : Int) (pc : Nat)
    (l r : Reg) (pre : Int) (steps : List ProofStep) : Prop where
  follows : ∀ step : ProofStep, Ends step l r → step.pc ≤ pc → (step :: steps).IsChain Follows
  ends : ∀ step : ProofStep, Ends step l r → ∃ last ∈ (step :: steps).getLast?, Ends last i j
  carried : ∀ step ∈ steps, Carried prog zones step
  delta : ProofStep.total steps = b - pre
  wraps : ∀ sum, ProofStep.sumFrom (wrapI64 sum) steps = wrapI64 (sum + ProofStep.total steps)

theorem trail_nil : Trail prog zones i j b stop i j b [] where
  follows _ _ _ := List.isChain_singleton _
  ends _ h := ⟨_, rfl, h⟩
  carried := List.forall_mem_nil _
  delta := (sub_self b).symm
  wraps sum := by rw [ProofStep.sumFrom, ProofStep.total, add_zero]

theorem Trail.cons {l r l' r' : Reg} {pre delta : Int} {instr : Instr}
    (hinstr : prog[pc]? = some instr)
    (hback : backwardTransfer instr l r zones[pc]? = some (l', r', delta))
    (h : Trail prog zones i j b (pc + 1) l r pre steps) :
    Trail prog zones i j b pc l' r' (pre - delta)
      (.transfer pc l'.idx r'.idx l.idx r.idx delta :: steps) where
  follows _ hstep hpc := List.isChain_cons_cons.2
    ⟨⟨pc, l', r', l, r, delta, rfl, hstep, hpc⟩, h.follows _ ⟨rfl, rfl⟩ (Nat.le_succ pc)⟩
  ends _ _ := by
    rw [List.getLast?_cons_cons]
    exact h.ends _ ⟨rfl, rfl⟩
  carried := List.forall_mem_cons.2
    ⟨⟨pc, instr, l', r', l, r, delta, rfl, hinstr, hback, backwardTransfer_passes hback⟩, h.carried⟩
  delta := by
    rw [ProofStep.total, ProofStep.contribution, h.delta]
    omega
  wraps sum := by
    rw [ProofStep.sumFrom, ProofStep.boundContribution, h.wraps, ProofStep.total,
      ProofStep.contribution, ← add_assoc]
    refine wrapI64_congr ?_
    rw [Int.add_assoc, Int.add_assoc, Int.add_emod, wrapI64_emod, ← Int.add_emod]

/-- Every chain of the walk starts at a fact that supports the bound asked for there, and the
bound it was asked to prove is that one shifted by the steps between. -/
theorem backwardTrace_wellFormed
    (h : backwardTrace prog zones states stop i j b = some chain) :
    ∃ pc instr l r pre c rest, chain = .fact pc l.idx r.idx c :: rest ∧
      prog[pc]? = some instr ∧ factAt states pc instr l r pre = some c ∧
      chain.IsChain Follows ∧ (∃ last ∈ chain.getLast?, Ends last i j) ∧
      (∀ step ∈ rest, Carried prog zones step) ∧
      b - pre = ProofStep.total rest ∧
      ProofStep.sumFrom 0 chain = wrapI64 (ProofStep.total chain) := by
  obtain ⟨pc, instr, l, r, pre, c, first, rest, hinstr, hfact, htrail, rfl⟩ :=
    backwardTrace_rule (P := Trail prog zones i j b) (fun hi hb _ => Trail.cons hi hb) trail_nil h
  refine ⟨pc, instr, l, r, pre, c, first :: rest, rfl, hinstr, hfact,
    htrail.follows _ ⟨rfl, rfl⟩ le_rfl, htrail.ends _ ⟨rfl, rfl⟩, htrail.carried, htrail.delta.symm, ?_⟩
  rw [ProofStep.sumFrom, htrail.wraps, zero_add, ProofStep.total]
  rfl

theorem guarded_addition_wellFormed :
    let prog : List Instr := [.ifCmp .w64 .r1 .ugt (.imm 4) 3, .alu .w64 .add .r1 (.imm 3)]
    let chain : List ProofStep := [.fact 0 2 0 4, .transfer 0 2 0 2 0 0, .transfer 1 2 0 2 0 3]
    backwardTrace prog [] [State.new .newInterval 0] 2 .r1 .zero 9 = some chain ∧
      chain.IsChain Follows := by
  intro prog chain
  have hchain : backwardTrace prog [] [State.new .newInterval 0] 2 .r1 .zero 9 = some chain := rfl
  obtain ⟨_, _, _, _, _, _, _, _, _, _, hfollows, -⟩ := backwardTrace_wellFormed hchain
  exact ⟨hchain, hfollows⟩

end Walk

end ZoneVerifier.Generator
