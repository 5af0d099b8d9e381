import ZoneVerifier.Certificate
import ZoneVerifier.Machine

/-!
# Replaying a proof chain

The checker replays a chain against the states the interval analysis has
explored (`pcc/checker`). It keeps the pair of registers the chain is
currently about and a running bound on their difference, starting from a fact
that the branch or the state at its program point supports. Points where the
analysis has not seen exactly one state are refused.
-/

set_option autoImplicit false

namespace ZoneVerifier.Replay
open Word Ast Certificate
open Machine (State)
open ZoneVerifier.Interval (IntervalState)

/-- The upper bound of the packet's offset from its end, when `i` is a packet pointer. -/
def packetDistance (ivl : IntervalState) (i j : Reg) : Option Int := do
  guard (j = .anchorDataEnd)
  let pktLb ← ivl.packetSizeLowerBound
  let po ← ivl.getPtrOffset i
  guard (po.anchor = .anchorData)
  some (satI64 (po.maxOffset - min (pktLb : Int) (2^63 - 1)))

def anchoredDistance (ivl : IntervalState) (i j : Reg) : Option Int := do
  let po ← ivl.getPtrOffset i
  guard (po.anchor = j)
  some po.maxOffset

def distanceUpperBound (state : State) (i j : Reg) : Option Int :=
  let direct := (state.domain.getDistanceInterval i j).2
  match state.domain with
  | .zone _ => some direct
  | .interval ivl =>
    if direct ≠ 2^63 - 1 then some direct
    else if i = .anchorData ∧ j = .anchorDataEnd then
      ivl.packetSizeLowerBound.map fun n : Nat => -(min (n : Int) (2^63 - 1))
    else ((packetDistance ivl i j).or (anchoredDistance ivl i j)).or (some direct)

structure Constraint where
  leftReg : Nat
  rightReg : Nat
  c : Int
  deriving DecidableEq, Repr

/-- The operator that holds on the edge: the comparison's own or, on the fall-through edge, its
negation. -/
def edgeOp : CmpOp → Bool → CmpOp
  | op, true => op
  | .ule, false => .ugt
  | .ugt, false => .ule
  | .ult, false => .uge
  | .uge, false => .ult
  | .sle, false => .sgt
  | .sgt, false => .sle
  | .slt, false => .sge
  | .sge, false => .slt
  | .eq, false => .ne
  | .ne, false => .eq
  | .test, false => .test

def regConstraint (left right : Reg) : CmpOp → Option Constraint
  | .ule | .sle => some ⟨left.idx, right.idx, 0⟩
  | .ult | .slt => some ⟨left.idx, right.idx, -1⟩
  | .uge | .sge => some ⟨right.idx, left.idx, 0⟩
  | .ugt | .sgt => some ⟨right.idx, left.idx, -1⟩
  | .eq | .ne | .test => none

def immConstraint (left : Reg) (imm : Int) : CmpOp → Option Constraint
  | .ule | .sle => some ⟨left.idx, Reg.zero.idx, imm⟩
  | .ult | .slt => (checked (imm - 1)).map fun c => ⟨left.idx, Reg.zero.idx, c⟩
  | .uge | .sge | .ugt | .sgt | .eq | .ne | .test => none

def deriveFactFromBranch (predInstr : Instr) (predPc succPc : Nat) : Option Constraint :=
  match predInstr with
  | .ifCmp .w64 left op right target =>
    if succPc = target ∨ succPc = predPc + 1 then
      match right with
      | .reg rightReg => regConstraint left rightReg (edgeOp op (decide (succPc = target)))
      | .imm imm => immConstraint left imm (edgeOp op (decide (succPc = target)))
    else none
  | _ => none

/-- A fact holds on the fall-through edge of the branch at its point, or in the state there. -/
def verifyFact (factPc leftIdx rightIdx : Nat) (c : Int) (state : State) (prog : List Instr) :
    Bool :=
  match Reg.idxToReg leftIdx, Reg.idxToReg rightIdx, prog[factPc]? with
  | some i, some j, some instr =>
    decide (deriveFactFromBranch instr factPc (factPc + 1) = some ⟨leftIdx, rightIdx, c⟩) ||
      (distanceUpperBound state i j).any fun ub => decide (ub ≤ c)
  | _, _, _ => false

def instrWritesReg (instr : Instr) (reg : Reg) : Bool :=
  match instr with
  | .alu _ _ dst _ => decide (dst = reg)
  | .endian dst _ _ _ => decide (dst = reg)
  | .load _ dst _ _ => decide (dst = reg)
  | .loadMap dst _ _ _ => decide (dst = reg)
  | .call _ => decide (reg ∈ [Reg.r0, .r1, .r2, .r3, .r4, .r5])
  | .loadPacket .. => decide (reg ∈ [Reg.r0, .r1, .r2, .r3, .r4, .r5])
  | _ => false

/-- An index that names no register is read as `Zero`. -/
def regOr (idx : Nat) : Reg := (Reg.idxToReg idx).getD .zero

@[simp] theorem regOr_idx (r : Reg) : regOr r.idx = r := by simp [regOr]

section Transfer
variable (preLeft preRight postLeft postRight : Nat) (delta : Int)

def passes : Prop := preLeft = postLeft ∧ preRight = postRight ∧ delta = 0

instance : Decidable (passes preLeft preRight postLeft postRight delta) :=
  inferInstanceAs (Decidable (_ ∧ _ ∧ _))

/-- A copy moves the tracked value along, unless the other tracked register is overwritten. -/
def verifyMov (dst src : Reg) : Bool :=
  let expectedPostLeft :=
    if preLeft = src.idx ∧ dst ≠ regOr preRight then dst.idx else preLeft
  let expectedPostRight :=
    if preRight = src.idx ∧ dst ≠ regOr preLeft then dst.idx else preRight
  if (dst = regOr preLeft ∨ dst = regOr preRight) ∧ postLeft = preLeft ∧ postRight = preRight ∧
      preLeft ≠ src.idx ∧ preRight ≠ src.idx then false
  else decide (postLeft = expectedPostLeft ∧ postRight = expectedPostRight ∧ delta = 0)

def verifyAddImm (dst : Reg) (imm : Int) : Bool :=
  if dst.idx = preLeft ∧ preLeft = postLeft ∧ preRight = postRight then decide (delta = imm)
  else if dst.idx = preRight ∧ preLeft = postLeft ∧ preRight = postRight then
    decide (delta = wrapI64 (-imm))
  else if dst.idx ≠ preLeft ∧ dst.idx ≠ preRight then
    decide (passes preLeft preRight postLeft postRight delta)
  else false

def verifyAddReg (state : State) (dst src : Reg) : Bool :=
  if dst.idx = preLeft ∧ preLeft = postLeft ∧ preRight = postRight then
    decide ((state.domain.getInterval src).2 ≤ delta)
  else if dst.idx = preRight ∧ preLeft = postLeft ∧ preRight = postRight then
    decide (wrapI64 (-(state.domain.getInterval src).1) ≤ delta)
  else if src.idx = preLeft ∧ dst.idx ≠ preLeft ∧ dst.idx ≠ preRight ∧ postLeft = dst.idx ∧
      postRight = preRight then
    -- Absorb: the tracked register is added to another one.
    (distanceUpperBound state dst (regOr preRight)).any fun ub =>
      decide (ub ≠ 2^63 - 1 ∧ ub ≤ delta)
  else if dst.idx = preLeft ∧ preRight = Reg.zero.idx ∧ postLeft = preLeft ∧
      postRight = src.idx ∧ delta = 0 then
    -- Pivot: the tracked register is compared with the one just added to it.
    true
  else if dst.idx ≠ preLeft ∧ dst.idx ≠ preRight then
    decide (passes preLeft preRight postLeft postRight delta)
  else false

/-- Any other instruction must leave both tracked registers alone. -/
def verifyPassthrough (instr : Instr) : Bool :=
  !instrWritesReg instr (regOr preLeft) && !instrWritesReg instr (regOr preRight) &&
    decide (passes preLeft preRight postLeft postRight delta)

def verifyTransfer (state : State) (instr : Instr) : Bool :=
  match instr with
  | .alu _ .mov dst (.reg src) => verifyMov preLeft preRight postLeft postRight delta dst src
  | .alu _ .add dst (.imm imm) => verifyAddImm preLeft preRight postLeft postRight delta dst imm
  | .alu _ .add dst (.reg src) =>
    verifyAddReg preLeft preRight postLeft postRight delta state dst src
  | instr => verifyPassthrough preLeft preRight postLeft postRight delta instr

end Transfer

theorem verifyMov_iff {l r l' r' dst src : Reg} {c : Int} :
    verifyMov l.idx r.idx l'.idx r'.idx c dst src = true ↔
      (dst = l ∨ dst = r → l' = l → r' = r → l = src ∨ r = src) ∧
        l' = (if l = src ∧ dst ≠ r then dst else l) ∧
        r' = (if r = src ∧ dst ≠ l then dst else r) ∧ c = 0 := by
  have hite : ∀ (p : Prop) [Decidable p] (q : Reg),
      (if p then dst.idx else q.idx) = (if p then dst else q).idx :=
    fun p _ q => (apply_ite Reg.idx p dst q).symm
  simp only [verifyMov, regOr_idx, hite, Reg.idx_inj, ne_eq]
  by_cases hbad : (dst = l ∨ dst = r) ∧ l' = l ∧ r' = r ∧ ¬ l = src ∧ ¬ r = src
  · rw [if_pos hbad]
    grind
  · rw [if_neg hbad, decide_eq_true_eq]
    grind

/-- What is known of the segment so far: the offset of `source` from `target`, once linked. -/
structure LinkState where
  accumulatedOffset : Int
  linked : Bool
  deriving DecidableEq, Repr

def keepLink (source target : Reg) (s : LinkState) (instr : Instr) : Option LinkState :=
  if s.linked ∧ (instrWritesReg instr source ∨ instrWritesReg instr target) then none else some s

def deriveStep (source target : Reg) (s : LinkState) (instr : Instr) : Option LinkState :=
  match instr with
  | .alu .w64 .mov dst (.reg src) =>
    if dst = source ∧ src = target then some ⟨0, true⟩ else keepLink source target s instr
  | .alu .w64 .add dst (.imm imm) =>
    if dst = source ∧ s.linked then some ⟨wrapI64 (s.accumulatedOffset + imm), true⟩
    else keepLink source target s instr
  | instr => keepLink source target s instr

def segment (prog : List Instr) (pcStart pcEnd : Nat) : List Instr :=
  (prog.drop pcStart).take (pcEnd + 1 - pcStart)

def verifyDerive (pcStart pcEnd sourceReg targetReg : Nat) (claimedOffset : Int)
    (prog : List Instr) : Bool :=
  if pcEnd < pcStart ∨ prog.length ≤ pcEnd then false
  else
    match Reg.idxToReg sourceReg, Reg.idxToReg targetReg with
    | some source, some target =>
      ((segment prog pcStart pcEnd).foldlM (deriveStep source target) ⟨0, false⟩).any fun s =>
        s.linked && decide (s.accumulatedOffset = claimedOffset)
    | _, _ => false

abbrev Explored := Nat → List State

def getUniqueState (explored : Explored) (pc : Nat) : Option State :=
  match explored pc with
  | [state] => some state
  | _ => none

structure ProofCheckState where
  currentLeft : Nat
  currentRight : Nat
  accumulatedBound : Int
  deriving DecidableEq, Repr

section Replay
variable (explored : Explored) (prog : List Instr)

def replayFact (factPc factLeft factRight : Nat) (factC : Int) : Option ProofCheckState := do
  let factState ← getUniqueState explored factPc
  guard factState.domain.isInterval
  guard (verifyFact factPc factLeft factRight factC factState prog)
  some ⟨factLeft, factRight, factC⟩

def replayDerive (pcs : ProofCheckState) (pcStart pcEnd sourceReg targetReg : Nat)
    (offset : Int) : Option ProofCheckState := do
  guard (sourceReg = pcs.currentLeft)
  guard (verifyDerive pcStart pcEnd sourceReg targetReg offset prog)
  let bound ← checked (pcs.accumulatedBound - offset)
  some ⟨targetReg, 0, bound⟩

def replayTransfer (pcs : ProofCheckState)
    (stepPc preLeftReg preRightReg postLeftReg postRightReg : Nat) (delta : Int) :
    Option ProofCheckState := do
  guard (preLeftReg = pcs.currentLeft ∧ preRightReg = pcs.currentRight)
  let stepState ← getUniqueState explored stepPc
  let instr ← prog[stepPc]?
  guard (verifyTransfer preLeftReg preRightReg postLeftReg postRightReg delta stepState instr)
  let bound ← checked (pcs.accumulatedBound + delta)
  some ⟨postLeftReg, postRightReg, bound⟩

mutual

def replayChain : List ProofStep → Option ProofCheckState
  | [] => none
  | first :: rest =>
    match first with
    | .fact factPc factLeft factRight factC => do
      let pcs ← replayFact explored prog factPc factLeft factRight factC
      replaySteps pcs rest
    | .compose .. => if rest.isEmpty then verifyCompose first else none
    | .derive .. => none
    | .transfer .. => none

def replaySteps (pcs : ProofCheckState) : List ProofStep → Option ProofCheckState
  | [] => some pcs
  | step :: rest =>
    match step with
    | .fact .. => none
    | .derive pcStart pcEnd sourceReg targetReg offset => do
      let pcs ← replayDerive prog pcs pcStart pcEnd sourceReg targetReg offset
      replaySteps pcs rest
    | .transfer stepPc preLeftReg preRightReg postLeftReg postRightReg delta => do
      let pcs ← replayTransfer explored prog pcs stepPc preLeftReg preRightReg postLeftReg
        postRightReg delta
      replaySteps pcs rest
    | .compose .. => do
      let result ← verifyCompose step
      let bound ← checked (pcs.accumulatedBound + result.accumulatedBound)
      replaySteps ⟨result.currentLeft, result.currentRight, bound⟩ rest

/-- Of a step that is not a composition there is nothing to verify. -/
def verifyCompose : ProofStep → Option ProofCheckState
  | .compose left right via => do
    let leftResult ← replayChain left
    guard (leftResult.currentRight = via)
    let rightResult ← replayChain right
    guard (rightResult.currentLeft = via)
    let bound ← checked (leftResult.accumulatedBound + rightResult.accumulatedBound)
    some ⟨leftResult.currentLeft, rightResult.currentRight, bound⟩
  | .fact .. => none
  | .derive .. => none
  | .transfer .. => none

end

structure VerifiedEntry where
  leftReg : Nat
  rightReg : Nat
  bound : Int
  deriving DecidableEq, Repr

def checkProof (entry : AnnotationEntry) : Option VerifiedEntry := do
  guard (!entry.proof.isEmpty)
  let result ← replayChain explored prog entry.proof
  guard (result.currentLeft = entry.leftReg ∧ result.currentRight = entry.rightReg)
  guard (result.accumulatedBound = entry.bound)
  some ⟨entry.leftReg, entry.rightReg, entry.bound⟩

end Replay

end ZoneVerifier.Replay
