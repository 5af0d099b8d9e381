import ZoneVerifier.ProofReplay

/-!
# Generating a certificate

The generator (`pcc/generator`) walks backward from a load that only the zone
analysis proves safe, until the interval state or a branch supports the traced
bound. When that fails it tries a register derived from another one, and at last
composes the chains of the edges behind the zone's bound. Hints and the program
hash are left out.
-/

set_option autoImplicit false

namespace ZoneVerifier.Generator
open Word Ast Certificate Replay
open Machine (State)
open Zone (Dbm inf)

inductive EdgeOrigin where
  | init
  | primitive (pc : Nat)
  | derived (via : Reg)
  deriving DecidableEq, Repr

/-- The zone state of a program point with its shadow matrix, when that is recorded. -/
structure ZoneState where
  dbm : Dbm
  provenance : Option (Reg → Reg → EdgeOrigin)

def zoneUpperBound (dbm : Dbm) (i j : Reg) : Option Int :=
  if inf ≤ dbm.get i j then none else some (dbm.get i j)

def intervalUpperBound (state : State) (i j : Reg) : Option Int :=
  (distanceUpperBound state i j).filter fun ub => ub ≠ 2^63 - 1

/-- The generator's own copy of the checker's match. -/
def instrWrites (instr : Instr) (reg : Reg) : Bool := instrWritesReg instr reg

def backwardPassthrough (instr : Instr) (curI curJ : Reg) : Option (Reg × Reg × Int) :=
  if instrWrites instr curI || instrWrites instr curJ then none else some (curI, curJ, 0)

/-- The pair before the instruction and the forward shift of the bound. -/
def backwardTransfer (instr : Instr) (curI curJ : Reg) (zone : Option ZoneState) :
    Option (Reg × Reg × Int) :=
  match instr with
  | .alu _ .mov dst (.reg src) =>
    some (if curI = dst then src else curI, if curJ = dst then src else curJ, 0)
  | .alu _ .add dst (.imm imm) =>
    if dst = curI then some (curI, curJ, imm)
    else if dst = curJ then some (curI, curJ, wrapI64 (-imm))
    else some (curI, curJ, 0)
  | .alu _ .add dst (.reg src) =>
    if dst = curI ∧ curJ = src then some (curI, .zero, 0)
    else if dst = curI then do
      let zone ← zone
      let srcUb ← zoneUpperBound zone.dbm src .zero
      some (curI, curJ, srcUb)
    else if dst = curJ then do
      let zone ← zone
      let negLb ← zoneUpperBound zone.dbm .zero src
      some (curI, curJ, wrapI64 (-wrapI64 (-negLb)))
    else some (curI, curJ, 0)
  | instr => backwardPassthrough instr curI curJ

section Generation
variable (prog : List Instr) (zones : List ZoneState) (states : List State)

/-- A bound at most `preBound` that the state or the branch at `pc` supports. -/
def factAt (pc : Nat) (instr : Instr) (i j : Reg) (preBound : Int) : Option Int := do
  let state ← states[pc]?
  ((intervalUpperBound state i j).filter fun ub => ub ≤ preBound).or
    (((deriveFactFromBranch instr pc (pc + 1)).filter fun fact =>
      fact.leftReg = i.idx ∧ fact.rightReg = j.idx ∧ fact.c ≤ preBound).map (·.c))

/-- One point of the walk; `earlier` is the walk from the point before. -/
def traceAt (pc : Nat) (earlier : Reg → Reg → Int → List ProofStep → Option (List ProofStep))
    (curI curJ : Reg) (curBound : Int) (steps : List ProofStep) : Option (List ProofStep) := do
  let instr ← prog[pc]?
  let (prevI, prevJ, delta) ← backwardTransfer instr curI curJ zones[pc]?
  let preBound ← checked (curBound - delta)
  let steps := .transfer pc prevI.idx prevJ.idx curI.idx curJ.idx delta :: steps
  match factAt states pc instr prevI prevJ preBound with
  | some factC => some (.fact pc prevI.idx prevJ.idx factC :: steps)
  | none => earlier prevI prevJ preBound steps

/-- The steps behind a point are collected in forward order. -/
def traceFrom : Nat → Reg → Reg → Int → List ProofStep → Option (List ProofStep)
  | 0 => traceAt prog zones states 0 fun _ _ _ _ => none
  | pc + 1 => traceAt prog zones states (pc + 1) (traceFrom pc)

def backwardTrace (targetPc : Nat) (targetI targetJ : Reg) (targetBound : Int) :
    Option (List ProofStep) :=
  match targetPc with
  | 0 => none
  | pc + 1 => traceFrom prog zones states pc targetI targetJ targetBound []

def maxDepth : Nat := 4

end Generation

end ZoneVerifier.Generator
