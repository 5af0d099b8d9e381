import Mathlib.Algebra.Order.BigOperators.Group.List
import ZoneVerifier.GraphSearch
import ZoneVerifier.Subprog
import ZoneVerifier.Word

/-!
# Stack use along call chains

`check_stack_overflow` (`analysis/flow/subprog.rs`) adds up the stack that the
functions of a call chain use and limits the number of frames. It walks the
calls of subprograms from the entry, and from each function that a timer runs on
a stack of its own. A callback that a helper runs on the caller's stack is not
walked, and the sum is one of 16-bit words.
-/

set_option autoImplicit false

namespace ZoneVerifier.CallChain
open Ast Cuts Fallible Subprog Walks Word Relation

inductive StackError where
  | stackOverflow (pc combined : Nat)
  | callDepthExceeded (pc depth : Nat)
  | recursiveCall (pc target : Nat)
  | panic
  deriving DecidableEq, Repr

def maxBpfStack : Nat := 512

def maxCallFrames : Nat := 8

def mayGotoStackExtra : Nat := 8

section Depth
variable (instrs : List Instr)

/-- What `compute_max_stack_depth` knows after some instructions: a register may
hold the frame pointer plus a constant. -/
structure DepthScan where
  maxDepth : Nat
  hasMayGoto : Bool
  aliases : Reg → Option Int

def setAlias {α : Type} (aliases : Reg → Option α) (dst : Reg) (v : Option α) : Reg → Option α :=
  fun r => if r = dst then v else aliases r

def clobber {α : Type} (aliases : Reg → Option α) : Reg → Option α :=
  fun r => if r ∈ callerSaved then none else aliases r

def trackAccess (s : DepthScan) (base : Reg) (off : Int) : DepthScan :=
  match s.aliases base with
  | none => s
  | some baseOff =>
    let total := wrapI64 (baseOff + off)
    if total < 0 ∧ -total ≤ 65535 then { s with maxDepth := max s.maxDepth (-total).toNat } else s

def aluAlias (aliases : Reg → Option Int) (dst : Reg) : AluOp → Operand → Option Int
  | .mov, .reg r => aliases r
  | .add, .imm k => (aliases dst).map fun o => wrapI64 (o + k)
  | .sub, .imm k => (aliases dst).map fun o => wrapI64 (o - k)
  | _, _ => none

def depthStep (s : DepthScan) : Instr → DepthScan
  | .mayGoto _ => { s with hasMayGoto := true }
  | .store _ base off _ | .storeRel _ base off _ | .atomic _ _ _ base off _ =>
    trackAccess s base off
  | .load _ dst base off | .loadSx _ dst base off | .loadAcq _ dst base off =>
    let s := trackAccess s base off
    { s with aliases := setAlias s.aliases dst none }
  | .alu width op dst src =>
    if dst = .r10 then s
    else if width ≠ .w64 then { s with aliases := setAlias s.aliases dst none }
    else { s with aliases := setAlias s.aliases dst (aluAlias s.aliases dst op src) }
  | .movSx _ _ dst _ | .endian dst _ _ _ | .loadMap dst _ _ _ =>
    { s with aliases := setAlias s.aliases dst none }
  | .loadPacket .. | .call _ | .callRel _ => { s with aliases := clobber s.aliases }
  | .ifCmp .. | .jmp _ | .exit => s

def computeMaxStackDepth : Nat :=
  let s := instrs.foldl depthStep ⟨0, false, setAlias (fun _ => none) .r10 (some 0)⟩
  if s.hasMayGoto then min (s.maxDepth + mayGotoStackExtra) 65535 else s.maxDepth

structure SubprogInfo where
  startPc : Nat
  endPc : Nat
  maxStackDepth : Nat
  deriving DecidableEq, Repr

def subprogInfo (f : Nat × Nat) : SubprogInfo :=
  ⟨f.1, f.2, computeMaxStackDepth ((instrs.drop f.1).take (f.2 - f.1))⟩

def subprogs : List SubprogInfo :=
  (analyzeSubprograms instrs).map (subprogInfo instrs)

def lookup (entry : Nat) : Option SubprogInfo :=
  (subprogs instrs).find? fun info => info.startPc = entry

end Depth

section Callbacks

/-- The function whose address a register holds, as the scan for callbacks
follows it through the program. -/
def pseudofuncStep (aliases : Reg → Option Nat) : Instr → Reg → Option Nat
  | .loadMap dst (.pseudoFunc subprogPc) _ _ => setAlias aliases dst (some subprogPc)
  | .loadMap dst .mapPtr _ _ | .loadMap dst .mapValue _ _ | .loadMap dst (.pseudoBtfId _) _ _
  | .loadMap dst .pseudoMapIdx _ _ | .loadMap dst .pseudoMapIdxValue _ _ =>
    setAlias aliases dst none
  | .alu width op dst (.reg s) =>
    setAlias aliases dst (if op = .mov ∧ width = .w64 then aliases s else none)
  | .alu _ _ dst (.imm _) => setAlias aliases dst none
  | .movSx _ _ dst _ | .endian dst _ _ _ | .load _ dst _ _ | .loadSx _ dst _ _
  | .loadAcq _ dst _ _ => setAlias aliases dst none
  | .call _ | .callRel _ | .loadPacket .. => clobber aliases
  | _ => aliases

def pseudofuncBefore (instrs : List Instr) (pc : Nat) : Reg → Option Nat :=
  (instrs.take pc).foldl pseudofuncStep fun _ => none

end Callbacks

section Walk

def enterFrame (privateStack : Bool) (depthSoFar : Nat) (info : SubprogInfo) (entry : Nat) :
    Except StackError Nat :=
  if privateStack then
    if maxBpfStack < info.maxStackDepth then .error (.stackOverflow entry info.maxStackDepth)
    else .ok depthSoFar
  else
    let nd := (depthSoFar + info.maxStackDepth) % 65536
    if maxBpfStack < nd then .error (.stackOverflow entry nd) else .ok nd

def callAt (instrs : List Instr) (pc : Nat) : Option Nat := (instrs[pc]?).bind callTarget?

end Walk

section Graph
variable (instrs : List Instr)

def forEachMapElemId : Nat := 164

def findVmaId : Nat := 180

def loopId : Nat := 181

def userRingbufDrainId : Nat := 209

/-- The register in which a helper takes a callback that it runs on the stack of
its caller (`analysis/transfer/call/callback.rs`). -/
def syncCallbackReg (id : Nat) : Option Reg :=
  if id = loopId ∨ id = forEachMapElemId ∨ id = userRingbufDrainId then some .r2
  else if id = findVmaId then some .r3
  else none

def syncCallbackAt (pc : Nat) : Option Nat :=
  match instrs[pc]? with
  | some (.call (.helper id)) => (syncCallbackReg id).bind (pseudofuncBefore instrs pc)
  | _ => none

def EdgeBy (leads : Nat → Option Nat) (f g : Nat) : Prop :=
  ∃ info, lookup instrs f = some info ∧
    ∃ pc, info.startPc ≤ pc ∧ pc < info.endPc ∧ leads pc = some g

def CallEdge : Nat → Nat → Prop := EdgeBy instrs (callAt instrs)

def CallbackEdge : Nat → Nat → Prop := EdgeBy instrs (syncCallbackAt instrs)

def Edge (f g : Nat) : Prop := CallEdge instrs f g ∨ CallbackEdge instrs f g

def depthOf (f : Nat) : Nat :=
  ((lookup instrs f).map SubprogInfo.maxStackDepth).getD 0

def stackOf (c : List Nat) : Nat := (c.map (depthOf instrs)).sum

structure WithinLimits (instrs : List Instr) (edge : Nat → Nat → Prop) : Prop where
  acyclic : ∀ f, ReflTransGen edge 0 f → ¬ TransGen edge f f
  frames : ∀ c, List.IsChain edge (0 :: c) → (0 :: c).length ≤ maxCallFrames
  stack : ∀ c, List.IsChain edge (0 :: c) → stackOf instrs (0 :: c) ≤ maxBpfStack

variable {instrs : List Instr} {left entry d n f : Nat} {caller : Option Nat} {v w : List Nat}

/-- Every function that calls reach fits the stack on its own, and the chains the
walk does not see, those through a callback, are within the limits. -/
structure Covered (instrs : List Instr) : Prop where
  small : ∀ f, ReflTransGen (CallEdge instrs) 0 f → depthOf instrs f ≤ maxBpfStack
  frames : ∀ c, List.IsChain (Edge instrs) (0 :: c) → ¬ List.IsChain (CallEdge instrs) (0 :: c) →
    (0 :: c).length ≤ maxCallFrames
  stack : ∀ c, List.IsChain (Edge instrs) (0 :: c) → ¬ List.IsChain (CallEdge instrs) (0 :: c) →
    stackOf instrs (0 :: c) ≤ maxBpfStack

theorem WithinLimits.covered (h : WithinLimits instrs (Edge instrs)) : Covered instrs where
  small := by
    intro f hf
    obtain ⟨c, hc, hmem⟩ := exists_isChain_of_reflTransGen hf
    exact (List.le_sum_of_mem (List.mem_map_of_mem hmem)).trans (h.stack c (hc.imp fun _ _ => Or.inl))
  frames := fun c hc _ => h.frames c hc
  stack := fun c hc _ => h.stack c hc

end Graph

end ZoneVerifier.CallChain
