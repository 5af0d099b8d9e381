import ZoneVerifier.Ast
import ZoneVerifier.Fallible
import ZoneVerifier.Word

/-!
# Certificates and their structural validation

A certificate annotates program points with bounds on the difference of two
registers, each with a chain of proof steps; a `Compose` step carries two chains
(`pcc/model.rs`). The validator (`pcc/validate.rs`) checks shapes and never looks
at instructions. Registers are given by their row index; hints and the program
hash are left out.
-/

set_option autoImplicit false

namespace ZoneVerifier.Ast.Reg

def idx : Reg → Nat
  | zero => 0
  | r0 => 1
  | r1 => 2
  | r2 => 3
  | r3 => 4
  | r4 => 5
  | r5 => 6
  | r6 => 7
  | r7 => 8
  | r8 => 9
  | r9 => 10
  | r10 => 11
  | anchorDataMeta => 12
  | anchorData => 13
  | anchorDataEnd => 14

def idxToReg (i : Nat) : Option Reg := rows[i]?

@[simp] theorem idxToReg_idx (r : Reg) : idxToReg r.idx = some r := by
  cases r <;> rfl

theorem idx_injective : Function.Injective idx := fun r s h => by
  have := congrArg idxToReg h
  simpa using this

@[simp] theorem idx_inj {r s : Reg} : r.idx = s.idx ↔ r = s := idx_injective.eq_iff

end ZoneVerifier.Ast.Reg

namespace ZoneVerifier.Certificate
open Word Ast

/-- `i64::checked_add`, also used for `checked_sub`. -/
def checked (i : Int) : Option Int := if I64 i then some i else none

theorem checked_eq_some {i j : Int} (h : checked i = some j) : j = i := by
  unfold checked at h
  split_ifs at h
  exact (Option.some.inj h).symm

inductive ProofStep where
  | fact (pc leftReg rightReg : Nat) (c : Int)
  | derive (pcStart pcEnd sourceReg targetReg : Nat) (offset : Int)
  | compose (left right : List ProofStep) (via : Nat)
  | transfer (pc preLeftReg preRightReg postLeftReg postRightReg : Nat) (delta : Int)
  deriving Repr

namespace ProofStep

def isCompose : ProofStep → Bool
  | compose .. => true
  | _ => false

def isDerive : ProofStep → Bool
  | derive .. => true
  | _ => false

def isTransfer : ProofStep → Bool
  | transfer .. => true
  | _ => false

mutual

/-- A reading of a step that a composition takes from the last steps of its two chains. -/
def atEnd (leaf : ProofStep → Nat) (both : Nat → Nat → Nat) : ProofStep → Nat
  | compose left right _ => both (atLast leaf both left) (atLast leaf both right)
  | fact pc leftReg rightReg c => leaf (fact pc leftReg rightReg c)
  | derive pcStart pcEnd sourceReg targetReg offset =>
    leaf (derive pcStart pcEnd sourceReg targetReg offset)
  | transfer pc preLeftReg preRightReg postLeftReg postRightReg delta =>
    leaf (transfer pc preLeftReg preRightReg postLeftReg postRightReg delta)

def atLast (leaf : ProofStep → Nat) (both : Nat → Nat → Nat) : List ProofStep → Nat
  | [] => 0
  | step :: rest => if rest.isEmpty then atEnd leaf both step else atLast leaf both rest

end

def pc : ProofStep → Nat :=
  atEnd (fun
    | fact pc .. => pc
    | transfer pc .. => pc
    | derive _ pcEnd .. => pcEnd
    | compose .. => 0) max

def outputLeftReg : ProofStep → Nat :=
  atEnd (fun
    | fact _ leftReg .. => leftReg
    | transfer _ _ _ postLeftReg .. => postLeftReg
    | derive _ _ _ targetReg _ => targetReg
    | compose .. => 0) fun left _ => left

def outputRightReg : ProofStep → Nat :=
  atEnd (fun
    | fact _ _ rightReg _ => rightReg
    | transfer _ _ _ _ postRightReg _ => postRightReg
    | derive .. => 0
    | compose .. => 0) fun _ right => right

mutual

/-- The sums of the source wrap around. -/
def boundContribution : ProofStep → Int
  | fact _ _ _ c => c
  | transfer _ _ _ _ _ delta => delta
  | derive _ _ _ _ offset => wrapI64 (-offset)
  | compose left right _ => wrapI64 (sumFrom 0 left + sumFrom 0 right)

def sumFrom (sum : Int) : List ProofStep → Int
  | [] => sum
  | step :: rest => sumFrom (wrapI64 (sum + boundContribution step)) rest

end

mutual

def nodeCount : ProofStep → Nat
  | compose left right _ => 1 + nodeCounts left + nodeCounts right
  | fact .. => 1
  | transfer .. => 1
  | derive .. => 1

def nodeCounts : List ProofStep → Nat
  | [] => 0
  | step :: rest => nodeCount step + nodeCounts rest

end

mutual

/-- What a step adds to the bound of its chain, as an integer. -/
def contribution : ProofStep → Int
  | fact _ _ _ c => c
  | transfer _ _ _ _ _ delta => delta
  | derive _ _ _ _ offset => -offset
  | compose left right _ => total left + total right

def total : List ProofStep → Int
  | [] => 0
  | step :: rest => contribution step + total rest

end

theorem atLast_eq (leaf : ProofStep → Nat) (both : Nat → Nat → Nat) (steps : List ProofStep) :
    atLast leaf both steps = steps.getLast?.elim 0 (atEnd leaf both) := by
  induction steps with
  | nil => simp [atLast]
  | cons step rest ih =>
    cases rest with
    | nil => simp [atLast]
    | cons next rest =>
      rw [atLast, ih, List.getLast?_cons_cons]
      simp

end ProofStep

structure AnnotationEntry where
  leftReg : Nat
  rightReg : Nat
  bound : Int
  proof : List ProofStep
  deriving Repr

structure PcAnnotation where
  pc : Nat
  entries : List AnnotationEntry
  deriving Repr

structure ProgramCertificate where
  version : Nat
  pcAnnotations : List PcAnnotation
  deriving Repr

def version : Nat := 3
def maxStepsPerEntry : Nat := 32
def maxEntriesPerPc : Nat := 8

section Validation
variable (targetPc progLen : Nat)

def validateRegIdx (idx sidx : Nat) (ctx : String) : Except String Unit :=
  if (Reg.idxToReg idx).isNone then
    .error s!"{ctx} step #{sidx} has invalid register index {idx}"
  else .ok ()

/-- Each step must take up the registers its predecessor puts out. -/
def checkConnected (ctx : String) : ProofStep → List ProofStep → Except String Unit
  | _, [] => .ok ()
  | prev, step :: rest => do
    match step with
    | .fact .. => .error s!"{ctx} has Fact step after first position"
    | .transfer _ preLeftReg preRightReg _ _ _ =>
      if prev.outputLeftReg ≠ preLeftReg ∨ prev.outputRightReg ≠ preRightReg then
        .error s!"{ctx} proof chain disconnected at Transfer"
    | .derive _ _ sourceReg _ _ =>
      if prev.outputLeftReg ≠ sourceReg then
        .error s!"{ctx} proof chain disconnected at Derive"
    | .compose .. => .ok ()
    checkConnected ctx step rest

/-- All points lie before the annotated one. They do not decrease, except at derivations, until
the first transfer, and strictly increase after it. -/
def checkPcOrder (ctx : String) (sidx : Nat) (prevPc : Option Nat) (seenTransfer : Bool) :
    List ProofStep → Except String Unit
  | [] => .ok ()
  | step :: rest => do
    if step.isCompose then checkPcOrder ctx (sidx + 1) prevPc seenTransfer rest
    else
      let stepPc := step.pc
      if targetPc ≤ stepPc then
        .error s!"{ctx} step #{sidx} pc={stepPc} >= target pc={targetPc}"
      match prevPc with
      | none => .ok ()
      | some prev =>
        if step.isDerive && !seenTransfer then .ok ()
        else if !seenTransfer then
          if stepPc < prev then
            .error s!"{ctx} step #{sidx} pc={stepPc} < guard pc={prev}"
        else if stepPc ≤ prev then
          .error s!"{ctx} step #{sidx} pc={stepPc} not strictly increasing (prev={prev})"
      checkPcOrder ctx (sidx + 1) (some stepPc) (seenTransfer || step.isTransfer) rest

def checkPcBounds (ctx : String) (sidx : Nat) : List ProofStep → Except String Unit
  | [] => .ok ()
  | step :: rest => do
    if !step.isCompose ∧ progLen ≤ step.pc then
      let stepPc := step.pc
      .error s!"{ctx} step #{sidx} pc={stepPc} out of bounds"
    checkPcBounds ctx (sidx + 1) rest

mutual

def validateProofChain (ctx : String) : List ProofStep → Except String Unit
  | [] => .error s!"{ctx} has empty proof chain"
  | first :: rest =>
    match first with
    | .fact .. => do
      validateStepRegisters ctx 0 first
      validateRegistersFrom ctx 1 rest
      checkConnected ctx first rest
      checkPcOrder targetPc ctx 0 none false (first :: rest)
      checkPcBounds progLen ctx 0 (first :: rest)
    | .compose .. =>
      if rest.isEmpty then validateStepRegisters ctx 0 first
      else .error s!"{ctx} proof must start with a Fact step (or be a single Compose)"
    | .derive .. => .error s!"{ctx} proof must start with a Fact step (or be a single Compose)"
    | .transfer .. => .error s!"{ctx} proof must start with a Fact step (or be a single Compose)"

def validateRegistersFrom (ctx : String) (sidx : Nat) : List ProofStep → Except String Unit
  | [] => .ok ()
  | step :: rest => do
    validateStepRegisters ctx sidx step
    validateRegistersFrom ctx (sidx + 1) rest

/-- The composition's case is `validate_compose_step`. -/
def validateStepRegisters (ctx : String) (sidx : Nat) : ProofStep → Except String Unit
  | .fact _ leftReg rightReg _ => do
    validateRegIdx leftReg sidx ctx
    validateRegIdx rightReg sidx ctx
  | .derive _ _ sourceReg targetReg _ => do
    validateRegIdx sourceReg sidx ctx
    validateRegIdx targetReg sidx ctx
  | .transfer _ preLeftReg preRightReg postLeftReg postRightReg _ => do
    validateRegIdx preLeftReg sidx ctx
    validateRegIdx preRightReg sidx ctx
    validateRegIdx postLeftReg sidx ctx
    validateRegIdx postRightReg sidx ctx
  | .compose left right via => do
    validateRegIdx via 0 ctx
    if left.isEmpty ∨ right.isEmpty then
      .error s!"{ctx} Compose has empty sub-proof"
    validateProofChain s!"{ctx} Compose.left" left
    validateProofChain s!"{ctx} Compose.right" right
    let leftOut := left.getLast?.elim 0 ProofStep.outputRightReg
    let rightOut := right.getLast?.elim 0 ProofStep.outputLeftReg
    if leftOut ≠ via then
      .error s!"{ctx} Compose left sub-proof output right {leftOut} != via {via}"
    if rightOut ≠ via then
      .error s!"{ctx} Compose right sub-proof output left {rightOut} != via {via}"

end

/-- The sum of the contributions, refused only when it overflows. -/
def sumContributions (ctx : String) (sum : Int) : List ProofStep → Except String Int
  | [] => .ok sum
  | step :: rest =>
    match checked (sum + step.boundContribution) with
    | some sum => sumContributions ctx sum rest
    | none => .error s!"{ctx} proof weight sum overflows i64"

end Validation

def validateEntry (progLen pcIdx annPc eidx : Nat) (e : AnnotationEntry) : Except String Unit := do
  let ctx := s!"pc_annotation #{pcIdx} entry #{eidx}"
  let leftReg := e.leftReg
  let rightReg := e.rightReg
  match Reg.idxToReg leftReg with
  | none => .error s!"{ctx} has invalid left_reg={leftReg}"
  | some left =>
    match Reg.idxToReg rightReg with
    | none => .error s!"{ctx} has invalid right_reg={rightReg}"
    | some right =>
      if left.isAnchor ∧ right.isAnchor ∧ left = right then
        .error s!"{ctx} is degenerate anchor constraint"
      if e.proof.isEmpty then .error s!"{ctx} has empty proof"
      let totalNodes := ProofStep.nodeCounts e.proof
      if maxStepsPerEntry < totalNodes then
        .error s!"{ctx} exceeds max steps ({totalNodes} > {maxStepsPerEntry})"
      validateProofChain annPc progLen ctx e.proof
      if e.proof.getLast?.elim 0 ProofStep.outputLeftReg ≠ leftReg ∨
          e.proof.getLast?.elim 0 ProofStep.outputRightReg ≠ rightReg then
        .error s!"{ctx} proof endpoints mismatch entry target"
      -- The sum is computed, but never compared with the declared bound.
      let _ ← sumContributions ctx 0 e.proof

def validateAnnotation (progLen pcIdx : Nat) (ann : PcAnnotation) : Except String Unit := do
  let pc := ann.pc
  let entries := ann.entries.length
  if progLen ≤ pc then
    .error s!"pc_annotation #{pcIdx} has pc={pc} out of bounds (program len={progLen})"
  if maxEntriesPerPc < entries then
    .error s!"pc_annotation #{pcIdx} exceeds max entries per pc ({entries} > {maxEntriesPerPc})"
  ann.entries.zipIdx.forM fun (e, eidx) => validateEntry progLen pcIdx pc eidx e

def validateCertificateForProgram (cert : ProgramCertificate) (prog : List Instr) :
    Except String Unit := do
  let found := cert.version
  if found ≠ version then
    .error s!"unsupported certificate version {found} (expected {version})"
  cert.pcAnnotations.zipIdx.forM fun (ann, pcIdx) => validateAnnotation prog.length pcIdx ann

end ZoneVerifier.Certificate
