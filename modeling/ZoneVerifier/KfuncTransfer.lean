import ZoneVerifier.CallTransfer

/-!
# Kfunc calls

The successors of a kfunc call at the next instruction, driven by its prototype:
the two outcomes of an iterator's `next`, with the scalars that differ from an
earlier visit widened, the two outcomes of taking a resilient spin lock, the
registration of a work queue callback, and the normal path
(`analysis/transfer/call/kfunc.rs`). As for helpers, the checks in front of the
call are not part of the model.
-/

set_option autoImplicit false

namespace ZoneVerifier.Widen
open Ast Stack Machine StackOps CallTransfer

def aliasedRegs (ids : Reg → Option Nat) (r : Reg) : List Reg :=
  Reg.all.filter fun q => decide (q = r ∨ ((ids r).isSome = true ∧ ids q = ids r))

/-- Whether a precision mark keeps a register; `precisePcs` are the marks left at
instructions. At an iterator's `next` only the marks of the state itself count. -/
def keptPrecise (precisePcs : Nat → Reg → Bool) (prev cur : State) (atIterNext : Bool) (r : Reg) :
    Bool :=
  cur.preciseRegs r || (!atIterNext && (prev.preciseRegs r ||
    (aliasedRegs cur.scalarIds r ++ aliasedRegs prev.scalarIds r).any fun q =>
      precisePcs prev.pc q || precisePcs cur.pc q))

def differs (prev cur : State) (r : Reg) : Bool :=
  decide (cur.types.get r = .scalarValue ∧ prev.types.get r = .scalarValue ∧
    (cur.domain.getInterval r ≠ prev.domain.getInterval r ∨ cur.getTnum r ≠ prev.getTnum r))

def widenReg (force : Bool) (s : State) (r : Reg) : State :=
  let s := resetReg s r
  if force then putPrecise s r false else s

/-- `widen_slot`: the join of two spilled scalars. -/
def widenSlot (prev sp : SpilledReg) : SpilledReg :=
  let keepsId := decide (sp.sourceReg = prev.sourceReg ∧ sp.scalarId = prev.scalarId ∧
    sp.scalarIdOff = prev.scalarIdOff)
  { sp with
    bounds := { min := min sp.bounds.min prev.bounds.min, max := max sp.bounds.max prev.bounds.max }
    tnum := sp.tnum.widen prev.tnum
    sourceReg := if sp.sourceReg = prev.sourceReg then sp.sourceReg else none
    scalarId := if keepsId then sp.scalarId else none
    scalarIdOff := if keepsId then sp.scalarIdOff else none
    precise := false
    ptrBounds := none }

def widenEntry (force : Bool) (prev sp : SpilledReg) : SpilledReg :=
  if prev.regType = .scalarValue ∧ sp.regType = .scalarValue ∧
      (prev.tnum ≠ sp.tnum ∨ prev.bounds ≠ sp.bounds) ∧
      (force = true ∨ (sp.precise = false ∧ prev.precise = false)) then widenSlot prev sp
  else sp

def widenStack (force : Bool) (prev stack : StackState) : StackState :=
  { stack with slots := stack.slots.mapEntries fun off sp =>
      match prev.slots.find off with
      | some p => widenEntry force p sp
      | none => sp }

def widenedRegs : List Reg := [.r0, .r1, .r2, .r3, .r4, .r5, .r6, .r7, .r8, .r9]

/-- `force` holds once a loop has been visited very often. -/
def widenImpreciseScalars (precisePcs : Nat → Reg → Bool) (force atIterNext : Bool)
    (prev cur : State) : State :=
  let widened := widenedRegs.filter fun r =>
    (force || !keptPrecise precisePcs prev cur atIterNext r) && differs prev cur r
  let s := widened.foldl (widenReg force) cur
  (List.range (min cur.frames.depth prev.frames.depth)).foldl (fun s level =>
    match prev.frames.get level with
    | some frame => modifyStackAt s level (widenStack force frame.stack)
    | none => s) s

end ZoneVerifier.Widen

namespace ZoneVerifier.KfuncTransfer
open RegTypes Tristate Machine StackOps Signatures CallTypes CallTransfer Widen

section IterNext

def clobberCallerSaved (s : State) : State :=
  scratchRegs.foldl (fun s r => resetReg (setType s r .notInit) r) s

def iterNull (s : State) (level : Nat) (off : Int) : State :=
  let s := match getIterator (stackAt s level) off with
    | some it => modifyStackAt s level fun stack =>
        putIterator stack off (some { it with state := .drained })
    | none => s
  let s := setType s .r0 .scalarValue
  let s := modifyDomain s fun d => ((d.forget .r0).assumeGeImm .r0 0).assumeLeImm .r0 0
  nextPc (clobberCallerSaved ((s.setTnum .r0 (Tnum.constant 0)).clearScalarId .r0))

def iterElement (s : State) (level : Nat) (off : Int) (ty : RegType) : State :=
  let s := match getIterator (stackAt s level) off with
    | some it => modifyStackAt s level fun stack =>
        putIterator stack off (some { it with depth := it.depth + 1 })
    | none => s
  nextPc (clobberCallerSaved (resetReg (setType s .r0 ty) .r0))

/-- `prev` is the visit of the step before, if it is still known. -/
def iterNextFork (s : State) (iterArg : Nat) (ty : RegType) (prev : Option State) (force : Bool) :
    List State :=
  match resolveStackArg s (argReg iterArg) with
  | none => []
  | some (level, off) =>
    match getIterator (stackAt s level) off with
    | some it =>
      if it.untrusted then []
      else if it.state = .drained then [iterNull s level off]
      else
        let element := iterElement s level off ty
        let element := match prev with
          | some p => widenImpreciseScalars (fun _ _ => false) force true p element
          | none => element
        [element, iterNull s level off]
    | none => [iterElement s level off ty, iterNull s level off]

end IterNext

section Paths

def scratchUnlessFastcall (flags : CallFlags) (s : State) : State :=
  if flags.contains .fastcall then s
  else scratchRegs.foldl (fun s r => putPtrConstOff (resetReg (setType s r .notInit) r) r none) s

def lockIdentity : RegType → Option (Nat × Nat)
  | .ptrToMapValue id _ mapIdx _ _ => some (id, mapIdx)
  | .ptrToOwnedKptr refId _ _ _ => some (refId.getD 0, 0)
  | _ => none

def isLockIrqSave : SideEffect → Bool
  | .irqSaveOnArg _ .lock => true
  | _ => false

def resLockFail (flags : CallFlags) (s : State) : State :=
  let s := resetReg (setType s .r0 .scalarValue) .r0
  let s := modifyDomain s fun d => (d.assumeGeImm .r0 (-maxErrno)).assumeLeImm .r0 (-1)
  nextPc (putPtrConstOff (scratchUnlessFastcall flags s) .r0 none)

def resLockSuccess (env : CallEnv) (inTypes : TypeState) (s : State) (proto : CallProto)
    (lock : Nat × Nat) (ids : Nat → Nat) : State :=
  let entry : ResLockEntry :=
    { regId := lock.1, ptrId := lock.2, isIrq := proto.sideEffects.any isLockIrqSave }
  let s := { s with acquiredResLocks := entry :: s.acquiredResLocks }
  let s := (applyCallProtoR0 env inTypes s proto ids).1
  let s := (modifyDomain s fun d => d.assumeEqImm .r0 0).setTnum .r0 (Tnum.constant 0)
  nextPc (putPtrConstOff (scratchUnlessFastcall proto.flags s) .r0 none)

def resSpinLock (env : CallEnv) (inTypes : TypeState) (s : State) (proto : CallProto)
    (ids : Nat → Nat) : List State :=
  match lockIdentity (inTypes.get .r1) with
  | none => []
  | some lock =>
    if s.acquiredResLocks.any fun e => decide (e.regId = lock.1 ∧ e.ptrId = lock.2) then []
    else [resLockSuccess env inTypes s proto lock ids, resLockFail proto.flags s]

/-- `bpf_wq_set_callback_impl`, without the successor that enters the callback. -/
def wqSetCallbackSkip (env : CallEnv) (inTypes : TypeState) (s : State) (proto : CallProto)
    (ids : Nat → Nat) : State :=
  let s₀ := s
  let s := (applyCallProtoR0 env inTypes s proto ids).1
  { clobberCallerSaved s with pc := s₀.pc + 1 }

def setPointee (ty : RegType) (pointee : Nat) (nodeOffset : Option Int) : RegType :=
  match ty with
  | .ptrToOwnedKptr refId offset nonOwning _ =>
    .ptrToOwnedKptr refId (nodeOffset.getD offset) nonOwning (some pointee)
  | .ptrToOwnedKptrOrNull refId _ offset =>
    .ptrToOwnedKptrOrNull refId (some pointee) (nodeOffset.getD offset)
  | ty => ty

/-- What `apply_kfunc_name_specific_ret` makes of `R0` for a kfunc it knows by
name. -/
inductive RetFixup where
  | none
  | pointee (btfId : Nat) (nodeOffset : Option Int)
  | percpuObjNew (typeName : String)
  | castToKernCtx (typeName : Option String)
  | rdonlyCast (typeName : String)

def applyRetFixup (s : State) (id : Nat) : RetFixup → State
  | .none => s
  | .pointee btfId nodeOffset => setType s .r0 (setPointee (s.types.get .r0) btfId nodeOffset)
  | .percpuObjNew typeName =>
    setType (acquireRef s id) .r0 (.ptrToBtfIdOrNull id typeName
      (PtrFlags.trusted ||| PtrFlags.percpu ||| PtrFlags.memAlloc) (some id))
  | .castToKernCtx (some typeName) => setType s .r0 (.ptrToBtfId typeName PtrFlags.trusted .none)
  | .castToKernCtx .none => setType s .r0 .scalarValue
  | .rdonlyCast typeName =>
    setType s .r0 (.ptrToBtfId typeName (PtrFlags.trusted ||| PtrFlags.rdonly) .none)

def normalKfunc (env : CallEnv) (inTypes : TypeState) (s : State) (proto : CallProto)
    (fixup : RetFixup) (ids : Nat → Nat) : State :=
  let s := (applyCallProtoR0 env inTypes s proto ids).1
  let s := applyRetFixup s (ids (proto.sideEffects.length + 1)) fixup
  let s := resetReg (scratchUnlessFastcall proto.flags s) .r0
  nextPc (putPtrConstOff s .r0 none)

/-- A kfunc call: its prototype, whether it registers a work queue callback, the
fixup its name selects and, for an iterator, the visit before. -/
structure KfuncCall where
  proto : CallProto
  isWqSetCallback : Bool
  fixup : RetFixup
  prev : Option State
  force : Bool

def transferKfunc (env : CallEnv) (inTypes : TypeState) (s : State) (call : KfuncCall)
    (ids : Nat → Nat) : List State :=
  if call.isWqSetCallback then [wqSetCallbackSkip env inTypes s call.proto ids]
  else match call.proto.ret with
    | .iterNextElem iterArg elemSize =>
      iterNextFork s iterArg (.ptrToAllocMem (ids 0) elemSize none none false) call.prev call.force
    | .iterNextBtfId iterArg typeName flags =>
      iterNextFork s iterArg (.ptrToBtfId typeName flags none) call.prev call.force
    | _ =>
      if call.proto.flags.contains .resSpinLockAcquire then
        resSpinLock env inTypes s call.proto ids
      else [normalKfunc env inTypes s call.proto call.fixup ids]

end Paths

end ZoneVerifier.KfuncTransfer
