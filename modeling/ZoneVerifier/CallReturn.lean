import Mathlib.Data.Finset.Lattice.Fold
import Mathlib.Order.Lattice.Nat
import ZoneVerifier.KfuncTransfer
import ZoneVerifier.StackOps

/-!
# Calls, returns and callbacks

`push_frame` saves the caller's types, domain and tnums; `transfer_exit` restores
them and patches the return value and the proven packet ranges
(`analysis/machine/state.rs`, `analysis/transfer/call/transfer.rs`,
`analysis/transfer/mod.rs`). Rejected calls and exits are left out up to the
checks of `exitAllowed`. `transfer_callback_helper` skips the callback or enters
it in a frame of its own, and `cb_exit_propagate` builds another state behind the
call (`analysis/transfer/call/callback.rs`); the offsets a callback writes through
its context (`analysis/flow/callback_analysis.rs`) are a parameter.
-/

set_option autoImplicit false

namespace ZoneVerifier.CallReturn
open Ast RegTypes Tristate Numeric Machine StackOps
variable (s : State)

def markNotInit (r : Reg) : State :=
  let s := { s with types := s.types.set r .notInit, domain := s.domain.forget r }.setTnum r
    Tnum.unknown
  putPrecise (putPtrConstOff (s.clearScalarId r) r none) r false

def markCalleeEntryRegs : State :=
  [Reg.r0, .r6, .r7, .r8, .r9].foldl markNotInit s

def newFrame (returnPc : Nat) (callbackHelper : Option Nat) : CallFrame :=
  { CallFrame.main with
    returnPc
    callerTypes := s.types
    callerDomain := s.domain
    callerTnums := s.tnums
    isCallback := callbackHelper.isSome
    callbackHelper }

def enterFrame (frame : CallFrame) : State :=
  { s with frames := { current := frame, callers := s.frames.current :: s.frames.callers } }

def pushFrame (returnPc : Nat) : State :=
  markCalleeEntryRegs (enterFrame s (newFrame s returnPc none))

/-- A global subprogram is verified in isolation from the caller's RCU section. -/
def pushGlobalSubprogFrame (returnPc : Nat) : State :=
  let frame := { newFrame s returnPc none with callerRcuReadDepthSnapshot := some s.rcuReadDepth }
  markCalleeEntryRegs (enterFrame s frame)

def updateCallRelTypes : State :=
  { s with types := (s.types.set .r0 .notInit).set .r10 (.ptrToStack s.frames.currentLevel) }

/-- How an argument of a global subprogram is declared. -/
inductive GlobalFuncArg where
  | scalar
  | ptrToMem (memSize : Nat) (nonnull : Bool)
  | ptrToCtx
  | ptrToFwd
  | permissivePtr
  | ptrToBtfIdTrusted (typeName : String) (nullable : Bool)
  | ptrToDynptr
  | ptrToArena
  deriving DecidableEq, Repr

def globalArgType (id : Nat) : GlobalFuncArg → Option RegType
  | .scalar => some .scalarValue
  | .ptrToMem memSize nonnull =>
    some (if nonnull then .ptrToAllocMem id memSize none none false
      else .ptrToAllocMemOrNull id memSize none none false)
  | .ptrToCtx | .permissivePtr => some .ptrToCtx
  | .ptrToBtfIdTrusted typeName nullable =>
    some (if nullable then .ptrToBtfIdOrNull 0 typeName 1 none else .ptrToBtfId typeName 1 none)
  | .ptrToFwd | .ptrToDynptr | .ptrToArena => none

def overrideArg (reg : Reg) (id : Nat) (arg : GlobalFuncArg) : State :=
  match globalArgType id arg with
  | some ty => { s with types := s.types.set reg ty, domain := s.domain.forget reg }
  | none => s

def overrideArgs (ids : Nat → Nat) (args : List GlobalFuncArg) : State :=
  ([Reg.r1, .r2, .r3, .r4, .r5].zip (args.zip (List.range args.length))).foldl
    (fun s (reg, arg, i) => overrideArg s reg (ids i) arg) s

/-- `transfer_call_rel` on an accepted call; `global` holds the declared
arguments of a global subprogram. -/
def transferCallRel (target : Nat) (global : Option (List GlobalFuncArg))
    (ids : Nat → Nat) : State :=
  let s := match global with
    | some args =>
      overrideArgs (updateCallRelTypes (pushGlobalSubprogFrame s (s.pc + 1))) ids args
    | none => updateCallRelTypes (pushFrame s (s.pc + 1))
  { s with domain := s.domain.clearPacketSizeBounds, pc := target }

/-- `preserve_anchor_constraints`: the zone domain takes over tighter distances
between anchors. -/
def preserveAnchorConstraints : NumericDomain → NumericDomain → NumericDomain
  | .zone caller, .zone callee =>
    let anchors : List Reg := [.anchorData, .anchorDataEnd, .anchorDataMeta]
    let pairs := (anchors.flatMap fun a => anchors.map fun b => (a, b)).filter fun p => p.1 ≠ p.2
    .zone (pairs.foldl (fun d p =>
      if callee.get p.1 p.2 < d.get p.1 p.2 then d.addConstraint p.1 p.2 (callee.get p.1 p.2)
      else d) caller).close
  | caller, _ => caller

def restoreIntervalPtrOffsetFromReturn (d : NumericDomain) (retType : RegType)
    (saved : Option Int × Option Nat × Option Int × Option Nat) : NumericDomain :=
  match packetAnchor retType, saved with
  | some anchor, (some off, varOff, range, id) =>
    setPtrOffset d .r0 { anchor, off, varOff := varOff.getD 0, range, id, pktEndRel := none }
  | _, _ => d

def isPacketData : RegType → Bool
  | .ptrToPacket | .ptrToPacketMeta => true
  | _ => false

/-- A range proven in the callee for a callee-saved register is carried over if
the caller's pointer has the same anchor and offsets; identities are not
compared. -/
def carryPacketRange (types : TypeState) (d : NumericDomain) (reg : Reg) (calleeType : RegType)
    (saved : Option Int × Option Nat × Option Int × Option Nat) : NumericDomain :=
  match d, saved with
  | .interval ivl, (some off, varOff, some range, _) =>
    match ivl.getPtrOffset reg with
    | some p =>
      if isPacketData calleeType ∧ isPacketData (types.get reg) ∧
          packetAnchor calleeType = some p.anchor ∧ p.off = off ∧ p.varOff = varOff.getD 0 ∧
          p.range.getD 0 < range then
        setPtrOffset d reg { p with range := some range }
      else d
    | none => d
  | d, _ => d

def calleeSaved : List Reg := [.r6, .r7, .r8, .r9]

def exitAllowed : Bool :=
  !s.stack.hasActiveIterators && !s.stack.hasUnreleasedDynptrRefs &&
    !s.stack.hasUnreleasedIrqFlags && decide (s.frames.depth ≤ 8) &&
    !MemTransfer.isStackPtr (s.types.get .r0)

/-- The caller's registers with the return value; `s` is the callee's state. -/
def returnTo (frame : CallFrame) (caller : CallFrame) (callers : List CallFrame)
    (domain : NumericDomain) : State :=
  let retType := s.types.get .r0
  let ret := s.domain.getInterval .r0
  let (anchor, lo, hi) := saveAnchorInfo s .r0
  let d := (domain.forget .r0).assignInterval .r0 ret.1 ret.2
  let d := addRelation d .r0 anchor lo hi
  let d := if anchor.isSome then d.close else d
  let d := restoreIntervalPtrOffsetFromReturn d retType (saveIntervalPtrOffset s .r0)
  let types := frame.callerTypes.set .r0 retType
  let d := calleeSaved.foldl
    (fun d r => carryPacketRange types d r (s.types.get r) (saveIntervalPtrOffset s r)) d
  { s with
    types := types.set .r10 (.ptrToStack callers.length)
    domain := d
    tnums := fun q => if q = .r0 then some (s.getTnum .r0) else frame.callerTnums q
    frames := { current := caller, callers }
    rcuReadDepth := frame.callerRcuReadDepthSnapshot.getD s.rcuReadDepth
    pc := frame.returnPc }

/-- `transfer_exit` from a subprogram. `none` when the exit is rejected, ends
the main program or a callback, or contradicts what the caller knows. -/
def transferExit : Option State :=
  match s.frames.callers with
  | [] => none
  | caller :: callers =>
    let frame := s.frames.current
    let domain := preserveAnchorConstraints frame.callerDomain s.domain
    if exitAllowed s = false ∨ frame.isCallback = true ∨ domain.isInconsistent = true then none
    else some (returnTo s frame caller callers domain)

theorem transferExit_some {s s' : State} (h : transferExit s = some s') : ∃ caller callers domain,
    s.frames.callers = caller :: callers ∧
      s' = returnTo s s.frames.current caller callers domain := by
  unfold transferExit at h
  cases hcallers : s.frames.callers with
  | nil =>
    rw [hcallers] at h
    cases h
  | cons caller callers =>
    rw [hcallers] at h
    dsimp only at h
    split_ifs at h
    exact ⟨caller, callers, _, rfl, (Option.some_inj.1 h).symm⟩

end ZoneVerifier.CallReturn

namespace ZoneVerifier.Callback
open Ast RegTypes Stack Numeric Machine StackOps Signatures CallTypes CallTransfer CallReturn Widen

section Enter

/-- Whether the callback may run more than once. -/
def cbShouldWiden (d : NumericDomain) (helper : Nat) : Bool :=
  if helper = Helper.loop then decide (1 < (d.getInterval .r1).2)
  else decide (helper ∈ [Helper.forEachMapElem, Helper.userRingbufDrain, Helper.findVma])

/-- The registers of the callback that are copies of registers of the caller, as
target and source. -/
def ctxPropagations (helper : Nat) : List (Reg × Reg) :=
  if helper ∈ [Helper.loop, Helper.userRingbufDrain] then [(.r2, .r3)]
  else if helper = Helper.forEachMapElem then [(.r1, .r1), (.r4, .r3)]
  else if helper = Helper.findVma then [(.r1, .r1), (.r3, .r4)]
  else []

/-- The offsets of the callback's stores, from the caller's frame pointer. -/
def translateOffsets (d : NumericDomain) (helper : Nat) (offsets : List Int) : List Int :=
  match (callbackCtxReg helper).bind (d.getDistanceFixed · .r10) with
  | some base => (offsets.map (base + ·)).filter fun o => decide (-2^15 ≤ o ∧ o < 2^15)
  | none => []

def callbackFrame (s : State) (helper : Nat) (offsets : List Int) : CallFrame :=
  { newFrame s (s.pc + 1) (some helper) with
    callerStackSnapshot := some s.stack
    callerFrameLevel := some s.frames.currentLevel
    cbShouldWiden := cbShouldWiden s.domain helper
    cbWriteableCallerOffsets := translateOffsets s.domain helper offsets }

def declareArg (s : State) (r : Reg) (ty : RegType) : State := resetReg (setType s r ty) r

def declareElem (s : State) (r : Reg) (mapIdx : Option Nat) (id : Nat) (rdonly : Bool) : State :=
  match mapIdx with
  | some m =>
    let s := declareArg s r (.ptrToMapValue id (some 0) m none rdonly)
    { s with domain := s.domain.initMapValuePtr r }
  | none => declareArg s r (.ptrToBtfId "unknown" PtrFlags.trusted none)

/-- The arguments that do not come from the caller's registers. `s₀` is the state
of the caller. -/
def declareArgs (s₀ s : State) (helper : Nat) (ids : Nat → Nat) : State :=
  if helper = Helper.loop then allocScalarId (declareArg s .r1 .scalarValue) .r1 (ids 0)
  else if helper = Helper.forEachMapElem then
    let mapIdx := match s.types.get .r1 with
      | .ptrToMapObject mapIdx => some mapIdx
      | _ => none
    declareElem (declareElem s .r2 mapIdx (ids 0) true) .r3 mapIdx (ids 1) false
  else if helper = Helper.userRingbufDrain then declareArg s .r1 (.ptrToDynptr .user true)
  else if helper = Helper.findVma then
    declareArg s .r2 (.ptrToBtfId "vm_area_struct" PtrFlags.trusted none)
  else if helper = Helper.timerSetCallback then
    let mapIdx := match s₀.types.get .r1 with
      | .ptrToMapValue _ _ mapIdx _ _ => some mapIdx
      | _ => none
    let unknown : RegType := .ptrToBtfId "unknown" PtrFlags.trusted none
    let s := declareArg s .r1 (mapIdx.elim unknown .ptrToMapObject)
    declareElem (declareArg s .r2 unknown) .r3 mapIdx (ids 0) false
  else s

def enterCallback (s : State) (helper entry : Nat) (offsets : List Int) (ids : Nat → Nat) :
    State :=
  let s₀ := s
  let copies := ctxPropagations helper
  let s := updateCallRelTypes (markCalleeEntryRegs (enterFrame s (callbackFrame s helper offsets)))
  let s := modifyDomain s (·.clearPacketSizeBounds)
  let s := copies.foldl (fun s c => modifyDomain s (·.assignReg c.1 c.2)) s
  let s := scratchRegs.foldl (fun s r =>
    if copies.any (fun c => decide (c.1 = r)) then s else declareArg s r .notInit) s
  let s := copies.foldl (fun s c =>
    ((setType s c.1 (s₀.types.get c.2)).setTnum c.1 (s₀.getTnum c.2)).clearScalarId c.1) s
  { declareArgs s₀ s helper ids with pc := entry }

end Enter

section Return

/-- The slots the callback changed on the caller's stack are forgotten. -/
def forgetChanged (snapshot stack : StackState) : StackState :=
  let changed := (stack.slots.keys ∪ snapshot.slots.keys).filter fun o =>
    stack.slots.find o ≠ snapshot.slots.find o
  { slots := stack.slots.markDifferences snapshot.slots SpilledReg.misc
    allocatedStack := max stack.allocatedStack
      (changed.sup fun o => (StackState.growAllocated StackState.empty o).allocatedStack) }

def widenCaller (frame : CallFrame) (s : State) : State :=
  match frame.callerStackSnapshot, frame.callerFrameLevel with
  | some snapshot, some level =>
    if frame.cbShouldWiden then
      modifyStackAt s level fun stack =>
        frame.cbWriteableCallerOffsets.foldl StackState.invalidateSlot (forgetChanged snapshot stack)
    else s
  | _, _ => s

/-- The registers behind the call: those the caller saved, an unknown result and
unknown scalars in the argument registers. -/
def restoreRegs (env : CallEnv) (s : State) (frame : CallFrame) (caller : CallFrame)
    (callers : List CallFrame) (id : Nat) : State :=
  let helper := frame.callbackHelper.getD 0
  let s := { s with
    types := frame.callerTypes, domain := frame.callerDomain, tnums := frame.callerTnums
    frames := { current := caller, callers } }
  let s := (applyReturnBounds env (setType s .r0 .scalarValue) helper id).clearScalarId .r0
  scratchRegs.foldl (fun s r => declareArg s r .scalarValue) s

/-- `cb_exit_propagate`; `prev` is an earlier visit of the return address. -/
def cbExitPropagate (env : CallEnv) (s : State) (frame : CallFrame) (caller : CallFrame)
    (callers : List CallFrame) (prev : Option State) (precisePcs : Nat → Reg → Bool)
    (force : Bool) (id : Nat) : State :=
  let s := widenCaller frame (restoreRegs env s frame caller callers id)
  let s := { s with pc := frame.returnPc }
  match prev with
  | some p => if frame.cbShouldWiden then widenImpreciseScalars precisePcs force false p s else s
  | none => s

def callbackExitAllowed (s : State) : Bool :=
  exitAllowed s && decide (s.types.get .r0 = .scalarValue) &&
    (decide (s.frames.current.callbackHelper ∉
        [some Helper.loop, some Helper.forEachMapElem, some Helper.userRingbufDrain]) ||
      decide (0 ≤ (s.domain.getInterval .r0).1 ∧ (s.domain.getInterval .r0).2 ≤ 1))

def transferCallbackExit (env : CallEnv) (s : State) (prev : Option State)
    (precisePcs : Nat → Reg → Bool) (force : Bool) (id : Nat) : Option State :=
  match s.frames.callers with
  | [] => none
  | caller :: callers =>
    if s.frames.current.isCallback ∧ callbackExitAllowed s then
      some (cbExitPropagate env s s.frames.current caller callers prev precisePcs force id)
    else none

end Return

end ZoneVerifier.Callback
