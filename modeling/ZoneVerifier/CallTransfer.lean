import ZoneVerifier.CallTypes

/-!
# Helper calls

The successors of a helper call at the next instruction: the normal path of
`transfer_call` and those of `bpf_tail_call`, `bpf_kptr_xchg` and the helpers that
take a callback (`analysis/transfer/call/transfer.rs`,
`analysis/transfer/call/callback.rs`). The state is the one behind the checks,
which are not part of the model; `inTypes` are the types at the call.
-/

set_option autoImplicit false

namespace ZoneVerifier.CallTransfer
open Ast RegTypes Tristate Bounds Stack Numeric Machine StackOps MemTransfer Signatures CallTypes

section Reset

def forgetReg (s : State) (r : Reg) : State := { s with domain := s.domain.forget r }

def resetReg (s : State) (r : Reg) : State :=
  ((forgetReg s r).setTnum r Tnum.unknown).clearScalarId r

def resetScratch (s : State) : State := scratchRegs.foldl resetReg s

def dropPtrConstOffs (s : State) : State :=
  callerSaved.foldl (fun s r => putPtrConstOff s r none) s

def allocScalarId (s : State) (r : Reg) (id : Nat) : State :=
  putScalarIdOff (putScalarId s r (some id)) r none

/-- An unknown scalar result gets an identity, any other result loses it. -/
def identifyResult (s : State) (id : Nat) : State :=
  if s.types.get .r0 = .scalarValue ∧ (s.getTnum .r0).isUnknown = true then allocScalarId s .r0 id
  else s.clearScalarId .r0

end Reset

section ReturnBounds

def maxErrno : Int := 4095

/-- The unsigned and the 32-bit intervals start over from the signed one. -/
def restoreFullUnsignedRange (d : NumericDomain) (x : Reg) : NumericDomain :=
  match d with
  | .zone d => .zone d
  | .interval s => .interval (s.modifyBounds x fun b =>
      { b with umin := 0, umax := 2^64 - 1, u32Min := 0, u32Max := 2^32 - 1,
               s32Min := -2^31, s32Max := 2^31 - 1 }.syncBounds)

def mixedSignRange (d : NumericDomain) (lo hi : Int) : NumericDomain :=
  let d := if hi ≠ 2^63 - 1 then d.assumeLeImm .r0 hi else d
  let d := d.assumeGeImm .r0 lo
  if (d.getInterval .r0).1 < 0 then restoreFullUnsignedRange d .r0 else d

def intervalSetScalarId (d : NumericDomain) (r : Reg) (id : Nat) : NumericDomain :=
  match d with
  | .zone d => .zone d
  | .interval s => .interval (s.modifyBounds r fun b => { b with scalarId := some id })

def u32Unknown : Tnum := { value := 0, mask := 0xFFFFFFFF }

def modifyDomain (s : State) (f : NumericDomain → NumericDomain) : State :=
  { s with domain := f s.domain }

def sizeMax (env : CallEnv) (d : NumericDomain) (helper : Nat) : Int :=
  match (getHelperProto env helper).bind (·.memSizePairs.head?) with
  | some pair => (d.getInterval pair.sizeReg).2
  | none => 2^63 - 1

def narrowResult (env : CallEnv) (s : State) (helper id : Nat) : State :=
  if helper = Helper.redirect then
    modifyDomain s fun d => (d.assumeGeImm .r0 0).assumeLeImm .r0 7
  else if helper = Helper.fibLookup then
    modifyDomain s fun d => (d.assumeGeImm .r0 0).assumeLeImm .r0 8
  else if helper ∈ [Helper.getPrandomU32, Helper.getCgroupClassId, Helper.getHashRecalc] then
    modifyDomain ((modifyDomain s fun d =>
      (d.assumeGeImm .r0 0).assumeLeImm .r0 0xFFFFFFFF).setTnum .r0 u32Unknown)
      fun d => intervalSetScalarId d .r0 id
  else if helper = Helper.csumDiff then
    (modifyDomain s fun d => mixedSignRange d (-maxErrno) 0xFFFFFFFF).setTnum .r0 u32Unknown
  else if helper = Helper.getTaskStack then
    modifyDomain s fun d => d.assumeLeImm .r0 (sizeMax env d helper)
  else if helper ∈ [Helper.getStack, Helper.getBranchSnapshot] then
    modifyDomain s fun d => mixedSignRange d (-maxErrno) (sizeMax env d helper)
  else if helper ∈ [Helper.probeReadStr, Helper.probeReadUserStr, Helper.probeReadKernelStr] then
    modifyDomain s fun d => mixedSignRange d (-maxErrno) (d.getInterval .r2).2
  else if helper = Helper.kfuncCallDummy then
    setType s .r0 (.ptrToBtfId "unknown" PtrFlags.untrusted none)
  else s

def applyReturnBounds (env : CallEnv) (s : State) (helper id : Nat) : State :=
  let s := if isMapValueType (s.types.get .r0) then s
    else (forgetReg s .r0).setTnum .r0 Tnum.unknown
  narrowResult env s helper id

end ReturnBounds

section Buffers

def argIndex : Reg → Nat
  | .r2 => 1
  | .r3 => 2
  | .r4 => 3
  | .r5 => 4
  | _ => 0

def isUninitMem : ArgKind → Bool
  | .ptrToUninitMem | .ptrToUninitMemOrNull => true
  | _ => false

def clobberBytes (stack : StackState) (off : Int) (n : Nat) : StackState :=
  let stack := if -2^15 ≤ off ∧ off < 2^15 then stack.scrubSpilledSlotsForWrite off n else stack
  (List.range n).foldl (fun stack (i : Nat) =>
    let slot := off + (i : Int)
    if -2^15 ≤ slot ∧ slot < 2^15 then
      (updateStoreTypes stack .scalarValue .u8 (some slot)).invalidateSlot slot
    else stack) stack

/-- One pointer argument and its size; `size` is the largest size, at most the
whole stack is clobbered. -/
def initializePair (inTypes : TypeState) (args : List ArgKind) (s : State) (pair : MemSizePair) :
    State :=
  if (args[argIndex pair.ptrReg]?).any isUninitMem then
    match inTypes.get pair.ptrReg, s.domain.getDistanceFixed pair.ptrReg .r10 with
    | .ptrToStack level, some off =>
      let size := (s.domain.getInterval pair.sizeReg).2
      if size ≠ 2^63 - 1 ∧ 0 < size then
        modifyStackAt s level fun stack => clobberBytes stack off (min size.toNat 512)
      else s
    | _, _ => s
  else s

def initializeUninitMemArgs (env : CallEnv) (inTypes : TypeState) (s : State) (helper : Nat) :
    State :=
  match getHelperProto env helper with
  | some proto => proto.memSizePairs.foldl (initializePair inTypes proto.args) s
  | none => s

end Buffers

section Packets

def resetPacketAnchors : NumericDomain → NumericDomain
  | .zone d =>
    let d := { d with data := fun i j =>
      if i.isAnchor ∨ j.isAnchor then (if i = j then 0 else Zone.inf) else d.data i j }
    .zone ((d.addConstraint .anchorDataMeta .anchorData 0).addConstraint .anchorData
      .anchorDataEnd 0).close
  | .interval s =>
    .interval ([Reg.anchorDataMeta, .anchorData, .anchorDataEnd].foldl (fun s a =>
      s.set a (Interval.RegInterval.withPtrOffset ScalarBounds.unknown
        (Interval.PtrOffset.atAnchor a))) s)

def forgetPackets (inTypes : TypeState) (s : State) : State :=
  Reg.all.foldl (fun s r =>
    if r ≠ .r10 ∧ (inTypes.get r).isPacketPtr = true then forgetReg s r else s) s

end Packets

section Paths
variable (env : CallEnv)

def nextPc (s : State) : State := { s with pc := s.pc + 1 }

def normalCall (inTypes : TypeState) (s : State) (helper : Nat)
    (ids : Nat → Nat) : State :=
  let s := updateCallTypes env inTypes s helper ids
  let s := identifyResult (applyReturnBounds env s helper (ids 0)) (ids 0)
  let s := initializeUninitMemArgs env inTypes s helper
  let s := dropPtrConstOffs (resetScratch s)
  let s := if helperInvalidatesPackets helper then
      modifyDomain (forgetPackets inTypes s) resetPacketAnchors
    else s
  nextPc s

/-- `bpf_tail_call`: what a packet pointer becomes. -/
def tailCallSweep (ty : RegType) : RegType :=
  if ty.isPacketPtr then (if env.isPrivileged then .scalarValue else .notInit) else ty

def tailCall (inTypes : TypeState) (s : State) (ids : Nat → Nat) : State :=
  let s := updateCallTypes env inTypes s Helper.tailCall ids
  let s := dropPtrConstOffs (callerSaved.foldl forgetReg s)
  let s := Reg.all.foldl (fun s r =>
    if r ≠ .r10 ∧ (s.types.get r).isPacketPtr = true then
      forgetReg (setType s r (tailCallSweep env (s.types.get r))) r
    else s) s
  let s := { s with frames := s.frames.map fun f =>
    { f with
      stack := { f.stack with slots := f.stack.slots.mapValues fun sp =>
        { sp with regType := tailCallSweep env sp.regType } }
      callerTypes := [Reg.r6, .r7, .r8, .r9].foldl (fun t r =>
        t.set r (tailCallSweep env (t.get r))) f.callerTypes } }
  nextPc s

def resolveKptr (s : State) : Option (KptrFieldKind × Nat) :=
  match s.types.get .r1 with
  | .ptrToMapValue _ offset mapIdx _ _ =>
    let fromDomain := match s.domain with
      | .interval ivl =>
        (ivl.getPtrOffset .r1).bind fun p => if p.varOff = 0 then some p.off else none
      | .zone _ => none
    (offset.or fromDomain).bind (env.mapKptrField mapIdx)
  | .ptrToOwnedKptr _ offset _ (some pointee) => env.structKptrField pointee offset
  | .ptrToMapKptr pointee _ flags offset =>
    if PtrFlags.contains flags PtrFlags.memAlloc then env.structKptrField pointee offset else none
  | _ => none

def slotFlags : KptrFieldKind → Option PtrFlags
  | .ref => some PtrFlags.memAlloc
  | .rcu => some PtrFlags.rcu
  | .percpu => some PtrFlags.percpu
  | .unref | .uptr => none

/-- `bpf_kptr_xchg` consumes the reference in `R2` and returns the old one; the
types of `R1` to `R5` stay. -/
def kptrXchg (s : State) (id : Nat) : Option State :=
  match resolveKptr env s with
  | none => none
  | some (kind, pointee) =>
    (slotFlags kind).map fun flags =>
      let s := match (s.types.get .r2).getRefId with
        | some refId =>
          let s := s.releaseRef refId
          if s.rcuReadDepth > 0 then convertRefToNonOwning s refId else s.invalidateRef refId
        | none => s
      let s := setType (acquireRef s id) .r0 (.ptrToMapKptrOrNull pointee (some id) flags 0)
      let s := (forgetReg s .r0).clearScalarId .r0
      nextPc (scratchRegs.foldl forgetReg s)

def isCallbackHelper (helper : Nat) : Bool :=
  decide (helper ∈ [Helper.loop, Helper.forEachMapElem, Helper.timerSetCallback,
    Helper.userRingbufDrain, Helper.findVma])

def callbackCtxReg (helper : Nat) : Option Reg :=
  if helper ∈ [Helper.loop, Helper.forEachMapElem, Helper.userRingbufDrain] then some .r3
  else if helper = Helper.findVma then some .r4
  else none

/-- A callback that may write to a dynptr through its context destroys it. -/
def dropReinitialisedDynptrs (s : State) (helper : Nat) : State :=
  match (callbackCtxReg helper).bind (resolveStackArg s) with
  | some (level, off) =>
    let stack := stackAt s level
    invalidateDynptrSlices (modifyStackAt s level fun stack => clearTouchedDynptrs stack off 16)
      (dynptrIdTouched stack off 16)
  | none => s

def callbackSkip (inTypes : TypeState) (s : State) (helper : Nat)
    (couldReinit : Bool) (ids : Nat → Nat) : State :=
  let s₀ := s
  let s := if couldReinit then dropReinitialisedDynptrs s helper else s
  let s := updateCallTypes env inTypes s helper ids
  let s := identifyResult (applyReturnBounds env s helper (ids 0)) (ids 0)
  { resetScratch s with pc := s₀.pc + 1 }

def transferCall (inTypes : TypeState) (s : State) (helper : Nat)
    (couldReinit : Bool) (ids : Nat → Nat) : Option State :=
  if helper = Helper.tailCall then some (tailCall env inTypes s ids)
  else if helper = Helper.kptrXchg then kptrXchg env s (ids 0)
  else if isCallbackHelper helper then some (callbackSkip env inTypes s helper couldReinit ids)
  else some (normalCall env inTypes s helper ids)

end Paths

end ZoneVerifier.CallTransfer
