import ZoneVerifier.Signatures
import ZoneVerifier.StackOps

/-!
# Types after a helper call

`apply_call_proto_r0` runs the declared effects and types `R0`;
`update_call_types` adds the helpers without such a prototype, scratches `R1` to
`R5` and invalidates packet pointers (`analysis/transfer/call/side_effects.rs`,
`analysis/transfer/types.rs`). The prototypes that matter are spelled out, the
others are a parameter, and so are fresh identities.
-/

set_option autoImplicit false

namespace ZoneVerifier.CallTypes
open Ast RegTypes Stack Machine StackOps MemTransfer Signatures
open CallProto (withArgs)

namespace Helper

def mapLookupElem : Nat := 1
def getPrandomU32 : Nat := 7
def skbStoreBytes : Nat := 9
def tailCall : Nat := 12
def cloneRedirect : Nat := 13
def getCgroupClassId : Nat := 17
def skbVlanPush : Nat := 18
def skbVlanPop : Nat := 19
def redirect : Nat := 23
def skbLoadBytes : Nat := 26
def csumDiff : Nat := 28
def skbChangeProto : Nat := 31
def getHashRecalc : Nat := 34
def skbChangeTail : Nat := 38
def skbPullData : Nat := 39
def skbChangeHead : Nat := 43
def xdpAdjustHead : Nat := 44
def probeReadStr : Nat := 45
def skbAdjustRoom : Nat := 50
def xdpAdjustMeta : Nat := 54
def xdpAdjustTail : Nat := 65
def getStack : Nat := 67
def fibLookup : Nat := 69
def getLocalStorage : Nat := 81
def skLookupTcp : Nat := 84
def skLookupUdp : Nat := 85
def skRelease : Nat := 86
def spinLock : Nat := 93
def spinUnlock : Nat := 94
def skFullsock : Nat := 95
def tcpSock : Nat := 96
def getListenerSock : Nat := 98
def skcLookupTcp : Nat := 99
def skStorageGet : Nat := 107
def probeReadUserStr : Nat := 114
def probeReadKernelStr : Nat := 115
def ringbufReserve : Nat := 131
def ringbufSubmit : Nat := 132
def ringbufDiscard : Nat := 133
def skcToTcp6Sock : Nat := 136
def skcToTcpSock : Nat := 137
def skcToTcpTimewaitSock : Nat := 138
def skcToTcpRequestSock : Nat := 139
def skcToUdp6Sock : Nat := 140
def getTaskStack : Nat := 141
def inodeStorageGet : Nat := 145
def perCpuPtr : Nat := 153
def thisCpuPtr : Nat := 154
def taskStorageGet : Nat := 156
def sockFromFile : Nat := 162
def forEachMapElem : Nat := 164
def timerSetCallback : Nat := 170
def taskPtRegs : Nat := 175
def getBranchSnapshot : Nat := 176
def skcToUnixSock : Nat := 178
def findVma : Nat := 180
def loop : Nat := 181
def kptrXchg : Nat := 194
def mapLookupPercpuElem : Nat := 195
def skcToMptcpSock : Nat := 196
def dynptrFromMem : Nat := 197
def ringbufReserveDynptr : Nat := 198
def ringbufSubmitDynptr : Nat := 199
def ringbufDiscardDynptr : Nat := 200
def dynptrRead : Nat := 201
def dynptrWrite : Nat := 202
def dynptrData : Nat := 203
def userRingbufDrain : Nat := 209
def cgrpStorageGet : Nat := 210
def kfuncCallDummy : Nat := 213
def rcuReadLock : Nat := 217
def rcuReadUnlock : Nat := 218

end Helper

/-- What the lookup helpers read of a map definition. -/
structure MapDef where
  mapType : Nat
  keySize : Nat
  maxEntries : Nat
  innerMapIdx : Option Nat

def isMapOfMaps (m : MapDef) : Bool := decide (m.mapType = 12 ∨ m.mapType = 13)

def isSockMap (m : MapDef) : Bool := decide (m.mapType = 15 ∨ m.mapType = 18)

def isArrayMap (m : MapDef) : Bool := decide (m.mapType = 2 ∨ m.mapType = 6)

inductive KptrFieldKind where
  | unref | ref | rcu | percpu | uptr
  deriving DecidableEq, Repr

/-- The parts of the program's context that calls read: the rest of the table of
prototypes, the maps, the types, and the kptr fields of a map value or a struct
by their offset. -/
structure CallEnv where
  otherProtos : Nat → Option CallProto
  mapDefs : Nat → Option MapDef
  structName : Nat → Option String
  mapKptrField : Nat → Int → Option (KptrFieldKind × Nat)
  structKptrField : Nat → Int → Option (KptrFieldKind × Nat)
  isPrivileged : Bool
  /-- `SchedCls` and `SchedAct` programs may write to the packet. -/
  isSched : Bool

/-- The entries of the table that are read below: the helpers that change
packets, those with a declared range, those with a path of their own, those that
take or drop a lock, a section or a ring buffer record, and those on dynptrs. -/
def knownProtos : List (Nat × CallProto) :=
  [(Helper.getPrandomU32, .withArgs []),
   (Helper.skbStoreBytes,
     { withArgs [.ptrToCtx, .anything, .ptrToMem, .constSize] with
       memSizePairs := [.new .r3 .r4] }),
   (Helper.tailCall, .withArgs [.ptrToCtx, .constMapPtr, .anything]),
   (Helper.cloneRedirect, .withArgs [.ptrToCtx, .anything, .anything]),
   (Helper.getCgroupClassId, .withArgs [.ptrToCtx]),
   (Helper.skbVlanPush, .withArgs [.ptrToCtx, .anything, .anything]),
   (Helper.skbVlanPop, .withArgs [.ptrToCtx]),
   (Helper.redirect, .withArgs [.anything, .anything]),
   (Helper.skbLoadBytes,
     { withArgs [.ptrToCtx, .anything, .ptrToUninitMem, .constSize] with
       memSizePairs := [.new .r3 .r4] }),
   (Helper.csumDiff,
     { withArgs [.ptrToMemOrNull, .constSizeOrZero, .ptrToMemOrNull, .constSizeOrZero,
         .anything] with
       memSizePairs := [.newNullable .r1 .r2, .newNullable .r3 .r4] }),
   (Helper.skbChangeProto, .withArgs [.ptrToCtx, .anything, .anything]),
   (Helper.getHashRecalc, .withArgs [.ptrToCtx]),
   (Helper.skbChangeTail, .withArgs [.ptrToCtx, .anything, .anything]),
   (Helper.skbPullData, .withArgs [.ptrToCtx, .anything]),
   (Helper.skbChangeHead, .withArgs [.ptrToCtx, .anything, .anything]),
   (Helper.xdpAdjustHead, .withArgs [.ptrToCtx, .anything]),
   (Helper.probeReadStr,
     { withArgs [.ptrToUninitMem, .constSizeOrZero, .anything] with
       memSizePairs := [.newNullable .r1 .r2] }),
   (Helper.skbAdjustRoom, .withArgs [.ptrToCtx, .anything, .anything, .anything]),
   (Helper.xdpAdjustMeta, .withArgs [.ptrToCtx, .anything]),
   (Helper.xdpAdjustTail, .withArgs [.ptrToCtx, .anything]),
   (Helper.getStack,
     { withArgs [.ptrToCtx, .ptrToUninitMem, .constSizeOrZero, .anything] with
       memSizePairs := [.newNullable .r2 .r3] }),
   (Helper.fibLookup, .withArgs [.ptrToCtx, .ptrToMem, .anything, .anything]),
   (Helper.spinLock,
     { withArgs [.mapValueSpecial] with ret := .scalar, flags := .spinLockAcquire }),
   (Helper.spinUnlock,
     { withArgs [.mapValueSpecial] with ret := .scalar, flags := .spinLockRelease }),
   (Helper.probeReadUserStr,
     { withArgs [.ptrToUninitMem, .constSizeOrZero, .anything] with
       ret := .scalar, memSizePairs := [.newNullable .r1 .r2] }),
   (Helper.probeReadKernelStr,
     { withArgs [.ptrToUninitMem, .constSizeOrZero, .anything] with
       ret := .scalar, memSizePairs := [.newNullable .r1 .r2] }),
   (Helper.ringbufReserve, .withArgs [.constMapPtr, .constAllocSizeOrZero, .anything]),
   (Helper.ringbufSubmit, .withArgs [.ptrToAllocMem, .anything]),
   (Helper.ringbufDiscard, { withArgs [.ptrToAllocMem, .anything] with ret := .scalar }),
   (Helper.getTaskStack,
     { withArgs [.ptrToBtfId, .ptrToUninitMem, .constSizeOrZero, .anything] with
       memSizePairs := [.new .r2 .r3] }),
   (Helper.perCpuPtr, .withArgs [.anything, .anything]),
   (Helper.thisCpuPtr, .withArgs [.anything]),
   (Helper.forEachMapElem,
     { withArgs [.constMapPtr, .ptrToCallback, .anything, .anything] with
       ret := .scalar }),
   (Helper.timerSetCallback,
     { withArgs [.mapValueSpecial, .ptrToCallback] with ret := .scalar }),
   (Helper.getBranchSnapshot,
     { withArgs [.ptrToUninitMem, .constSize, .anything] with
       ret := .scalar, memSizePairs := [.new .r1 .r2] }),
   (Helper.findVma,
     { withArgs [.ptrToTask, .anything, .ptrToCallback, .anything, .anything] with
       ret := .scalar }),
   (Helper.loop,
     { withArgs [.anything, .ptrToCallback, .anything, .anything] with ret := .scalar }),
   (Helper.kptrXchg, .withArgs [.anything, .anything]),
   (Helper.dynptrFromMem,
     { withArgs [.ptrToMem, .constSizeOrZero, .anything, .dynptrArg true false] with
       ret := .scalar, sideEffects := [.dynptrInitOnArg 3 .local false]
       memSizePairs := [.new .r1 .r2] }),
   (Helper.ringbufReserveDynptr,
     { withArgs [.constMapPtr, .anything, .anything, .dynptrArg true false] with
       ret := .scalar, sideEffects := [.dynptrInitOnArg 3 .ringbuf false] }),
   (Helper.ringbufSubmitDynptr,
     { withArgs [.dynptrArg false false, .anything] with
       ret := .void, sideEffects := [.dynptrReleaseFromArg 0] }),
   (Helper.ringbufDiscardDynptr,
     { withArgs [.dynptrArg false false, .anything] with
       ret := .void, sideEffects := [.dynptrReleaseFromArg 0] }),
   (Helper.dynptrRead,
     { withArgs [.ptrToUninitMem, .constSizeOrZero, .dynptrArg false false, .anything,
         .anything] with
       ret := .scalar, memSizePairs := [.newNullable .r1 .r2] }),
   (Helper.dynptrWrite,
     { withArgs [.dynptrArg false false, .anything, .ptrToMem, .constSizeOrZero,
         .anything] with
       ret := .scalar, memSizePairs := [.newNullable .r3 .r4] }),
   (Helper.dynptrData,
     { withArgs [.dynptrArg false false, .anything, .constSize] with
       ret := .ptrToAllocMemFromArg 2, flags := .retNull }),
   (Helper.userRingbufDrain,
     { withArgs [.constMapPtrOfType 31, .ptrToCallback, .anything, .anything] with
       ret := .scalar }),
   (Helper.rcuReadLock, { withArgs [] with ret := .scalar, flags := .rcuReadLock }),
   (Helper.rcuReadUnlock, { withArgs [] with ret := .scalar, flags := .rcuReadUnlock })]

def getHelperProto (env : CallEnv) (helper : Nat) : Option CallProto :=
  (knownProtos.lookup helper).or (env.otherProtos helper)

def helperInvalidatesPackets (helper : Nat) : Bool :=
  decide (helper ∈ [Helper.xdpAdjustHead, Helper.xdpAdjustTail, Helper.xdpAdjustMeta,
    Helper.skbPullData, Helper.skbChangeHead, Helper.skbChangeTail, Helper.skbChangeProto,
    Helper.skbAdjustRoom, Helper.skbStoreBytes, Helper.skbVlanPush, Helper.skbVlanPop,
    Helper.cloneRedirect])

def setType (s : State) (r : Reg) (ty : RegType) : State := { s with types := s.types.set r ty }

def acquireRef (s : State) (id : Nat) : State := { s with activeRefs := insert id s.activeRefs }

def stackAt (s : State) (level : Nat) : StackState :=
  match s.frames.get level with
  | some frame => frame.stack
  | none => StackState.empty

/-- The frame and the offset a stack argument points at. -/
def resolveStackArg (s : State) (reg : Reg) : Option (Nat × Int) :=
  match s.types.get reg, s.domain.getDistanceFixed reg .r10 with
  | .ptrToStack level, some off => if -2^15 ≤ off ∧ off < 2^15 then some (level, off) else none
  | _, _ => none

section Annotations
variable (stack : StackState)

def getDynptr (off : Int) : Option DynptrSlot :=
  (stack.slots.find off).bind (·.dynptr)

def putDynptr (off : Int) (d : Option DynptrSlot) : StackState :=
  { stack with slots := stack.slots.modify off fun sp => { sp with dynptr := d } }

def getIterator (off : Int) : Option IteratorSlot :=
  (stack.slots.find off).bind (·.iterator)

def putIterator (off : Int) (iter : Option IteratorSlot) : StackState :=
  { stack with slots := stack.slots.modify off fun sp => { sp with iterator := iter } }

def getIrqFlag (off : Int) : Option IrqFlagSlot :=
  (stack.slots.find off).bind (·.irqFlag)

def putIrqFlag (off : Int) (flag : Option IrqFlagSlot) : StackState :=
  { stack with slots := stack.slots.modify off fun sp => { sp with irqFlag := flag } }

def markScalar (off : Int) (n : Nat) : StackState :=
  (List.range n).foldl (fun stack (i : Nat) =>
    updateStoreTypes stack .scalarValue .u8 (some (toI16 (off + (i : Int))))) stack

def anyDynptr (s : State) (p : DynptrSlot → Bool) : Bool :=
  s.frames.toList.any fun f =>
    decide (¬ f.stack.slots.All fun _ sp => ∀ d ∈ sp.dynptr, p d = false)

end Annotations

section Effects

def convertRefToNonOwning (s : State) (id : Nat) : State :=
  { s with types :=
      { regs := fun i =>
          match s.types.regs i with
          | .ptrToOwnedKptr (some rid) offset nonOwning pointee =>
            if rid = id then .ptrToOwnedKptr none offset true pointee
            else .ptrToOwnedKptr (some rid) offset nonOwning pointee
          | ty => ty } }

def sweepReplaced (s : State) (level : Nat) (off : Int) : State :=
  let stack := stackAt s level
  invalidateDynptrSlices s fun id =>
    (getDynptr stack off).any (fun d => decide (d.dynptrId = id)) ||
      (getDynptr stack (off + 8)).any (fun d => decide (d.dynptrId = id))

def stampDynptr (s : State) (level : Nat) (off : Int) (d : DynptrSlot) : State :=
  modifyStackAt s level fun stack =>
    putDynptr (putDynptr (markScalar stack off 16) off (some { d with firstSlot := true }))
      (off + 8) (some { d with firstSlot := false })

def dropDynptr (id : Nat) (sp : SpilledReg) : SpilledReg :=
  if sp.dynptr.any (fun d => decide (d.refId = id)) then { sp with dynptr := none } else sp

def invalidateDynptrSlotsByRef (s : State) (id : Nat) : State :=
  if id = 0 then s
  else
    let swept := { s with frames := s.frames.map fun f =>
      { f with stack := { f.stack with slots := f.stack.slots.mapValues (dropDynptr id) } } }
    invalidateDynptrSlices swept fun did =>
      anyDynptr s fun d => decide (d.refId = id ∧ d.firstSlot = true ∧ d.dynptrId = did)

def releaseDynptr (s : State) (level : Nat) (off : Int) : State :=
  let s := match getDynptr (stackAt s level) off with
    | some d =>
      if d.refId ≠ 0 then
        invalidateDynptrSlices
          (invalidateDynptrSlotsByRef ((s.releaseRef d.refId).invalidateRef d.refId) d.refId)
          fun id => decide (id = d.dynptrId)
      else s
    | none => s
  modifyStackAt s level fun stack => putDynptr (putDynptr stack off none) (off + 8) none

def isRcuProtected : IterKind → Bool
  | .task | .css => true
  | _ => false

def irqRestore (s : State) (id : Nat) : State :=
  match s.acquiredIrqIds with
  | top :: rest => if top = id then { s with acquiredIrqIds := rest } else s
  | [] => s

/-- One declared effect. The program's exception callback is no part of the
modelled state. -/
def applySideEffect (env : CallEnv) (inTypes : TypeState) (flags : CallFlags) (s : State)
    (id : Nat) : SideEffect → State
  | .releaseRefFromArg arg =>
    match (inTypes.get (argReg arg)).getRefId with
    | some refId =>
      if flags.contains .releaseNonOwn then convertRefToNonOwning (s.releaseRef refId) refId
      else (s.releaseRef refId).invalidateRef refId
    | none => s
  | .setExceptionCallbackFromArg _ => s
  | .dynptrInitOnArg arg kind rdonly =>
    match resolveStackArg s (argReg arg) with
    | some (level, off) =>
      let acquires := decide (kind = .ringbuf)
      let s := if acquires then acquireRef s id else s
      stampDynptr (sweepReplaced s level off) level off
        { kind, refId := if acquires then id else 0
          rdonly := rdonly && !(decide (kind = .skb) && env.isSched)
          firstSlot := true, dynptrId := id }
    | none => s
  | .dynptrReleaseFromArg arg =>
    match resolveStackArg s (argReg arg) with
    | some (level, off) => releaseDynptr s level off
    | none => s
  | .dynptrCloneOnArg srcArg dstArg =>
    match resolveStackArg s (argReg srcArg), resolveStackArg s (argReg dstArg) with
    | some (srcLevel, srcOff), some (level, off) =>
      match getDynptr (stackAt s srcLevel) srcOff with
      | some src => stampDynptr (sweepReplaced s level off) level off { src with dynptrId := id }
      | none => s
    | _, _ => s
  | .iterInitOnArg arg kind =>
    match resolveStackArg s (argReg arg) with
    | some (level, off) =>
      modifyStackAt s level fun stack =>
        putIterator (markScalar stack off (bpfIterSize kind).toNat) off
          (some { kind, state := .active, id, depth := 0
                  untrusted := isRcuProtected kind && decide (s.rcuReadDepth = 0) })
    | none => s
  | .iterDestroyOnArg arg =>
    match resolveStackArg s (argReg arg) with
    | some (level, off) => modifyStackAt s level fun stack => putIterator stack off none
    | none => s
  | .irqSaveOnArg arg kfuncClass =>
    match resolveStackArg s (argReg arg) with
    | some (level, off) =>
      modifyStackAt { s with acquiredIrqIds := id :: s.acquiredIrqIds } level fun stack =>
        putIrqFlag (markScalar stack off 8) off (some { id, kfuncClass })
    | none => s
  | .irqRestoreFromArg arg _ =>
    match resolveStackArg s (argReg arg) with
    | some (level, off) =>
      let s := match getIrqFlag (stackAt s level) off with
        | some flag => irqRestore s flag.id
        | none => s
      modifyStackAt s level fun stack => putIrqFlag stack off none
    | none => s

def applySideEffects (env : CallEnv) (inTypes : TypeState) (proto : CallProto) (ids : Nat → Nat)
    (s : State) : State :=
  (proto.sideEffects.zip (List.range proto.sideEffects.length)).foldl
    (fun s (eff, i) => applySideEffect env inTypes proto.flags s (ids i) eff) s

end Effects

section Results
variable (env : CallEnv) (inTypes : TypeState) (s : State)

def refResult (flags : CallFlags) (id : Nat)
    (orNull plain : Option Nat → RegType) : State :=
  let acquires := flags.contains .acquire
  let s := if acquires then acquireRef s id else s
  let refId := if acquires then some id else none
  setType s .r0 (if flags.contains .retNull then orNull refId else plain refId)

def allocMemResult (flags : CallFlags) (id memSize : Nat)
    (refId dynptrId : Option Nat) (rdonly : Bool) : State :=
  setType s .r0 (if flags.contains .retNull then
    .ptrToAllocMemOrNull id memSize refId dynptrId rdonly
    else .ptrToAllocMem id memSize refId dynptrId rdonly)

/-- A slice of the dynptr in the first argument. -/
def allocMemFromArg (flags : CallFlags) (id sizeArg : Nat) (rdonly : Bool) : State :=
  let memSize := (s.domain.getInterval (argReg sizeArg)).2.toNat
  let slot := (resolveStackArg s (argReg 0)).bind fun (level, off) => getDynptr (stackAt s level) off
  let refId := (slot.map (·.refId)).filter (· ≠ 0)
  allocMemResult s flags id memSize refId (slot.map (·.dynptrId)) rdonly

/-- The type of `R0` by the declared result, and whether the prototype decides
it. The iterator kinds fork before they get here. -/
def applyRet (proto : CallProto) (id : Nat) : State × Bool :=
  match proto.ret with
  | .unknown | .iterNextElem .. | .iterNextBtfId .. => (s, false)
  | .void | .scalar => (setType s .r0 .scalarValue, true)
  | .ptrToSocket => (refResult s proto.flags id .ptrToSocketOrNull .ptrToSocket, true)
  | .ptrToSockCommon => (refResult s proto.flags id .ptrToSockCommonOrNull .ptrToSockCommon, true)
  | .ptrToCpumask => (refResult s proto.flags id .ptrToCpumaskOrNull .ptrToCpumask, true)
  | .ptrToCgroup => (refResult s proto.flags id .ptrToCgroupOrNull .ptrToCgroup, true)
  | .ptrToTask => (refResult s proto.flags id .ptrToTaskOrNull .ptrToTask, true)
  | .ptrToBtfIdNamed typeName =>
    (refResult s proto.flags id (.ptrToBtfIdOrNull id typeName PtrFlags.trusted)
      (.ptrToBtfId typeName PtrFlags.trusted), true)
  | .ptrToOwnedKptr =>
    (refResult s proto.flags id (fun refId => .ptrToOwnedKptrOrNull refId none 0)
      (fun refId => .ptrToOwnedKptr refId 0 false none), true)
  | .ptrToArenaFromArg pageCntArg =>
    let memSize := min ((s.domain.getInterval (argReg pageCntArg)).2.toNat * 4096) (2^64 - 1)
    (refResult s proto.flags id (.ptrToArenaOrNull · memSize) (.ptrToArena · memSize), true)
  | .ptrToAllocMem memSize => (allocMemResult s proto.flags id memSize none none false, true)
  | .ptrToAllocMemFromArg sizeArg => (allocMemFromArg s proto.flags id sizeArg false, true)
  | .ptrToAllocMemFromArgRdonly sizeArg => (allocMemFromArg s proto.flags id sizeArg true, true)

def applyCallProtoR0 (proto : CallProto)
    (ids : Nat → Nat) : State × Bool :=
  applyRet (applySideEffects env inTypes proto ids s) proto (ids proto.sideEffects.length)

def perCpuPtrResult (helper id : Nat) : Option RegType :=
  if helper = Helper.perCpuPtr ∨ helper = Helper.thisCpuPtr then
    let resolved : Option (String × PtrFlags) := match inTypes.get .r1 with
      | .ptrToBtfId typeName flags _ =>
        some (typeName, PtrFlags.difference flags (PtrFlags.percpu ||| PtrFlags.rdonly) |||
          PtrFlags.trusted)
      | .ptrToMapKptr pointee _ flags _ | .ptrToMapKptrOrNull pointee _ flags _ =>
        (env.structName pointee).map fun name =>
          (name, PtrFlags.difference flags (PtrFlags.percpu ||| PtrFlags.rdonly) |||
            PtrFlags.trusted ||| PtrFlags.memAlloc)
      | _ => none
    resolved.map fun (typeName, flags) =>
      if helper = Helper.perCpuPtr then .ptrToBtfIdOrNull id typeName flags none
      else .ptrToBtfId typeName flags none
  else none

def constKeyInBounds (m : MapDef) : Bool :=
  match s.types.get .r2, s.domain.getDistanceFixed .r2 .r10 with
  | .ptrToStack level, some off =>
    match (stackAt s level).getSlot (toI16 off) with
    | some sp => decide (sp.size.bytes = m.keySize) && sp.tnum.isConst &&
        decide (sp.tnum.value.toNat < m.maxEntries)
    | none => false
  | _, _ => false

def lookupMapIdx : RegType → Nat
  | .ptrToMapObject mapIdx => mapIdx
  | .ptrToMapValue _ _ outer _ _ =>
    match env.mapDefs outer with
    | some m => if isMapOfMaps m then m.innerMapIdx.getD outer else outer
    | none => outer
  | _ => 0

def lookupMapUid (id : Nat) : RegType → Option Nat
  | .ptrToMapObject outer =>
    match env.mapDefs outer with
    | some m => if isMapOfMaps m then some id else none
    | none => none
  | .ptrToMapValue _ _ _ mapUid _ => mapUid
  | _ => none

def mapLookupResult (helper id : Nat) : State :=
  let mapIdx := lookupMapIdx env (inTypes.get .r1)
  match env.mapDefs mapIdx with
  | none => setType s .r0 .scalarValue
  | some m =>
    if isSockMap m then setType (acquireRef s id) .r0 (.ptrToSocketOrNull (some id))
    else
      let mapUid := lookupMapUid env id (inTypes.get .r1)
      if helper = Helper.getLocalStorage ∨
          (helper = Helper.mapLookupElem ∧ isArrayMap m = true ∧ constKeyInBounds s m = true) then
        let s := setType s .r0 (.ptrToMapValue id (some 0) mapIdx mapUid false)
        { s with domain := s.domain.initMapValuePtr .r0 }
      else setType s .r0 (.ptrToMapValueOrNull id mapIdx mapUid)

def skcTypeName (helper : Nat) : Option String :=
  if helper = Helper.skcToTcpSock then some "tcp_sock"
  else if helper = Helper.skcToTcp6Sock then some "tcp6_sock"
  else if helper = Helper.skcToTcpTimewaitSock then some "tcp_timewait_sock"
  else if helper = Helper.skcToTcpRequestSock then some "tcp_request_sock"
  else if helper = Helper.skcToUdp6Sock then some "udp6_sock"
  else if helper = Helper.skcToUnixSock then some "unix_sock"
  else if helper = Helper.skcToMptcpSock then some "mptcp_sock"
  else none

def isSockType : RegType → Bool
  | .ptrToSockCommon _ | .ptrToSocket _ | .ptrToTcpSock _ => true
  | _ => false

def skbLoadBytesClobber : State :=
  match inTypes.get .r3, s.domain.getDistanceFixed .r3 .r10 with
  | .ptrToStack level, some off =>
    let hi := (s.domain.getInterval .r4).2
    let len := if hi ≤ 0xFFFF then toI16 hi else 0
    modifyStackAt s level fun stack =>
      if 0 < len then
        let stack := if -2^15 ≤ off ∧ off < 2^15 then
          stack.scrubSpilledSlotsForWrite off len.toNat else stack
        (List.range len.toNat).foldl (fun stack (i : Nat) =>
          stack.invalidateSlot (toI16 (off + (i : Int)))) stack
      else stack
  | _, _ => s

/-- The helpers whose result is not driven by a prototype. -/
def legacyResult (helper id : Nat) : State :=
  if helper ∈ [Helper.mapLookupElem, Helper.mapLookupPercpuElem, Helper.getLocalStorage] then
    mapLookupResult env inTypes s helper id
  else if helper ∈ [Helper.skLookupTcp, Helper.skLookupUdp] then
    setType (acquireRef s id) .r0 (.ptrToSocketOrNull (some id))
  else if helper = Helper.getListenerSock then setType s .r0 (.ptrToSocketOrNull none)
  else if helper = Helper.skFullsock then
    setType s .r0 (.ptrToSocketOrNull (s.types.get .r1).getRefId)
  else if helper = Helper.tcpSock then
    setType s .r0 (.ptrToTcpSockOrNull (s.types.get .r1).getRefId)
  else if helper = Helper.sockFromFile then
    setType s .r0 (.ptrToBtfIdOrNull id "socket" PtrFlags.trusted none)
  else if helper = Helper.taskPtRegs then
    setType s .r0 (.ptrToBtfIdOrNull id "pt_regs" PtrFlags.trusted none)
  else if helper = Helper.skcLookupTcp then
    setType (acquireRef s id) .r0 (.ptrToSockCommonOrNull (some id))
  else if helper = Helper.skRelease then
    match (s.types.get .r1).getRefId with
    | some refId => (s.releaseRef refId).invalidateRef refId
    | none => s
  else if helper ∈ [Helper.skStorageGet, Helper.taskStorageGet, Helper.inodeStorageGet,
      Helper.cgrpStorageGet] then
    let mapIdx := match inTypes.get .r1 with
      | .ptrToMapObject mapIdx | .ptrToMapValue _ _ mapIdx _ _ => mapIdx
      | _ => 0
    setType s .r0 (.ptrToMapValueOrNull id mapIdx none)
  else if helper = Helper.skbLoadBytes then skbLoadBytesClobber inTypes s
  else if helper = Helper.ringbufReserve then
    setType s .r0 (.ptrToAllocMemOrNull id (Word.toU64 (s.domain.getInterval .r2).2) none none false)
  else match skcTypeName helper with
    | some typeName =>
      let r1 := s.types.get .r1
      if r1.getRefId.isSome ∨ PtrFlags.contains (ptrFlags r1) PtrFlags.trusted = true ∨
          isSockType r1 = true then
        setType s .r0 (.ptrToBtfIdOrNull id typeName PtrFlags.trusted r1.getRefId)
      else s
    | none => setType s .r0 .scalarValue

end Results

section Update

def scratchRegs : List Reg := [.r1, .r2, .r3, .r4, .r5]

def scratchTypes (s : State) : State := scratchRegs.foldl (fun s r => setType s r .notInit) s

def sweepReg (ty : RegType) : RegType :=
  if ty = .ptrToPacket ∨ ty = .ptrToPacketEnd then .scalarValue else ty

def sweepSaved (ty : RegType) : RegType := if ty.isPacketPtr then .notInit else ty

/-- The sweep after a helper changed the packet. -/
def invalidatePackets (s : State) : State :=
  let s := { s with types := { regs := fun i => sweepReg (s.types.regs i) } }
  let s := s.modifyStack (·.invalidatePacketPointers)
  let s := { s with frames := s.frames.map fun f =>
    { f with callerTypes := { regs := fun i => sweepSaved (f.callerTypes.regs i) } } }
  let isPacketDynptr := fun id => anyDynptr s fun d =>
    decide ((d.kind = .skb ∨ d.kind = .xdp) ∧ d.firstSlot = true ∧ d.dynptrId = id)
  let s := invalidateDynptrSlices s isPacketDynptr
  { s with domain := s.domain.clearPacketSizeBounds }

/-- Writing to an skb dynptr invalidates its slices. -/
def dynptrWriteSweep (inTypes : TypeState) (s : State) : State :=
  match inTypes.get .r1, s.domain.getDistanceFixed .r1 .r10 with
  | .ptrToStack level, some off =>
    if -2^15 ≤ off ∧ off < 2^15 then
      match getDynptr (stackAt s level) off with
      | some d =>
        if d.kind = .skb then invalidateDynptrSlices s fun id => decide (id = d.dynptrId) else s
      | none => s
    else s
  | _, _ => s

/-- The result of `update_call_types` up to the type of `R0`, and whether the
prototype decided it. -/
def callResult (env : CallEnv) (inTypes : TypeState) (s : State) (helper : Nat) (ids : Nat → Nat) :
    State × Bool :=
  let s := setType s .r0 .scalarValue
  match getHelperProto env helper with
  | some proto => applyCallProtoR0 env inTypes s proto ids
  | none => (s, false)

def updateCallTypes (env : CallEnv) (inTypes : TypeState) (s : State) (helper : Nat)
    (ids : Nat → Nat) : State :=
  let (s, routed) := callResult env inTypes s helper ids
  match if routed then none else perCpuPtrResult env inTypes helper (ids 0) with
  | some ty => setType s .r0 ty
  | none =>
    let s := if routed then s else legacyResult env inTypes s helper (ids 0)
    let s := scratchTypes s
    let s := if helperInvalidatesPackets helper then invalidatePackets s else s
    if helper = Helper.dynptrWrite then dynptrWriteSweep inTypes s else s

end Update

end ZoneVerifier.CallTypes
