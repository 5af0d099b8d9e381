import ZoneVerifier.Stack

/-!
# Call prototypes

How a helper or kfunc is declared: the shapes of its arguments, of its result,
its flags and its effects on the stack (`analysis/transfer/call/signatures.rs`).
Of the flags only those are named that the transfer functions of this
development read; the program kinds a prototype is restricted to belong to the
checks in front of a call and are left out.
-/

set_option autoImplicit false

namespace ZoneVerifier.Signatures
open Ast RegTypes Stack

namespace PtrFlags

def trusted : PtrFlags := 0x01
def untrusted : PtrFlags := 0x02
def rcu : PtrFlags := 0x04
def rdonly : PtrFlags := 0x08
def percpu : PtrFlags := 0x10
def memAlloc : PtrFlags := 0x20

def contains (f g : PtrFlags) : Bool := decide (f &&& g = g)

def difference (f g : PtrFlags) : PtrFlags := f &&& ~~~g

end PtrFlags

/-- `ptr_flags`: only BTF and kptr pointers carry flags. -/
def ptrFlags : RegType → PtrFlags
  | .ptrToBtfId _ flags _ | .ptrToBtfIdOrNull _ _ flags _ => flags
  | .ptrToMapKptr _ _ flags _ | .ptrToMapKptrOrNull _ _ flags _ => flags
  | _ => 0

inductive IterArgExpect where
  | uninit | active | activeOrDrained
  deriving DecidableEq, Repr

inductive ArgKind where
  | dontCare
  | constMapPtr
  | constMapPtrOfType (mapType : Nat)
  | ptrToMapKey
  | ptrToMapValue
  | ptrToUninitMapValue
  | ptrToMem
  | ptrToUninitMem
  | ptrToAllocMem
  | ptrToConstStr
  | constSize
  | constSizeOrZero
  | constAllocSizeOrZero
  | ptrToCtx
  | anything
  | ptrToSockCommon
  | ptrToSocket
  | ptrToBtfIdSockCommon
  | ptrToBtfId
  | ptrToBtfIdNamed (typeName : String)
  | ptrToStack
  | ptrToCtxOrNull
  | ptrToMemOrNull
  | ptrToUninitMemOrNull
  | ptrToStackOrNull
  | ptrToMapValueOrNull
  | ptrToLong
  | ptrToCallback
  | dynptrArg (uninit rdwrOnly : Bool)
  | iterArg (kind : IterKind) (expected : IterArgExpect)
  | irqFlagArg (uninit : Bool) (kfuncClass : IrqKfuncClass)
  | resSpinLockArg (isIrq : Bool)
  | ptrToCpumask
  | ptrToCpumaskRead
  | ptrToCgroup
  | ptrToTask
  | ptrToArena
  | ptrToOwnedKptr
  | mapValueSpecial
  deriving DecidableEq, Repr

abbrev CallFlags := BitVec 32

namespace CallFlags

def acquire : CallFlags := 1 <<< 0
def retNull : CallFlags := 1 <<< 2
def rcu : CallFlags := 1 <<< 4
def spinLockAcquire : CallFlags := 1 <<< 7
def spinLockRelease : CallFlags := 1 <<< 8
def rcuReadLock : CallFlags := 1 <<< 9
def rcuReadUnlock : CallFlags := 1 <<< 10
def spinLockHeld : CallFlags := 1 <<< 11
def fastcall : CallFlags := 1 <<< 12
def preemptDisable : CallFlags := 1 <<< 13
def preemptEnable : CallFlags := 1 <<< 14
def mightSleep : CallFlags := 1 <<< 15
def releaseNonOwn : CallFlags := 1 <<< 16
def resSpinLockAcquire : CallFlags := 1 <<< 19
def resSpinLockRelease : CallFlags := 1 <<< 20

def contains (f g : CallFlags) : Bool := decide (f &&& g = g)

end CallFlags

inductive RetKind where
  | unknown
  | void
  | scalar
  | ptrToSocket
  | ptrToSockCommon
  | ptrToAllocMemFromArg (sizeArg : Nat)
  | ptrToAllocMemFromArgRdonly (sizeArg : Nat)
  | ptrToAllocMem (memSize : Nat)
  | ptrToCpumask
  | ptrToArenaFromArg (pageCntArg : Nat)
  | ptrToOwnedKptr
  | ptrToCgroup
  | ptrToTask
  | ptrToBtfIdNamed (typeName : String)
  | iterNextElem (iterArg elemSize : Nat)
  | iterNextBtfId (iterArg : Nat) (typeName : String) (flags : PtrFlags)
  deriving DecidableEq, Repr

inductive SideEffect where
  | releaseRefFromArg (arg : Nat)
  | setExceptionCallbackFromArg (arg : Nat)
  | dynptrInitOnArg (arg : Nat) (kind : DynptrKind) (rdonly : Bool)
  | dynptrReleaseFromArg (arg : Nat)
  | dynptrCloneOnArg (srcArg dstArg : Nat)
  | iterInitOnArg (arg : Nat) (kind : IterKind)
  | iterDestroyOnArg (arg : Nat)
  | irqSaveOnArg (arg : Nat) (kfuncClass : IrqKfuncClass)
  | irqRestoreFromArg (arg : Nat) (kfuncClass : IrqKfuncClass)
  deriving DecidableEq, Repr

/-- A pointer argument and the argument that bounds the access through it. -/
structure MemSizePair where
  ptrReg : Reg
  sizeReg : Reg
  allowZero : Bool
  nullSkipsSizeCheck : Bool
  deriving DecidableEq, Repr

namespace MemSizePair

def new (ptrReg sizeReg : Reg) : MemSizePair := ⟨ptrReg, sizeReg, false, false⟩

def newNullable (ptrReg sizeReg : Reg) : MemSizePair := ⟨ptrReg, sizeReg, true, false⟩

def newOptional (ptrReg sizeReg : Reg) : MemSizePair := ⟨ptrReg, sizeReg, false, true⟩

end MemSizePair

structure CallProto where
  args : List ArgKind
  ret : RetKind
  flags : CallFlags
  sideEffects : List SideEffect
  memSizePairs : List MemSizePair
  deriving DecidableEq, Repr

/-- A prototype with arguments only; unused arguments are `dontCare`. -/
def CallProto.withArgs (args : List ArgKind) : CallProto :=
  { args := args ++ List.replicate (5 - args.length) .dontCare
    ret := .unknown, flags := 0, sideEffects := [], memSizePairs := [] }

def argReg : Nat → Reg
  | 0 => .r1
  | 1 => .r2
  | 2 => .r3
  | 3 => .r4
  | _ => .r5

end ZoneVerifier.Signatures
