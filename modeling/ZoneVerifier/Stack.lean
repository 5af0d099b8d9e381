import ZoneVerifier.Ast
import ZoneVerifier.FiniteMap
import ZoneVerifier.Tristate

/-!
# Register types and the stack of a frame

The type lattice of `analysis/machine/reg_types.rs`. A pointer type carries
the identities that later checks compare. The type state has a slot for `R0` to
`R10`; `Zero` and the anchors read as uninitialised and cannot be written.
A frame's stack maps byte offsets (negative, from the frame pointer) to the
snapshot recorded there (`analysis/machine/stack_state.rs`). A spilled value
has its snapshot at its lowest byte; every other byte it covers has an entry
of its own, and a byte without one has never been written. The symbolic
expression of a slot belongs to the proof bundler and is left out.
-/

set_option autoImplicit false

namespace ZoneVerifier.RegTypes
open Ast

abbrev PtrFlags := BitVec 16

inductive DynptrKind where
  | local | ringbuf | skb | xdp | user
  deriving DecidableEq, Repr

inductive RegType where
  | notInit
  | scalarValue
  | ptrToCtx
  | ptrToStack (frameLevel : Nat)
  | ptrToPacket
  | ptrToPacketEnd
  | ptrToPacketMeta
  | ptrToMapObject (mapIdx : Nat)
  | ptrToMapValueOrNull (id mapIdx : Nat) (mapUid : Option Nat)
  | ptrToMapValue (id : Nat) (offset : Option Int) (mapIdx : Nat) (mapUid : Option Nat)
      (rdonly : Bool)
  | ptrToSocket (refId : Option Nat)
  | ptrToSocketOrNull (refId : Option Nat)
  | ptrToSockCommon (refId : Option Nat)
  | ptrToSockCommonOrNull (refId : Option Nat)
  | ptrToTcpSock (id : Option Nat)
  | ptrToTcpSockOrNull (id : Option Nat)
  | ptrToBtfId (typeName : String) (flags : PtrFlags) (refId : Option Nat)
  | ptrToBtfIdOrNull (id : Nat) (typeName : String) (flags : PtrFlags) (refId : Option Nat)
  | ptrToAllocMemOrNull (id memSize : Nat) (refId dynptrId : Option Nat) (rdonly : Bool)
  | ptrToAllocMem (id memSize : Nat) (refId dynptrId : Option Nat) (rdonly : Bool)
  | ptrToCpumask (refId : Option Nat)
  | ptrToCpumaskOrNull (refId : Option Nat)
  | ptrToArena (refId : Option Nat) (memSize : Nat)
  | ptrToArenaOrNull (refId : Option Nat) (memSize : Nat)
  | ptrToCgroup (refId : Option Nat)
  | ptrToCgroupOrNull (refId : Option Nat)
  | ptrToTask (refId : Option Nat)
  | ptrToTaskOrNull (refId : Option Nat)
  | ptrToOwnedKptr (refId : Option Nat) (offset : Int) (nonOwning : Bool)
      (pointeeBtfId : Option Nat)
  | ptrToOwnedKptrOrNull (refId pointeeBtfId : Option Nat) (offset : Int)
  | ptrToMapKptr (pointeeBtfId : Nat) (refId : Option Nat) (flags : PtrFlags) (offset : Int)
  | ptrToMapKptrOrNull (pointeeBtfId : Nat) (refId : Option Nat) (flags : PtrFlags) (offset : Int)
  | ptrToCallback (subprogPc : Nat)
  | ptrToDynptr (kind : DynptrKind) (rdonly : Bool)
  deriving DecidableEq, Repr

namespace RegType

def isScalar : RegType → Bool
  | scalarValue | notInit => true
  | _ => false

def isPointer (t : RegType) : Bool := !t.isScalar

def isPacketPtr : RegType → Bool
  | ptrToPacket | ptrToPacketEnd | ptrToPacketMeta => true
  | _ => false

def isNullChecked : RegType → Bool
  | ptrToMapValueOrNull .. | ptrToSocketOrNull _ | ptrToSockCommonOrNull _ | ptrToTcpSockOrNull _
  | ptrToCpumaskOrNull _ | ptrToArenaOrNull .. | ptrToCgroupOrNull _ | ptrToTaskOrNull _
  | ptrToOwnedKptrOrNull .. | ptrToMapKptrOrNull .. | ptrToMapValue .. | ptrToSocket _
  | ptrToSockCommon _ | ptrToTcpSock _ | ptrToCpumask _ | ptrToArena .. | ptrToCgroup _
  | ptrToTask _ | ptrToOwnedKptr .. | ptrToMapKptr .. => true
  | ptrToBtfId _ _ (some _) => true
  | _ => false

def isNullable : RegType → Bool
  | ptrToMapValueOrNull .. | ptrToSocketOrNull _ | ptrToSockCommonOrNull _ | ptrToTcpSockOrNull _
  | ptrToCpumaskOrNull _ | ptrToArenaOrNull .. | ptrToCgroupOrNull _ | ptrToTaskOrNull _
  | ptrToOwnedKptrOrNull .. | ptrToMapKptrOrNull .. | ptrToBtfIdOrNull .. => true
  | _ => false

def getRefId : RegType → Option Nat
  | ptrToSocket id | ptrToSocketOrNull id | ptrToSockCommon id | ptrToSockCommonOrNull id
  | ptrToTcpSock id | ptrToTcpSockOrNull id | ptrToCpumask id | ptrToCpumaskOrNull id
  | ptrToArena id _ | ptrToArenaOrNull id _ | ptrToCgroup id | ptrToCgroupOrNull id
  | ptrToTask id | ptrToTaskOrNull id => id
  | ptrToOwnedKptrOrNull refId _ _ => refId
  | ptrToOwnedKptr refId _ _ _ => refId
  | ptrToBtfId _ _ refId | ptrToBtfIdOrNull _ _ _ refId => refId
  | ptrToMapKptr _ refId _ _ | ptrToMapKptrOrNull _ refId _ _ => refId
  | ptrToAllocMem _ _ refId _ _ | ptrToAllocMemOrNull _ _ refId _ _ => refId
  | _ => none

end RegType

structure TypeState where
  regs : Fin 11 → RegType

namespace TypeState

def newNotInit : TypeState := { regs := fun _ => .notInit }

def get (t : TypeState) (r : Reg) : RegType :=
  match r.toIndex with
  | some i => t.regs i
  | none => .notInit

def set (t : TypeState) (r : Reg) (ty : RegType) : TypeState :=
  match r.toIndex with
  | some i => { regs := fun j => if j = i then ty else t.regs j }
  | none => t

theorem get_set (t : TypeState) (r q : Reg) (ty : RegType) :
    (t.set r ty).get q = if q = r ∧ r.toIndex ≠ none then ty else t.get q := by
  unfold set get
  cases hr : r.toIndex with
  | none => simp
  | some i =>
    cases hq : q.toIndex with
    | none =>
      have hne : q ≠ r := by
        intro h
        rw [h, hr] at hq
        cases hq
      simp [hne]
    | some j =>
      by_cases h : q = r
      · subst h
        rw [hr] at hq
        cases hq
        simp
      · have hij : j ≠ i := fun e => h (Reg.toIndex_inj (e ▸ hq) hr)
        simp [h, hij]

end TypeState
end ZoneVerifier.RegTypes

namespace ZoneVerifier.Stack
open Ast RegTypes Tristate FiniteMap

inductive IterKind where
  | num | task | css | bits | taskVma | testmodSeq | cssTask | kmemCache
  deriving DecidableEq, Repr

inductive IterState where
  | active | drained
  deriving DecidableEq, Repr

structure IteratorSlot where
  kind : IterKind
  state : IterState
  id : Nat
  depth : Nat
  untrusted : Bool
  deriving DecidableEq, Repr

structure DynptrSlot where
  kind : DynptrKind
  refId : Nat
  rdonly : Bool
  firstSlot : Bool
  dynptrId : Nat
  deriving DecidableEq, Repr

inductive IrqKfuncClass where
  | native | lock
  deriving DecidableEq, Repr

structure IrqFlagSlot where
  id : Nat
  kfuncClass : IrqKfuncClass
  deriving DecidableEq, Repr

structure SlotBounds where
  min : Int
  max : Int
  deriving DecidableEq, Repr

inductive PointerBounds where
  | zone (anchor : Option Reg) (anchorLo anchorHi : Option Int) (endAnchor : Option Reg)
      (endLo endHi : Option Int)
  | interval (off : Option Int) (varOff : Option Nat) (range : Option Int) (id : Option Nat)
  deriving DecidableEq, Repr

inductive StackSlotKind where
  | spill | misc | zero
  deriving DecidableEq, Repr

structure SpilledReg where
  sourceReg : Option Reg
  regType : RegType
  tnum : Tnum
  bounds : SlotBounds
  size : MemSize
  ptrBounds : Option PointerBounds
  scalarId : Option Nat
  scalarIdOff : Option Int
  precise : Bool
  ptrConstOff : Option Int
  iterator : Option IteratorSlot
  dynptr : Option DynptrSlot
  irqFlag : Option IrqFlagSlot
  kind : StackSlotKind
  deriving DecidableEq, Repr

namespace SpilledReg

def unboundedBounds : SlotBounds := { min := -2^63, max := 2^63 - 1 }

def blank (regType : RegType) (sourceReg : Option Reg) (kind : StackSlotKind) : SpilledReg :=
  { sourceReg, regType, tnum := Tnum.unknown, bounds := unboundedBounds, size := .u64,
    ptrBounds := none, scalarId := none, scalarIdOff := none, precise := false,
    ptrConstOff := none, iterator := none, dynptr := none, irqFlag := none, kind }

def misc : SpilledReg := blank .scalarValue none .misc

end SpilledReg

structure StackState where
  slots : FinMap Int SpilledReg
  allocatedStack : Nat

namespace StackState
variable (s : StackState) (offset : Int)

def empty : StackState := { slots := FinMap.empty, allocatedStack := 0 }

def growAllocated : StackState :=
  if 0 ≤ offset then s
  else { s with allocatedStack := max s.allocatedStack (((-offset + 7) / 8 * 8).toNat) }

def getSlot : Option SpilledReg := s.slots.find offset

def getSlotKind : Option StackSlotKind :=
  (s.slots.find offset).map (·.kind)

def insert (sp : SpilledReg) : StackState :=
  { s.growAllocated offset with slots := s.slots.insert offset sp }

def invalidateSlot : StackState := s.insert offset SpilledReg.misc

def setSlotType (regType : RegType) (sourceReg : Option Reg) :
    StackState :=
  let grown := s.growAllocated offset
  match s.slots.find offset with
  | some _ => { grown with slots := s.slots.modify offset fun sp => { sp with regType } }
  | none => { grown with slots := s.slots.insert offset (SpilledReg.blank regType sourceReg .spill) }

def invalidateRef (id : Nat) : StackState :=
  { s with slots := s.slots.mapValues fun sp =>
      if sp.regType.getRefId = some id then { sp with regType := .scalarValue } else sp }

def invalidatePacketPointers : StackState :=
  { s with slots := s.slots.mapValues fun sp =>
      if sp.regType = .ptrToPacket then { sp with regType := .scalarValue } else sp }

def slotBase : Int := offset / 8 * 8

def scrubByte : StackState :=
  if (s.getSlotKind offset).isSome then s.insert offset SpilledReg.misc else s

/-- Clears one aligned slot whose base byte belongs to a spill. -/
def scrubSlot (base : Int) : StackState :=
  if s.getSlotKind base = some .spill then
    ((List.range 8).map fun (i : Nat) => base + (i : Int)).foldl scrubByte s
  else s

def scrubSpilledSlotsForWrite (writeOff : Int) (writeSize : Nat) : StackState :=
  let first := slotBase writeOff
  let last := slotBase (writeOff + writeSize - 1)
  ((List.range ((last - first) / 8 + 1).toNat).map fun (i : Nat) => first + 8 * (i : Int)).foldl
    scrubSlot s

def hasActiveIterators : Bool :=
  decide (¬ s.slots.All fun _ sp => sp.iterator = none)

def hasUnreleasedDynptrRefs : Bool :=
  decide (¬ s.slots.All fun _ sp => ∀ d ∈ sp.dynptr, d.refId = 0)

def hasUnreleasedIrqFlags : Bool :=
  decide (¬ s.slots.All fun _ sp => sp.irqFlag = none)

end StackState
end ZoneVerifier.Stack
