import ZoneVerifier.Machine

/-!
# Spills, fills and atomic operations

Stores to the stack and loads from it (`analysis/machine/stack_ops.rs`), and the
effect of `transfer_store` and `transfer_atomic`
(`analysis/transfer/memory/transfer.rs`) on a state that passed the access
checks. An aligned store records the value at its lowest byte; any other store
marks the bytes it covers as clobbered, or as zero if the value is known to be
zero. Offsets are the verifier's `i16` stack offsets; the identity of a fresh
scalar is passed in by the caller. Marks of the exploration and the symbolic
mirror do not influence the state modelled here.
-/

set_option autoImplicit false

namespace ZoneVerifier.StackOps
open Ast RegTypes Tristate Stack Numeric Machine
variable (s : State) (reg : Reg) (size : MemSize) (stack : StackState)

/-- The `i`-th byte from `offset` on gets the entry `entry i`. -/
def writeEntries (s : StackState) (offset : Int) (n : Nat) (entry : Nat → SpilledReg) : StackState :=
  (List.range n).foldl (fun s (i : Nat) => s.insert (offset + (i : Int)) (entry i)) s

/-- An entry without a value, of a byte covered by a store of the given size. -/
def plainEntry (kind : StackSlotKind) : SpilledReg :=
  { SpilledReg.blank .scalarValue none kind with size }

def clobberEntry (isNull : Bool) (size : MemSize) : SpilledReg :=
  if isNull then
    { plainEntry size .zero with tnum := Tnum.constant 0, bounds := { min := 0, max := 0 } }
  else plainEntry size .misc

/-- `mark_stack_slot_misc`: known zeroes and unwritten bytes stay. -/
def scrubRest (s : StackState) (b : Int) : StackState :=
  match s.getSlotKind b with
  | some kind => if kind = .zero then s else s.insert b (plainEntry size .misc)
  | none => s

def scrubRemainder (s : StackState) (offset : Int) (size : MemSize) : StackState :=
  ((List.range (8 - size.bytes)).map fun (i : Nat) => offset + (size.bytes : Int) + (i : Int)).foldl
    (scrubRest size) s

def packetAnchor : RegType → Option Reg
  | .ptrToPacket => some .anchorData
  | .ptrToPacketMeta => some .anchorDataMeta
  | .ptrToPacketEnd => some .anchorDataEnd
  | _ => none

def secondaryAnchor : RegType → Option Reg
  | .ptrToPacket | .ptrToPacketMeta => some .anchorDataEnd
  | .ptrToPacketEnd => some .anchorData
  | _ => none

def finite (c : Int) : Option Int := if Zone.inf ≤ c then none else some c

def relationTo (d : NumericDomain) (reg : Reg) : Option Reg → Option Reg × Option Int × Option Int
  | some a => (some a, finite (d.get a reg), finite (d.get reg a))
  | none => (none, none, none)

def saveAnchorInfo : Option Reg × Option Int × Option Int :=
  relationTo s.domain reg (packetAnchor (s.types.get reg))

def saveSecondaryAnchorInfo : Option Reg × Option Int × Option Int :=
  relationTo s.domain reg (secondaryAnchor (s.types.get reg))

def saveIntervalPtrOffset :
    Option Int × Option Nat × Option Int × Option Nat :=
  match s.domain with
  | .interval ivl =>
    match ivl.getPtrOffset reg with
    | some p => (some p.off, some p.varOff, p.range, p.id)
    | none => (none, none, none, none)
  | .zone _ => (none, none, none, none)

def savePtrBounds : Option PointerBounds :=
  let (off, varOff, range, id) := saveIntervalPtrOffset s reg
  if off.isSome ∨ varOff.isSome ∨ range.isSome then some (.interval off varOff range id)
  else
    let (a, lo, hi) := saveAnchorInfo s reg
    let (ea, elo, ehi) := saveSecondaryAnchorInfo s reg
    if a.isSome ∨ lo.isSome ∨ hi.isSome ∨ ea.isSome ∨ elo.isSome ∨ ehi.isSome then
      some (.zone a lo hi ea elo ehi)
    else none

/-- The entry of the tnum map, without the special case of `get_tnum`. -/
def rawTnum (r : Reg) : Tnum := (s.tnums r).getD Tnum.unknown

def putTnum (r : Reg) (t : Tnum) : State :=
  { s with tnums := fun q => if q = r then some t else s.tnums q }

def putScalarId (r : Reg) (id : Option Nat) : State :=
  { s with scalarIds := fun q => if q = r then id else s.scalarIds q }

def putScalarIdOff (r : Reg) (off : Option Int) : State :=
  { s with scalarIdOffs := fun q => if q = r then off else s.scalarIdOffs q }

def putPrecise (r : Reg) (b : Bool) : State :=
  { s with preciseRegs := fun q => if q = r then b else s.preciseRegs q }

def putPtrConstOff (r : Reg) (off : Option Int) : State :=
  { s with ptrConstOff := fun q => if q = r then off else s.ptrConstOff q }

def modifyStackAt (level : Nat) (f : StackState → StackState) : State :=
  { s with frames := s.frames.modifyAt level fun c => { c with stack := f c.stack } }

def regWidth (umax : Nat) : Nat := if umax = 0 then 0 else umax.log2 + 1

def regValueFits : Bool :=
  let (min, max) := s.domain.getInterval reg
  let umax := if min < 0 then 2^64 - 1 else Word.toU64 max
  decide (regWidth umax ≤ size.bytes * 8)

/-- A scalar spill links the slot with its source if the value fits; a source
linked by a constant offset is unlinked first, and a constant is not linked. -/
def linkSpill (fresh : Nat) : State × Option Nat :=
  if regValueFits s reg size then
    let s := if (s.scalarIdOffs reg).isSome then
        putScalarIdOff (putScalarId s reg none) reg none
      else s
    let (min, max) := s.domain.getInterval reg
    match s.scalarIds reg with
    | some id => (s, some id)
    | none =>
      if min = max ∨ (rawTnum s reg).isConst then (s, none)
      else (putScalarId s reg (some fresh), some fresh)
  else (s, none)

def isSpill (offset : Int) (size : MemSize) : Bool :=
  decide (offset % 8 = 0) && (decide (s.types.get reg = .scalarValue) || decide (size = .u64))

def isNullScalar : Bool :=
  decide (s.types.get reg = .scalarValue) && s.domain.provenZero reg

def spillEntry (id : Option Nat) : SpilledReg :=
  let (min, max) := s.domain.getInterval reg
  { sourceReg := some reg
    regType := if size = .u64 then s.types.get reg else .scalarValue
    tnum := rawTnum s reg
    bounds := { min, max }
    size
    ptrBounds := if size = .u64 then savePtrBounds s reg else none
    scalarId := id
    scalarIdOff := if id.isSome then s.scalarIdOffs reg else none
    precise := decide (size = .u64) && s.preciseRegs reg
    ptrConstOff := if size = .u64 then s.ptrConstOff reg else none
    iterator := none
    dynptr := none
    irqFlag := none
    kind := .spill }

def spillBytes (offset : Int) (size : MemSize) (first : SpilledReg)
    (kind : StackSlotKind) : StackState :=
  writeEntries stack offset size.bytes fun i => if i = 0 then first else plainEntry size kind

def spillAt (level : Nat) (reg : Reg) (offset : Int) (size : MemSize) (fresh : Nat) :
    State :=
  if isSpill s reg offset size then
    let (s, id) :=
      if size = .u64 ∧ s.types.get reg ≠ .scalarValue then (s, s.scalarIds reg)
      else linkSpill s reg size fresh
    modifyStackAt s level fun stack =>
      let stack := spillBytes stack offset size (spillEntry s reg size id) .spill
      if size.bytes < 8 then scrubRemainder stack offset size else stack
  else
    let isNull := isNullScalar s reg
    let s := if isNull then putPrecise s reg true else s
    modifyStackAt s level fun stack =>
      writeEntries (stack.scrubSpilledSlotsForWrite offset size.bytes) offset size.bytes
        fun _ => clobberEntry isNull size

def maskImm (imm : Int) : MemSize → Int
  | .u8 => imm % 2^8
  | .u16 => imm % 2^16
  | .u32 => imm % 2^32
  | .u64 => imm

def storeKind (aligned : Bool) (masked : Int) : StackSlotKind :=
  if aligned then .spill else if masked = 0 then .zero else .misc

/-- The entry of the lowest byte of a stored immediate. `R0` stands for a
source that does not exist. -/
def immEntry (aligned : Bool) (masked : Int) (size : MemSize) : SpilledReg :=
  let base :=
    { plainEntry size (storeKind aligned masked) with
      sourceReg := if aligned then some .r0 else none }
  if storeKind aligned masked = .misc then base
  else { base with tnum := Tnum.constant (BitVec.ofInt 64 masked)
                   bounds := { min := masked, max := masked } }

def storeImmToStackAt (level : Nat) (imm : Int) (offset : Int) (size : MemSize) :
    State :=
  let aligned := decide (offset % 8 = 0)
  let masked := maskImm imm size
  modifyStackAt s level fun stack =>
    let stack := if aligned then stack else stack.scrubSpilledSlotsForWrite offset size.bytes
    let stack := spillBytes stack offset size (immEntry aligned masked size)
      (storeKind aligned masked)
    if aligned ∧ size.bytes < 8 then scrubRemainder stack offset size else stack

def sizeMask : BitVec 64 := BitVec.ofNat 64 (2^(8 * size.bytes) - 1)

/-- One candidate for a narrow read: the entry `back` bytes below. `none` goes
on with the search, `some none` ends it without a result. -/
def narrowStep (offset : Int) (size : MemSize) (back : Nat) :
    Option (Option Tnum) :=
  let base := offset - (back : Int)
  match stack.getSlot base with
  | none => none
  | some sp =>
    if back + size.bytes ≤ sp.size.bytes ∧
        (base % 8 = 0 ∨ (sp.tnum.isConst = true ∧ sp.tnum.value = 0)) then
      let value := sp.tnum.value >>> (8 * back)
      let mask := sp.tnum.mask >>> (8 * back)
      if mask &&& sizeMask size = sizeMask size then some none
      else some (some { value := value &&& sizeMask size, mask := mask &&& sizeMask size })
    else none

/-- The first usable entry at or below the offset. -/
def narrowedTnum (offset : Int) (size : MemSize) : Option Tnum :=
  ((List.range 8).findSome? (narrowStep stack offset size)).join

def restoreLink (dst : Reg) (sp : SpilledReg) : State :=
  putPrecise (putScalarIdOff (putScalarId s dst sp.scalarId) dst
    (if sp.scalarId.isSome then sp.scalarIdOff else none)) dst sp.precise

def dropLink (dst : Reg) : State :=
  putPrecise (putScalarIdOff (putScalarId s dst none) dst none) dst false

def addRelation (d : NumericDomain) (reg : Reg) : Option Reg → Option Int → Option Int → NumericDomain
  | some a, lo, hi =>
    let d := match hi with
      | some h => d.addConstraint reg a h
      | none => d
    match lo with
    | some l => d.addConstraint a reg l
    | none => d
  | none, _, _ => d

/-- The anchor an interval offset is measured from, by the type of the slot. -/
def slotAnchor : RegType → Option Reg
  | .ptrToPacket => some .anchorData
  | .ptrToPacketMeta => some .anchorDataMeta
  | .ptrToPacketEnd => some .anchorDataEnd
  | .ptrToStack _ => some .r10
  | .ptrToMapValue .. | .ptrToMapValueOrNull .. => some .zero
  | _ => none

def isMapValueType : RegType → Bool
  | .ptrToMapValue .. | .ptrToMapValueOrNull .. => true
  | _ => false

def setPtrOffset (d : NumericDomain) (reg : Reg) (p : Interval.PtrOffset) : NumericDomain :=
  match d with
  | .interval ivl => .interval (ivl.update reg { ivl.get reg with ptrOffset := some p })
  | .zone d => .zone d

def restoreAnchorInfo (d : NumericDomain) (reg : Reg) (sp : SpilledReg) : NumericDomain :=
  let d := if isMapValueType sp.regType then d.initMapValuePtr reg else d
  match sp.ptrBounds with
  | some (.zone anchor lo hi endAnchor endLo endHi) =>
    let d := addRelation (addRelation d reg anchor lo hi) reg endAnchor endLo endHi
    if anchor.isSome ∨ endAnchor.isSome then d.close else d
  | some (.interval off varOff range id) =>
    match slotAnchor sp.regType, off with
    | some a, some o =>
      setPtrOffset d reg
        { anchor := a, off := o, varOff := varOff.getD 0, range, id, pktEndRel := none }
    | _, _ => d
  | none => d

/-- A 4-byte read of the low half of an 8-byte scalar whose upper half is zero. -/
def isLowHalf (sp : SpilledReg) (offset : Int) (size : MemSize) : Bool :=
  decide (size = .u32 ∧ sp.size = .u64 ∧ offset % 8 = 0 ∧ sp.sourceReg.isSome = true ∧
    sp.regType = .scalarValue ∧ sp.tnum.mask &&& 0xFFFFFFFF00000000 = 0 ∧
    sp.tnum.value >>> 32 = 0)

def assignFilled (dst : Reg) (ty : RegType) (t : Tnum) (lo hi : Int) : State :=
  let s := putTnum { s with types := s.types.set dst ty } dst t
  { s with domain := s.domain.assignInterval dst lo hi }

def fillEntry (dst : Reg) (offset : Int) (size : MemSize)
    (sp : SpilledReg) : State :=
  let cleared := putPtrConstOff { s with domain := s.domain.forget dst } dst none
  let sizesMatch := sp.sourceReg.isSome && decide (sp.size = size)
  let narrowed := if sizesMatch then none else narrowedTnum stack offset size
  if !sizesMatch && isLowHalf sp offset size then
    restoreLink (assignFilled cleared dst .scalarValue sp.tnum sp.bounds.min sp.bounds.max) dst sp
  else if sizesMatch && decide (offset % 8 = 0) then
    let s := restoreLink
      (assignFilled cleared dst sp.regType sp.tnum sp.bounds.min sp.bounds.max) dst sp
    if size = .u64 then
      let s := putPtrConstOff s dst sp.ptrConstOff
      { s with domain := restoreAnchorInfo s.domain dst sp }
    else s
  else
    match narrowed with
    | some t =>
      dropLink (assignFilled cleared dst .scalarValue t (Word.toI64 t.value.toNat)
        (Word.toI64 (t.value ||| t.mask).toNat)) dst
    | none =>
      dropLink (assignFilled cleared dst .scalarValue Tnum.unknown
        size.unboundedScalarBounds.1 size.unboundedScalarBounds.2) dst

/-- The state after a load from the stack; `none` when a byte of the range has
never been written. -/
def fillAt (level : Nat) (dst : Reg) (offset : Int) (size : MemSize) : Option State :=
  match s.frames.get level with
  | none => none
  | some frame =>
    if (List.range size.bytes).all fun (i : Nat) => (frame.stack.getSlot (offset + (i : Int))).isSome then
      (frame.stack.getSlot offset).map (fillEntry s frame.stack dst offset size)
    else none

/-- `update_store_types` with the resolved offset of a stack store. -/
def updateStoreTypes (srcType : RegType) (size : MemSize) :
    Option Int → StackState
  | some slot =>
    (List.range size.bytes).foldl (fun stack (i : Nat) =>
      stack.setSlotType (slot + (i : Int))
        (if size = .u64 ∧ i = 0 then srcType else .scalarValue) none) stack
  | none => stack

def updateFrameDepth (off : Int) : State :=
  if off < 0 ∧ -2^15 < off then { s with frameDepth := max s.frameDepth (-off).toNat } else s

end ZoneVerifier.StackOps

namespace ZoneVerifier.MemTransfer
open Ast RegTypes Tristate Stack Machine StackOps
variable (stack : StackState) (s : State)

def toI16 (i : Int) : Int := (i + 2^15) % 2^16 - 2^15

def Overlaps (off size start width : Int) : Prop := off < start + width ∧ start < off + size

instance (off size start width : Int) : Decidable (Overlaps off size start width) :=
  inferInstanceAs (Decidable (_ ∧ _))

def bpfIterSize : IterKind → Int
  | .num => 8
  | .task => 40
  | .css => 24
  | .bits => 16
  | .taskVma => 8
  | .testmodSeq => 16
  | .cssTask => 8
  | .kmemCache => 8

def writeOverlapsReferencedDynptr (off size : Int) : Bool :=
  decide (¬ stack.slots.All fun slot sp =>
    ∀ d ∈ sp.dynptr, d.refId ≠ 0 → ¬ Overlaps off size slot 8)

def accessOverlapsIterator (off size : Int) : Bool :=
  decide (¬ stack.slots.All fun slot sp =>
    ∀ it ∈ sp.iterator, ¬ Overlaps off size slot (bpfIterSize it.kind))

def accessOverlapsIrqFlag (off size : Int) : Bool :=
  decide (¬ stack.slots.All fun slot sp => sp.irqFlag.isSome = true → ¬ Overlaps off size slot 8)

/-- The first slot of the pair a dynptr slot belongs to. -/
def dynptrBase (slot : Int) (d : DynptrSlot) : Int := if d.firstSlot then slot else slot - 8

def dynptrPairTouched (off size base : Int) : Bool :=
  decide (¬ stack.slots.All fun slot sp =>
    ∀ d ∈ sp.dynptr, Overlaps off size slot 8 → dynptrBase slot d ≠ base)

def dynptrIdTouched (off size : Int) (id : Nat) : Bool :=
  decide (¬ stack.slots.All fun slot sp =>
    ∀ d ∈ sp.dynptr, Overlaps off size slot 8 → d.dynptrId ≠ id)

def dynptrSliceId : RegType → Option Nat
  | .ptrToAllocMem _ _ _ id _ | .ptrToAllocMemOrNull _ _ _ id _ => id
  | _ => none

/-- `invalidate_dynptr_slices` for every identity in a set: the registers and
the stacks of all frames. -/
def invalidateDynptrSlices (touched : Nat → Bool) : State :=
  let demote (ty : RegType) : RegType :=
    if (dynptrSliceId ty).any touched then .scalarValue else ty
  { s with
    types := { regs := fun i => demote (s.types.regs i) }
    frames := s.frames.map fun f =>
      { f with stack :=
        { f.stack with slots := f.stack.slots.mapValues fun sp =>
            { sp with regType := demote sp.regType } } } }

/-- Both slots of a touched dynptr lose their mark. -/
def clearTouchedDynptrs (off size : Int) : StackState :=
  { stack with slots := stack.slots.mapEntries fun b sp =>
      if dynptrPairTouched stack off size b || dynptrPairTouched stack off size (b - 8) then
        { sp with dynptr := none }
      else sp }

inductive StoreError where
  | noFrame
  | dynptrOverwrite (off : Int)
  | iteratorOverwrite (off : Int)
  | irqFlagOverwrite (off : Int)
  deriving DecidableEq, Repr

def operandType : Operand → RegType
  | .reg r => s.types.get r
  | .imm _ => .scalarValue

def storeFixed (level : Nat) (size : MemSize) (full off : Int) (src : Operand)
    (fresh : Nat) : Except StoreError State :=
  match s.frames.get level with
  | none => .error .noFrame
  | some frame =>
    let n := (size.bytes : Int)
    if writeOverlapsReferencedDynptr frame.stack full n then .error (.dynptrOverwrite full)
    else
      let s' := invalidateDynptrSlices
        (modifyStackAt s level fun stack => clearTouchedDynptrs stack full n)
        (dynptrIdTouched frame.stack full n)
      if accessOverlapsIterator frame.stack full n then .error (.iteratorOverwrite full)
      else if accessOverlapsIrqFlag frame.stack full n then .error (.irqFlagOverwrite full)
      else
        let s' := match src with
          | .reg r => spillAt s' level r (toI16 full) size fresh
          | .imm k => storeImmToStackAt s' level k (toI16 full) size
        let s' := updateFrameDepth s' off
        .ok (modifyStackAt s' level fun stack =>
          updateStoreTypes stack (operandType s src) size (some (toI16 full)))

def invalidateRange (lo hi : Int) : StackState :=
  (List.range (hi - lo).toNat).foldl
    (fun stack (i : Nat) => stack.invalidateSlot (toI16 (lo + (i : Int)))) stack

def storeVariable (level : Nat) (size : MemSize) (base : Reg) (off : Int) : State :=
  let (lo, hi) := s.domain.getDistanceInterval base .r10
  let s := if lo ≠ -2^63 ∧ hi ≠ 2^63 - 1 then
      modifyStackAt s level fun stack =>
        invalidateRange stack (lo + off) (hi + off + (size.bytes : Int))
    else s
  updateFrameDepth s off

def transferStoreStack (level : Nat) (size : MemSize) (base : Reg) (off : Int)
    (src : Operand) (fresh : Nat) : Except StoreError State :=
  let next : Except StoreError State :=
    match s.domain.getDistanceFixed base .r10 with
    | some baseOff => storeFixed s level size (baseOff + off) off src fresh
    | none => .ok (storeVariable s level size base off)
  next.map fun s => { s with pc := s.pc + 1 }

def atomicTarget (op : AtomicOp) (fetch : Bool) (src : Reg) : Option Reg :=
  if op = .cmpXchg then some .r0 else if fetch then some src else none

/-- The old value: a fill of the current frame at the offset of the instruction. -/
def atomicReload (size : MemSize) (off : Int) : Option Reg → Option State
  | some dst => fillAt s s.frames.currentLevel dst off size
  | none => none

def isStackPtr : RegType → Bool
  | .ptrToStack _ => true
  | _ => false

/-- The slot of the access, if the base is a stack pointer at a known offset. -/
def atomicSlot (baseTy : RegType) (base : Reg) (off : Int) : Option Int :=
  if isStackPtr baseTy then (s.domain.getDistanceFixed base .r10).map fun o => toI16 (o + off)
  else none

def atomicWrite (base : Reg) (size : MemSize) (off : Int) (slot : Option Int) :
    StackState :=
  let stack := updateStoreTypes stack .scalarValue size slot
  if base = .r10 then stack.invalidateSlot off else stack

/-- A target that is not reloaded: its bounds and bits are forgotten. -/
def forgetTarget : Option Reg → State
  | some dst => { s with domain := s.domain.forget dst }.setTnum dst Tnum.unknown
  | none => s

def transferAtomic (op : AtomicOp) (fetch : Bool) (size : MemSize) (base : Reg)
    (off : Int) (src : Reg) : State :=
  let target := atomicTarget op fetch src
  let reloaded := atomicReload s size off target
  let r := reloaded.getD s
  let slot := atomicSlot r (s.types.get base) base off
  let w := r.modifyStack fun stack => atomicWrite stack base size off slot
  let w := if reloaded.isSome then w else forgetTarget w target
  let w := if base = .r10 then updateFrameDepth w off else w
  { w with pc := w.pc + 1 }

end ZoneVerifier.MemTransfer
