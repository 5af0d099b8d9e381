import ZoneVerifier.BranchKeep
import ZoneVerifier.NullCheck

/-!
# Comparisons with the end of a packet region

In the interval domain a comparison of a packet pointer with the packet end
(`analysis/transfer/branch/interval_packet.rs`) gives every pointer of the
family the proven number of accessible bytes on one side and marks the pointer
on the other. Signed operators count as unsigned ones, and the width is not
looked at. The metadata region is treated alike, without the mark. The sizes of
the regions, whose setters do nothing, are left out.
-/

set_option autoImplicit false

namespace ZoneVerifier.Numeric.NumericDomain
open Ast
open ZoneVerifier.Interval (IntervalState PtrOffset)

def ptrOffset : NumericDomain → Reg → Option PtrOffset
  | zone _, _ => none
  | interval ivl, r => ivl.getPtrOffset r

def modifyPtrOffset : NumericDomain → Reg → (PtrOffset → PtrOffset) → NumericDomain
  | zone d, _, _ => zone d
  | interval ivl, r, f => interval (ivl.modifyPtrOffset r f)

structure SameOffsets (d d' : NumericDomain) : Prop where
  offset : ∀ r, d'.ptrOffset r = d.ptrOffset r
  kind : d'.isInterval = d.isInterval

theorem SameOffsets.refl (d : NumericDomain) : SameOffsets d d := ⟨fun _ => rfl, rfl⟩

theorem SameOffsets.trans {d d' d'' : NumericDomain} (h : SameOffsets d d')
    (h' : SameOffsets d' d'') : SameOffsets d d'' :=
  ⟨fun r => (h'.offset r).trans (h.offset r), h'.kind.trans h.kind⟩

theorem sameOffsets_zone (d d' : Zone.Dbm) : SameOffsets (zone d) (zone d') := ⟨fun _ => rfl, rfl⟩

theorem sameOffsets_interval {ivl ivl' : IntervalState}
    (h : ∀ r, ivl'.getPtrOffset r = ivl.getPtrOffset r) :
    SameOffsets (interval ivl) (interval ivl') := ⟨h, rfl⟩

theorem getPtrOffset_modifyBounds (ivl : IntervalState) (x : Reg) (f : Bounds.ScalarBounds →
    Bounds.ScalarBounds) (r : Reg) :
    (ivl.modifyBounds x f).getPtrOffset r = ivl.getPtrOffset r := by
  simp only [IntervalState.getPtrOffset, IntervalState.modifyBounds, IntervalState.update]
  split_ifs with h
  · rw [h]
  · rfl

section Refinements
variable (d : NumericDomain) (x y : Reg) (c : Int)

theorem sameOffsets_assumeGeImm : SameOffsets d (d.assumeGeImm x c) := by
  cases d with
  | zone d => exact sameOffsets_zone _ _
  | interval ivl => exact sameOffsets_interval (getPtrOffset_modifyBounds ivl x _)

theorem sameOffsets_assumeLeImm : SameOffsets d (d.assumeLeImm x c) := by
  cases d with
  | zone d => exact sameOffsets_zone _ _
  | interval ivl => exact sameOffsets_interval (getPtrOffset_modifyBounds ivl x _)

theorem sameOffsets_assumeLtImm : SameOffsets d (d.assumeLtImm x c) := by
  cases d with
  | zone d => exact sameOffsets_zone _ _
  | interval ivl =>
    refine sameOffsets_interval fun r => ?_
    unfold Interval.assumeLtImm
    split_ifs
    · exact getPtrOffset_modifyBounds ivl x _ r
    · rfl

theorem sameOffsets_assumeEqImm : SameOffsets d (d.assumeEqImm x c) := by
  cases d with
  | zone d => exact sameOffsets_zone _ _
  | interval ivl =>
    refine sameOffsets_interval fun r => ?_
    unfold Interval.assumeEqImm
    split_ifs with h
    · rw [IntervalState.set, if_pos h.1]
      simp only [IntervalState.getPtrOffset, IntervalState.update]
      split_ifs with hr
      · rw [hr]
      · rfl
    · rfl

theorem sameOffsets_assumeLe : SameOffsets d (d.assumeLe x y) := by
  cases d with
  | zone d => exact sameOffsets_zone _ _
  | interval ivl =>
    refine sameOffsets_interval fun r => ?_
    unfold Interval.assumeLe
    dsimp only
    split_ifs <;> simp only [getPtrOffset_modifyBounds]

theorem sameOffsets_assumeGe : SameOffsets d (d.assumeGe x y) := by
  cases d with
  | zone d => exact sameOffsets_zone _ _
  | interval ivl => exact sameOffsets_assumeLe (.interval ivl) y x

theorem sameOffsets_assumeGt : SameOffsets d (d.assumeGt x y) := by
  cases d with
  | zone d => exact sameOffsets_zone _ _
  | interval ivl =>
    refine sameOffsets_interval fun r => ?_
    unfold Interval.assumeGt
    dsimp only
    split_ifs <;> simp only [getPtrOffset_modifyBounds]

theorem sameOffsets_assumeLeOffset : SameOffsets d (d.assumeLeOffset x y c) := by
  cases d with
  | zone d => exact sameOffsets_zone _ _
  | interval ivl =>
    refine sameOffsets_interval fun r => ?_
    unfold Interval.assumeLeOffset
    dsimp only
    split_ifs <;> simp only [getPtrOffset_modifyBounds]

theorem sameOffsets_intersectEqReg : SameOffsets d (d.intersectEqReg x y) := by
  cases d with
  | zone d => exact sameOffsets_zone _ _
  | interval ivl =>
    refine sameOffsets_interval fun r => ?_
    unfold Interval.intersectEqReg
    split_ifs <;> simp only [getPtrOffset_modifyBounds]

theorem sameOffsets_guarded (ivl : IntervalState) (p : Prop) [Decidable p]
    (f : Bounds.ScalarBounds → Bounds.ScalarBounds) :
    SameOffsets (interval ivl) (if p then interval ivl else interval (ivl.modifyBounds x f)) := by
  split_ifs
  · exact .refl _
  · exact sameOffsets_interval (getPtrOffset_modifyBounds ivl x _)

theorem sameOffsets_setU64Bounds (lo hi : Nat) : SameOffsets d (d.setU64Bounds x lo hi) := by
  cases d with
  | zone d => exact sameOffsets_zone _ _
  | interval ivl => exact sameOffsets_guarded x ivl _ _

theorem sameOffsets_setU32Bounds (lo hi : Nat) : SameOffsets d (d.setU32Bounds x lo hi) := by
  cases d with
  | zone d => exact sameOffsets_zone _ _
  | interval ivl => exact sameOffsets_guarded x ivl _ _

theorem sameOffsets_setS32Bounds (lo hi : Int) : SameOffsets d (d.setS32Bounds x lo hi) := by
  cases d with
  | zone d => exact sameOffsets_zone _ _
  | interval ivl => exact sameOffsets_guarded x ivl _ _

end Refinements

theorem ptrOffset_modifyPtrOffset (d : NumericDomain) (x : Reg) (f : PtrOffset → PtrOffset)
    (r : Reg) : (d.modifyPtrOffset x f).ptrOffset r =
      if r = x then (d.ptrOffset x).map f else d.ptrOffset r := by
  cases d with
  | zone d => simp [ptrOffset, modifyPtrOffset]
  | interval ivl =>
    simp only [ptrOffset, modifyPtrOffset, IntervalState.getPtrOffset,
      IntervalState.modifyPtrOffset, IntervalState.update]
    split_ifs <;> rfl

end ZoneVerifier.Numeric.NumericDomain

namespace ZoneVerifier.PacketRegion
open Word Ast RegTypes Stack Machine Constraints
open Numeric (NumericDomain)
open ZoneVerifier.Interval (PtrOffset PktEndRel IntervalState)
variable (s : State)

/-- The offset of a pointer of the type from the anchor of its region. -/
def regionOffset (ty : RegType) (anchor : Reg) (s : State) (reg : Reg) : Option PtrOffset :=
  if s.types.get reg = ty then (s.domain.ptrOffset reg).filter fun po => po.anchor = anchor
  else none

def getPacketDataOffset : State → Reg → Option PtrOffset := regionOffset .ptrToPacket .anchorData

def getPacketMetaOffset : State → Reg → Option PtrOffset :=
  regionOffset .ptrToPacketMeta .anchorDataMeta

def isPacketEnd (reg : Reg) : Bool := decide (s.types.get reg = .ptrToPacketEnd)

def isPacketData (reg : Reg) : Bool :=
  match getPacketDataOffset s reg with
  | some po => decide (po.off = 0 ∧ po.varOff = 0)
  | none => false

/-- What a side of a comparison says on the size of the region: a lower bound,
strict when the pointer itself is accessible, or an upper bound, strict when
the pointer may be at the end. -/
inductive RegionFact where
  | lower (strict : Bool)
  | upper (strict : Bool)
  deriving DecidableEq, Repr

def regionFact (startOnLeft : Bool) (op : CmpOp) (taken : Bool) : Option RegionFact :=
  match startOnLeft, op, taken with
  | true, .ule, true | true, .sle, true => some (.lower false)
  | true, .ult, true | true, .slt, true => some (.lower true)
  | true, .ugt, false | true, .sgt, false => some (.lower false)
  | true, .uge, false | true, .sge, false => some (.lower true)
  | true, .ugt, true | true, .sgt, true => some (.upper false)
  | true, .uge, true | true, .sge, true => some (.upper true)
  | true, .ule, false | true, .sle, false => some (.upper false)
  | true, .ult, false | true, .slt, false => some (.upper true)
  | false, .uge, true | false, .sge, true => some (.lower false)
  | false, .ugt, true | false, .sgt, true => some (.lower true)
  | false, .ule, false | false, .sle, false => some (.lower true)
  | false, .ult, false | false, .slt, false => some (.lower false)
  | false, .ult, true | false, .slt, true => some (.upper false)
  | false, .ule, true | false, .sle, true => some (.upper true)
  | false, .uge, false | false, .sge, false => some (.upper false)
  | false, .ugt, false | false, .sgt, false => some (.upper true)
  | _, _, _ => none

def widenRange (checkedId : Option Nat) (provenSize off : Int) (id : Option Nat)
    (range : Option Int) : Option Int :=
  let rangeForReg := satI64 (provenSize - off)
  if checkedId = id ∧ 0 ≤ rangeForReg ∧ range.getD (-1) < rangeForReg then some rangeForReg
  else range

def widenOffset (anchor : Reg) (checkedId : Option Nat) (provenSize : Int) (po : PtrOffset) :
    PtrOffset :=
  if po.anchor = anchor then
    { po with range := widenRange checkedId provenSize po.off po.id po.range }
  else po

def widenReg (ty : RegType) (anchor : Reg) (checkedId : Option Nat) (provenSize : Int)
    (types : TypeState) (d : NumericDomain) (reg : Reg) : NumericDomain :=
  if types.get reg = ty then d.modifyPtrOffset reg (widenOffset anchor checkedId provenSize)
  else d

def widenSlot (ty : RegType) (checkedId : Option Nat) (provenSize : Int) (slot : SpilledReg) :
    SpilledReg :=
  match slot.ptrBounds with
  | some (.interval (some off) varOff range id) =>
    if slot.regType = ty then
      { slot with
        ptrBounds := some (.interval (some off) varOff
          (widenRange checkedId provenSize off id range) id) }
    else slot
  | _ => slot

/-- The registers of the family, and the slots of all frames. -/
def propagateRange (ty : RegType) (anchor : Reg) (s : State) (checkedReg : Reg)
    (provenSize : Int) : State :=
  let checkedId := (s.domain.ptrOffset checkedReg).bind (·.id)
  mapStacks { s with
      domain := Reg.all.foldl (widenReg ty anchor checkedId provenSize s.types) s.domain }
    (widenSlot ty checkedId provenSize)

def propagatePacketRange : State → Reg → Int → State := propagateRange .ptrToPacket .anchorData

def propagateMetaRange : State → Reg → Int → State :=
  propagateRange .ptrToPacketMeta .anchorDataMeta

def provenSize (off : Int) (strict : Bool) : Int := if strict then satI64 (off + 1) else off

def markPktEnd (reg : Reg) (rel : PktEndRel) : State :=
  { s with domain := s.domain.modifyPtrOffset reg fun po => { po with pktEndRel := some rel } }

def applyDataFact (po : PtrOffset) (checkedReg : Reg) : Option RegionFact → State
  | some (.lower strict) =>
    if 0 < provenSize po.off strict then
      propagatePacketRange s checkedReg (provenSize po.off strict)
    else s
  | some (.upper strict) => markPktEnd s checkedReg (if strict then .at else .beyond)
  | none => s

def refineDataRegionBounds (left right : Reg) (op : CmpOp) (branchTaken : Bool) :
    State :=
  match getPacketDataOffset s left with
  | some po =>
    if isPacketEnd s right then applyDataFact s po left (regionFact true op branchTaken) else s
  | none =>
    match getPacketDataOffset s right with
    | some po =>
      if isPacketEnd s left then applyDataFact s po right (regionFact false op branchTaken) else s
    | none => s

def applyMetaFact (po : PtrOffset) (metaReg : Reg) : Option RegionFact → State
  | some (.lower strict) =>
    if 0 < provenSize po.off strict then propagateMetaRange s metaReg (provenSize po.off strict)
    else s
  | _ => s

def refineMetaRegionBounds (left right : Reg) (op : CmpOp) (branchTaken : Bool) :
    State :=
  match getPacketMetaOffset s left with
  | some po =>
    if isPacketData s right then applyMetaFact s po left (regionFact true op branchTaken) else s
  | none =>
    match getPacketMetaOffset s right with
    | some po =>
      if isPacketData s left then applyMetaFact s po right (regionFact false op branchTaken) else s
    | none => s

def refinePacketBounds (left right : Reg) (op : CmpOp) (branchTaken : Bool) : State :=
  if s.domain.isInterval then
    refineMetaRegionBounds (refineDataRegionBounds s left right op branchTaken) left right op
      branchTaken
  else s

def compareSide (w : Width) (left : Reg) (op : CmpOp) (right : Reg)
    (branchTaken : Bool) : State :=
  let sides := applyJmpConstraints s s left op w (.reg right)
  refinePacketBounds (if branchTaken then sides.1 else sides.2) left right op branchTaken

section Domains
open Numeric.NumericDomain
variable (d : NumericDomain) (x : Reg) (c : Int) (op : CmpOp)

theorem sameOffsets_foldl {apply : NumericDomain → Reg → NumericDomain}
    (h : ∀ d r, SameOffsets d (apply d r)) (rs : List Reg) :
    SameOffsets d (rs.foldl apply d) := by
  induction rs generalizing d with
  | nil => exact .refl _
  | cons r rs ih => exact (h d r).trans (ih _)

theorem sameOffsets_applyLinked {apply : NumericDomain → Reg → NumericDomain}
    (h : ∀ d r, SameOffsets d (apply d r)) : SameOffsets d (applyLinked d x apply) := by
  unfold applyLinked intervalPropagateScalars
  split
  · exact h d x
  · exact (h d x).trans (sameOffsets_foldl _ h _)

theorem sameOffsets_assumeGeLinked : SameOffsets d (assumeGeLinked d x c) :=
  sameOffsets_applyLinked d x fun d r => sameOffsets_assumeGeImm d r c

theorem sameOffsets_assumeLeLinked : SameOffsets d (assumeLeLinked d x c) :=
  sameOffsets_applyLinked d x fun d r => sameOffsets_assumeLeImm d r c

theorem sameOffsets_assumeLtLinked : SameOffsets d (assumeLtLinked d x c) :=
  sameOffsets_applyLinked d x fun d r => sameOffsets_assumeLtImm d r c

theorem sameOffsets_refineNeImm : SameOffsets d (refineNeImm d x c) := by
  rw [refineNeImm_eq]
  have hs : SameOffsets d (neEdge d x c) := by
    unfold neEdge
    split_ifs
    · exact sameOffsets_assumeGeLinked d x _
    · exact sameOffsets_assumeLeLinked d x _
    · exact .refl d
  refine hs.trans ?_
  unfold neBump
  dsimp only
  split_ifs
  · exact sameOffsets_setU64Bounds _ _ _ _
  · exact .refl _

theorem sameOffsets_refineSide_imm (imm : Int) : SameOffsets d (refineSide d x op (.imm imm)) := by
  cases op with
  | eq => exact sameOffsets_applyLinked d x fun d r => sameOffsets_assumeEqImm d r imm
  | ne => exact sameOffsets_refineNeImm d x imm
  | uge | sge => exact sameOffsets_assumeGeLinked d x imm
  | ugt | sgt => exact sameOffsets_assumeGeLinked d x _
  | ule => exact (sameOffsets_assumeLeLinked d x imm).trans (sameOffsets_assumeGeLinked _ x 0)
  | sle => exact sameOffsets_assumeLeLinked d x imm
  | ult =>
    simp only [refineSide]
    split_ifs
    · exact (sameOffsets_assumeLtLinked d x imm).trans (sameOffsets_assumeGeLinked _ x 0)
    · exact sameOffsets_assumeLtLinked d x imm
  | slt => exact sameOffsets_assumeLtLinked d x imm
  | test => exact .refl d

theorem sameOffsets_refineSide_reg (y : Reg) : SameOffsets d (refineSide d x op (.reg y)) := by
  cases op with
  | eq => exact sameOffsets_intersectEqReg d x y
  | ne | test => exact .refl d
  | uge | sge => exact sameOffsets_assumeGe d x y
  | ugt | sgt => exact sameOffsets_assumeGt d x y
  | ule => exact (sameOffsets_assumeLe d x y).trans (sameOffsets_assumeGeLinked _ x 0)
  | sle => exact sameOffsets_assumeLe d x y
  | ult => exact (sameOffsets_assumeLeOffset d x y _).trans (sameOffsets_assumeGeLinked _ x 0)
  | slt => exact sameOffsets_assumeLeOffset d x y _

theorem sameOffsets_refineSide (right : Operand) : SameOffsets d (refineSide d x op right) := by
  cases right with
  | imm imm => exact sameOffsets_refineSide_imm d x op imm
  | reg y => exact sameOffsets_refineSide_reg d x op y

theorem sameOffsets_rangeSide (k : Nat) : SameOffsets d (rangeSide d x op k) := by
  have hr : ∀ lo hi, SameOffsets d (applySignedFromUnsignedRange d x lo hi) := by
    intro lo hi
    unfold applySignedFromUnsignedRange
    split_ifs
    · exact .refl d
    · exact (sameOffsets_assumeGeImm d x _).trans (sameOffsets_assumeLeImm _ x _)
    · exact .refl d
  unfold rangeSide
  split
  · split_ifs
    · exact hr _ _
    · exact .refl d
  · exact hr _ _
  · split_ifs
    · exact hr _ _
    · exact .refl d
  · exact hr _ _
  · exact .refl d

end Domains

structure Kept (s s' : State) : Prop where
  types : s'.types = s.types
  frames : s'.frames = s.frames
  offsets : NumericDomain.SameOffsets s.domain s'.domain

namespace Kept
open Numeric.NumericDomain
variable {s s' s'' : State}

theorem refl (s : State) : Kept s s := ⟨rfl, rfl, .refl _⟩

theorem trans (h : Kept s s') (h' : Kept s' s'') : Kept s s'' :=
  ⟨h'.types.trans h.types, h'.frames.trans h.frames, h.offsets.trans h'.offsets⟩

theorem setDomain {d : NumericDomain} (h : SameOffsets s.domain d) :
    Kept s { s with domain := d } := ⟨rfl, rfl, h⟩

theorem setTnum (s : State) (x : Reg) (t : Tristate.Tnum) : Kept s (s.setTnum x t) := by
  unfold State.setTnum
  split_ifs
  · exact ⟨rfl, rfl, .refl _⟩
  · exact refl s

variable (s) (left : Reg) (op : CmpOp) (w : Width) (right : Operand)

theorem unsignedConstSide : Kept s (unsignedConstSide s left op right) := by
  unfold Constraints.unsignedConstSide
  split
  · exact setDomain (sameOffsets_rangeSide _ _ _ _)
  · exact setDomain (sameOffsets_rangeSide _ _ _ _)
  · exact refl s

theorem refineSubregTnum (target : Reg) (lo hi : Nat) :
    Kept s (refineSubregTnum s target lo hi) := by
  unfold Constraints.refineSubregTnum
  split_ifs
  · exact refl s
  · dsimp only
    split
    · exact refl s
    · exact setTnum s _ _

theorem w32UnsignedSide : Kept s (w32UnsignedSide s left op right) := by
  unfold Constraints.w32UnsignedSide
  split
  · exact refl s
  · split
    · exact refl s
    · exact (setDomain (sameOffsets_setU32Bounds _ _ _ _)).trans (refineSubregTnum _ _ _ _)

theorem w32SignedSide : Kept s (w32SignedSide s left op right) := by
  unfold Constraints.w32SignedSide
  split
  · exact refl s
  · split
    · exact refl s
    · exact setDomain (sameOffsets_setS32Bounds _ _ _ _)

theorem numericSide (bounds : Int × Int) : Kept s (numericSide s left op w right bounds) := by
  unfold Constraints.numericSide
  split_ifs
  · exact setDomain (sameOffsets_refineSide _ _ _ _)
  · exact unsignedConstSide s left op right
  · exact w32SignedSide s left op right
  · exact w32UnsignedSide s left op right
  · exact refl s

theorem branchSide : Kept s (branchSide s left op w right) := by
  unfold Constraints.branchSide
  split_ifs
  · exact refl s
  · dsimp only
    refine (numericSide s left op w (resolveRightOperand s.domain right w op).1
      (resolveRightOperand s.domain right w op).2).trans ?_
    unfold eqSide
    split
    · exact setTnum _ _ _
    · exact refl _

theorem applyTestConstraints :
    Kept s (applyTestConstraints s s left w right).1 ∧
      Kept s (applyTestConstraints s s left w right).2 := by
  unfold Constraints.applyTestConstraints
  split
  · exact ⟨refl s, refl s⟩
  · dsimp only
    split_ifs
    · exact ⟨(setTnum _ _ _).trans (setDomain (sameOffsets_assumeGeImm _ _ _)),
        (setTnum _ _ _).trans (setDomain (sameOffsets_assumeLeImm _ _ _))⟩
    · exact ⟨setTnum _ _ _, setTnum _ _ _⟩
    · exact ⟨(setTnum _ _ _).trans (setDomain (sameOffsets_assumeLtImm _ _ _)),
        (setTnum _ _ _).trans (setDomain (sameOffsets_assumeGeImm _ _ _))⟩
    · exact ⟨setTnum _ _ _, setTnum _ _ _⟩
    · exact ⟨refl s, setTnum _ _ _⟩

theorem applyJmpConstraints :
    Kept s (applyJmpConstraints s s left op w right).1 ∧
      Kept s (applyJmpConstraints s s left op w right).2 := by
  by_cases ht : op = .test
  · rw [Constraints.applyJmpConstraints, if_pos ht]
    exact applyTestConstraints s left w right
  · rw [applyJmpConstraints_eq s left w right ht]
    exact ⟨branchSide s left op w right, branchSide s left _ w right⟩

end Kept

def endRel (s : State) (r : Reg) : Option PktEndRel :=
  if s.types.get r = .ptrToPacket then (s.domain.ptrOffset r).bind (·.pktEndRel) else none

/-- The packet pointer of a comparison with the packet end, and whether it is
the left operand. -/
def dataCheck (s : State) (left right : Reg) : Option (Bool × Reg) :=
  if (getPacketDataOffset s left).isSome then if isPacketEnd s right then some (true, left) else none
  else if (getPacketDataOffset s right).isSome ∧ isPacketEnd s left then some (false, right)
  else none

def markOf : Option RegionFact → Option PktEndRel
  | some (.upper strict) => some (if strict then .at else .beyond)
  | _ => none

def newMark (s : State) (left right : Reg) (op : CmpOp) (branchTaken : Bool) (r : Reg) :
    Option PktEndRel :=
  (dataCheck s left right).bind fun check =>
    if check.2 = r then markOf (regionFact check.1 op branchTaken) else none

section Marks
variable {s s' : State} {left right : Reg} {op : CmpOp} {branchTaken : Bool}

theorem endRel_congr (ht : s'.types = s.types)
    (h : ∀ r, (s'.domain.ptrOffset r).bind (·.pktEndRel) =
      (s.domain.ptrOffset r).bind (·.pktEndRel)) (r : Reg) : endRel s' r = endRel s r := by
  unfold endRel
  rw [ht, h r]

theorem Kept.endRel_eq (h : Kept s s') (r : Reg) : endRel s' r = endRel s r :=
  endRel_congr h.types (fun r => by rw [h.offsets.offset r]) r

theorem Kept.regionOffset_eq (h : Kept s s') (ty : RegType) (anchor r : Reg) :
    regionOffset ty anchor s' r = regionOffset ty anchor s r := by
  unfold regionOffset
  rw [h.types, h.offsets.offset r]

theorem Kept.newMark_eq (h : Kept s s') (r : Reg) :
    newMark s' left right op branchTaken r = newMark s left right op branchTaken r := by
  unfold newMark dataCheck getPacketDataOffset isPacketEnd
  simp only [h.regionOffset_eq, h.types]

theorem widenReg_rel (ty : RegType) (anchor : Reg) (checkedId : Option Nat) (size : Int)
    (types : TypeState) (d : NumericDomain) (reg r : Reg) :
    ((widenReg ty anchor checkedId size types d reg).ptrOffset r).bind (·.pktEndRel) =
      (d.ptrOffset r).bind (·.pktEndRel) := by
  unfold widenReg
  split_ifs
  · rw [NumericDomain.ptrOffset_modifyPtrOffset]
    split_ifs with hr
    · subst hr
      cases d.ptrOffset r with
      | none => rfl
      | some po =>
        simp only [Option.map_some, Option.bind_some, widenOffset]
        split_ifs <;> rfl
    · rfl
  · rfl

theorem endRel_propagateRange (ty : RegType) (anchor : Reg) (s : State) (reg : Reg) (size : Int)
    (r : Reg) : endRel (propagateRange ty anchor s reg size) r = endRel s r := by
  have ht : (propagateRange ty anchor s reg size).types = s.types := rfl
  refine endRel_congr ht (fun r => ?_) r
  show ((Reg.all.foldl (widenReg ty anchor _ size s.types) s.domain).ptrOffset r).bind _ = _
  generalize (s.domain.ptrOffset reg).bind (·.id) = checkedId
  generalize Reg.all = regs
  generalize s.domain = d
  induction regs generalizing d with
  | nil => rfl
  | cons q regs ih => exact (ih _).trans (widenReg_rel _ _ _ _ _ d q r)

section
variable (s : State) (left right : Reg) (op : CmpOp) (branchTaken : Bool)

theorem refineMetaRegionBounds_cases :
    refineMetaRegionBounds s left right op branchTaken = s ∨
      ∃ reg size, refineMetaRegionBounds s left right op branchTaken =
        propagateMetaRange s reg size := by
  have hfact : ∀ po reg fact, applyMetaFact s po reg fact = s ∨
      ∃ q size, applyMetaFact s po reg fact = propagateMetaRange s q size := by
    intro po reg fact
    unfold applyMetaFact
    split
    · split_ifs
      · exact .inr ⟨reg, _, rfl⟩
      · exact .inl rfl
    · exact .inl rfl
  unfold refineMetaRegionBounds
  split
  · split_ifs
    · exact hfact _ _ _
    · exact .inl rfl
  · split
    · split_ifs
      · exact hfact _ _ _
      · exact .inl rfl
    · exact .inl rfl

theorem endRel_refineMetaRegionBounds (r : Reg) :
    endRel (refineMetaRegionBounds s left right op branchTaken) r = endRel s r := by
  obtain h | ⟨reg, size, h⟩ := refineMetaRegionBounds_cases s left right op branchTaken
  · rw [h]
  · rw [h]
    exact endRel_propagateRange _ _ _ _ _ _

end

theorem endRel_markPktEnd {x : Reg} {po : PtrOffset} (hx : getPacketDataOffset s x = some po)
    (rel : PktEndRel) (r : Reg) :
    endRel (markPktEnd s x rel) r = if x = r then some rel else endRel s r := by
  unfold getPacketDataOffset regionOffset at hx
  split_ifs at hx with ht
  obtain ⟨hpo, -⟩ := Option.filter_eq_some_iff.1 hx
  unfold endRel markPktEnd
  rw [NumericDomain.ptrOffset_modifyPtrOffset]
  by_cases hr : x = r
  · subst hr
    rw [if_pos ht, if_pos rfl, if_pos rfl, hpo]
    rfl
  · rw [if_neg hr, if_neg (Ne.symm hr)]

theorem endRel_applyDataFact {po : PtrOffset} {x : Reg} (hx : getPacketDataOffset s x = some po)
    (fact : Option RegionFact) (r : Reg) :
    endRel (applyDataFact s po x fact) r =
      (if x = r then markOf fact else none).or (endRel s r) := by
  unfold applyDataFact
  split
  · -- a lower bound leaves no mark
    simp only [markOf, ite_self, Option.none_or]
    split_ifs
    · exact endRel_propagateRange _ _ _ _ _ _
    · rfl
  · rw [endRel_markPktEnd hx, markOf]
    by_cases hr : x = r
    · rw [if_pos hr, if_pos hr, Option.some_or]
    · rw [if_neg hr, if_neg hr, Option.none_or]
  · simp only [markOf, ite_self, Option.none_or]

theorem endRel_refineDataRegionBounds (s : State) (left right : Reg) (op : CmpOp)
    (branchTaken : Bool) (r : Reg) :
    endRel (refineDataRegionBounds s left right op branchTaken) r =
      (newMark s left right op branchTaken r).or (endRel s r) := by
  unfold refineDataRegionBounds newMark dataCheck
  cases hl : getPacketDataOffset s left with
  | some po =>
    simp only [Option.isSome_some, if_true]
    split_ifs
    · exact endRel_applyDataFact hl _ r
    · rfl
  | none =>
    cases hr : getPacketDataOffset s right with
    | some po =>
      simp only [Option.isSome_none, Bool.false_eq_true, if_false, Option.isSome_some, true_and]
      split_ifs
      · exact endRel_applyDataFact hr _ r
      · rfl
    | none => rfl

theorem newMark_of_zone (h : s.domain.isInterval = false) (r : Reg) :
    newMark s left right op branchTaken r = none := by
  have hoff : ∀ q, getPacketDataOffset s q = none := by
    intro q
    unfold getPacketDataOffset regionOffset
    cases hd : s.domain with
    | zone d => split_ifs <;> rfl
    | interval ivl => rw [hd] at h; cases h
  unfold newMark dataCheck
  rw [hoff left, hoff right]
  rfl

/-- A relation that holds over changes of the domain and over wider ranges of spilled pointers. -/
structure RegionClosed (R : State → State → Prop) : Prop where
  trans : ∀ {s t u}, R s t → R t u → R s u
  domain : ∀ s d, R s { s with domain := d }
  slots : ∀ s ty checkedId size, R s (mapStacks s (widenSlot ty checkedId size))

theorem closed_propagateRange {R : State → State → Prop} (hR : RegionClosed R) (ty : RegType)
    (anchor : Reg) (s : State) (reg : Reg) (size : Int) :
    R s (propagateRange ty anchor s reg size) := hR.trans (hR.domain s _) (hR.slots _ ty _ size)

theorem closed_refineDataRegionBounds {R : State → State → Prop} (hR : RegionClosed R) (s : State)
    (left right : Reg) (op : CmpOp) (branchTaken : Bool) :
    R s (refineDataRegionBounds s left right op branchTaken) := by
  have hrefl : R s s := hR.domain s s.domain
  have hfact : ∀ po reg fact, R s (applyDataFact s po reg fact) := by
    intro po reg fact
    unfold applyDataFact
    split
    · split_ifs
      · exact closed_propagateRange hR _ _ s reg _
      · exact hrefl
    · exact hR.domain s _
    · exact hrefl
  unfold refineDataRegionBounds
  split
  · split_ifs
    · exact hfact _ _ _
    · exact hrefl
  · split
    · split_ifs
      · exact hfact _ _ _
      · exact hrefl
    · exact hrefl

theorem closed_refinePacketBounds {R : State → State → Prop} (hR : RegionClosed R) (s : State)
    (left right : Reg) (op : CmpOp) (branchTaken : Bool) :
    R s (refinePacketBounds s left right op branchTaken) := by
  unfold refinePacketBounds
  split_ifs
  · refine hR.trans (closed_refineDataRegionBounds hR s left right op branchTaken) ?_
    obtain h | ⟨reg, size, h⟩ := refineMetaRegionBounds_cases
      (refineDataRegionBounds s left right op branchTaken) left right op branchTaken
    · rw [h]
      exact hR.domain _ _
    · rw [h]
      exact closed_propagateRange hR _ _ _ reg size
  · exact hR.domain s s.domain

theorem regionClosed_types : RegionClosed fun s s' => s'.types = s.types where
  trans h h' := h'.trans h
  domain _ _ := rfl
  slots _ _ _ _ := rfl

theorem kept_side (s : State) (w : Width) (left : Reg) (op : CmpOp) (right : Operand)
    (branchTaken : Bool) :
    Kept s (if branchTaken then (applyJmpConstraints s s left op w right).1
      else (applyJmpConstraints s s left op w right).2) := by
  split_ifs
  · exact (Kept.applyJmpConstraints s left op w right).1
  · exact (Kept.applyJmpConstraints s left op w right).2

theorem types_compareSide (s : State) (w : Width) (left : Reg) (op : CmpOp) (right : Reg)
    (branchTaken : Bool) : (compareSide s w left op right branchTaken).types = s.types :=
  (closed_refinePacketBounds regionClosed_types _ left right op branchTaken).trans
    (kept_side s w left op (.reg right) branchTaken).types

theorem endRel_refinePacketBounds (s : State) (left right : Reg) (op : CmpOp)
    (branchTaken : Bool) (r : Reg) :
    endRel (refinePacketBounds s left right op branchTaken) r =
      (newMark s left right op branchTaken r).or (endRel s r) := by
  unfold refinePacketBounds
  split_ifs with hi
  · rw [endRel_refineMetaRegionBounds, endRel_refineDataRegionBounds]
  · rw [newMark_of_zone (by simpa using hi), Option.none_or]

theorem endRel_compareSide (s : State) (w : Width) (left : Reg) (op : CmpOp) (right : Reg)
    (branchTaken : Bool) (r : Reg) :
    endRel (compareSide s w left op right branchTaken) r =
      (newMark s left right op branchTaken r).or (endRel s r) := by
  have hk := kept_side s w left op (.reg right) branchTaken
  rw [← hk.newMark_eq r, ← hk.endRel_eq r]
  exact endRel_refinePacketBounds _ left right op branchTaken r

end Marks

end ZoneVerifier.PacketRegion
