import ZoneVerifier.Ast
import ZoneVerifier.Bounds

/-!
# The interval domain

Every register has its scalar bounds and, when it holds a tracked pointer, an
offset from an anchor (`domains/interval/state.rs`, `domains/interval/ops.rs`).
Identities for variable packet offsets are drawn from a counter, which is
passed explicitly. Recording a packet size is disabled in the source, so the
four size bounds only change by being cleared.
-/

set_option autoImplicit false

namespace ZoneVerifier.Interval
open Word Ast Bounds

inductive PktEndRel where
  | at | beyond
  deriving DecidableEq, Repr

structure PtrOffset where
  anchor : Reg
  off : Int
  varOff : Nat
  range : Option Int
  id : Option Nat
  pktEndRel : Option PktEndRel
  deriving DecidableEq, Repr

namespace PtrOffset

def atAnchor (anchor : Reg) : PtrOffset :=
  { anchor, off := 0, varOff := 0, range := none, id := none, pktEndRel := none }

def minOffset (p : PtrOffset) : Int := p.off

def maxOffset (p : PtrOffset) : Int := satI64 (p.off + toI64 p.varOff)

def shift (p : PtrOffset) (imm : Int) : PtrOffset :=
  { p with
    off := satI64 (p.off + imm)
    range := p.range.map fun r => satI64 (r - imm)
    pktEndRel := none }

end PtrOffset

structure RegInterval where
  bounds : ScalarBounds
  ptrOffset : Option PtrOffset
  deriving DecidableEq, Repr

namespace RegInterval

def unknown : RegInterval := { bounds := ScalarBounds.unknown, ptrOffset := none }

def constant (val : Int) : RegInterval := { bounds := ScalarBounds.constant val, ptrOffset := none }

def withPtrOffset (bounds : ScalarBounds) (p : PtrOffset) : RegInterval :=
  { bounds, ptrOffset := some p }

end RegInterval

structure IntervalState where
  regs : Reg → RegInterval
  packetSizeLowerBound : Option Nat
  packetSizeUpperBound : Option Nat
  metaSizeLowerBound : Option Nat
  metaSizeUpperBound : Option Nat

namespace IntervalState
variable (s : IntervalState) (r : Reg)

def initRegs : Reg → RegInterval
  | .zero => RegInterval.constant 0
  | .anchorData => RegInterval.withPtrOffset ScalarBounds.unknown (PtrOffset.atAnchor .anchorData)
  | .anchorDataEnd =>
    RegInterval.withPtrOffset ScalarBounds.unknown (PtrOffset.atAnchor .anchorDataEnd)
  | .anchorDataMeta =>
    RegInterval.withPtrOffset ScalarBounds.unknown (PtrOffset.atAnchor .anchorDataMeta)
  | .r10 => RegInterval.withPtrOffset ScalarBounds.unknown (PtrOffset.atAnchor .r10)
  | _ => RegInterval.unknown

def new : IntervalState :=
  { regs := initRegs, packetSizeLowerBound := none, packetSizeUpperBound := none,
    metaSizeLowerBound := none, metaSizeUpperBound := none }

def get : RegInterval := s.regs r

def update (v : RegInterval) : IntervalState :=
  { s with regs := fun q => if q = r then v else s.regs q }

def set (v : RegInterval) : IntervalState :=
  if r ≠ .zero then s.update r v else s

def getBounds : ScalarBounds := (s.regs r).bounds

def modifyBounds (f : ScalarBounds → ScalarBounds) : IntervalState :=
  s.update r { s.regs r with bounds := f (s.regs r).bounds }

def modifyPtrOffset (f : PtrOffset → PtrOffset) : IntervalState :=
  s.update r { s.regs r with ptrOffset := (s.regs r).ptrOffset.map f }

def getPtrOffset : Option PtrOffset := (s.regs r).ptrOffset

def getInterval : Int × Int :=
  ((s.regs r).bounds.smin, (s.regs r).bounds.smax)

def getFixedValue : Option Int := (s.regs r).bounds.getConstant

def forget : IntervalState :=
  if r ≠ .zero ∧ ¬ r.isAnchor then s.update r RegInterval.unknown else s

def clearPacketSizeBounds : IntervalState :=
  { s with packetSizeLowerBound := none, packetSizeUpperBound := none,
           metaSizeLowerBound := none, metaSizeUpperBound := none }

def sizesContradict : Option Nat → Option Nat → Bool
  | some lower, some upper => decide (upper ≤ lower)
  | _, _ => false

def isInconsistent : Bool :=
  Reg.rows.any (fun r => decide ((s.regs r).bounds.smax < (s.regs r).bounds.smin) ||
      decide ((s.regs r).bounds.umax < (s.regs r).bounds.umin)) ||
    sizesContradict s.packetSizeLowerBound s.packetSizeUpperBound ||
    sizesContradict s.metaSizeLowerBound s.metaSizeUpperBound

end IntervalState

variable (s : IntervalState) (x y : Reg) (b c : ScalarBounds)

def getDistanceInterval : Int × Int :=
  if x = y then (0, 0)
  else
    let scalar :=
      let (xMin, xMax) := s.getInterval x
      let (yMin, yMax) := s.getInterval y
      if xMin ≠ -2^63 ∧ xMax ≠ 2^63 - 1 ∧ yMin ≠ -2^63 ∧ yMax ≠ 2^63 - 1 then
        (satI64 (xMin - yMax), satI64 (xMax - yMin))
      else (-2^63, 2^63 - 1)
    match s.getPtrOffset x, s.getPtrOffset y with
    | some xo, some yo =>
      if xo.anchor = yo.anchor then
        (satI64 (xo.off - yo.maxOffset), satI64 (xo.maxOffset - yo.off))
      else scalar
    | _, _ => scalar

def getDistanceFixed : Option Int :=
  let (lo, hi) := getDistanceInterval s x y
  if lo = hi ∧ lo ≠ -2^63 ∧ lo ≠ 2^63 - 1 then some lo else none

def assignImm (x : Reg) (imm : Int) : IntervalState :=
  if x ≠ .zero ∧ ¬ x.isAnchor then s.set x (RegInterval.constant imm) else s

def assignZero (x : Reg) : IntervalState := assignImm s x 0

def assignReg : IntervalState :=
  if x ≠ .zero ∧ ¬ x.isAnchor then s.set x (s.get y) else s

def meetAll : ScalarBounds :=
  (((b.meetS64 c.smin c.smax).meetU64 c.umin c.umax).meetS32 c.s32Min c.s32Max).meetU32 c.u32Min
    c.u32Max

def intersectEqReg : IntervalState :=
  if x = .zero ∨ x.isAnchor then s
  else s.modifyBounds x fun b => (meetAll b (s.getBounds y)).syncBounds

def assignRegOffset (dst src : Reg) (imm : Int) : IntervalState :=
  if dst = .zero ∨ dst.isAnchor then s
  else
    let b := (s.get src).bounds
    let moved : ScalarBounds :=
      { ScalarBounds.unknown with
        smin := satI64 (b.smin + imm)
        smax := satI64 (b.smax + imm)
        umin := satU64 (b.umin + toU64 imm)
        umax := satU64 (b.umax + toU64 imm) }
    s.set dst { bounds := moved.forget32ThenSync
                ptrOffset := (s.get src).ptrOffset.map (·.shift imm) }

def initMapValuePtrAt (reg : Reg) (offset : Int) : IntervalState :=
  if reg = .zero ∨ reg.isAnchor then s
  else s.set reg (RegInterval.withPtrOffset (ScalarBounds.constant offset)
    { PtrOffset.atAnchor .zero with off := offset })

def initMapValuePtr (reg : Reg) : IntervalState := initMapValuePtrAt s reg 0

def intervalBounds (min max : Int) : ScalarBounds :=
  { ScalarBounds.unknown with
    smin := min
    smax := max
    umin := if 0 ≤ min then toU64 min else 0
    umax := if 0 ≤ max then toU64 max else 2^64 - 1 }.forget32ThenSync

def assignInterval (r : Reg) (min max : Int) : IntervalState :=
  if r ≠ .zero ∧ ¬ r.isAnchor then
    s.set r { bounds := intervalBounds min max, ptrOffset := none }
  else s

/-- `overflowing_add` on `u64` for both ends: the pair survives when the two
additions agree on overflow. -/
def addPairU (width : Nat) (lo hi imm : Nat) : Nat × Nat :=
  if (2^width ≤ lo + imm ↔ 2^width ≤ hi + imm) then
    ((lo + imm) % 2^width, (hi + imm) % 2^width)
  else (0, 2^width - 1)

def wrapS (width : Nat) (i : Int) : Int := (i + 2^(width - 1)) % 2^width - 2^(width - 1)

def addPairS (width : Nat) (lo hi imm : Int) : Int × Int :=
  if (wrapS width (lo + imm) = lo + imm ↔ wrapS width (hi + imm) = hi + imm) then
    (wrapS width (lo + imm), wrapS width (hi + imm))
  else (-2^(width - 1), 2^(width - 1) - 1)

def addImmEnds (b : ScalarBounds) (imm : Int) : ScalarBounds :=
  { smin := (addPairS 64 b.smin b.smax imm).1
    smax := (addPairS 64 b.smin b.smax imm).2
    umin := (addPairU 64 b.umin b.umax (toU64 imm)).1
    umax := (addPairU 64 b.umin b.umax (toU64 imm)).2
    s32Min := (addPairS 32 b.s32Min b.s32Max (toI32 (toU64 imm))).1
    s32Max := (addPairS 32 b.s32Min b.s32Max (toI32 (toU64 imm))).2
    u32Min := (addPairU 32 b.u32Min b.u32Max (lo32 (toU64 imm))).1
    u32Max := (addPairU 32 b.u32Min b.u32Max (lo32 (toU64 imm))).2
    scalarId := none }

def addImmBounds (b : ScalarBounds) (imm : Int) : ScalarBounds := (addImmEnds b imm).syncBounds

def applyAddImm (dst : Reg) (imm : Int) : IntervalState :=
  if dst = .zero ∨ dst.isAnchor then s
  else (s.modifyBounds dst (addImmBounds · imm)).modifyPtrOffset dst (·.shift imm)

def satI32 (i : Int) : Int := max (-2^31) (min i (2^31 - 1))

def addEnds : ScalarBounds :=
  { smin := satI64 (b.smin + c.smin)
    smax := satI64 (b.smax + c.smax)
    umin := satU64 (b.umin + c.umin)
    umax := satU64 (b.umax + c.umax)
    s32Min := satI32 (b.s32Min + c.s32Min)
    s32Max := satI32 (b.s32Max + c.s32Max)
    u32Min := min (b.u32Min + c.u32Min) (2^32 - 1)
    u32Max := min (b.u32Max + c.u32Max) (2^32 - 1)
    scalarId := none }

def addBounds : ScalarBounds := (addEnds b c).syncBounds

/-- The width of the signed interval, as added to a variable offset. -/
def widen (varOff : Nat) (smin smax : Int) : Nat :=
  if 0 ≤ satI64 (smax - smin) then satU64 (varOff + toU64 (satI64 (smax - smin))) else varOff

/-- A variable scalar is added: the range is lost, and a pointer without an
identity gets the fresh one. -/
def PtrOffset.addVariable (p : PtrOffset) (smin smax : Int) (fresh : Nat) : PtrOffset :=
  { p with
    off := satI64 (p.off + smin)
    varOff := widen p.varOff smin smax
    range := none
    pktEndRel := none
    id := some (p.id.getD fresh) }

/-- `dst += src`; the second component is the identity counter afterwards. -/
def applyAddReg (dst src : Reg) (next : Nat) : IntervalState × Nat :=
  if dst = .zero ∨ dst.isAnchor then (s, next)
  else
    let b := s.getBounds src
    let s := s.modifyBounds dst (addBounds · b)
    match b.getConstant with
    | some k => (s.modifyPtrOffset dst (·.shift k), next)
    | none =>
      (s.modifyPtrOffset dst (·.addVariable b.smin b.smax next),
       match s.getPtrOffset dst with
       | some p => if p.id = none then next + 1 else next
       | none => next)

def subEnds : ScalarBounds :=
  { smin := satI64 (b.smin - c.smax)
    smax := satI64 (b.smax - c.smin)
    umin := b.umin - c.umax
    umax := b.umax - c.umin
    s32Min := satI32 (b.s32Min - c.s32Max)
    s32Max := satI32 (b.s32Max - c.s32Min)
    u32Min := b.u32Min - c.u32Max
    u32Max := b.u32Max - c.u32Min
    scalarId := none }

def subBounds : ScalarBounds := (subEnds b c).syncBounds

/-- Subtraction keeps the identity, whether or not the scalar is a constant. -/
def PtrOffset.subVariable (p : PtrOffset) (smin smax : Int) : PtrOffset :=
  { p with
    off := satI64 (p.off - smax)
    varOff := widen p.varOff smin smax
    range := none
    pktEndRel := none }

def applySubReg (dst src : Reg) : IntervalState :=
  if dst = .zero ∨ dst.isAnchor then s
  else
    let b := s.getBounds src
    (s.modifyBounds dst (subBounds · b)).modifyPtrOffset dst (·.subVariable b.smin b.smax)

def mulEnds (b : ScalarBounds) (imm : Int) : ScalarBounds :=
  { ScalarBounds.unknown with
    smin := satI64 (b.smin * imm)
    smax := satI64 (b.smax * imm)
    umin := satU64 (b.umin * toU64 imm)
    umax := satU64 (b.umax * toU64 imm) }

def applyMulImm (dst : Reg) (imm : Int) : IntervalState :=
  if dst = .zero ∨ dst.isAnchor then s
  else if imm = 0 then assignZero s dst
  else if imm = 1 then s
  else if 0 < imm then
    s.update dst { bounds := (mulEnds (s.getBounds dst) imm).forget32ThenSync, ptrOffset := none }
  else s.forget dst

def assumeLe : IntervalState :=
  let yMax := (s.getBounds y).smax
  let xMin := (s.getBounds x).smin
  let s := if xMin ≤ yMax then s.modifyBounds x (·.assumeSle yMax) else s
  if xMin ≤ yMax then s.modifyBounds y (·.assumeSge xMin) else s

def assumeGe : IntervalState := assumeLe s y x

def assumeGt : IntervalState :=
  let yMax := (s.getBounds y).smax
  let xMin := (s.getBounds x).smin
  let xMax := (s.getBounds x).smax
  let yMin := (s.getBounds y).smin
  let s :=
    if yMax ≠ 2^63 - 1 ∧ satI64 (yMax + 1) ≤ xMax then
      s.modifyBounds x (·.assumeSge (satI64 (yMax + 1)))
    else s
  if xMin ≠ -2^63 ∧ yMin ≤ satI64 (xMin - 1) then
    s.modifyBounds y (·.assumeSle (satI64 (xMin - 1)))
  else s

def assumeLeOffset (c : Int) : IntervalState :=
  let yMax := (s.getBounds y).smax
  if yMax ≠ 2^63 - 1 then s.modifyBounds x (·.assumeSle (satI64 (yMax + c))) else s

def assumeLeImm (x : Reg) (c : Int) : IntervalState :=
  s.modifyBounds x (·.assumeSle c)

def assumeGeImm (x : Reg) (c : Int) : IntervalState :=
  s.modifyBounds x (·.assumeSge c)

def assumeEqImm (x : Reg) (c : Int) : IntervalState :=
  if x ≠ .zero ∧ ¬ x.isAnchor then
    s.set x { bounds := ScalarBounds.constant c, ptrOffset := s.getPtrOffset x }
  else s

def assumeLtImm (x : Reg) (c : Int) : IntervalState :=
  if c ≠ -2^63 then s.modifyBounds x (·.assumeSle (c - 1)) else s

def bindToAnchor (reg anchor : Reg) : IntervalState :=
  if anchor.isAnchor then
    s.set reg (RegInterval.withPtrOffset ScalarBounds.unknown (PtrOffset.atAnchor anchor))
  else s

/-- `check_region_access`; the end check uses the register's own range only. -/
def checkRegionAccess (base : Reg) (off size : Int) (anchorStart : Reg) :
    Bool × Bool :=
  match s.getPtrOffset base with
  | some p =>
    if p.anchor = anchorStart then
      (decide (0 ≤ satI64 (p.minOffset + off)),
       match p.range with
       | some range => decide (satI64 (off + size) ≤ range)
       | none => false)
    else (false, false)
  | none => (false, false)

end ZoneVerifier.Interval
