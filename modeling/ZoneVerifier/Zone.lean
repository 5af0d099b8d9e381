import ZoneVerifier.Ast
import ZoneVerifier.Bounds
import ZoneVerifier.DiffBound

/-!
# The zone domain

The difference bound matrix over the registers, `Zero` and the packet anchors,
together with the shadow tuple of absolute bounds of each register
(`domains/zone/dbm.rs`, `domains/zone/ops.rs`). The provenance matrix kept for
certificate generation has no influence on either and is left out.
-/

set_option autoImplicit false

namespace ZoneVerifier.Zone
open Word Ast Bounds DiffBound

def inf : Int := (2^63 - 1) / 4

def posBound : Int := inf / 2

def negBound : Int := -posBound

def clampUpperBound (c : Int) : Int :=
  if posBound < c then inf else if c < negBound then negBound else c

def clampedAdd (a b : Int) : Int :=
  if inf ≤ a ∨ inf ≤ b then inf
  else if I64 (a + b) then clampUpperBound (a + b) else inf

/-- The shadow tuple has the eight bounds of `ScalarBounds` and no identity. -/
abbrev ShadowBounds := ScalarBounds

structure Dbm where
  data : Matrix Reg
  bounds : Reg → ShadowBounds

namespace Dbm

def new : Dbm :=
  { data := fun i j => if i = j then 0 else inf, bounds := fun _ => ScalarBounds.unknown }

def get (d : Dbm) (i j : Reg) : Int := d.data i j

def set (d : Dbm) (i j : Reg) (c : Int) : Dbm := { d with data := DiffBound.set d.data i j c }

def setBounds (d : Dbm) (x : Reg) (b : ShadowBounds) : Dbm :=
  { d with bounds := fun r => if r = x then b else d.bounds r }

def addConstraint (d : Dbm) (i j : Reg) (c : Int) : Dbm :=
  if clampUpperBound c = inf then d else { d with data := tighten d.data i j (clampUpperBound c) }

def forgetVar (d : Dbm) (x : Reg) : Dbm :=
  { data := fun i j => if i = x ∨ j = x then (if i = j then 0 else inf) else d.data i j
    bounds := fun r => if r = x then ScalarBounds.unknown else d.bounds r }

def close (d : Dbm) : Dbm := { d with data := DiffBound.close inf clampedAdd Reg.rows d.data }

def isInconsistent (d : Dbm) : Bool :=
  Reg.rows.any (fun r => d.data r r < 0) ||
    Reg.rows.any (fun r =>
      decide ((d.bounds r).s32Max < (d.bounds r).s32Min) ||
      decide ((d.bounds r).u32Max < (d.bounds r).u32Min) ||
      decide ((d.bounds r).smax < (d.bounds r).smin) ||
      decide ((d.bounds r).umax < (d.bounds r).umin))

end Dbm

variable (d : Dbm) (b : ShadowBounds) (x : Reg) (x y : Reg)

def getInterval : Int × Int :=
  (if inf ≤ d.get .zero x then -2^63 else -d.get .zero x,
   if inf ≤ d.get x .zero then 2^63 - 1 else d.get x .zero)

def getDistanceInterval : Int × Int :=
  (if inf ≤ d.get y x then -2^63 else -d.get y x,
   if inf ≤ d.get x y then 2^63 - 1 else d.get x y)

/-- The sum of the upper check wraps, as every machine sum of a release build. -/
def checkRegionAccess (base : Reg) (off size : Int) (anchorStart anchorEnd : Reg) :
    Bool × Bool :=
  let startBound := d.get anchorStart base
  let endBound := d.get base anchorEnd
  (decide (startBound < inf ∧ startBound ≤ off),
   decide (endBound < inf ∧ wrapI64 (endBound + off + size) ≤ 0))

def getDistanceFixed : Option Int :=
  let (lo, hi) := getDistanceInterval d x y
  if lo = hi ∧ lo ≠ -2^63 ∧ lo ≠ 2^63 - 1 then some lo else none

def getFixedValue : Option Int :=
  let (lo, hi) := getInterval d x
  if lo = hi ∧ lo ≠ -2^63 ∧ lo ≠ 2^63 - 1 then some lo else none

/-- Sync step 1: the matrix row of `Zero` tightens the signed interval. -/
def syncFromDbm (b : ShadowBounds) : ShadowBounds :=
  let b := if d.get x .zero < inf then { b with smax := min b.smax (d.get x .zero) } else b
  if d.get .zero x < inf then { b with smin := max b.smin (-d.get .zero x) } else b

def syncU64FromS64 : ShadowBounds :=
  if 0 ≤ b.smin then b.meetU64 (toU64 b.smin) (toU64 b.smax) else b

def syncS64FromU64 : ShadowBounds :=
  if b.umax ≤ 2^63 - 1 then b.meetS64 (toI64 b.umin) (toI64 b.umax) else b

def syncU32FromS32 : ShadowBounds :=
  if 0 ≤ b.s32Min then b.meetU32 (lo32 (toU64 b.s32Min)) (lo32 (toU64 b.s32Max)) else b

def syncS32FromU32 : ShadowBounds :=
  if b.u32Max ≤ 2^31 - 1 then b.meetS32 (toI32 b.u32Min) (toI32 b.u32Max) else b

def syncS32FromS64 : ShadowBounds :=
  if -2^31 ≤ b.smin ∧ b.smax ≤ 2^31 - 1 then
    b.meetS32 (toI32 (toU64 b.smin)) (toI32 (toU64 b.smax))
  else b

def syncU32FromU64 : ShadowBounds :=
  if b.umax ≤ 2^32 - 1 then b.meetU32 (lo32 b.umin) (lo32 b.umax) else b

/-- The upper half is known to be clear, so the low half bounds the whole. -/
def sync64FromU32 : ShadowBounds :=
  if b.umax ≤ 2^32 - 1 then
    let c := b.meetU64 b.u32Min b.u32Max
    c.meetS64 (toI64 c.umin) (toI64 c.umax)
  else b

/-- Sync step 2: the views of the shadow tuple tighten one another. -/
def crossPollinate : ShadowBounds :=
  sync64FromU32 (syncU32FromU64 (syncS32FromS64 (syncS32FromU32 (syncU32FromS32
    (syncS64FromU64 (syncU64FromS64 b))))))

def syncBounds : Dbm :=
  if x = .zero ∨ x.isAnchor then d
  else
    let b := crossPollinate (syncFromDbm d x (d.bounds x))
    let d := d.setBounds x b
    let d := if b.smax < 2^63 - 1 then d.addConstraint x .zero b.smax else d
    if -2^63 < b.smin then d.addConstraint .zero x (-b.smin) else d

def forget : Dbm := (d.forgetVar x).close

def assumeLe : Dbm := (d.addConstraint x y 0).close

def assumeGe : Dbm := (d.addConstraint y x 0).close

def assumeGt : Dbm := (d.addConstraint y x (-1)).close

def assumeLeOffset (c : Int) : Dbm := (d.addConstraint x y c).close

def assumeLeImm (c : Int) : Dbm :=
  if c = 2^63 - 1 ∨ inf ≤ c then d else syncBounds (d.addConstraint x .zero c).close x

def assumeGeImm (c : Int) : Dbm :=
  if c = -2^63 then d else syncBounds (d.addConstraint .zero x (-c)).close x

def assumeRange (min max : Int) : Dbm :=
  assumeLeImm (assumeGeImm d x min) x max

def assumeEqImm (c : Int) : Dbm :=
  let d := d.addConstraint x .zero c
  let d := if -2^63 < c then d.addConstraint .zero x (-c) else d
  syncBounds d.close x

/-- A bound below `i64::MIN` is recorded as a negative diagonal entry. -/
def assumeLtImm (c : Int) : Dbm :=
  if c = -2^63 then d.set .r0 .r0 (-1)
  else if c = 2^63 - 1 ∨ inf ≤ c then d
  else syncBounds (d.addConstraint x .zero (c - 1)).close x

def intersectEqReg : Dbm :=
  let d := ((d.addConstraint x y 0).addConstraint y x 0).close
  syncBounds (syncBounds d x) y

def assignImm (imm : Int) : Dbm :=
  let d := (d.forgetVar x).addConstraint x .zero imm
  let d := if -2^63 < imm then d.addConstraint .zero x (-imm) else d
  let d := d.setBounds x { d.bounds x with smin := imm, smax := imm }
  syncBounds d.close x

def assignZero : Dbm := assignImm d x 0

def assignReg : Dbm :=
  (((d.forgetVar x).addConstraint x y 0).addConstraint y x 0).close

def assignRegOffset (dst src : Reg) (imm : Int) : Dbm :=
  let d := (d.forgetVar dst).addConstraint dst src imm
  (if -2^63 < imm then d.addConstraint src dst (-imm) else d).close

def assignInterval (r : Reg) (min max : Int) : Dbm :=
  (assumeRange (d.forgetVar r) r min max).close

def applyMulImm (dst : Reg) (imm : Int) : Dbm :=
  if imm = 0 then assignZero d dst
  else if imm = 1 then d
  else if imm < 0 then forget d dst
  else
    let (ld, ud) := getInterval d dst
    let d := d.forgetVar dst
    let d := if ld ≠ -2^63 then assumeGeImm d dst (satI64 (ld * imm)) else d
    (if ud ≠ 2^63 - 1 then assumeLeImm d dst (satI64 (ud * imm)) else d).close

end ZoneVerifier.Zone
