import ZoneVerifier.Zone
import ZoneVerifier.Interval

/-!
# The numeric domain interface

`NumericDomain` wraps the two domains behind one interface
(`domains/numeric.rs`).
-/

set_option autoImplicit false

namespace ZoneVerifier.Numeric
open Word Ast Bounds
open Zone (Dbm)
open ZoneVerifier.Interval (IntervalState)

inductive NumericDomain where
  | zone (dbm : Dbm)
  | interval (ivl : IntervalState)

namespace NumericDomain

def newInterval : NumericDomain := interval IntervalState.new

def isInterval : NumericDomain → Bool
  | zone _ => false
  | interval _ => true

def getInterval : NumericDomain → Reg → Int × Int
  | zone d, x => Zone.getInterval d x
  | interval s, x => s.getInterval x

def getDistanceInterval : NumericDomain → Reg → Reg → Int × Int
  | zone d, x, y => Zone.getDistanceInterval d x y
  | interval s, x, y => Interval.getDistanceInterval s x y

def getDistanceFixed : NumericDomain → Reg → Reg → Option Int
  | zone d, x, y => Zone.getDistanceFixed d x y
  | interval s, x, y => Interval.getDistanceFixed s x y

def getFixedValue : NumericDomain → Reg → Option Int
  | zone d, x => Zone.getFixedValue d x
  | interval s, x => s.getFixedValue x

def getU64Bounds : NumericDomain → Reg → Nat × Nat
  | zone d, x => ((d.bounds x).umin, (d.bounds x).umax)
  | interval s, x => ((s.getBounds x).umin, (s.getBounds x).umax)

/-- The signed low half as derived from the 64-bit interval alone. -/
def derivedS32 (b : ScalarBounds) : Int × Int :=
  if -2^31 ≤ b.smin ∧ b.smax ≤ 2^31 - 1 then (b.smin, b.smax)
  else if 0 ≤ b.smin ∧ b.smax ≤ 2^32 - 1 then
    if toI32 (toU64 b.smin) ≤ toI32 (toU64 b.smax) then
      (toI32 (toU64 b.smin), toI32 (toU64 b.smax))
    else (-2^31, 2^31 - 1)
  else (-2^31, 2^31 - 1)

def getS32Bounds : NumericDomain → Reg → Int × Int
  | zone d, x => ((d.bounds x).s32Min, (d.bounds x).s32Max)
  | interval s, x =>
    let b := s.getBounds x
    let lo := max (derivedS32 b).1 b.s32Min
    let hi := min (derivedS32 b).2 b.s32Max
    if lo ≤ hi then (lo, hi) else derivedS32 b

def derivedU32 (b : ScalarBounds) : Nat × Nat :=
  if b.umax ≤ 2^32 - 1 then (lo32 b.umin, lo32 b.umax) else (0, 2^32 - 1)

def getU32Bounds : NumericDomain → Reg → Nat × Nat
  | zone d, x => ((d.bounds x).u32Min, (d.bounds x).u32Max)
  | interval s, x =>
    let b := s.getBounds x
    let lo := max (derivedU32 b).1 b.u32Min
    let hi := min (derivedU32 b).2 b.u32Max
    if lo ≤ hi then (lo, hi) else derivedU32 b

def setS32Bounds : NumericDomain → Reg → Int → Int → NumericDomain
  | zone d, x, min, max =>
    zone (Zone.syncBounds (d.setBounds x { d.bounds x with s32Min := min, s32Max := max }) x)
  | interval s, x, min, max =>
    if x = .zero ∨ x.isAnchor then interval s
    else interval (s.modifyBounds x fun b => (b.meetS32 min max).syncBounds)

def setU32Bounds : NumericDomain → Reg → Nat → Nat → NumericDomain
  | zone d, x, min, max =>
    zone (Zone.syncBounds (d.setBounds x { d.bounds x with u32Min := min, u32Max := max }) x)
  | interval s, x, min, max =>
    if x = .zero ∨ x.isAnchor then interval s
    else interval (s.modifyBounds x fun b => (b.meetU32 min max).syncBounds)

def setU64Bounds : NumericDomain → Reg → Nat → Nat → NumericDomain
  | zone d, x, min, max =>
    zone (Zone.syncBounds (d.setBounds x ((d.bounds x).meetU64 min max)) x)
  | interval s, x, min, max =>
    if x = .zero ∨ x.isAnchor then interval s
    else interval (s.modifyBounds x fun b => (b.meetU64 min max).syncBounds)

def forget : NumericDomain → Reg → NumericDomain
  | zone d, x => zone (Zone.forget d x)
  | interval s, x => interval (s.forget x)

def assignImm : NumericDomain → Reg → Int → NumericDomain
  | zone d, x, imm => zone (Zone.assignImm d x imm)
  | interval s, x, imm => interval (Interval.assignImm s x imm)

def assignReg : NumericDomain → Reg → Reg → NumericDomain
  | zone d, x, y => zone (Zone.assignReg d x y)
  | interval s, x, y => interval (Interval.assignReg s x y)

def assignRegOffset : NumericDomain → Reg → Reg → Int → NumericDomain
  | zone d, dst, src, imm => zone (Zone.assignRegOffset d dst src imm)
  | interval s, dst, src, imm => interval (Interval.assignRegOffset s dst src imm)

def assignInterval : NumericDomain → Reg → Int → Int → NumericDomain
  | zone d, r, min, max => zone (Zone.assignInterval d r min max)
  | interval s, r, min, max => interval (Interval.assignInterval s r min max)

def intersectEqReg : NumericDomain → Reg → Reg → NumericDomain
  | zone d, x, y => zone (Zone.intersectEqReg d x y)
  | interval s, x, y => interval (Interval.intersectEqReg s x y)

def assumeLe : NumericDomain → Reg → Reg → NumericDomain
  | zone d, x, y => zone (Zone.assumeLe d x y)
  | interval s, x, y => interval (Interval.assumeLe s x y)

def assumeGe : NumericDomain → Reg → Reg → NumericDomain
  | zone d, x, y => zone (Zone.assumeGe d x y)
  | interval s, x, y => interval (Interval.assumeGe s x y)

def assumeGt : NumericDomain → Reg → Reg → NumericDomain
  | zone d, x, y => zone (Zone.assumeGt d x y)
  | interval s, x, y => interval (Interval.assumeGt s x y)

def assumeLeOffset : NumericDomain → Reg → Reg → Int → NumericDomain
  | zone d, x, y, c => zone (Zone.assumeLeOffset d x y c)
  | interval s, x, y, c => interval (Interval.assumeLeOffset s x y c)

def assumeLeImm : NumericDomain → Reg → Int → NumericDomain
  | zone d, x, c => zone (Zone.assumeLeImm d x c)
  | interval s, x, c => interval (Interval.assumeLeImm s x c)

def assumeGeImm : NumericDomain → Reg → Int → NumericDomain
  | zone d, x, c => zone (Zone.assumeGeImm d x c)
  | interval s, x, c => interval (Interval.assumeGeImm s x c)

def assumeEqImm : NumericDomain → Reg → Int → NumericDomain
  | zone d, x, c => zone (Zone.assumeEqImm d x c)
  | interval s, x, c => interval (Interval.assumeEqImm s x c)

def assumeLtImm : NumericDomain → Reg → Int → NumericDomain
  | zone d, x, c => zone (Zone.assumeLtImm d x c)
  | interval s, x, c => interval (Interval.assumeLtImm s x c)

def applyMulImm : NumericDomain → Reg → Int → NumericDomain
  | zone d, dst, imm => zone (Zone.applyMulImm d dst imm)
  | interval s, dst, imm => interval (Interval.applyMulImm s dst imm)

def sameUpperHalf (lo hi : Int) : Bool :=
  decide (lo ≠ -2^63 ∧ hi ≠ 2^63 - 1 ∧ toU64 lo / 2^32 = toU64 hi / 2^32)

def applyW32Truncation (d : NumericDomain) (dst : Reg) : NumericDomain :=
  let (lo, hi) := d.getInterval dst
  if 0 ≤ lo ∧ hi ≤ 0xFFFFFFFF then d
  else if sameUpperHalf lo hi then
    ((d.forget dst).assumeGeImm dst (lo32 (toU64 lo))).assumeLeImm dst (lo32 (toU64 hi))
  else ((d.forget dst).assumeGeImm dst 0).assumeLeImm dst 0xFFFFFFFF

/-- The zone domain rewrites the shadow tuple and leaves the matrix as it is. -/
def zext32Into64 (d : NumericDomain) (x : Reg) : NumericDomain :=
  if x = .zero ∨ x.isAnchor then d
  else
    match d with
    | zone d => zone (Zone.syncBounds (d.setBounds x (d.bounds x).zextEnds) x)
    | interval s => interval (s.modifyBounds x (·.assign32Into64))

def fitsInU32Range (d : NumericDomain) (r : Reg) : Bool :=
  let (lo, hi) := d.getInterval r
  decide (lo ≠ -2^63 ∧ hi ≠ 2^63 - 1 ∧ 0 ≤ lo ∧ hi ≤ 0xFFFFFFFF)

def provenZero : NumericDomain → Reg → Bool
  | zone d, x => decide (Zone.getInterval d x = (0, 0))
  | interval s, x => decide ((s.getBounds x).smin = 0 ∧ (s.getBounds x).smax = 0)

def initMapValuePtr : NumericDomain → Reg → NumericDomain
  | zone d, _ => zone d
  | interval s, reg => interval (Interval.initMapValuePtr s reg)

/-- The raw matrix entry; the interval domain has no relations. -/
def get : NumericDomain → Reg → Reg → Int
  | zone d, i, j => d.get i j
  | interval _, _, _ => Zone.inf

/-- `i - j ≤ c`; the interval domain takes up a relation with `Zero` only. -/
def addConstraint : NumericDomain → Reg → Reg → Int → NumericDomain
  | zone d, i, j, c => zone (d.addConstraint i j c)
  | interval s, i, j, c =>
    if j = .zero then interval (Interval.assumeLeImm s i c)
    else if i = .zero then interval (Interval.assumeGeImm s j (-c))
    else interval s

def close : NumericDomain → NumericDomain
  | zone d => zone d.close
  | interval s => interval s

def clearPacketSizeBounds : NumericDomain → NumericDomain
  | zone d => zone d
  | interval s => interval s.clearPacketSizeBounds

def isInconsistent : NumericDomain → Bool
  | zone d => d.isInconsistent
  | interval s => s.isInconsistent

end NumericDomain
end ZoneVerifier.Numeric
