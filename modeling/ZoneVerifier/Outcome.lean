import ZoneVerifier.Represent

/-!
# Static resolution of branches

`condition_outcome` decides a comparison from the bounds of its operands
(`analysis/transfer/branch/outcome.rs`). A comparison of two registers is
decided only when one of them is a known constant, by the comparison of the
other one with that constant.
-/

set_option autoImplicit false

namespace ZoneVerifier.Outcome
open Word Ast Tristate Machine
variable (s : State) (w : Width) (left : Reg) (op : CmpOp)

def flipCmpOp : CmpOp → CmpOp
  | .ugt => .ult
  | .ult => .ugt
  | .uge => .ule
  | .ule => .uge
  | .sgt => .slt
  | .slt => .sgt
  | .sge => .sle
  | .sle => .sge
  | .eq => .eq
  | .ne => .ne
  | .test => .test

def widthTnum (reg : Reg) : Width → Tnum
  | .w32 => (s.getTnum reg).trunc32
  | .w64 => s.getTnum reg

/-- `get_combined_bounds`, which always has a result: tristate, unsigned and
signed bounds intersected, or the tristate range when that is empty. -/
def getCombinedBounds (reg : Reg) (w : Width) : Nat × Nat :=
  let t := widthTnum s reg w
  let (dbmLo, dbmHi) : Int × Int :=
    match w with
    | .w32 => ((s.domain.getU32Bounds reg).1, (s.domain.getU32Bounds reg).2)
    | .w64 => s.domain.getInterval reg
  let (lo, hi) : Nat × Nat :=
    match w with
    | .w64 => (max t.minValue.toNat (s.domain.getU64Bounds reg).1,
        min t.maxValue.toNat (s.domain.getU64Bounds reg).2)
    | .w32 => (t.minValue.toNat, t.maxValue.toNat)
  let lo := if dbmLo ≠ -2^63 ∧ 0 ≤ dbmLo then max lo dbmLo.toNat else lo
  let hi :=
    if dbmHi ≠ 2^63 - 1 ∧ 0 ≤ dbmHi ∧ ¬ (w = .w32 ∧ 0xFFFFFFFF < dbmHi) then min hi dbmHi.toNat
    else hi
  if lo ≤ hi then (lo, hi) else (t.minValue.toNat, t.maxValue.toNat)

def fitsInI32 (b : Int × Int) : Bool := decide (-2^31 ≤ b.1 ∧ b.2 ≤ 2^31 - 1)

def fitsInU32 (b : Int × Int) : Bool := decide (0 ≤ b.1 ∧ b.2 ≤ 0xFFFFFFFF)

def getCombinedSignedBounds (reg : Reg) : Int × Int :=
  let (dbmLo, dbmHi) := s.domain.getInterval reg
  let tnumMin := (s.getTnum reg).minValue.toNat
  let tnumMax := (s.getTnum reg).maxValue.toNat
  (if 2^63 - 1 < tnumMin then (if dbmLo ≠ -2^63 then max dbmLo (toI64 tnumMin) else toI64 tnumMin)
    else dbmLo,
   if tnumMax ≤ 2^63 - 1 then (if dbmHi ≠ 2^63 - 1 then min dbmHi (toI64 tnumMax) else toI64 tnumMax)
    else dbmHi)

def u64CombinedToS32 (min max : Nat) : Option (Int × Int) :=
  if 0xFFFFFFFF < min ∨ 0xFFFFFFFF < max then none
  else if min ≤ 0x7FFFFFFF ∧ 0x80000000 ≤ max then none
  else some (toI32 min, toI32 max)

def tnumOverlapImm (reg : Reg) (w : Width) (immVal : BitVec 64) : Bool :=
  let t := widthTnum s reg w
  t.value &&& ~~~t.mask == immVal &&& ~~~t.mask

def unsignedOutcome (min max imm : Nat) : Option Bool :=
  match op with
  | .ult => if max < imm then some true else if imm ≤ min then some false else none
  | .uge => if imm ≤ min then some true else if max < imm then some false else none
  | .ule => if max ≤ imm then some true else if imm < min then some false else none
  | .ugt => if imm < min then some true else if max ≤ imm then some false else none
  | _ => none

def signedOutcome (lo hi imm : Int) : Option Bool :=
  match op with
  | .sge => if imm ≤ lo then some true else if hi < imm then some false else none
  | .sgt => if imm < lo then some true else if hi ≤ imm then some false else none
  | .sle => if hi ≤ imm then some true else if imm < lo then some false else none
  | .slt => if hi < imm then some true else if imm ≤ lo then some false else none
  | _ => none

def eqOutcome (immVal : BitVec 64) : Option Bool :=
  let (min, max) := getCombinedBounds s left w
  let (smin, smax) := s.domain.getS32Bounds left
  if w = .w32 ∧ (toI32 immVal.toNat < smin ∨ smax < toI32 immVal.toNat) then some false
  else if tnumOverlapImm s left w immVal = false then some false
  else if min = max ∧ min = immVal.toNat then some true
  else if immVal.toNat < min ∨ max < immVal.toNat then some false
  else none

def testOutcome (t : Tnum) (immVal : BitVec 64) : Option Bool :=
  if t.value &&& immVal ≠ 0 then some true
  else if (t.value ||| t.mask) &&& immVal = 0 then some false
  else none

def immValue (imm : Int) : BitVec 64 :=
  match w with
  | .w32 => BitVec.ofNat 64 (lo32 (toU64 imm))
  | .w64 => BitVec.ofInt 64 imm

def signedRange : Int × Int :=
  match w with
  | .w32 =>
    let (min, max) := getCombinedBounds s left w
    (u64CombinedToS32 min max).getD (s.domain.getS32Bounds left)
  | .w64 => getCombinedSignedBounds s left

def signedImm (imm : Int) : Int :=
  match w with
  | .w32 => toI32 (toU64 imm)
  | .w64 => imm

def scalarOutcomeImm (imm : Int) : Option Bool :=
  match op with
  | .ult | .uge | .ule | .ugt =>
    let (min, max) := getCombinedBounds s left w
    unsignedOutcome op min max (immValue w imm).toNat
  | .eq => eqOutcome s w left (immValue w imm)
  | .ne => (eqOutcome s w left (immValue w imm)).map (!·)
  | .slt | .sle | .sgt | .sge =>
    let (lo, hi) := signedRange s w left
    signedOutcome op lo hi (signedImm w imm)
  | .test => testOutcome (widthTnum s left w) (immValue w imm)

def conditionOutcomeImm (imm : Int) :
    Option Bool :=
  let ty := s.types.get left
  if (op = .eq ∨ op = .ne) ∧ imm = 0 ∧ ty.isNullChecked ∧ ¬ ty.isNullable then
    some (decide (op = .ne))
  else if ty.isPointer then none
  else scalarOutcomeImm s w left op imm

def pktEndVerdict : Option Interval.PktEndRel → CmpOp → Option Bool
  | some .beyond, .ugt => some true
  | some .beyond, .ule => some false
  | some _, .uge => some true
  | some _, .ult => some false
  | _, _ => none

/-- A duplicated packet bounds check, resolved from the recorded relation of
the packet pointer to the packet end. -/
def pktPtrBranchTaken (right : Reg) : Option Bool :=
  let verdict (pkt : Reg) (op : CmpOp) : Option Bool :=
    match s.domain with
    | .zone _ => none
    | .interval ivl => pktEndVerdict ((ivl.getPtrOffset pkt).bind (·.pktEndRel)) op
  if s.types.get right = .ptrToPacketEnd ∧ s.types.get left = .ptrToPacket then verdict left op
  else if s.types.get left = .ptrToPacketEnd ∧ s.types.get right = .ptrToPacket then
    verdict right (flipCmpOp op)
  else none

def knownConst (r : Reg) : Option Int :=
  match (widthTnum s r w).constValue with
  | some v => some (toI64 v.toNat)
  | none =>
    let (lo, hi) := s.domain.getInterval r
    if lo = hi ∧ lo ≠ -2^63 ∧ hi ≠ 2^63 - 1 then some lo else none

/-- The comparison with a constant that a register comparison is decided by. -/
def resolveConst (right : Reg) :
    Option (Reg × CmpOp × Int) :=
  match knownConst s w right with
  | some v => some (left, op, v)
  | none => (knownConst s w left).map fun v => (right, flipCmpOp op, v)

def conditionOutcome (right : Operand) :
    Option Bool :=
  match right with
  | .imm imm => conditionOutcomeImm s w left op imm
  | .reg r =>
    match (if w = .w64 then pktPtrBranchTaken s left op r else none) with
    | some outcome => some outcome
    | none =>
      if (s.types.get left).isPointer then none
      else
        match resolveConst s w left op r with
        | some (x, op', v) => conditionOutcomeImm s w x op' v
        | none => none

end ZoneVerifier.Outcome
