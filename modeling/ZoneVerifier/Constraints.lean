import ZoneVerifier.Outcome

/-!
# Refinement of the two branch states

`apply_jmp_constraints` narrows the state of each branch by the comparison or
by its negation (`analysis/transfer/branch/constraints.rs`). The result is the
pair of the taken and the fall-through state, and `branchSide`, the refinement
of one state by a comparison known to hold, gives both. The additions `imm + 1`
wrap, as they do in a release build.
-/

set_option autoImplicit false

namespace ZoneVerifier.Constraints
open Word Ast Tristate Machine Numeric Outcome
open ZoneVerifier.Interval (linkedRegs satI32)
variable (thenS elseS : State) (d : NumericDomain) (left : Reg) (op : CmpOp)

def isSigned : Bool :=
  match op with
  | .slt | .sle | .sgt | .sge => true
  | _ => false

def isUnsigned : Bool :=
  match op with
  | .ult | .ule | .ugt | .uge => true
  | _ => false

def isImm : Operand → Bool
  | .imm _ => true
  | .reg _ => false

/-- `interval_propagate_scalars`: the same refinement for every register with
the scalar identity of `source`. -/
def intervalPropagateScalars (domain : NumericDomain) (source : Reg)
    (apply : NumericDomain → Reg → NumericDomain) : NumericDomain :=
  match domain with
  | .zone _ => domain
  | .interval ivl => (linkedRegs ivl source).foldl apply domain

def applyLinked (domain : NumericDomain) (x : Reg)
    (apply : NumericDomain → Reg → NumericDomain) : NumericDomain :=
  intervalPropagateScalars (apply domain x) x apply

def assumeGeLinked (x : Reg) (c : Int) : NumericDomain :=
  applyLinked d x fun d r => d.assumeGeImm r c

def assumeLeLinked (x : Reg) (c : Int) : NumericDomain :=
  applyLinked d x fun d r => d.assumeLeImm r c

def assumeLtLinked (x : Reg) (c : Int) : NumericDomain :=
  applyLinked d x fun d r => d.assumeLtImm r c

def assumeEqLinked (x : Reg) (c : Int) : NumericDomain :=
  applyLinked d x fun d r => d.assumeEqImm r c

def refineNeImm (imm : Int) : NumericDomain :=
  let (lo, hi) := d.getInterval left
  let d :=
    if lo = imm ∧ lo < hi then assumeGeLinked d left (satI64 (lo + 1))
    else if hi = imm ∧ lo < hi then assumeLeLinked d left (satI64 (hi - 1))
    else d
  let uval := toU64 imm
  let (umin, umax) := d.getU64Bounds left
  let newUmin := if umin = uval then satU64 (umin + 1) else umin
  let newUmax := if umax = uval then umax - 1 else umax
  if (newUmin, newUmax) ≠ (umin, umax) ∧ newUmin ≤ newUmax then
    d.setU64Bounds left newUmin newUmax
  else d

def applyCmpToDomain (thenD elseD : NumericDomain) (left : Reg) (op : CmpOp) (right : Operand) :
    NumericDomain × NumericDomain :=
  match op, right with
  | .eq, .imm imm => (assumeEqLinked thenD left imm, refineNeImm elseD left imm)
  | .eq, .reg reg => (thenD.intersectEqReg left reg, elseD)
  | .ne, .imm imm => (refineNeImm thenD left imm, assumeEqLinked elseD left imm)
  | .ne, .reg reg => (thenD, elseD.intersectEqReg left reg)
  | .uge, .imm imm =>
    (assumeGeLinked thenD left imm,
     let elseD := assumeLtLinked elseD left imm
     if 0 < imm then assumeGeLinked elseD left 0 else elseD)
  | .sge, .imm imm => (assumeGeLinked thenD left imm, assumeLtLinked elseD left imm)
  | .uge, .reg reg =>
    (thenD.assumeGe left reg, assumeGeLinked (elseD.assumeLeOffset left reg (-1)) left 0)
  | .sge, .reg reg => (thenD.assumeGe left reg, elseD.assumeLeOffset left reg (-1))
  | .ugt, .imm imm =>
    (assumeGeLinked thenD left (wrapI64 (imm + 1)),
     assumeGeLinked (assumeLeLinked elseD left imm) left 0)
  | .sgt, .imm imm =>
    (assumeGeLinked thenD left (wrapI64 (imm + 1)), assumeLeLinked elseD left imm)
  | .ugt, .reg reg => (thenD.assumeGt left reg, assumeGeLinked (elseD.assumeLe left reg) left 0)
  | .sgt, .reg reg => (thenD.assumeGt left reg, elseD.assumeLe left reg)
  | .ule, .imm imm =>
    (assumeGeLinked (assumeLeLinked thenD left imm) left 0,
     assumeGeLinked elseD left (wrapI64 (imm + 1)))
  | .sle, .imm imm =>
    (assumeLeLinked thenD left imm, assumeGeLinked elseD left (wrapI64 (imm + 1)))
  | .ule, .reg reg => (assumeGeLinked (thenD.assumeLe left reg) left 0, elseD.assumeGt left reg)
  | .sle, .reg reg => (thenD.assumeLe left reg, elseD.assumeGt left reg)
  | .ult, .imm imm =>
    (let thenD := assumeLtLinked thenD left imm
     if 0 < imm then assumeGeLinked thenD left 0 else thenD,
     assumeGeLinked elseD left imm)
  | .slt, .imm imm => (assumeLtLinked thenD left imm, assumeGeLinked elseD left imm)
  | .ult, .reg reg =>
    (assumeGeLinked (thenD.assumeLeOffset left reg (-1)) left 0, elseD.assumeGe left reg)
  | .slt, .reg reg => (thenD.assumeLeOffset left reg (-1), elseD.assumeGe left reg)
  | .test, _ => (thenD, elseD)

/-- Packet pointers are not compared as scalars by the interval domain. -/
def intervalCanApplyConstraint (s : State) (left : Reg) (right : Operand) : Bool :=
  let rightIsPacket :=
    match right with
    | .reg reg => (s.types.get reg).isPacketPtr
    | .imm _ => false
  !((s.types.get left).isPacketPtr && rightIsPacket)

def canApplyDbmConstraint (s : State) (left : Reg) (op : CmpOp) (w : Width)
    (rightBounds : Int × Int) (right : Operand) : Bool :=
  if s.domain.isInterval && !intervalCanApplyConstraint s left right then false
  else if w = .w32 ∧ (op = .eq ∨ op = .ne) ∧ isImm right then false
  else
    let leftBounds := getCombinedSignedBounds s left
    if w = .w32 ∧ isSigned op then fitsInI32 leftBounds && fitsInI32 rightBounds
    else if w = .w32 ∧ isUnsigned op then fitsInU32 leftBounds && fitsInU32 rightBounds
    else if isUnsigned op then
      let leftNonneg := decide (0 ≤ leftBounds.1)
      let leftUnbounded := decide ((s.domain.getInterval left).1 = -2^63 ∧
        2^63 - 1 < (s.getTnum left).maxValue.toNat)
      let rightNonneg := decide (0 ≤ rightBounds.1)
      let rightIsPointer :=
        match right with
        | .reg reg => (s.types.get reg).isPointer
        | .imm _ => false
      (leftNonneg || leftUnbounded) && (rightNonneg || rightIsPointer)
    else true

def applyEqRefinements (w : Width)
    (imm : Option Int) : State × State :=
  if w = .w32 then (thenS, elseS)
  else
    match op, imm with
    | .eq, some v => (thenS.setTnum left (Tnum.constant (BitVec.ofInt 64 v)), elseS)
    | .ne, some v => (thenS, elseS.setTnum left (Tnum.constant (BitVec.ofInt 64 v)))
    | _, _ => (thenS, elseS)

def isPowerOfTwo (m : BitVec 64) : Bool := m != 0 && m &&& (m - 1) == 0

/-- The constant a bit test is made with, if it is known. -/
def testMask (s : State) (w : Width) (right : Operand) : Option (BitVec 64) :=
  match right with
  | .imm imm => some (immValue w imm)
  | .reg reg => (s.domain.getFixedValue reg).map (immValue w)

def applyTestConstraints (w : Width) (right : Operand) :
    State × State :=
  match testMask thenS w right with
  | none => (thenS, elseS)
  | some mask =>
    let e := elseS.getTnum left
    let elseS := elseS.setTnum left ⟨e.value &&& ~~~mask, e.mask &&& ~~~mask⟩
    if isPowerOfTwo mask then
      let t := thenS.getTnum left
      let thenS := thenS.setTnum left ⟨t.value ||| mask, t.mask &&& ~~~mask⟩
      if w = .w32 ∧ mask.toNat.log2 = 31 then
        if thenS.domain.fitsInU32Range left then
          ({ thenS with domain := thenS.domain.assumeGeImm left 0x80000000 },
           { elseS with domain := elseS.domain.assumeLeImm left 0x7FFFFFFF })
        else (thenS, elseS)
      else if w = .w64 ∧ mask.toNat.log2 = 63 then
        ({ thenS with domain := thenS.domain.assumeLtImm left 0 },
         { elseS with domain := elseS.domain.assumeGeImm left 0 })
      else (thenS, elseS)
    else (thenS, elseS)

/-- The immediate as a comparison of the width and signedness reads it. -/
def truncateImm (w : Width) (op : CmpOp) (val : Int) : Int :=
  match w with
  | .w32 => if isSigned op then toI32 (toU64 val) else lo32 (toU64 val)
  | .w64 => val

def resolveRightOperand (right : Operand) (w : Width) (op : CmpOp) :
    Operand × (Int × Int) :=
  match right with
  | .imm imm => (.imm (truncateImm w op imm), (truncateImm w op imm, truncateImm w op imm))
  | .reg reg =>
    match d.getFixedValue reg with
    | some val => (.imm (truncateImm w op val), (truncateImm w op val, truncateImm w op val))
    | none => (.reg reg, d.getInterval reg)

/-- A register known to be constant, from its bounds or its tristate number. -/
def leftConst (s : State) (left : Reg) : Option Int :=
  match s.domain.getFixedValue left with
  | some k => some k
  | none => if (s.getTnum left).isConst then some (toI64 (s.getTnum left).value.toNat) else none

def flipUnsignedCmp : CmpOp → CmpOp
  | .ugt => .ult
  | .uge => .ule
  | .ult => .ugt
  | .ule => .uge
  | other => other

def flipSignedCmp : CmpOp → CmpOp
  | .sgt => .slt
  | .sge => .sle
  | .slt => .sgt
  | .sle => .sge
  | other => other

/-- An unsigned range is a signed one unless it crosses the sign bit. -/
def applySignedFromUnsignedRange (reg : Reg) (lo hi : Nat) : NumericDomain :=
  if hi < lo then d
  else if hi ≤ 2^63 - 1 ∨ 2^63 ≤ lo then (d.assumeGeImm reg (toI64 lo)).assumeLeImm reg (toI64 hi)
  else d

def applyUnsignedRangeConstraint (thenD elseD : NumericDomain) (reg : Reg) (op : CmpOp) (k : Nat) :
    NumericDomain × NumericDomain :=
  match op with
  | .ugt =>
    (if k < 2^64 - 1 then applySignedFromUnsignedRange thenD reg (k + 1) (2^64 - 1) else thenD,
     applySignedFromUnsignedRange elseD reg 0 k)
  | .uge =>
    (applySignedFromUnsignedRange thenD reg k (2^64 - 1),
     if 0 < k then applySignedFromUnsignedRange elseD reg 0 (k - 1) else elseD)
  | .ult =>
    (if 0 < k then applySignedFromUnsignedRange thenD reg 0 (k - 1) else thenD,
     applySignedFromUnsignedRange elseD reg k (2^64 - 1))
  | .ule =>
    (applySignedFromUnsignedRange thenD reg 0 k,
     if k < 2^64 - 1 then applySignedFromUnsignedRange elseD reg (k + 1) (2^64 - 1) else elseD)
  | _ => (thenD, elseD)

def applyUnsignedConstFallback (right : Operand) :
    State × State :=
  match leftConst thenS left, right with
  | some k, .reg reg =>
    let (t, e) := applyUnsignedRangeConstraint thenS.domain elseS.domain reg (flipUnsignedCmp op)
      (toU64 k)
    ({ thenS with domain := t }, { elseS with domain := e })
  | _, .imm imm =>
    let (t, e) := applyUnsignedRangeConstraint thenS.domain elseS.domain left op (toU64 imm)
    ({ thenS with domain := t }, { elseS with domain := e })
  | none, .reg _ => (thenS, elseS)

/-- `refine_subreg_tnum`: the low half is intersected with the range. -/
def refineSubregTnum (s : State) (target : Reg) (lo hi : Nat) : State :=
  if hi < lo then s
  else
    let cur := s.getTnum target
    match cur.trunc32.intersect (Tnum.fromRange (BitVec.ofNat 64 lo) (BitVec.ofNat 64 hi)) with
    | none => s
    | some new =>
      s.setTnum target
        ⟨cur.value &&& 0xFFFFFFFF00000000 ||| new.value &&& 0xFFFFFFFF,
         cur.mask &&& 0xFFFFFFFF00000000 ||| new.mask &&& 0xFFFFFFFF⟩

/-- The register a 32-bit fallback narrows, the constant and the comparison. -/
def fallbackTarget (s : State) (left : Reg) (op : CmpOp) (right : Operand)
    (flip : CmpOp → CmpOp) : Option (Reg × Int × CmpOp) :=
  match leftConst s left, right with
  | some k, .reg reg => some (reg, k, flip op)
  | _, .imm imm => some (left, imm, op)
  | none, .reg reg => (s.domain.getFixedValue reg).map fun v => (left, v, op)

/-- An equality bumps the end of the other branch's range it hits. -/
def bumpNe (b : Nat × Nat) (rv : Nat) : Nat × Nat :=
  if b.1 = rv ∧ b.1 < b.2 then (b.1 + 1, b.2)
  else if b.2 = rv ∧ b.1 < b.2 then (b.1, b.2 - 1)
  else b

/-- The ranges of both branches; an infeasible branch gets the empty `(1, 0)`. -/
def w32UnsignedRanges (rv : Nat) (t e : Nat × Nat) :
    Option ((Nat × Nat) × (Nat × Nat)) :=
  match op with
  | .ugt => some (if rv = 2^32 - 1 then (1, 0) else (max t.1 (rv + 1), t.2), (e.1, min e.2 rv))
  | .uge => some ((max t.1 rv, t.2), if rv = 0 then (1, 0) else (e.1, min e.2 (rv - 1)))
  | .ult => some (if rv = 0 then (1, 0) else (t.1, min t.2 (rv - 1)), (max e.1 rv, e.2))
  | .ule => some ((t.1, min t.2 rv), if rv = 2^32 - 1 then (1, 0) else (max e.1 (rv + 1), e.2))
  | .eq => some ((max t.1 rv, min t.2 rv), bumpNe e rv)
  | .ne => some (bumpNe t rv, (max e.1 rv, min e.2 rv))
  | _ => none

def setU32Refined (s : State) (target : Reg) (b : Nat × Nat) : State :=
  refineSubregTnum { s with domain := s.domain.setU32Bounds target b.1 b.2 } target b.1 b.2

def applyW32UnsignedFallback (right : Operand) :
    State × State :=
  match fallbackTarget thenS left op right flipUnsignedCmp with
  | none => (thenS, elseS)
  | some (target, k, op) =>
    match w32UnsignedRanges op (lo32 (toU64 k)) (thenS.domain.getU32Bounds target)
        (elseS.domain.getU32Bounds target) with
    | none => (thenS, elseS)
    | some (t, e) => (setU32Refined thenS target t, setU32Refined elseS target e)

def w32SignedRanges (rv : Int) (t e : Int × Int) :
    Option ((Int × Int) × (Int × Int)) :=
  match op with
  | .sgt => some ((max t.1 (satI32 (rv + 1)), t.2), (e.1, min e.2 rv))
  | .sge => some ((max t.1 rv, t.2), (e.1, min e.2 (satI32 (rv - 1))))
  | .slt => some ((t.1, min t.2 (satI32 (rv - 1))), (max e.1 rv, e.2))
  | .sle => some ((t.1, min t.2 rv), (max e.1 (satI32 (rv + 1)), e.2))
  | .eq => some ((max t.1 rv, min t.2 rv), e)
  | _ => none

def applyW32SignedFallback (right : Operand) :
    State × State :=
  match fallbackTarget thenS left op right flipSignedCmp with
  | none => (thenS, elseS)
  | some (target, k, op) =>
    match w32SignedRanges op (toI32 (toU64 k)) (thenS.domain.getS32Bounds target)
        (elseS.domain.getS32Bounds target) with
    | none => (thenS, elseS)
    | some (t, e) =>
      ({ thenS with domain := thenS.domain.setS32Bounds target t.1 t.2 },
       { elseS with domain := elseS.domain.setS32Bounds target e.1 e.2 })

/-- The refinement of the numeric domains; which of the four routes is taken
depends on the state before the jump. -/
def applyNumericConstraints (w : Width)
    (resolved : Operand) (rightBounds : Int × Int) : State × State :=
  if canApplyDbmConstraint thenS left op w rightBounds resolved then
    let (t, e) := applyCmpToDomain thenS.domain elseS.domain left op resolved
    ({ thenS with domain := t }, { elseS with domain := e })
  else if w = .w64 ∧ isUnsigned op then applyUnsignedConstFallback thenS elseS left op resolved
  else if w = .w32 ∧ isSigned op then applyW32SignedFallback thenS elseS left op resolved
  else if w = .w32 ∧ (isUnsigned op ∨ op = .eq ∨ op = .ne) then
    applyW32UnsignedFallback thenS elseS left op resolved
  else (thenS, elseS)

def immOf : Operand → Option Int
  | .imm v => some v
  | .reg _ => none

def applyJmpConstraints (w : Width)
    (right : Operand) : State × State :=
  if op = .test then applyTestConstraints thenS elseS left w right
  else if isImm right ∧ thenS.types.get left = .ptrToCtx then (thenS, elseS)
  else
    let (resolved, rightBounds) := resolveRightOperand thenS.domain right w op
    let (thenS, elseS) := applyNumericConstraints thenS elseS left op w resolved rightBounds
    applyEqRefinements thenS elseS left op w (immOf resolved)

end ZoneVerifier.Constraints

namespace ZoneVerifier.Constraints
open Word Ast Tristate Machine Numeric Concrete
open ZoneVerifier.Interval (satI32)
variable {op : CmpOp} (s : State) (left : Reg)

def negateCmp : CmpOp → CmpOp
  | .ugt => .ule
  | .ule => .ugt
  | .uge => .ult
  | .ult => .uge
  | .sgt => .sle
  | .sle => .sgt
  | .sge => .slt
  | .slt => .sge
  | .eq => .ne
  | .ne => .eq
  | .test => .test

theorem cmpHolds_negate {w : Width} (h : op ≠ .test) (a b : BitVec 64) :
    CmpHolds w (negateCmp op) a b ↔ ¬ CmpHolds w op a b := by
  cases op <;> simp only [negateCmp, CmpHolds] <;> first | omega | exact absurd rfl h

def refineSide (d : NumericDomain) (left : Reg) (op : CmpOp) (right : Operand) : NumericDomain :=
  match op, right with
  | .eq, .imm imm => assumeEqLinked d left imm
  | .eq, .reg reg => d.intersectEqReg left reg
  | .ne, .imm imm => refineNeImm d left imm
  | .ne, .reg _ => d
  | .uge, .imm imm => assumeGeLinked d left imm
  | .sge, .imm imm => assumeGeLinked d left imm
  | .uge, .reg reg => d.assumeGe left reg
  | .sge, .reg reg => d.assumeGe left reg
  | .ugt, .imm imm => assumeGeLinked d left (wrapI64 (imm + 1))
  | .sgt, .imm imm => assumeGeLinked d left (wrapI64 (imm + 1))
  | .ugt, .reg reg => d.assumeGt left reg
  | .sgt, .reg reg => d.assumeGt left reg
  | .ult, .imm imm =>
    if 0 < imm then assumeGeLinked (assumeLtLinked d left imm) left 0
    else assumeLtLinked d left imm
  | .slt, .imm imm => assumeLtLinked d left imm
  | .ult, .reg reg => assumeGeLinked (d.assumeLeOffset left reg (-1)) left 0
  | .slt, .reg reg => d.assumeLeOffset left reg (-1)
  | .ule, .imm imm => assumeGeLinked (assumeLeLinked d left imm) left 0
  | .sle, .imm imm => assumeLeLinked d left imm
  | .ule, .reg reg => assumeGeLinked (d.assumeLe left reg) left 0
  | .sle, .reg reg => d.assumeLe left reg
  | .test, _ => d

def rangeSide (d : NumericDomain) (reg : Reg) (op : CmpOp) (k : Nat) : NumericDomain :=
  match op with
  | .ugt => if k < 2^64 - 1 then applySignedFromUnsignedRange d reg (k + 1) (2^64 - 1) else d
  | .uge => applySignedFromUnsignedRange d reg k (2^64 - 1)
  | .ult => if 0 < k then applySignedFromUnsignedRange d reg 0 (k - 1) else d
  | .ule => applySignedFromUnsignedRange d reg 0 k
  | _ => d

theorem applyUnsignedRangeConstraint_eq (d e : NumericDomain) (reg : Reg) (op : CmpOp) (k : Nat) :
    applyUnsignedRangeConstraint d e reg op k =
      (rangeSide d reg op k, rangeSide e reg (negateCmp op) k) := by
  cases op <;> rfl

theorem negate_flipUnsigned (op : CmpOp) :
    negateCmp (flipUnsignedCmp op) = flipUnsignedCmp (negateCmp op) := by
  cases op <;> rfl

def unsignedConstSide (s : State) (left : Reg) (op : CmpOp) (right : Operand) : State :=
  match leftConst s left, right with
  | some k, .reg reg =>
    { s with domain := rangeSide s.domain reg (flipUnsignedCmp op) (toU64 k) }
  | _, .imm imm => { s with domain := rangeSide s.domain left op (toU64 imm) }
  | none, .reg _ => s

theorem applyUnsignedConstFallback_eq (op : CmpOp) (right : Operand) :
    applyUnsignedConstFallback s s left op right =
      (unsignedConstSide s left op right, unsignedConstSide s left (negateCmp op) right) := by
  unfold applyUnsignedConstFallback unsignedConstSide
  cases hk : leftConst s left <;> cases right <;>
    simp only [applyUnsignedRangeConstraint_eq, negate_flipUnsigned]

def u32Range (op : CmpOp) (rv : Nat) (b : Nat × Nat) : Option (Nat × Nat) :=
  match op with
  | .ugt => some (if rv = 2^32 - 1 then (1, 0) else (max b.1 (rv + 1), b.2))
  | .uge => some (max b.1 rv, b.2)
  | .ult => some (if rv = 0 then (1, 0) else (b.1, min b.2 (rv - 1)))
  | .ule => some (b.1, min b.2 rv)
  | .eq => some (max b.1 rv, min b.2 rv)
  | .ne => some (bumpNe b rv)
  | _ => none

def w32UnsignedSide (s : State) (left : Reg) (op : CmpOp) (right : Operand) : State :=
  match fallbackTarget s left op right flipUnsignedCmp with
  | none => s
  | some (target, k, op) =>
    match u32Range op (lo32 (toU64 k)) (s.domain.getU32Bounds target) with
    | none => s
    | some b => setU32Refined s target b

theorem fallbackTarget_negate (op : CmpOp) (right : Operand) (flip : CmpOp → CmpOp)
    (hf : ∀ op, negateCmp (flip op) = flip (negateCmp op)) :
    fallbackTarget s left (negateCmp op) right flip =
      (fallbackTarget s left op right flip).map fun p => (p.1, p.2.1, negateCmp p.2.2) := by
  unfold fallbackTarget
  cases leftConst s left <;> cases right <;> simp [hf, Function.comp_def]

theorem applyW32UnsignedFallback_eq (op : CmpOp) (right : Operand) :
    applyW32UnsignedFallback s s left op right =
      (w32UnsignedSide s left op right, w32UnsignedSide s left (negateCmp op) right) := by
  unfold applyW32UnsignedFallback w32UnsignedSide
  rw [fallbackTarget_negate s left op right flipUnsignedCmp negate_flipUnsigned]
  cases fallbackTarget s left op right flipUnsignedCmp with
  | none => rfl
  | some p =>
    obtain ⟨target, k, op⟩ := p
    cases op <;> rfl

def s32Range (op : CmpOp) (rv : Int) (b : Int × Int) : Option (Int × Int) :=
  match op with
  | .sgt => some (max b.1 (satI32 (rv + 1)), b.2)
  | .sge => some (max b.1 rv, b.2)
  | .slt => some (b.1, min b.2 (satI32 (rv - 1)))
  | .sle => some (b.1, min b.2 rv)
  | _ => none

def w32SignedSide (s : State) (left : Reg) (op : CmpOp) (right : Operand) : State :=
  match fallbackTarget s left op right flipSignedCmp with
  | none => s
  | some (target, k, op) =>
    match s32Range op (toI32 (toU64 k)) (s.domain.getS32Bounds target) with
    | none => s
    | some b => { s with domain := s.domain.setS32Bounds target b.1 b.2 }

theorem fallbackTarget_signed {s : State} {left : Reg} {right : Operand} {p : Reg × Int × CmpOp}
    (ho : isSigned op = true) (h : fallbackTarget s left op right flipSignedCmp = some p) :
    isSigned p.2.2 = true := by
  have hf : isSigned (flipSignedCmp op) = true := by cases op <;> simp_all [isSigned, flipSignedCmp]
  unfold fallbackTarget at h
  split at h
  · cases h
    exact hf
  · cases h
    exact ho
  · obtain ⟨v, _, rfl⟩ := Option.map_eq_some_iff.1 h
    exact ho

theorem applyW32SignedFallback_eq (right : Operand) (ho : isSigned op = true) :
    applyW32SignedFallback s s left op right =
      (w32SignedSide s left op right, w32SignedSide s left (negateCmp op) right) := by
  have hsigned : ∀ p, fallbackTarget s left op right flipSignedCmp = some p →
      isSigned p.2.2 = true := fun p => fallbackTarget_signed ho
  unfold applyW32SignedFallback w32SignedSide
  rw [fallbackTarget_negate s left op right flipSignedCmp
    fun op => by cases op <;> rfl]
  cases hp : fallbackTarget s left op right flipSignedCmp with
  | none => rfl
  | some p =>
    have hop := hsigned p hp
    obtain ⟨target, k, op⟩ := p
    cases op <;> first | rfl | cases hop

theorem isSigned_negate (op : CmpOp) : isSigned (negateCmp op) = isSigned op := by
  cases op <;> rfl

theorem isUnsigned_negate (op : CmpOp) : isUnsigned (negateCmp op) = isUnsigned op := by
  cases op <;> rfl

theorem isEquality_negate (op : CmpOp) :
    (negateCmp op = .eq ∨ negateCmp op = .ne) ↔ (op = .eq ∨ op = .ne) := by
  cases op <;> simp [negateCmp]

theorem canApplyDbmConstraint_negate (op : CmpOp) (w : Width) (bounds : Int × Int) (right : Operand) :
    canApplyDbmConstraint s left (negateCmp op) w bounds right =
      canApplyDbmConstraint s left op w bounds right := by
  unfold canApplyDbmConstraint
  simp only [isSigned_negate, isUnsigned_negate, isEquality_negate]

theorem resolveRightOperand_negate (d : NumericDomain) (right : Operand) (w : Width) (op : CmpOp) :
    resolveRightOperand d right w (negateCmp op) = resolveRightOperand d right w op := by
  unfold resolveRightOperand truncateImm
  simp only [isSigned_negate]

def numericSide (s : State) (left : Reg) (op : CmpOp) (w : Width) (resolved : Operand)
    (rightBounds : Int × Int) : State :=
  if canApplyDbmConstraint s left op w rightBounds resolved then
    { s with domain := refineSide s.domain left op resolved }
  else if w = .w64 ∧ isUnsigned op then unsignedConstSide s left op resolved
  else if w = .w32 ∧ isSigned op then w32SignedSide s left op resolved
  else if w = .w32 ∧ (isUnsigned op ∨ op = .eq ∨ op = .ne) then w32UnsignedSide s left op resolved
  else s

theorem applyNumericConstraints_eq (op : CmpOp) (w : Width) (resolved : Operand)
    (rightBounds : Int × Int) :
    applyNumericConstraints s s left op w resolved rightBounds =
      (numericSide s left op w resolved rightBounds,
       numericSide s left (negateCmp op) w resolved rightBounds) := by
  unfold applyNumericConstraints numericSide
  simp only [canApplyDbmConstraint_negate, isSigned_negate, isUnsigned_negate, isEquality_negate]
  split_ifs with h1 h2 h3 h4
  · cases op <;> cases resolved <;> rfl
  · exact applyUnsignedConstFallback_eq s left op resolved
  · exact applyW32SignedFallback_eq s left resolved h3.2
  · exact applyW32UnsignedFallback_eq s left op resolved
  · rfl

def eqSide (s : State) (left : Reg) (op : CmpOp) (w : Width) (imm : Option Int) : State :=
  match w, op, imm with
  | .w64, .eq, some v => s.setTnum left (Tnum.constant (BitVec.ofInt 64 v))
  | _, _, _ => s

theorem applyEqRefinements_eq (e : State) (left : Reg) (op : CmpOp) (w : Width) (imm : Option Int) :
    applyEqRefinements s e left op w imm =
      (eqSide s left op w imm, eqSide e left (negateCmp op) w imm) := by
  cases w <;> cases op <;> cases imm <;> rfl

def branchSide (s : State) (left : Reg) (op : CmpOp) (w : Width) (right : Operand) : State :=
  if isImm right ∧ s.types.get left = .ptrToCtx then s
  else
    let resolved := resolveRightOperand s.domain right w op
    eqSide (numericSide s left op w resolved.1 resolved.2) left op w (immOf resolved.1)

theorem applyJmpConstraints_eq (w : Width) (right : Operand) (h : op ≠ .test) :
    applyJmpConstraints s s left op w right =
      (branchSide s left op w right, branchSide s left (negateCmp op) w right) := by
  unfold applyJmpConstraints branchSide
  rw [if_neg h, resolveRightOperand_negate]
  split_ifs
  · rfl
  · dsimp only
    rw [applyNumericConstraints_eq, applyEqRefinements_eq]

end ZoneVerifier.Constraints
