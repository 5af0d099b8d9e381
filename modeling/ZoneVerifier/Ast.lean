import Mathlib.Algebra.Order.Ring.Int
import Mathlib.Data.Fintype.Basic

/-!
# Registers and instructions

The abstract syntax the verifier works on (`ast/mod.rs`, `ast/instr.rs`,
`analysis/machine/reg.rs`). `Zero` and the three packet anchors are phantom
registers: they never occur in a program, but the numeric domains give them a
row.
-/

set_option autoImplicit false

namespace ZoneVerifier.Ast

inductive Reg where
  | zero | r0 | r1 | r2 | r3 | r4 | r5 | r6 | r7 | r8 | r9 | r10
  | anchorDataMeta | anchorData | anchorDataEnd
  deriving DecidableEq, Repr

namespace Reg

/-- `Reg::ALL`: the real registers together with `Zero`. -/
def all : List Reg := [zero, r0, r1, r2, r3, r4, r5, r6, r7, r8, r9, r10]

/-- The rows of the difference bound matrix in index order. -/
def rows : List Reg := all ++ [anchorDataMeta, anchorData, anchorDataEnd]

def isAnchor : Reg → Bool
  | anchorDataMeta | anchorData | anchorDataEnd => true
  | _ => false

/-- `reg_to_index`: the slot of a register in the type state. -/
def toIndex : Reg → Option (Fin 11)
  | r0 => some 0
  | r1 => some 1
  | r2 => some 2
  | r3 => some 3
  | r4 => some 4
  | r5 => some 5
  | r6 => some 6
  | r7 => some 7
  | r8 => some 8
  | r9 => some 9
  | r10 => some 10
  | _ => none

theorem mem_rows (r : Reg) : r ∈ rows := by
  cases r <;> decide

instance : Fintype Reg := Fintype.ofList rows mem_rows

theorem toIndex_inj {r s : Reg} {i : Fin 11} (hr : r.toIndex = some i) (hs : s.toIndex = some i) :
    r = s := by
  revert hr hs
  cases r <;> cases s <;> simp only [toIndex, reduceCtorEq, Option.some.injEq, implies_true,
    false_implies] <;> intro h1 h2 <;> exact absurd (h1.trans h2.symm) (by decide)

end Reg

inductive Operand where
  | reg (r : Reg)
  | imm (i : Int)
  deriving DecidableEq, Repr

inductive Width where
  | w32 | w64
  deriving DecidableEq, Repr

/-- Source width of a sign-extending move. -/
inductive SxWidth where
  | b8 | b16 | b32
  deriving DecidableEq, Repr

inductive AluOp where
  | add | sub | and | or | xor | mov | shl | shr | arsh | mul | mod | div | neg | rsh | lsh
  deriving DecidableEq, Repr

inductive CmpOp where
  | uge | ule | ugt | ult | eq | ne | slt | sgt | sle | sge | test
  deriving DecidableEq, Repr

inductive EndianOp where
  | toBe | toLe | bswap
  deriving DecidableEq, Repr

inductive MemSize where
  | u8 | u16 | u32 | u64
  deriving DecidableEq, Repr

def MemSize.bytes : MemSize → Nat
  | .u8 => 1
  | .u16 => 2
  | .u32 => 4
  | .u64 => 8

def MemSize.unboundedScalarBounds : MemSize → Int × Int
  | .u8 => (0, 2^8 - 1)
  | .u16 => (0, 2^16 - 1)
  | .u32 => (0, 2^32 - 1)
  | .u64 => (-2^63, 2^63 - 1)

inductive AtomicOp where
  | add | or | and | xor | xchg | cmpXchg
  deriving DecidableEq, Repr

inductive PacketLoadMode where
  | abs | ind
  deriving DecidableEq, Repr

inductive MapLoadKind where
  | mapPtr | mapValue | pseudoFunc (subprogPc : Nat) | pseudoBtfId (btfId : Nat)
  | pseudoMapIdx | pseudoMapIdxValue
  deriving DecidableEq, Repr

inductive CallKind where
  | helper (id : Nat)
  | kfunc (btfId : Nat) (offset : Int)
  deriving DecidableEq, Repr

inductive Instr where
  | alu (width : Width) (op : AluOp) (dst : Reg) (src : Operand)
  | movSx (width : Width) (srcBits : SxWidth) (dst : Reg) (src : Operand)
  | endian (dst : Reg) (width : Width) (op : EndianOp) (size : Nat)
  | ifCmp (width : Width) (left : Reg) (op : CmpOp) (right : Operand) (target : Nat)
  | jmp (target : Nat)
  | mayGoto (target : Nat)
  | load (size : MemSize) (dst base : Reg) (off : Int)
  | loadSx (size : MemSize) (dst base : Reg) (off : Int)
  | store (size : MemSize) (base : Reg) (off : Int) (src : Operand)
  | loadAcq (size : MemSize) (dst base : Reg) (off : Int)
  | storeRel (size : MemSize) (base : Reg) (off : Int) (src : Reg)
  | atomic (op : AtomicOp) (size : MemSize) (fetch : Bool) (base : Reg) (off : Int) (src : Reg)
  | call (kind : CallKind)
  | callRel (target : Nat)
  | loadPacket (size : MemSize) (mode : PacketLoadMode) (offsetImm : Int) (src : Option Reg)
  | loadMap (dst : Reg) (kind : MapLoadKind) (mapFd off : Int)
  | exit
  deriving DecidableEq, Repr

def callerSaved : List Reg := [.r0, .r1, .r2, .r3, .r4, .r5]

def jumpTarget? : Instr → Option Nat
  | .jmp target | .ifCmp _ _ _ _ target | .mayGoto target => some target
  | _ => none

end ZoneVerifier.Ast
