import ZoneVerifier.Numeric
import ZoneVerifier.Stack

/-!
# The abstract machine state

The call stack and the verifier state (`analysis/machine/frame_stack.rs`,
`analysis/machine/state.rs`). The source keeps the frames in one vector that
is never empty; here the current frame is a field, so the invariant holds by
construction. The bookkeeping of the exploration (caches, histories, branch
counters) and the symbolic mirror do not influence the modelled transfers.
-/

set_option autoImplicit false

namespace ZoneVerifier.Machine
open Ast RegTypes Tristate Stack Numeric

structure CallFrame where
  returnPc : Nat
  stack : StackState
  frameDepth : Nat
  callerTypes : TypeState
  callerDomain : NumericDomain
  callerTnums : Reg → Option Tnum
  isCallback : Bool
  callbackHelper : Option Nat
  callerStackSnapshot : Option StackState
  callerFrameLevel : Option Nat
  cbShouldWiden : Bool
  cbWriteableCallerOffsets : List Int
  callerRcuReadDepthSnapshot : Option Nat

/-- The frame of the main program; the snapshots of its caller are never read. -/
def CallFrame.main : CallFrame :=
  { returnPc := 0, stack := StackState.empty, frameDepth := 0
    callerTypes := TypeState.newNotInit, callerDomain := .zone Zone.Dbm.new
    callerTnums := fun _ => none, isCallback := false, callbackHelper := none
    callerStackSnapshot := none, callerFrameLevel := none, cbShouldWiden := false
    cbWriteableCallerOffsets := [], callerRcuReadDepthSnapshot := none }

/-- The frames of the call chain; `callers` lists the innermost caller first. -/
structure FrameStack where
  current : CallFrame
  callers : List CallFrame

namespace FrameStack
variable (f : FrameStack) (f : FrameStack)

def new : FrameStack := { current := CallFrame.main, callers := [] }

def currentLevel : Nat := f.callers.length

def depth : Nat := f.callers.length + 1

def atMain : Bool := f.callers.isEmpty

/-- The frame at a level, counted from main; levels above the current frame
do not exist. -/
def get (level : Nat) : Option CallFrame :=
  (f.current :: f.callers).reverse[level]?

def modifyCurrent (g : CallFrame → CallFrame) : FrameStack :=
  { f with current := g f.current }

def modifyAt (level : Nat) (g : CallFrame → CallFrame) : FrameStack :=
  if level = f.currentLevel then f.modifyCurrent g
  else { f with callers := (f.callers.reverse.modify level g).reverse }

def map (g : CallFrame → CallFrame) : FrameStack :=
  { current := g f.current, callers := f.callers.map g }

def toList : List CallFrame := f.current :: f.callers

theorem toList_map (g : CallFrame → CallFrame) :
    (f.map g).toList = f.toList.map g := rfl

theorem get_eq (level : Nat) :
    f.get level = if level = f.currentLevel then some f.current else f.callers.reverse[level]? := by
  unfold get currentLevel
  rw [List.reverse_cons]
  by_cases h : level = f.callers.length
  · rw [if_pos h, h, List.getElem?_append_right (by simp)]
    simp
  · rw [if_neg h]
    by_cases hlt : level < f.callers.length
    · rw [List.getElem?_append_left (by simpa using hlt)]
    · rw [List.getElem?_eq_none (by simp; omega), List.getElem?_eq_none (by simp; omega)]

theorem get_currentLevel : f.get f.currentLevel = some f.current := by
  rw [get_eq, if_pos rfl]

theorem get_modifyAt (level : Nat) (g : CallFrame → CallFrame) :
    (f.modifyAt level g).get level = (f.get level).map g := by
  unfold modifyAt
  by_cases h : level = f.currentLevel
  · rw [if_pos h, h, get_currentLevel]
    exact get_currentLevel (f.modifyCurrent g)
  · have hlevel : currentLevel { f with callers := (f.callers.reverse.modify level g).reverse } =
        f.currentLevel := by
      simp [currentLevel]
    rw [if_neg h, get_eq, get_eq, hlevel, if_neg h, if_neg h]
    simp

end FrameStack

structure LockState where
  ptrId : Nat
  lockOffset : Nat
  deriving DecidableEq, Repr

structure ResLockEntry where
  regId : Nat
  ptrId : Nat
  isIrq : Bool
  deriving DecidableEq, Repr

structure State where
  types : TypeState
  domain : NumericDomain
  pc : Nat
  tnums : Reg → Option Tnum
  scalarIds : Reg → Option Nat
  scalarIdOffs : Reg → Option Int
  preciseRegs : Reg → Bool
  frames : FrameStack
  frameDepth : Nat
  activeRefs : Finset Nat
  activeLock : Option LockState
  rcuReadDepth : Nat
  implicitRcuAtEntry : Bool
  activePreemptLocks : Nat
  acquiredIrqIds : List Nat
  acquiredResLocks : List ResLockEntry
  gotoBudget : Nat
  ptrConstOff : Reg → Option Int

namespace State
variable (s : State)

def new (domain : NumericDomain) (pc : Nat) : State :=
  { types := TypeState.newNotInit, domain, pc
    tnums := fun r => if r = .zero then some (Tnum.constant 0) else some Tnum.unknown
    scalarIds := fun _ => none, scalarIdOffs := fun _ => none, preciseRegs := fun _ => false
    frames := FrameStack.new, frameDepth := 0, activeRefs := ∅, activeLock := none
    rcuReadDepth := 0, implicitRcuAtEntry := false, activePreemptLocks := 0
    acquiredIrqIds := [], acquiredResLocks := [], gotoBudget := 8388608
    ptrConstOff := fun _ => none }

def getTnum (r : Reg) : Tnum :=
  match r with
  | .zero => Tnum.constant 0
  | r => (s.tnums r).getD Tnum.unknown

def setTnum (r : Reg) (t : Tnum) : State :=
  if r ≠ .zero then { s with tnums := fun q => if q = r then some t else s.tnums q } else s

def scalarId (r : Reg) : Option Nat := if r = .zero then none else s.scalarIds r

def clearScalarId (r : Reg) : State :=
  { s with
    scalarIds := fun q => if q = r then none else s.scalarIds q
    scalarIdOffs := fun q => if q = r then none else s.scalarIdOffs q }

def stack : StackState := s.frames.current.stack

def modifyStack (f : StackState → StackState) : State :=
  { s with frames := s.frames.modifyCurrent fun c => { c with stack := f c.stack } }

def releaseRef (id : Nat) : State := { s with activeRefs := s.activeRefs.erase id }

def hasUnreleasedRefs : Bool := decide (s.activeRefs ≠ ∅)

/-- `invalidate_ref`: the registers and the stack of the current frame. -/
def invalidateRef (id : Nat) : State :=
  { s with types :=
      { regs := fun i =>
          if (s.types.regs i).getRefId = some id then .scalarValue else s.types.regs i } }
    |>.modifyStack (·.invalidateRef id)

theorem getTnum_setTnum (r q : Reg) (t : Tnum) :
    (s.setTnum r t).getTnum q = if q = r ∧ r ≠ .zero then t else s.getTnum q := by
  unfold setTnum
  by_cases hr : r = .zero
  · simp [hr]
  · by_cases hq : q = r
    · subst hq
      cases q <;> simp_all [getTnum]
    · cases q <;> simp_all [getTnum]

end State

def mapStack (f : SpilledReg → SpilledReg) (c : CallFrame) : CallFrame :=
  { c with stack := { c.stack with slots := c.stack.slots.mapValues f } }

def mapStacks (s : State) (f : SpilledReg → SpilledReg) : State :=
  { s with frames := s.frames.map (mapStack f) }

end ZoneVerifier.Machine
