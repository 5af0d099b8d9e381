import ZoneVerifier.KfuncTransfer

/-!
# Locks and sections around a call

The flags of a prototype that take and drop locks and sections or demand that one
is open (`apply_pre_call_lock_flags` in `analysis/transfer/call/transfer.rs`, the
counters of `analysis/machine/state.rs`). They run before the rest of the call;
leaving a section or dropping a lock also sweeps the types valid only inside.
-/

set_option autoImplicit false

namespace ZoneVerifier.LockFlags
open Ast RegTypes Stack Machine Signatures CallTypes CallTransfer KfuncTransfer

inductive LockError where
  | notInRcuReadSection (pc helper : Nat)
  | notInSpinLockSection (pc helper : Nat)
  | lockAlreadyHeld (pc : Nat)
  | lockNotHeld (pc : Nat)
  | invalidArgType (pc : Nat) (reg : Reg)
  | rcuReadNotHeld (pc : Nat)
  | sleepableInPreemptDisabled (pc helper : Nat)
  | irqState (pc : Nat) (reason : String)
  | sleepableInRcuReadSection (pc helper : Nat)
  | preemptNotDisabled (pc : Nat)
  deriving DecidableEq, Repr

section Counters

def hasActiveLock (s : State) : Bool := s.activeLock.isSome

def inRcuReadSection (s : State) : Bool := decide (0 < s.rcuReadDepth)

def inPreemptDisabled (s : State) : Bool := decide (0 < s.activePreemptLocks)

/-- Saved irq flags, and resilient locks of the irq flavour. -/
def inIrqDisabled (s : State) : Bool :=
  !s.acquiredIrqIds.isEmpty || s.acquiredResLocks.any (·.isIrq)

/-- The depth a program starts with when it runs inside an RCU section. -/
def rcuBaseline (s : State) : Nat := if s.implicitRcuAtEntry then 1 else 0

inductive ResLockReleaseError where
  | empty | wrongClass | outOfOrder | notInStack
  deriving DecidableEq, Repr

/-- The lock taken last is the first in the list. -/
def resLockRelease (s : State) (regId ptrId : Nat) (isIrq : Bool) :
    Except ResLockReleaseError State :=
  match s.acquiredResLocks with
  | [] => .error .empty
  | top :: rest =>
    if top.regId = regId ∧ top.ptrId = ptrId then
      if top.isIrq ≠ isIrq then .error .wrongClass else .ok { s with acquiredResLocks := rest }
    else if (top :: rest).any fun e => decide (e.regId = regId ∧ e.ptrId = ptrId) then
      .error .outOfOrder
    else .error .notInStack

end Counters

section Sweeps

def mapTypes (s : State) (f : RegType → RegType) : State :=
  { s with types := { regs := fun i => f (s.types.regs i) } }

def demoteFlags (flags : PtrFlags) : PtrFlags :=
  if PtrFlags.contains flags PtrFlags.rcu then
    PtrFlags.difference flags (PtrFlags.rcu ||| PtrFlags.trusted) ||| PtrFlags.untrusted
  else flags

def demoteRcu : RegType → RegType
  | .ptrToBtfId typeName flags refId => .ptrToBtfId typeName (demoteFlags flags) refId
  | .ptrToBtfIdOrNull id typeName flags refId => .ptrToBtfIdOrNull id typeName (demoteFlags flags) refId
  | ty => ty

def demoteSlot (sp : SpilledReg) : SpilledReg := { sp with regType := demoteRcu sp.regType }

/-- The registers and the stacks of all frames. -/
def demoteRcuBtfRegsToUntrusted (s : State) : State := mapStacks (mapTypes s demoteRcu) demoteSlot

def untrustIterator (sp : SpilledReg) : SpilledReg :=
  { sp with iterator := sp.iterator.map fun it =>
      if isRcuProtected it.kind then { it with untrusted := true } else it }

def invalidateRcuIterSlots (s : State) : State := mapStacks s untrustIterator

def dropNonOwning : RegType → RegType
  | .ptrToOwnedKptr refId offset nonOwning pointee =>
    if nonOwning then .scalarValue else .ptrToOwnedKptr refId offset nonOwning pointee
  | ty => ty

/-- The registers only. -/
def invalidateNonOwningRefs (s : State) : State := mapTypes s dropNonOwning

end Sweeps

section Flags
variable (helper : Nat) (flags : CallFlags)

def requireSections (s : State) : Except LockError Unit :=
  if flags.contains .rcu ∧ inRcuReadSection s = false then
    .error (.notInRcuReadSection s.pc helper)
  else if flags.contains .spinLockHeld ∧ hasActiveLock s = false then
    .error (.notInSpinLockSection s.pc helper)
  else .ok ()

/-- The identity of the lock a call takes, and its offset as a `u32`. -/
def acquiredLock : RegType → Option LockState
  | .ptrToMapValue id (some o) _ _ _ => some { ptrId := id, lockOffset := (o % 2^32).toNat }
  | .ptrToOwnedKptr refId offset _ _ =>
    some { ptrId := refId.getD 0, lockOffset := (offset % 2^32).toNat }
  | _ => none

def takeSpinLock (s : State) : Except LockError State :=
  if flags.contains .spinLockAcquire then
    if hasActiveLock s then .error (.lockAlreadyHeld s.pc)
    else match acquiredLock (s.types.get .r1) with
      | some lock => .ok { s with activeLock := some lock }
      | none => .error (.invalidArgType s.pc .r1)
  else .ok s

/-- The identity of the lock a call drops; the offset plays no part. -/
def releasedLockId : RegType → Option Nat
  | .ptrToMapValue id _ _ _ _ => some id
  | .ptrToOwnedKptr refId _ _ _ => some (refId.getD 0)
  | _ => none

def dropSpinLock (s : State) : Except LockError State :=
  if flags.contains .spinLockRelease then
    match releasedLockId (s.types.get .r1), s.activeLock with
    | none, _ => .error (.invalidArgType s.pc .r1)
    | some _, none => .error (.lockNotHeld s.pc)
    | some id, some lock =>
      if lock.ptrId ≠ id then .error (.lockNotHeld s.pc)
      else .ok (invalidateNonOwningRefs { s with activeLock := none })
  else .ok s

def enterRcu (s : State) : Except LockError State :=
  if flags.contains .rcuReadLock then
    if inRcuReadSection s then .error (.rcuReadNotHeld s.pc)
    else .ok { s with rcuReadDepth := s.rcuReadDepth + 1 }
  else .ok s

def leaveRcu (s : State) : Except LockError State :=
  if flags.contains .rcuReadUnlock then
    if s.rcuReadDepth = 0 then .error (.rcuReadNotHeld s.pc)
    else
      let s := { s with rcuReadDepth := s.rcuReadDepth - 1 }
      if inRcuReadSection s then .ok s
      else .ok (demoteRcuBtfRegsToUntrusted (invalidateRcuIterSlots s))
  else .ok s

def checkSleep (s : State) : Except LockError Unit :=
  if flags.contains .mightSleep then
    if inPreemptDisabled s then .error (.sleepableInPreemptDisabled s.pc helper)
    else if inIrqDisabled s then
      .error (.irqState s.pc "sleepable call inside bpf_local_irq_save-ed region")
    else if rcuBaseline s < s.rcuReadDepth then .error (.sleepableInRcuReadSection s.pc helper)
    else .ok ()
  else .ok ()

def isLockIrqRestore : SideEffect → Bool
  | .irqRestoreFromArg _ .lock => true
  | _ => false

def dropResLock (effects : List SideEffect) (s : State) : Except LockError State :=
  if flags.contains .resSpinLockRelease then
    match lockIdentity (s.types.get .r1) with
    | none => .error (.invalidArgType s.pc .r1)
    | some (regId, ptrId) =>
      match resLockRelease s regId ptrId (effects.any isLockIrqRestore) with
      | .ok s => .ok s
      | .error .empty => .error (.lockNotHeld s.pc)
      | .error _ => .error (.invalidArgType s.pc .r1)
  else .ok s

def togglePreempt (s : State) : Except LockError State :=
  let s := if flags.contains .preemptDisable then
    { s with activePreemptLocks := s.activePreemptLocks + 1 } else s
  if flags.contains .preemptEnable then
    if s.activePreemptLocks = 0 then .error (.preemptNotDisabled s.pc)
    else .ok { s with activePreemptLocks := s.activePreemptLocks - 1 }
  else .ok s

end Flags

def applyPreCallLockFlags (s : State) (helper : Nat) (proto : CallProto) :
    Except LockError State := do
  requireSections helper proto.flags s
  let s ← takeSpinLock proto.flags s
  let s ← dropSpinLock proto.flags s
  let s ← enterRcu proto.flags s
  let s ← leaveRcu proto.flags s
  checkSleep helper proto.flags s
  let s ← dropResLock proto.flags proto.sideEffects s
  togglePreempt proto.flags s

/-- A helper call on its normal path: the flags of the prototype come first. -/
def helperCall (env : CallEnv) (s : State) (helper : Nat) (ids : Nat → Nat) :
    Except LockError State :=
  match getHelperProto env helper with
  | some proto =>
    (applyPreCallLockFlags s helper proto).map fun s₁ => normalCall env s.types s₁ helper ids
  | none => .ok (normalCall env s.types s helper ids)

/-- A kfunc call on its normal path. RCU sections may not be opened or closed
under a spin lock. -/
def kfuncCall (env : CallEnv) (s : State) (btfId : Nat) (proto : CallProto) (fixup : RetFixup)
    (ids : Nat → Nat) : Except LockError State :=
  if hasActiveLock s ∧ (proto.flags.contains .rcuReadLock ∨ proto.flags.contains .rcuReadUnlock) then
    .error (.invalidArgType s.pc .r0)
  else
    (applyPreCallLockFlags s btfId proto).map fun s₁ => normalKfunc env s.types s₁ proto fixup ids

end ZoneVerifier.LockFlags
