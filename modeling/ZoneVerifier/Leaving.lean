import ZoneVerifier.LockFlags
import ZoneVerifier.PacketSweep

/-!
# Leaving the program

Control leaves the program at the exit of the main frame, at `bpf_tail_call` and
at `bpf_throw` (`transfer_exit` in `analysis/transfer/mod.rs`, `transfer_call` in
`analysis/transfer/call/transfer.rs`, `throw` in `analysis/transfer/call/kfunc.rs`).
Each place has its own list of checks on what the program still holds, and none
of the three lists is complete.
-/

set_option autoImplicit false

namespace ZoneVerifier.Leaving
open Ast RegTypes Stack Machine Numeric Signatures CallTypes KfuncTransfer LockFlags
open PacketSweep (noTable)

inductive LeaveError where
  | invalidReturnCode (pc : Nat)
  | registerNotReadable (pc : Nat) (reg : Reg)
  | unreleasedReference
  | unreleasedIterator
  | unreleasedDynptr
  | unreleasedLock
  | unreleasedRcuRead
  | exitInPreemptDisabled
  | tailCallInPreemptDisabled (pc : Nat)
  | irqState (pc : Nat) (reason : String)
  | maxCallDepthExceeded (pc : Nat)
  | invalidArgType (pc : Nat) (reg : Reg)
  | exceptionCallbackInvalid (reason : String)
  deriving DecidableEq, Repr

structure RetvalRule where
  lo : Int
  hi : Int
  requireKnown : Bool

/-- What the checks read of the program's context. `argsRejected` is the result
of the checks of sizes and arguments in front of `bpf_tail_call`. -/
structure LeaveCtx where
  retvalRule : Option RetvalRule
  strictReturnCode : Bool
  isFreplace : Bool
  isFentryOrFexit : Bool
  entryReturnsVoid : Bool
  analyzingExceptionCb : Bool
  refcountedEntryArg : Bool
  argsRejected : State → Bool
  hasExceptionHandler : State → Bool

inductive Leave where
  | exit | tailCall | throw
  deriving DecidableEq, Repr

section Checks
variable (ctx : LeaveCtx) (s : State)

/-- The range of `R0` a rule is compared with: a rule for an `int` with negative
values reads the low half. -/
def comparedRange (rule : RetvalRule) : Int × Int :=
  if rule.lo < 0 ∧ -2^31 ≤ rule.lo ∧ rule.hi ≤ 2^31 - 1 then s.domain.getS32Bounds .r0
  else s.domain.getInterval .r0

def returnCodeRejected : Bool :=
  let (lo, hi) := s.domain.getInterval .r0
  !ctx.isFreplace && match ctx.retvalRule with
    | some rule =>
      let range := comparedRange s rule
      decide (range.1 < rule.lo ∨ rule.hi < range.2) ||
        (rule.requireKnown && decide (lo ≠ hi ∨ s.types.get .r0 ≠ .scalarValue))
    | none => ctx.strictReturnCode && decide (lo < 0 ∨ 1 < hi)

def anyFrame (p : StackState → Bool) : Bool := s.frames.toList.any fun f => p f.stack

def exitChecks : List (Bool × LeaveError) :=
  [(ctx.analyzingExceptionCb && ctx.isFentryOrFexit && decide (s.domain.getInterval .r0 ≠ (0, 0)),
     .invalidReturnCode s.pc),
   (returnCodeRejected ctx s, .invalidReturnCode s.pc),
   (decide (s.types.get .r0 = .notInit) && !ctx.entryReturnsVoid, .registerNotReadable s.pc .r0),
   (s.hasUnreleasedRefs, .unreleasedReference),
   (anyFrame s (·.hasActiveIterators), .unreleasedIterator),
   (anyFrame s (·.hasUnreleasedDynptrRefs), .unreleasedDynptr),
   (hasActiveLock s, .unreleasedLock),
   (decide (rcuBaseline s < s.rcuReadDepth), .unreleasedRcuRead),
   (inPreemptDisabled s, .exitInPreemptDisabled),
   (inIrqDisabled s,
     .irqState s.pc "BPF_EXIT in main prog inside bpf_local_irq_save-ed region"),
   (anyFrame s (·.hasUnreleasedIrqFlags), .irqState s.pc "leaked irq flag stack slot at exit"),
   (decide (8 < s.frames.depth), .maxCallDepthExceeded s.pc)]

/-- The only helper that is refused under a spin lock. -/
def allowedWhileInActiveLock (helper : Nat) : Bool := decide (helper ≠ Helper.getPrandomU32)

def tailCallChecks : List (Bool × LeaveError) :=
  [(hasActiveLock s && !allowedWhileInActiveLock Helper.tailCall, .invalidArgType s.pc .r0),
   (ctx.argsRejected s, .invalidArgType s.pc .r1),
   (s.hasUnreleasedRefs, .unreleasedReference),
   (ctx.refcountedEntryArg, .invalidArgType s.pc .r0),
   (inPreemptDisabled s, .tailCallInPreemptDisabled s.pc),
   (inIrqDisabled s, .irqState s.pc "bpf_tail_call inside bpf_local_irq_save-ed region"),
   (decide (rcuBaseline s < s.rcuReadDepth), .invalidArgType s.pc .r0)]

def throwChecks : List (Bool × LeaveError) :=
  [(!ctx.analyzingExceptionCb && s.frames.toList.any (·.isCallback),
     .exceptionCallbackInvalid "cannot be called from callback subprog"),
   (hasActiveLock s, .invalidArgType s.pc .r0),
   (inRcuReadSection s, .invalidArgType s.pc .r0),
   (s.hasUnreleasedRefs, .unreleasedReference),
   (!ctx.hasExceptionHandler s && ctx.isFentryOrFexit &&
     decide (s.domain.getInterval .r1 ≠ (0, 0)), .invalidReturnCode s.pc)]

def checks : Leave → List (Bool × LeaveError)
  | .exit => exitChecks ctx s
  | .tailCall => tailCallChecks ctx s
  | .throw => throwChecks ctx s

def leaveError (p : Leave) : Option LeaveError := ((checks ctx s p).find? (·.1)).map (·.2)

end Checks

section Obligations

inductive Obligation where
  | reference | iterator | dynptr | spinLock | resLock | resLockIrq | rcu | preempt | irq
  deriving DecidableEq, Repr

def Holds (s : State) : Obligation → Prop
  | .reference => s.hasUnreleasedRefs = true
  | .iterator => anyFrame s (·.hasActiveIterators) = true
  | .dynptr => anyFrame s (·.hasUnreleasedDynptrRefs) = true
  | .spinLock => hasActiveLock s = true
  | .resLock => ∃ e ∈ s.acquiredResLocks, e.isIrq = false
  | .resLockIrq => ∃ e ∈ s.acquiredResLocks, e.isIrq = true
  | .rcu => rcuBaseline s < s.rcuReadDepth
  | .preempt => inPreemptDisabled s = true
  | .irq => s.acquiredIrqIds ≠ []

def checked : Leave → Obligation → Bool
  | .exit, .resLock => false
  | .exit, _ => true
  | .tailCall, .reference | .tailCall, .resLockIrq | .tailCall, .rcu | .tailCall, .preempt
  | .tailCall, .irq => true
  | .tailCall, _ => false
  | .throw, .reference | .throw, .spinLock | .throw, .rcu => true
  | .throw, _ => false

def rejectedOtherwise (ctx : LeaveCtx) (s : State) : Leave → Bool
  | .exit =>
    ctx.analyzingExceptionCb && ctx.isFentryOrFexit && decide (s.domain.getInterval .r0 ≠ (0, 0)) ||
      returnCodeRejected ctx s || decide (s.types.get .r0 = .notInit) && !ctx.entryReturnsVoid ||
      anyFrame s (·.hasUnreleasedIrqFlags) || decide (8 < s.frames.depth)
  | .tailCall => ctx.argsRejected s || ctx.refcountedEntryArg
  | .throw =>
    !ctx.analyzingExceptionCb && s.frames.toList.any (·.isCallback) || inRcuReadSection s ||
      !ctx.hasExceptionHandler s && ctx.isFentryOrFexit &&
        decide (s.domain.getInterval .r1 ≠ (0, 0))

theorem inIrqDisabled_iff (s : State) :
    inIrqDisabled s = true ↔ Holds s .irq ∨ Holds s .resLockIrq := by
  unfold inIrqDisabled Holds
  cases s.acquiredIrqIds <;> simp

theorem exists_obligation (P : Obligation → Prop) :
    (∃ o, P o) ↔ P .reference ∨ P .iterator ∨ P .dynptr ∨ P .spinLock ∨ P .resLock ∨
      P .resLockIrq ∨ P .rcu ∨ P .preempt ∨ P .irq := by
  constructor
  · rintro ⟨o, ho⟩
    cases o <;> simp [ho]
  · rintro (h | h | h | h | h | h | h | h | h) <;> exact ⟨_, h⟩

theorem leaveError_isSome_iff (ctx : LeaveCtx) (s : State) (p : Leave) :
    (leaveError ctx s p).isSome = true ↔
      (∃ o, Holds s o ∧ checked p o = true) ∨ rejectedOtherwise ctx s p = true := by
  have hany : (leaveError ctx s p).isSome = true ↔ ∃ c ∈ checks ctx s p, c.1 = true := by
    unfold leaveError
    rw [Option.isSome_map, List.find?_isSome]
  have hirq := inIrqDisabled_iff s
  have hrcu : rcuBaseline s < s.rcuReadDepth → inRcuReadSection s = true := fun h =>
    decide_eq_true (Nat.zero_lt_of_lt h)
  rw [hany, exists_obligation]
  cases p with
  | exit =>
    simp only [checks, exitChecks, checked, rejectedOtherwise, List.mem_cons, List.not_mem_nil,
      or_false, exists_eq_or_imp, exists_eq_left, Bool.or_eq_true, hirq, decide_eq_true_eq,
      and_true, Bool.false_eq_true, and_false, false_or]
    simp only [Holds]
    grind only
  | tailCall =>
    simp only [checks, tailCallChecks, checked, rejectedOtherwise, List.mem_cons, List.not_mem_nil,
      or_false, exists_eq_or_imp, exists_eq_left, Bool.or_eq_true, hirq, decide_eq_true_eq,
      and_true, Bool.false_eq_true, and_false, false_or]
    have hlock : (hasActiveLock s && !allowedWhileInActiveLock Helper.tailCall) = false := by
      rw [show allowedWhileInActiveLock Helper.tailCall = true from rfl, Bool.not_true,
        Bool.and_false]
    simp only [Holds, hlock, Bool.false_eq_true, false_or]
    grind only
  | throw =>
    simp only [checks, throwChecks, checked, rejectedOtherwise, List.mem_cons, List.not_mem_nil,
      or_false, exists_eq_or_imp, exists_eq_left, Bool.or_eq_true, and_true, Bool.false_eq_true,
      and_false, false_or]
    simp only [Holds]
    grind only

/-- A program that holds something is kept from leaving if and only if an
obligation the place does not look at comes with one it looks at, or with
another reason to refuse. -/
theorem leaving_refused_iff (ctx : LeaveCtx) (s : State) (p : Leave) :
    ((∃ o, Holds s o) → (leaveError ctx s p).isSome = true) ↔
      ((∃ o, Holds s o ∧ checked p o = false) →
        (∃ o, Holds s o ∧ checked p o = true) ∨ rejectedOtherwise ctx s p = true) := by
  rw [leaveError_isSome_iff]
  constructor
  · rintro h ⟨o, ho, _⟩
    exact h ⟨o, ho⟩
  · rintro h ⟨o, ho⟩
    cases hc : checked p o with
    | true => exact Or.inl ⟨o, ho, hc⟩
    | false => exact h ⟨o, ho, hc⟩

end Obligations

section Example

def plainCtx : LeaveCtx :=
  { retvalRule := none, strictReturnCode := false, isFreplace := false, isFentryOrFexit := false
    entryReturnsVoid := false, analyzingExceptionCb := false, refcountedEntryArg := false
    argsRejected := fun _ => false, hasExceptionHandler := fun _ => false }

def lockInR1 : State :=
  { State.new NumericDomain.newInterval 0 with
    types := (TypeState.newNotInit.set .r1 (.ptrToMapValue 5 (some 0) 0 none false)).set .r10
      (.ptrToStack 0) }

def resSpinLockCall : KfuncCall :=
  { proto := { CallProto.withArgs [.resSpinLockArg false] with
      ret := .scalar, flags := .resSpinLockAcquire }
    isWqSetCallback := false, fixup := .none, prev := none, force := false }

/-- Main takes a resilient lock and exits with it. -/
theorem exits_with_res_lock :
    ∃ s ∈ transferKfunc noTable lockInR1.types lockInR1 resSpinLockCall id,
      s.frames.atMain = true ∧ Holds s .resLock ∧ leaveError plainCtx s .exit = none := by
  have hrun : (transferKfunc noTable lockInR1.types lockInR1 resSpinLockCall id).head?.map
      (fun s => (s.frames.atMain, s.acquiredResLocks, leaveError plainCtx s .exit)) =
        some (true, [{ regId := 5, ptrId := 0, isIrq := false }], none) := by
    decide +kernel
  obtain ⟨s, hs, hval⟩ := Option.map_eq_some_iff.1 hrun
  obtain ⟨hmain, hval⟩ := Prod.mk.inj hval
  obtain ⟨hlocks, herror⟩ := Prod.mk.inj hval
  refine ⟨s, List.mem_of_mem_head? hs, hmain, ?_, herror⟩
  unfold Holds
  rw [hlocks]
  exact ⟨_, List.mem_singleton_self _, rfl⟩

end Example

end ZoneVerifier.Leaving
