import ZoneVerifier.BranchTransfer
import ZoneVerifier.EffectAnnotations
import ZoneVerifier.Fallible

/-!
# Instructions that touch objects on the stack

The checks that protect an object on the stack: of arguments
(`analysis/transfer/call/checks.rs`), of reads
(`analysis/transfer/memory/stack.rs`) and of the buffers of a helper
(`analysis/transfer/call/mem_checks.rs`); then the instructions with their
successors as far as the frames are concerned. Every other instruction works on
registers only and is one case.
-/

set_option autoImplicit false

namespace ZoneVerifier.StackInstr
open Ast RegTypes Stack Machine MemTransfer Signatures CallTypes CallTransfer CallReturn
open KfuncTransfer LockFlags Callback Annotations AnnotationFlow CallAnnotations EffectAnnotations
open Fallible
open BranchTransfer (transferIf transferMayGoto)

variable {helper : Nat} {proto : CallProto} {env : CallEnv}

section Checks

def validateDynptrArg (s : State) (helper : Nat) (r : Reg) (uninit rdwrOnly : Bool) : Bool :=
  match s.types.get r with
  | .ptrToDynptr _ rdonly =>
    !uninit && decide (helper ∉ [Helper.ringbufSubmitDynptr, Helper.ringbufDiscardDynptr]) &&
      !(rdwrOnly && rdonly)
  | _ =>
    match resolveStackArg s r with
    | some (level, off) =>
      let base := getDynptr (stackAt s level) off
      let trail := getDynptr (stackAt s level) (off + 8)
      if uninit then
        !base.any (fun d => decide (d.refId ≠ 0)) && !trail.any (fun d => decide (d.refId ≠ 0))
      else base.any fun d => d.firstSlot && !(rdwrOnly && d.rdonly)
    | none => false

def validateIterArg (s : State) (r : Reg) (kind : IterKind) (expected : IterArgExpect) : Bool :=
  match resolveStackArg s r with
  | some (level, off) =>
    match expected, getIterator (stackAt s level) off with
    | .uninit, none => true
    | .active, some it => decide (it.kind = kind ∧ it.state = .active)
    | .activeOrDrained, some it => decide (it.kind = kind)
    | _, _ => false
  | none => false

def validateIrqFlagArg (s : State) (r : Reg) (uninit : Bool) (kfuncClass : IrqKfuncClass) : Bool :=
  match resolveStackArg s r with
  | some (level, off) =>
    let stack := stackAt s level
    if uninit then
      (getIrqFlag stack off).isNone && (getIterator stack off).isNone &&
        (getDynptr stack off).isNone
    else (getIrqFlag stack off).any fun flag =>
      decide (flag.kfuncClass = kfuncClass ∧ s.acquiredIrqIds.head? = some flag.id)
  | none => false

/-- The check of one argument, as far as objects on the stack are concerned. -/
def stackArgAccepted (s : State) (helper : Nat) (r : Reg) : ArgKind → Bool
  | .dynptrArg uninit rdwrOnly => validateDynptrArg s helper r uninit rdwrOnly
  | .iterArg kind expected => validateIterArg s r kind expected
  | .irqFlagArg uninit kfuncClass => validateIrqFlagArg s r uninit kfuncClass
  | _ => true

def stackArgsAccepted (s : State) (helper : Nat) (proto : CallProto) : Bool :=
  (List.range 5).all fun i =>
    (proto.args[i]?).all fun kind => stackArgAccepted s helper (argReg i) kind

def readOverlapsDynptr (stack : StackState) (off size : Int) : Bool :=
  decide (¬ stack.slots.All fun slot sp => sp.dynptr.isSome = true → ¬ Overlaps off size slot 8)

def touchesOpaque (stack : StackState) (off size : Int) : Bool :=
  accessOverlapsIterator stack off size || readOverlapsDynptr stack off size

/-- The read of an atomic operation, at every offset the base may have. -/
def stackReadAllowed (s : State) (base : Reg) (off : Int) (size : MemSize) : Bool :=
  match s.types.get base with
  | .ptrToStack level =>
    match s.domain.getDistanceFixed base .r10 with
    | some baseOff => !touchesOpaque (stackAt s level) (baseOff + off) size.bytes
    | none =>
      let (lo, hi) := s.domain.getDistanceInterval base .r10
      decide (lo ≠ -2^63 ∧ hi ≠ 2^63 - 1) &&
        (List.range (hi - lo + 1).toNat).all fun (i : Nat) =>
          !touchesOpaque (stackAt s level) (lo + (i : Int) + off) size.bytes
  | _ => true

/-- The largest size of a buffer is checked as a 32-bit number. -/
def bufferAccepted (s : State) (pair : MemSizePair) : Bool :=
  match s.types.get pair.ptrReg, s.domain.getDistanceFixed pair.ptrReg .r10 with
  | .ptrToStack level, some off =>
    let maxSize := (s.domain.getInterval pair.sizeReg).2
    let size := maxSize % 2^32
    decide (maxSize ≠ 2^63 - 1 ∧ -512 ≤ off ∧ off + size ≤ 0) &&
      !touchesOpaque (stackAt s level) off size
  | _, _ => true

/-- The argument of an effect is declared with the kind that is checked for it. -/
def effectDeclared (args : List ArgKind) : SideEffect → Bool
  | .iterInitOnArg arg kind => decide (arg < 5 ∧ args[arg]? = some (.iterArg kind .uninit))
  | .iterDestroyOnArg arg => decide (arg < 5) && (args[arg]?).any fun
    | .iterArg _ .activeOrDrained => true
    | _ => false
  | .dynptrInitOnArg arg _ _ => decide (arg < 5) && (args[arg]?).any fun
    | .dynptrArg true _ => true
    | _ => false
  | .dynptrReleaseFromArg arg => decide (arg < 5) && (args[arg]?).any fun
    | .dynptrArg false _ => true
    | _ => false
  | .dynptrCloneOnArg src dst => decide (src < 5 ∧ dst < 5) && (args[src]?).any (fun
    | .dynptrArg false _ => true
    | _ => false) && (args[dst]?).any fun
    | .dynptrArg true _ => true
    | _ => false
  | .irqSaveOnArg arg kfuncClass => decide (arg < 5 ∧ args[arg]? = some (.irqFlagArg true kfuncClass))
  | .irqRestoreFromArg arg kfuncClass =>
    decide (arg < 5 ∧ args[arg]? = some (.irqFlagArg false kfuncClass))
  | .releaseRefFromArg _ | .setExceptionCallbackFromArg _ => true

/-- No prototype has more than one effect. -/
@[mk_iff]
structure Declared (proto : CallProto) : Prop where
  single : proto.sideEffects.length ≤ 1
  args : ∀ eff ∈ proto.sideEffects, effectDeclared proto.args eff = true

instance (proto : CallProto) : Decidable (Declared proto) :=
  decidable_of_iff' _ (declared_iff proto)

/-- What every entry of the table of helpers satisfies. -/
def TableDeclared (env : CallEnv) : Prop :=
  ∀ helper proto, env.otherProtos helper = some proto → Declared proto

theorem declared_of_lookup {l : List (Nat × CallProto)} (hl : ∀ e ∈ l, Declared e.2)
    (h : l.lookup helper = some proto) : Declared proto := by
  induction l with
  | nil => cases h
  | cons e l ih =>
    rw [List.lookup_cons] at h
    split at h
    · cases h
      exact hl e List.mem_cons_self
    · exact ih (fun e he => hl e (List.mem_cons_of_mem _ he)) h

theorem declared_getHelperProto (henv : TableDeclared env)
    (h : getHelperProto env helper = some proto) : Declared proto := by
  rcases Option.or_eq_some_iff.1 h with hk | ⟨_, ho⟩
  · exact declared_of_lookup (by decide +kernel) hk
  · exact henv helper proto ho

end Checks

section Flags
variable {s s' : State} {helper : Nat} {proto : CallProto} {flags : CallFlags}

structure SameObjects (s s' : State) : Prop where
  core : SameCore s s'
  args : SameStackArgs s s'

theorem SameObjects.refl (s : State) : SameObjects s s := ⟨.refl s, .refl s⟩

theorem SameObjects.trans {s₁ s₂ s₃ : State} (h : SameObjects s₁ s₂) (h' : SameObjects s₂ s₃) :
    SameObjects s₁ s₃ := ⟨h.core.trans h'.core, h.args.trans h'.args⟩

theorem SameObjects.of_frames (hf : s'.frames = s.frames) (hd : s'.domain = s.domain)
    (ht : s'.types = s.types) : SameObjects s s' := ⟨.of_same (.of_frames hf), .of_types hd ht⟩

/-- A relation that everything the flags of a prototype do stays within. -/
structure FlagClosed (R : State → State → Prop) : Prop where
  refl : ∀ s, R s s
  trans : ∀ {s t u}, R s t → R t u → R s u
  counters : ∀ {s s' : State}, s'.frames = s.frames → s'.domain = s.domain →
    s'.types = s.types → R s s'
  nonOwning : ∀ s, R s (invalidateNonOwningRefs s)
  iterators : ∀ s, R s (invalidateRcuIterSlots s)
  demoted : ∀ s, R s (demoteRcuBtfRegsToUntrusted s)

namespace FlagClosed
variable {R : State → State → Prop}

section
variable (hR : FlagClosed R)
include hR

theorem takeSpinLock (h : takeSpinLock flags s = .ok s') : R s s' := by
  unfold LockFlags.takeSpinLock at h
  split_ifs at h
  · split at h
    · cases h
      exact hR.counters rfl rfl rfl
    · cases h
  · cases h
    exact hR.refl s

theorem dropSpinLock (h : dropSpinLock flags s = .ok s') : R s s' := by
  unfold LockFlags.dropSpinLock at h
  split_ifs at h
  · split at h
    · cases h
    · cases h
    · split_ifs at h
      cases h
      refine hR.trans ?_ (hR.nonOwning _)
      exact hR.counters rfl rfl rfl
  · cases h
    exact hR.refl s

theorem enterRcu (h : enterRcu flags s = .ok s') : R s s' := by
  unfold LockFlags.enterRcu at h
  split_ifs at h <;> cases h
  · exact hR.counters rfl rfl rfl
  · exact hR.refl s

theorem leaveRcu (h : leaveRcu flags s = .ok s') : R s s' := by
  unfold LockFlags.leaveRcu at h
  dsimp only at h
  split_ifs at h <;> cases h
  · exact hR.counters rfl rfl rfl
  · refine hR.trans (hR.trans ?_ (hR.iterators _)) (hR.demoted _)
    exact hR.counters rfl rfl rfl
  · exact hR.refl s

theorem dropResLock {effects : List SideEffect}
    (h : dropResLock flags effects s = .ok s') : R s s' := by
  unfold LockFlags.dropResLock at h
  split_ifs at h
  · split at h
    · cases h
    · split at h
      · next hrel =>
        cases h
        unfold resLockRelease at hrel
        split at hrel
        · cases hrel
        · split_ifs at hrel
          cases hrel
          exact hR.counters rfl rfl rfl
      · cases h
      · cases h
  · cases h
    exact hR.refl s

theorem togglePreempt (h : togglePreempt flags s = .ok s') : R s s' := by
  unfold LockFlags.togglePreempt at h
  dsimp only at h
  split_ifs at h <;> cases h <;> exact hR.counters rfl rfl rfl

theorem lockFlags (h : applyPreCallLockFlags s helper proto = .ok s') :
    R s s' := by
  obtain ⟨_, _, h⟩ := bind_ok h
  obtain ⟨s₁, h₁, h⟩ := bind_ok h
  obtain ⟨s₂, h₂, h⟩ := bind_ok h
  obtain ⟨s₃, h₃, h⟩ := bind_ok h
  obtain ⟨s₄, h₄, h⟩ := bind_ok h
  obtain ⟨_, _, h⟩ := bind_ok h
  obtain ⟨s₅, h₅, h⟩ := bind_ok h
  exact hR.trans (hR.takeSpinLock h₁) <| hR.trans (hR.dropSpinLock h₂) <|
    hR.trans (hR.enterRcu h₃) <| hR.trans (hR.leaveRcu h₄) <|
    hR.trans (hR.dropResLock h₅) (hR.togglePreempt h)

end

end FlagClosed

theorem core_untrustIterator (sp : SpilledReg) :
    core (Annots.ofEntry (untrustIterator sp)) = core (Annots.ofEntry sp) := by
  unfold untrustIterator core Annots.ofEntry
  cases sp.iterator with
  | none => rfl
  | some it =>
    simp only [Option.map_some]
    split_ifs <;> rfl

theorem sameCore_mapStacks {f : SpilledReg → SpilledReg}
    (hf : ∀ sp, core (Annots.ofEntry (f sp)) = core (Annots.ofEntry sp)) (s : State) :
    SameCore s (mapStacks s f) := by
  refine ⟨List.length_map .., fun l q => ?_⟩
  have hget : (mapStacks s f).frames.get l = (s.frames.get l).map (mapStack f) := get_map ..
  unfold coreAt annotsAt stackAt
  rw [hget]
  cases s.frames.get l with
  | none => rfl
  | some c =>
    show core (annots (mapStack f c).stack q) = core (annots c.stack q)
    unfold annots mapStack
    rw [FiniteMap.FinMap.find_mapValues, Option.map_map]
    cases c.stack.slots.find q with
    | none => rfl
    | some sp => exact hf sp

theorem sameCore_demoteRcu (s : State) : SameCore s (demoteRcuBtfRegsToUntrusted s) := by
  have htypes : SameCore s (mapTypes s demoteRcu) := .of_same (.of_frames rfl)
  exact htypes.trans (sameCore_mapStacks (f := demoteSlot) (fun _ => rfl) _)

theorem flagClosed_sameObjects : FlagClosed SameObjects where
  refl := .refl
  trans := .trans
  counters := .of_frames
  nonOwning s := by
    refine ⟨.of_same (.of_frames rfl), .of_map (f := dropNonOwning) (fun ty level => ?_) rfl rfl⟩
    cases ty with
    | ptrToOwnedKptr refId offset nonOwning pointee => cases nonOwning <;> simp [dropNonOwning]
    | _ => exact Iff.rfl
  iterators s := ⟨sameCore_mapStacks core_untrustIterator s, .of_types rfl rfl⟩
  demoted s := by
    refine ⟨sameCore_demoteRcu s, .of_map (f := demoteRcu) (fun ty level => ?_) rfl rfl⟩
    cases ty <;> simp [demoteRcu]

theorem sameObjects_lockFlags (h : applyPreCallLockFlags s helper proto = .ok s') :
    SameObjects s s' := flagClosed_sameObjects.lockFlags h

end Flags

/-- An instruction, with what the verifier picks along the way. -/
inductive Instr where
  | regs
  | store (level : Nat) (size : MemSize) (base : Reg) (off : Int) (src : Operand) (fresh : Nat)
  | atomic (op : AtomicOp) (fetch : Bool) (size : MemSize) (base : Reg) (off : Int) (src : Reg)
  | callRel (target : Nat) (global : Option (List GlobalFuncArg)) (ids : Nat → Nat)
  | exit
  | branch (width : Width) (left : Reg) (op : CmpOp) (right : Operand) (target : Nat)
  | mayGoto (target : Nat) (prev : Option State) (precisePcs : Nat → Reg → Bool) (force : Bool)
  | helper (helper : Nat) (couldReinit : Bool) (ids : Nat → Nat)
  | kfunc (btfId : Nat) (call : KfuncCall) (ids : Nat → Nat)
  | callback (helper entry : Nat) (offsets : List Int) (ids : Nat → Nat)
  | callbackExit (prev : Option State) (precisePcs : Nat → Reg → Bool) (force : Bool) (id : Nat)

def helperFlags (env : CallEnv) (s : State) (helper : Nat) : Except LockError State :=
  match getHelperProto env helper with
  | some proto => applyPreCallLockFlags s helper proto
  | none => .ok s

def helperArgsAccepted (env : CallEnv) (s : State) (helper : Nat) : Bool :=
  (getHelperProto env helper).all fun proto =>
    proto.memSizePairs.all (bufferAccepted s) && stackArgsAccepted s helper proto

def Succ (env : CallEnv) (s s' : State) : Instr → Prop
  | .regs => s'.frames = s.frames
  | .store level size base off src fresh => s.types.get base = .ptrToStack level ∧
      level ≤ s.frames.currentLevel ∧ transferStoreStack s level size base off src fresh = .ok s'
  | .atomic op fetch size base off src => stackReadAllowed s base off size = true ∧
      s' = transferAtomic s op fetch size base off src
  | .callRel target global ids => s' = transferCallRel s target global ids
  | .exit => transferExit s = some s'
  | .branch width left op right target => s' ∈ transferIf s width left op right target
  | .mayGoto target prev precisePcs force => s' ∈ transferMayGoto s target prev precisePcs force
  | .helper helper couldReinit ids => helperArgsAccepted env s helper = true ∧
      ∃ s₁, helperFlags env s helper = .ok s₁ ∧
        transferCall env s.types s₁ helper couldReinit ids = some s'
  | .kfunc btfId call ids => stackArgsAccepted s 0 call.proto = true ∧
      ∃ s₁, applyPreCallLockFlags s btfId call.proto = .ok s₁ ∧
        s' ∈ transferKfunc env s.types s₁ call ids
  | .callback helper entry offsets ids => s' = enterCallback s helper entry offsets ids
  | .callbackExit prev precisePcs force id =>
      transferCallbackExit env s prev precisePcs force id = some s'

def InstrDeclared (env : CallEnv) : Instr → Prop
  | .helper .. => TableDeclared env
  | .kfunc _ call _ => Declared call.proto
  | _ => True

theorem stackArgsAccepted_of_helper {s : State}
    (h : helperArgsAccepted env s helper = true) (hproto : getHelperProto env helper = some proto) :
    stackArgsAccepted s helper proto = true := by
  unfold helperArgsAccepted at h
  rw [hproto] at h
  exact (Bool.and_eq_true_iff.1 h).2

theorem FlagClosed.helperFlags {R : State → State → Prop} (hR : FlagClosed R)
    {s s' : State} (h : helperFlags env s helper = .ok s') : R s s' := by
  unfold StackInstr.helperFlags at h
  split at h
  · exact hR.lockFlags h
  · cases h
    exact hR.refl s

theorem sameObjects_helperFlags {s s' : State}
    (h : helperFlags env s helper = .ok s') : SameObjects s s' := flagClosed_sameObjects.helperFlags h

/-- `R1` points into the frame, at an offset of `lo` to `lo + width`. -/
def pointing (lo : Int) (width : Nat) : State :=
  { State.new (.interval (Interval.IntervalState.new.set .r1
      { bounds := Bounds.ScalarBounds.unknown
        ptrOffset := some { Interval.PtrOffset.atAnchor .r10 with off := lo, varOff := width } })) 0 with
    types := (TypeState.newNotInit.set .r1 (.ptrToStack 0)).set .r10 (.ptrToStack 0) }

end ZoneVerifier.StackInstr
