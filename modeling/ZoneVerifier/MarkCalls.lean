import ZoneVerifier.MarkEffects

/-!
# Marks over a call

Every part of a helper or kfunc call leaves the marks where they are, apart from
a result that points to allocated memory: memory of its own, or a slice of the
dynptr in the first argument.
-/

set_option autoImplicit false

namespace ZoneVerifier.MarkCalls
open RegTypes Stack Machine StackOps Signatures CallTypes CallTransfer Widen KfuncTransfer
open BranchTransfer CallAnnotations CallObjects Marks MarkEffects
open Ast hiding Instr

section Results
variable {env : CallEnv} {id helper : Nat} {ids : Nat → Nat} {inTypes : TypeState}

def slicesArg : RetKind → Bool
  | .ptrToAllocMemFromArg _ | .ptrToAllocMemFromArgRdonly _ => true
  | _ => false

def argDynptr (s : State) : Option DynptrSlot :=
  (resolveStackArg s (argReg 0)).bind fun (level, off) => getDynptr (stackAt s level) off

def sliceType (s : State) (id memSize : Nat) (rdonly : Bool) : RegType :=
  .ptrToAllocMem id memSize (((argDynptr s).map (·.refId)).filter (· ≠ 0))
    ((argDynptr s).map (·.dynptrId)) rdonly

/-- The new marks cover memory with a new identity. -/
def Grants {τ : Type} (m : Marking τ) (new : List τ) (id : Nat) : Prop :=
  ∀ memSize rdonly, m.of (.ptrToAllocMem id memSize none none rdonly) ⊆ new

def GrantsSlice {τ : Type} (m : Marking τ) (new : List τ) (s : State) (proto : CallProto)
    (id : Nat) : Prop :=
  slicesArg proto.ret = true → ∀ memSize rdonly, m.of (sliceType s id memSize rdonly) ⊆ new

variable {τ : Type} {m : Marking τ} {new : List τ} (s : State)

theorem tame_refResult (flags : CallFlags) (id : Nat) {orNull plain : Option Nat → RegType}
    (hn : ∀ r, isAllocMem (orNull r) = false) (hp : ∀ r, isAllocMem (plain r) = false) :
    Tame m new s (refResult s flags id orNull plain) := by
  unfold refResult
  have hacq : Tame m new s (if flags.contains .acquire then acquireRef s id else s) :=
    .ite (.of_same rfl rfl) (.refl s)
  refine hacq.trans (.setPlain _ .r0 ?_)
  by_cases hnull : flags.contains .retNull
  · rw [if_pos hnull, hn]
  · rw [if_neg hnull, hp]

theorem tame_allocMemResult (flags : CallFlags) (id memSize : Nat) (refId dynptrId : Option Nat)
    (rdonly : Bool) (h : m.of (.ptrToAllocMem id memSize refId dynptrId rdonly) ⊆ new) :
    Tame m new s (allocMemResult s flags id memSize refId dynptrId rdonly) := by
  refine .setType s .r0 ?_
  split_ifs
  · rw [m.orNull]
    exact h
  · exact h

theorem tame_applyRet {proto : CallProto} (hmem : Grants m new id)
    (hslice : GrantsSlice m new s proto id) : Tame m new s (applyRet s proto id).1 := by
  unfold applyRet
  cases hret : proto.ret with
  | unknown | iterNextElem iterArg elemSize | iterNextBtfId iterArg typeName flags => exact .refl s
  | void | scalar => exact .setPlain s .r0 rfl
  | ptrToAllocMem memSize => exact tame_allocMemResult s _ _ _ _ _ _ (hmem memSize false)
  | ptrToAllocMemFromArg sizeArg | ptrToAllocMemFromArgRdonly sizeArg =>
    exact tame_allocMemResult s _ _ _ _ _ _ (hslice (by rw [hret]; rfl) _ _)
  | _ =>
    dsimp only
    refine tame_refResult s proto.flags id ?_ ?_
    · exact fun _ => rfl
    · exact fun _ => rfl

theorem tame_skbLoadBytes (inTypes : TypeState) : Tame m new s (skbLoadBytesClobber inTypes s) := by
  rw [skbLoadBytesClobber_eq]
  split
  · exact Tame.modifyStackAt (fun stack => stackTame_skbClobber stack _ _) s _
  · exact .refl s

theorem tame_sweptPackets : Tame m new s (sweptPackets s) := by
  have hregs : Tame m new s { s with types := { regs := fun i => sweepReg (s.types.regs i) } } :=
    Tame.mapRegs (f := sweepReg) (fun _ => less_ite rfl) rfl rfl
  refine (hregs.trans (Tame.modifyStack (fun stack => stackTame_mapValues rfl fun sp => ?_) _)).trans
    (Tame.mapFrames (g := sweepCaller) (fun f => ⟨.refl _, fun i => less_ite rfl⟩) rfl rfl)
  split_ifs
  · exact .plain rfl
  · exact .refl _

theorem sweepClosed_tame : SweepClosed (m.of · ⊆ new) (Tame m new) where
  plain ty h := by simp [m.plain ty h]
  trans := .trans
  same := .of_same
  sets s r _ := .setType s r
  ref := tame_invalidateRef
  converted := tame_convertRef
  slices := tame_invalidateDynptrSlices
  packets := tame_sweptPackets

theorem callClosed_tame : CallClosed (m.of · ⊆ new) (Tame m new) := sweepClosed_tame.1

structure HelperGrants {τ : Type} (m : Marking τ) (new : List τ) (env : CallEnv)
    (inTypes : TypeState) (ids : Nat → Nat) (s : State) (helper : Nat) : Prop where
  legacy : Grants m new (ids 0)
  mem : ∀ proto, getHelperProto env helper = some proto →
    Grants m new (ids proto.sideEffects.length)
  slice : ∀ proto, getHelperProto env helper = some proto →
    GrantsSlice m new (helperEffects env inTypes ids s helper) proto (ids proto.sideEffects.length)

theorem tame_helperEffects (env : CallEnv) (inTypes : TypeState) (ids : Nat → Nat) (helper : Nat) :
    Tame m new s (helperEffects env inTypes ids s helper) := by
  have hset : Tame m new s (setType s .r0 .scalarValue) := .setPlain s .r0 rfl
  unfold helperEffects
  split
  · exact hset.trans (tame_effectsOf env inTypes _ ids _)
  · exact hset

theorem tame_callResult (h : HelperGrants m new env inTypes ids s helper) :
    Tame m new (helperEffects env inTypes ids s helper) (callResult env inTypes s helper ids).1 := by
  obtain ⟨_, hmem, hslice⟩ := h
  unfold callResult
  unfold helperEffects at hslice ⊢
  cases hproto : getHelperProto env helper with
  | none => exact .refl _
  | some proto =>
    rw [hproto] at hslice
    exact tame_applyRet _ (hmem proto hproto) (hslice proto rfl)

theorem tame_updateCallTypes (h : HelperGrants m new env inTypes ids s helper) :
    Tame m new (helperEffects env inTypes ids s helper)
      (updateCallTypes env inTypes s helper ids) := by
  refine (tame_callResult s h).trans (closed_updateRest _ sweepClosed_tame env inTypes ?_
    (fun _ => tame_skbLoadBytes _ inTypes) (callResult env inTypes s helper ids).2)
  intro memSize
  rw [m.orNull]
  exact h.legacy memSize false

end Results

section Helpers
variable {τ : Type} {m : Marking τ} {new : List τ} (s : State)
variable {env : CallEnv} {ids : Nat → Nat} {inTypes : TypeState}

theorem tame_initializeUninitMemArgs (env : CallEnv) (inTypes : TypeState) (helper : Nat) :
    Tame m new s (initializeUninitMemArgs env inTypes s helper) := by
  unfold initializeUninitMemArgs
  split
  · refine Tame.foldl (fun s pair => ?_) _ s
    unfold initializePair
    split_ifs
    · split
      · refine .ite ?_ (.refl s)
        exact Tame.modifyStackAt (fun stack => stackTame_clobberBytes stack _ _) s _
      · exact .refl s
    · exact .refl s
  · exact .refl s

theorem tame_finish (env : CallEnv) (inTypes : TypeState) (ids : Nat → Nat) (helper : Nat) :
    Tame m new (updateCallTypes env inTypes s helper ids) (normalCall env inTypes s helper ids) :=
  (closed_beforeBuffers env inTypes s ids helper callClosed_tame).trans <|
    (tame_initializeUninitMemArgs _ env inTypes helper).trans
      (closed_finish _ callClosed_tame inTypes (helperInvalidatesPackets helper))

theorem tame_normalCall {helper : Nat} (h : HelperGrants m new env inTypes ids s helper) :
    Tame m new (helperEffects env inTypes ids s helper) (normalCall env inTypes s helper ids) :=
  (tame_updateCallTypes s h).trans (tame_finish s env inTypes ids helper)

theorem less_tailCallSweep (env : CallEnv) (ty : RegType) : Less m (tailCallSweep env ty) ty := by
  unfold tailCallSweep
  split_ifs
  · exact .plain rfl
  · exact .plain rfl
  · exact .refl ty

theorem less_set {f : RegType → RegType} (hf : ∀ ty, Less m (f ty) ty) (t : TypeState) (r : Reg)
    (i : Fin 11) : Less m ((t.set r (f (t.get r))).regs i) (t.regs i) := by
  unfold TypeState.set TypeState.get
  cases r.toIndex with
  | none => exact .refl _
  | some j =>
    dsimp only
    split_ifs with hij
    · rw [hij]
      exact hf _
    · exact .refl _

theorem less_foldl_set {f : RegType → RegType} (hf : ∀ ty, Less m (f ty) ty) (l : List Reg)
    (t : TypeState) (i : Fin 11) :
    Less m ((l.foldl (fun t r => t.set r (f (t.get r))) t).regs i) (t.regs i) := by
  induction l generalizing t with
  | nil => exact .refl _
  | cons r l ih => exact (less_set hf t r i).trans (ih _)

theorem tame_tailFrames (env : CallEnv) :
    Tame m new s (nextPc { s with frames := s.frames.map (tailCallFrame env) }) :=
  Tame.mapFrames (g := tailCallFrame env)
    (fun _ => ⟨stackTame_mapValues rfl fun sp => less_tailCallSweep env sp.regType,
      less_foldl_set (less_tailCallSweep env) _ _⟩) rfl rfl

theorem tame_tailCall (h : HelperGrants m new env inTypes ids s Helper.tailCall) :
    Tame m new (helperEffects env inTypes ids s Helper.tailCall) (tailCall env inTypes s ids) :=
  (tame_updateCallTypes s h).trans <|
    (closed_tailRegs env _ callClosed_tame).trans (tame_tailFrames _ env)

theorem tame_dropReinitialised (helper : Nat) : Tame m new s (dropReinitialisedDynptrs s helper) := by
  unfold dropReinitialisedDynptrs
  split
  · exact (Tame.modifyStackAt (fun stack => stackTame_clearTouched stack _ _) s _).trans
      (tame_invalidateDynptrSlices _ _)
  · exact .refl s

def beforeSkip (helper : Nat) (couldReinit : Bool) : State :=
  if couldReinit then dropReinitialisedDynptrs s helper else s

theorem tame_callbackSkip {helper : Nat} {couldReinit : Bool}
    (h : HelperGrants m new env inTypes ids (beforeSkip s helper couldReinit) helper) :
    Tame m new (helperEffects env inTypes ids (beforeSkip s helper couldReinit) helper)
      (callbackSkip env inTypes s helper couldReinit ids) :=
  (tame_updateCallTypes _ h).trans (closed_skipped env inTypes _ ids helper callClosed_tame _)

end Helpers

section Kfuncs
variable {τ : Type} {m : Marking τ} {new : List τ} (env : CallEnv)
  (inTypes : TypeState) (s : State) (ids : Nat → Nat)
variable {proto : CallProto} (t : State)

structure KfuncGrants {τ : Type} (m : Marking τ) (new : List τ) (env : CallEnv)
    (inTypes : TypeState) (ids : Nat → Nat) (s : State) (proto : CallProto) : Prop where
  mem : Grants m new (ids proto.sideEffects.length)
  slice : GrantsSlice m new (effectsOf env inTypes ids proto s) proto (ids proto.sideEffects.length)

variable {env inTypes s ids} in
theorem tame_applyCallProtoR0 (h : KfuncGrants m new env inTypes ids s proto) :
    Tame m new (effectsOf env inTypes ids proto s) (applyCallProtoR0 env inTypes s proto ids).1 :=
  tame_applyRet _ h.mem h.slice

theorem less_setPointee (btfId : Nat) (nodeOffset : Option Int) (ty : RegType) :
    Less m (setPointee ty btfId nodeOffset) ty := by
  cases ty with
  | ptrToOwnedKptr refId offset nonOwning pointee => exact .plain rfl
  | ptrToOwnedKptrOrNull refId pointee offset => exact .plain rfl
  | _ => exact .refl _

theorem tame_applyRetFixup (id : Nat) (fixup : RetFixup) :
    Tame m new t (applyRetFixup t id fixup) := by
  cases fixup with
  | none => exact .refl t
  | pointee btfId nodeOffset =>
    exact .of_types (fun i => Or.inl (less_set (f := (setPointee · btfId nodeOffset))
      (less_setPointee btfId nodeOffset) t.types .r0 i)) rfl
  | percpuObjNew typeName =>
    exact callClosed_tame.setAcquired t id .r0 rfl
  | castToKernCtx typeName => cases typeName <;> exact .setPlain t .r0 rfl
  | rdonlyCast typeName => exact .setPlain t .r0 rfl

variable {env inTypes s ids} in
theorem tame_normalKfunc (h : KfuncGrants m new env inTypes ids s proto) (fixup : RetFixup) :
    Tame m new (effectsOf env inTypes ids proto s)
      (normalKfunc env inTypes s proto fixup ids) := by
  refine (tame_applyCallProtoR0 h).trans ?_
  refine (tame_applyRetFixup _ (ids (proto.sideEffects.length + 1)) fixup).trans ?_
  exact (closed_scratchUnlessFastcall callClosed_tame _ proto.flags).trans <|
    (closed_resetReg _ callClosed_tame .r0).trans (.of_same rfl rfl)

variable {env inTypes s ids} in
theorem tame_resLockSuccess {lock : Nat × Nat}
    (h : KfuncGrants m new env inTypes ids (withResLock s proto lock) proto) :
    Tame m new (effectsOf env inTypes ids proto (withResLock s proto lock))
      (resLockSuccess env inTypes s proto lock ids) := by
  refine (tame_applyCallProtoR0 h).trans (Tame.trans ?_
    (closed_resLockEnd callClosed_tame (State.setTnum (modifyDomain _ _) .r0 _) proto.flags))
  exact .of_same rfl rfl

theorem tame_advance (level : Nat) (off : Int) (f : IteratorSlot → IteratorSlot) :
    Tame m new t (match getIterator (stackAt t level) off with
      | some it => modifyStackAt t level fun stack => putIterator stack off (some (f it))
      | none => t) := by
  split
  · exact Tame.modifyStackAt (fun stack => stackTame_putIterator stack off _) t level
  · exact .refl t

theorem tame_iterNull (level : Nat) (off : Int) : Tame m new s (iterNull s level off) := by
  refine (tame_advance s level off fun it => { it with state := .drained }).trans ?_
  refine Tame.trans ?_ ((closed_clobberCallerSaved callClosed_tame _).trans (.of_same rfl rfl))
  exact (Tame.setPlain _ .r0 rfl).trans (.of_same rfl rfl)

theorem tame_iterElement (level : Nat) (off : Int) {ty : RegType} (h : m.of ty ⊆ new) :
    Tame m new s (iterElement s level off ty) := by
  refine (tame_advance s level off fun it => { it with depth := it.depth + 1 }).trans ?_
  exact (Tame.setType _ .r0 h).trans <| (closed_resetReg _ callClosed_tame .r0).trans <|
    (closed_clobberCallerSaved callClosed_tame _).trans (.of_same rfl rfl)

theorem tame_widenImpreciseScalars (precisePcs : Nat → Reg → Bool) (force atIterNext : Bool)
    (prev cur : State) :
    Tame m new cur (widenImpreciseScalars precisePcs force atIterNext prev cur) := by
  refine (Tame.foldl (fun s r => closed_widenReg callClosed_tame s force r) _ cur).trans
    (Tame.foldl (fun s level => ?_) _ _)
  split
  · exact Tame.modifyStackAt (fun stack => stackTame_widenStack stack force _) s level
  · exact .refl s

theorem less_refined {ty ty' : RegType} (h : Refined ty ty') : Less m ty' ty := by
  cases h with
  | same => exact .refl ty
  | plain h => exact .plain h
  | nonNull h =>
    rw [h]
    exact Or.inr (m.orNull ..).symm

theorem branchClosed_tame : BranchClosed (Tame m new) where
  trans := .trans
  same := .of_same
  sets s r ty h := by
    refine Tame.of_types (fun i => Or.inl ?_) rfl
    unfold TypeState.get at h
    unfold TypeState.set
    cases hr : r.toIndex with
    | none => exact .refl _
    | some j =>
      rw [hr] at h
      dsimp only
      split_ifs with hi
      · exact hi ▸ less_refined h
      · exact .refl _
  slots s f hf := tame_mapStacks (fun sp => less_refined (hf sp).2) s

theorem tame_iterNextFork {s s' : State} {iterArg : Nat} {ty : RegType} {prev : Option State}
    {force : Bool} (hty : m.of ty ⊆ new) (h : s' ∈ iterNextFork s iterArg ty prev force) :
    Tame m new s s' := by
  obtain ⟨level, off, rfl | rfl | ⟨p, rfl⟩⟩ := iterNextFork_cases h
  · exact tame_iterNull ..
  · exact tame_iterElement s level off hty
  · exact (tame_iterElement s level off hty).trans (tame_widenImpreciseScalars ..)

/-- The calls with a successor that skips the declared effects. -/
def skipsEffects (proto : CallProto) : Bool :=
  (match proto.ret with
    | .iterNextElem .. | .iterNextBtfId .. => true
    | _ => false) || proto.flags.contains .resSpinLockAcquire

/-- A successor keeps the objects and adds at most memory of its own, or starts
from what the effects leave. -/
def TameBehindEffects {τ : Type} (m : Marking τ) (mem : List τ) (new : State → List τ)
    (proto : CallProto) (s s' : State) : Prop :=
  (skipsEffects proto = true ∧ SameCore s s' ∧ Tame m mem s s') ∨
    ∃ t : State, t.frames = s.frames ∧ t.domain = s.domain ∧ t.types = s.types ∧
      s'.frames = (effectsOf env inTypes ids proto t).frames ∧
      Tame m (new t) (effectsOf env inTypes ids proto t) s'

variable {env inTypes ids} {mem : List τ} {fresh : State → List τ} {s s' : State}

theorem tame_resSpinLock (hflag : proto.flags.contains .resSpinLockAcquire = true)
    (hnew : ∀ t, KfuncGrants m (fresh t) env inTypes ids t proto)
    (h : s' ∈ resSpinLock env inTypes s proto ids) :
    TameBehindEffects env inTypes ids m mem fresh proto s s' := by
  rcases resSpinLock_cases env inTypes ids h with ⟨lock, rfl⟩ | rfl
  · exact Or.inr ⟨withResLock s proto lock, rfl, rfl, rfl, frames_resLockSuccess ..,
      tame_resLockSuccess (hnew _)⟩
  · exact Or.inl ⟨Bool.or_eq_true_iff.2 (Or.inr hflag),
      .of_same (closed_resLockFail sweepClosed_sameAnnots.1 ..), closed_resLockFail callClosed_tame ..⟩

theorem tame_transferKfunc {call : KfuncCall} (hmem : Grants m mem (ids 0))
    (hnew : ∀ t, KfuncGrants m (fresh t) env inTypes ids t call.proto)
    (h : s' ∈ transferKfunc env inTypes s call ids) :
    TameBehindEffects env inTypes ids m mem fresh call.proto s s' := by
  have hiter : ∀ {iterArg : Nat} {ty : RegType}, m.of ty ⊆ mem →
      (match call.proto.ret with
        | .iterNextElem .. | .iterNextBtfId .. => true
        | _ => false) = true →
      s' ∈ iterNextFork s iterArg ty call.prev call.force →
      TameBehindEffects env inTypes ids m mem fresh call.proto s s' := fun hty hret h =>
    Or.inl ⟨Bool.or_eq_true_iff.2 (Or.inl hret), sameCore_iterNextFork h, tame_iterNextFork hty h⟩
  unfold transferKfunc at h
  split at h
  · rw [List.mem_singleton.1 h]
    exact Or.inr ⟨s, rfl, rfl, rfl, frames_wqSetCallbackSkip ..,
      ((tame_applyCallProtoR0 (hnew s)).trans (closed_clobberCallerSaved callClosed_tame _)).trans
        (.of_same rfl rfl)⟩
  · split at h
    · next hret => exact hiter (hmem _ _) (by rw [hret]) h
    · next hret =>
      refine hiter ?_ (by rw [hret]) h
      rw [m.plain _ rfl]
      exact List.nil_subset _
    · split at h
      · next hflag => exact tame_resSpinLock hflag hnew h
      · rw [List.mem_singleton.1 h]
        exact Or.inr ⟨s, rfl, rfl, rfl, frames_normalKfunc .., tame_normalKfunc (hnew s) _⟩

end Kfuncs

end ZoneVerifier.MarkCalls
