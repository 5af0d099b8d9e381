import ZoneVerifier.StackInstr

/-!
# Calls as a whole

Behind the declared effects of its prototype, a helper only takes annotations
away, from the buffers it writes; a kfunc does not even do that. The return from
a callback takes them from the slots of the caller that changed.
-/

set_option autoImplicit false

namespace ZoneVerifier.CallObjects
open Ast RegTypes Stack Machine StackOps Signatures CallTypes CallTransfer Widen KfuncTransfer
open BranchTransfer Callback Annotations AnnotationFlow CallAnnotations EffectAnnotations Marks

section Effects
variable (env : CallEnv) (inTypes : TypeState) (ids : Nat → Nat)

def effectsOf (proto : CallProto) (s : State) : State :=
  runEffects env inTypes proto.flags ids s
    (proto.sideEffects.zip (List.range proto.sideEffects.length))

def helperEffects (s : State) (helper : Nat) : State :=
  match getHelperProto env helper with
  | some proto => effectsOf env inTypes ids proto (setType s .r0 .scalarValue)
  | none => setType s .r0 .scalarValue

theorem currentLevel_runEffects (flags : CallFlags) (effects : List (SideEffect × Nat)) (s : State) :
    (runEffects env inTypes flags ids s effects).frames.currentLevel = s.frames.currentLevel := by
  induction effects generalizing s with
  | nil => rfl
  | cons e effects ih =>
    have hstep := effectClosed_level.applySideEffect env inTypes flags s (ids e.2) e.1 fun _ => trivial
    exact (ih _).trans hstep

theorem currentLevel_helperEffects (s : State) (helper : Nat) :
    (helperEffects env inTypes ids s helper).frames.currentLevel = s.frames.currentLevel := by
  unfold helperEffects
  split
  · exact currentLevel_runEffects ..
  · rfl

theorem sameAnnots_callResult (s : State) (helper : Nat) :
    SameAnnots (helperEffects env inTypes ids s helper) (callResult env inTypes s helper ids).1 := by
  unfold helperEffects callResult
  cases getHelperProto env helper with
  | none => exact .refl _
  | some proto => exact .of_frames (frames_applyRet ..)

end Effects

variable {l id iterArg : Nat} {allowed : RegType → Prop} {R : State → State → Prop}

section Helpers
variable (env : CallEnv) (inTypes : TypeState) (s : State) (ids : Nat → Nat)
variable (helper : Nat) (t : State)

def beforeBuffers (helper : Nat) : State :=
  identifyResult (applyReturnBounds env (updateCallTypes env inTypes s helper ids) helper (ids 0))
    (ids 0)

theorem closed_beforeBuffers (hR : CallClosed allowed R) :
    R (updateCallTypes env inTypes s helper ids) (beforeBuffers env inTypes s ids helper) :=
  hR.trans (closed_applyReturnBounds _ hR env helper (ids 0)) (closed_identifyResult _ hR (ids 0))

def HelperHits (helper l : Nat) (q : Int) : Prop :=
  (helper = Helper.skbLoadBytes ∧ SkbHits inTypes s l q) ∨
    ∃ proto, getHelperProto env helper = some proto ∧
      BuffersHit inTypes proto.args l q (beforeBuffers env inTypes s ids helper) proto.memSizePairs

theorem currentLevel_updateCallTypes :
    (updateCallTypes env inTypes s helper ids).frames.currentLevel = s.frames.currentLevel := by
  by_cases h : helper = Helper.skbLoadBytes
  · subst h
    show (skbLoadBytesClobber inTypes (setType s .r0 .scalarValue)).frames.currentLevel = _
    rw [skbLoadBytesClobber_eq]
    split
    · exact currentLevel_modifyStackAt ..
    · rfl
  · rw [(sameAnnots_updateCallTypes env inTypes s ids h).level,
      (sameAnnots_callResult env inTypes ids s helper).level]
    exact currentLevel_helperEffects ..

theorem closed_skipped (hR : CallClosed allowed R) (pc : Nat) :
    R (updateCallTypes env inTypes s helper ids)
      { resetScratch (beforeBuffers env inTypes s ids helper) with pc } :=
  hR.trans (closed_beforeBuffers env inTypes s ids helper hR)
    (hR.trans (closed_resetScratch _ hR) (hR.same rfl rfl))

theorem drops_buffers (hl : l ≤ t.frames.currentLevel) (q : Int) :
    Drops (∃ proto, getHelperProto env helper = some proto ∧
        BuffersHit inTypes proto.args l q t proto.memSizePairs)
      (annotsAt t l q) (annotsAt (initializeUninitMemArgs env inTypes t helper) l q) := by
  unfold initializeUninitMemArgs
  cases getHelperProto env helper with
  | none =>
    refine ⟨?_, fun _ => rfl⟩
    rintro ⟨_, h, _⟩
    cases h
  | some proto =>
    have hpairs := drops_initializePairs inTypes proto.args proto.memSizePairs t hl q
    refine ⟨?_, fun hno => hpairs.kept fun hit => hno ⟨proto, rfl, hit⟩⟩
    rintro ⟨_, hproto, hit⟩
    cases hproto
    exact hpairs.gone hit

theorem currentLevel_buffers :
    (initializeUninitMemArgs env inTypes t helper).frames.currentLevel = t.frames.currentLevel := by
  unfold initializeUninitMemArgs
  split
  · next proto _ =>
    generalize proto.memSizePairs = pairs
    induction pairs generalizing t with
    | nil => rfl
    | cons pair pairs ih => exact (ih _).trans (currentLevel_initializePair ..)
  · rfl

theorem currentLevel_beforeBuffers :
    (beforeBuffers env inTypes s ids helper).frames.currentLevel = s.frames.currentLevel := by
  rw [(closed_beforeBuffers env inTypes s ids helper sweepClosed_sameAnnots.1).level,
    currentLevel_updateCallTypes]

theorem frames_normalCall : (normalCall env inTypes s helper ids).frames =
    (initializeUninitMemArgs env inTypes (beforeBuffers env inTypes s ids helper) helper).frames :=
  closed_finish _ callClosed_frames inTypes (helperInvalidatesPackets helper)

theorem drops_normalCall (hl : l ≤ s.frames.currentLevel) (q : Int) :
    Drops (HelperHits env inTypes s ids helper l q)
      (annotsAt (helperEffects env inTypes ids s helper) l q)
      (annotsAt (normalCall env inTypes s helper ids) l q) := by
  have hlevel : l ≤ (beforeBuffers env inTypes s ids helper).frames.currentLevel := by
    rw [currentLevel_beforeBuffers]
    exact hl
  have hbuf := drops_buffers env inTypes helper (beforeBuffers env inTypes s ids helper) hlevel q
  have hupd := drops_updateCallTypes env inTypes s ids helper hl q
  rw [(closed_beforeBuffers env inTypes s ids helper sweepClosed_sameAnnots.1).slots] at hbuf
  rw [(sameAnnots_callResult env inTypes ids s helper).slots] at hupd
  rw [annotsAt_of_frames (frames_normalCall ..)]
  exact hupd.trans hbuf

theorem sameAnnots_updated {helper : Nat} (h : helper ≠ Helper.skbLoadBytes) :
    SameAnnots (helperEffects env inTypes ids s helper)
      (updateCallTypes env inTypes s helper ids) :=
  (sameAnnots_callResult ..).trans (sameAnnots_updateCallTypes env inTypes s ids h)

def tailCallFrame (env : CallEnv) (f : CallFrame) : CallFrame :=
  { f with
    stack := { f.stack with slots := f.stack.slots.mapValues fun sp =>
      { sp with regType := tailCallSweep env sp.regType } }
    callerTypes := [Reg.r6, .r7, .r8, .r9].foldl (fun t r =>
      t.set r (tailCallSweep env (t.get r))) f.callerTypes }

def forgetPacketReg (env : CallEnv) (s : State) (r : Reg) : State :=
  if r ≠ .r10 ∧ (s.types.get r).isPacketPtr = true then
    forgetReg (setType s r (tailCallSweep env (s.types.get r))) r
  else s

theorem plain_tailCallSweep {ty : RegType} (h : ty.isPacketPtr = true) :
    isAllocMem (tailCallSweep env ty) = false := by
  unfold tailCallSweep
  rw [if_pos h]
  split_ifs <;> rfl

/-- The part of a tail call up to the frames. -/
theorem closed_tailRegs (hR : CallClosed allowed R) : R t
    (Reg.all.foldl (forgetPacketReg env) (dropPtrConstOffs (callerSaved.foldl forgetReg t))) := by
  have hforget : R t (callerSaved.foldl forgetReg t) := by
    refine hR.foldl (fun s r => ?_) callerSaved t
    exact hR.same rfl rfl
  refine hR.trans (hR.trans hforget (closed_dropPtrConstOffs _ hR))
    (hR.foldl (fun s r => ?_) Reg.all _)
  unfold forgetPacketReg
  split_ifs with hr
  · exact hR.trans (hR.setPlain s r (plain_tailCallSweep env hr.2)) (hR.same rfl rfl)
  · exact hR.refl s

theorem sameAnnots_tailCall :
    SameAnnots (helperEffects env inTypes ids s Helper.tailCall) (tailCall env inTypes s ids) := by
  refine (sameAnnots_updated env inTypes s ids (by decide)).trans ?_
  exact (closed_tailRegs env _ sweepClosed_sameAnnots.1).trans
    (.of_map (g := tailCallFrame env) (fun _ _ => annots_of_find_map rfl fun _ => rfl) rfl)

theorem kptrXchg_cases {s s' : State} (h : kptrXchg env s id = some s') :
    ∃ t pointee flags, (t = s ∨ ∃ refId, t = convertRefToNonOwning (s.releaseRef refId) refId ∨
        t = (s.releaseRef refId).invalidateRef refId) ∧
      s' = nextPc (scratchRegs.foldl forgetReg ((forgetReg (setType (acquireRef t id) .r0
        (.ptrToMapKptrOrNull pointee (some id) flags 0)) .r0).clearScalarId .r0)) := by
  unfold kptrXchg at h
  split at h
  · cases h
  · next kind pointee _ =>
    obtain ⟨flags, _, rfl⟩ := Option.map_eq_some_iff.1 h
    refine ⟨_, pointee, flags, ?_, rfl⟩
    cases (s.types.get .r2).getRefId with
    | none => exact Or.inl rfl
    | some refId => exact Or.inr ⟨refId, (ite_eq_or_eq ..)⟩

theorem closed_kptrXchg (hR : SweepClosed allowed R) {s s' : State}
    (h : kptrXchg env s id = some s') : R s s' := by
  obtain ⟨t, pointee, flags, ht, rfl⟩ := kptrXchg_cases env h
  have hconsume : R s t := by
    rcases ht with rfl | ⟨refId, rfl | rfl⟩
    · exact hR.refl _
    · exact hR.trans (t := s.releaseRef refId) (hR.same rfl rfl) (hR.converted _ refId)
    · exact closed_released s hR refId
  exact hR.trans hconsume (hR.trans (hR.setAcquired t id .r0 rfl) (hR.same rfl rfl))

theorem iteratorAt_dropReinitialised (l : Nat) (q : Int) :
    iteratorAt (dropReinitialisedDynptrs s helper) l q = iteratorAt s l q := by
  unfold dropReinitialisedDynptrs
  split
  · refine (iteratorAt_of_sameAnnots (sameAnnots_invalidateDynptrSlices _ _) l q).trans ?_
    unfold iteratorAt
    rw [annotsAt_modifyStackAt]
    split_ifs
    · rw [annots_clearTouchedDynptrs]
      unfold clearTouched
      split_ifs <;> rfl
    · rfl
  · rfl

theorem sameStackArgs_dropReinitialised : SameStackArgs s (dropReinitialisedDynptrs s helper) := by
  unfold dropReinitialisedDynptrs
  split
  · refine SameStackArgs.trans ?_ (sameStackArgs_invalidateDynptrSlices _ _)
    exact .of_types rfl rfl
  · exact .refl s

theorem sameAnnots_callbackSkip {helper : Nat} (h : isCallbackHelper helper = true)
    (couldReinit : Bool) :
    SameAnnots (helperEffects env inTypes ids
        (if couldReinit then dropReinitialisedDynptrs s helper else s) helper)
      (callbackSkip env inTypes s helper couldReinit ids) := by
  have hne : helper ≠ Helper.skbLoadBytes := by
    rintro rfl
    exact absurd h (by decide)
  exact (sameAnnots_updated env inTypes _ ids hne).trans
    (closed_skipped env inTypes _ ids helper sweepClosed_sameAnnots.1 _)

end Helpers

section Kfuncs
variable (env : CallEnv) (inTypes : TypeState) (s : State) (ids : Nat → Nat)
variable {s' : State} (proto : CallProto) (force : Bool)

section Closed
variable (hR : CallClosed allowed R) (t : State)
include hR

theorem closed_scratchUnlessFastcall (flags : CallFlags) : R t (scratchUnlessFastcall flags t) := by
  refine hR.ite (hR.refl t) (hR.foldl (fun t r => ?_) scratchRegs t)
  exact hR.trans (hR.trans (hR.setPlain t r rfl) (closed_resetReg _ hR r)) (hR.same rfl rfl)

theorem closed_resLockEnd (flags : CallFlags) :
    R t (nextPc (putPtrConstOff (scratchUnlessFastcall flags t) .r0 none)) :=
  hR.trans (closed_scratchUnlessFastcall hR t flags) (hR.same rfl rfl)

theorem closed_clobberCallerSaved : R t (clobberCallerSaved t) :=
  hR.foldl (fun t r => hR.trans (hR.setPlain t r rfl) (closed_resetReg _ hR r)) scratchRegs t

theorem closed_resLockFail (flags : CallFlags) : R t (resLockFail flags t) := by
  have hset : R t (resetReg (setType t .r0 .scalarValue) .r0) :=
    hR.trans (hR.setPlain t .r0 rfl) (closed_resetReg _ hR .r0)
  refine hR.trans hset (hR.trans ?_ (closed_resLockEnd hR (modifyDomain _ _) flags))
  exact hR.same rfl rfl

theorem closed_widenReg (force : Bool) (r : Reg) : R t (widenReg force t r) :=
  hR.ite (hR.trans (closed_resetReg t hR r) (hR.same rfl rfl)) (closed_resetReg t hR r)

end Closed

theorem frames_applyRetFixup (t : State) (id : Nat) (fixup : RetFixup) :
    (applyRetFixup t id fixup).frames = t.frames := by
  cases fixup with
  | castToKernCtx typeName => cases typeName <;> rfl
  | _ => rfl

theorem frames_applyCallProtoR0 :
    (applyCallProtoR0 env inTypes s proto ids).1.frames =
      (effectsOf env inTypes ids proto s).frames := frames_applyRet ..

theorem frames_normalKfunc (fixup : RetFixup) :
    (normalKfunc env inTypes s proto fixup ids).frames =
      (effectsOf env inTypes ids proto s).frames := by
  have hfix := frames_applyRetFixup (applyCallProtoR0 env inTypes s proto ids).1
    (ids (proto.sideEffects.length + 1)) fixup
  have hscratch := closed_scratchUnlessFastcall callClosed_frames
    (applyRetFixup (applyCallProtoR0 env inTypes s proto ids).1
      (ids (proto.sideEffects.length + 1)) fixup) proto.flags
  exact hscratch.trans (hfix.trans (frames_applyCallProtoR0 ..))

theorem frames_wqSetCallbackSkip :
    (wqSetCallbackSkip env inTypes s proto ids).frames =
      (effectsOf env inTypes ids proto s).frames := frames_applyCallProtoR0 ..

def withResLock (proto : CallProto) (lock : Nat × Nat) : State :=
  { s with acquiredResLocks :=
      { regId := lock.1, ptrId := lock.2, isIrq := proto.sideEffects.any isLockIrqSave } ::
        s.acquiredResLocks }

theorem frames_resLockSuccess (lock : Nat × Nat) :
    (resLockSuccess env inTypes s proto lock ids).frames =
      (effectsOf env inTypes ids proto (withResLock s proto lock)).frames := by
  have hproto := frames_applyCallProtoR0 env inTypes (withResLock s proto lock) ids proto
  exact (closed_scratchUnlessFastcall callClosed_frames _ proto.flags).trans hproto

theorem sameCore_advance (level : Nat) (off : Int) (f : IteratorSlot → IteratorSlot)
    (hf : ∀ it, iteratorCore (f it) = iteratorCore it) :
    SameCore s (match getIterator (stackAt s level) off with
      | some it => modifyStackAt s level fun stack => putIterator stack off (some (f it))
      | none => s) := by
  cases hit : getIterator (stackAt s level) off with
  | none => exact .refl s
  | some it =>
    refine ⟨currentLevel_modifyStackAt .., fun l q => ?_⟩
    unfold coreAt
    rw [annotsAt_modifyStackAt]
    split_ifs with hl
    · rw [annots_putIterator]
      split_ifs with hq
      · have hold : (annotsAt s l q).iterator = some it := by
          rw [hl.1, hq.1]
          exact (iterator_annots ..).trans hit
        show core { annotsAt s l q with iterator := some (f it) } = core (annotsAt s l q)
        unfold core
        rw [hold]
        simp only [Option.map_some, hf]
      · rfl
    · rfl

theorem sameCore_iterNull (level : Nat) (off : Int) : SameCore s (iterNull s level off) :=
  (sameCore_advance s level off (fun it => { it with state := .drained }) fun _ => rfl).trans
    (.of_same (.of_frames rfl))

theorem sameCore_iterElement (level : Nat) (off : Int) (ty : RegType) :
    SameCore s (iterElement s level off ty) :=
  (sameCore_advance s level off (fun it => { it with depth := it.depth + 1 }) fun _ => rfl).trans
    (.of_same (.of_frames rfl))

theorem ofEntry_widenEntry (prev sp : SpilledReg) :
    Annots.ofEntry (widenEntry force prev sp) = Annots.ofEntry sp := by
  unfold widenEntry
  split_ifs <;> rfl

theorem annots_widenStack (prev stack : StackState) (q : Int) :
    annots (widenStack force prev stack) q = annots stack q := by
  unfold annots widenStack
  rw [FiniteMap.FinMap.find_mapEntries]
  cases stack.slots.find q with
  | none => rfl
  | some sp =>
    cases prev.slots.find q with
    | none => rfl
    | some p => exact ofEntry_widenEntry force p sp

theorem sameAnnots_widenImpreciseScalars (precisePcs : Nat → Reg → Bool) (force atIterNext : Bool)
    (prev cur : State) :
    SameAnnots cur (widenImpreciseScalars precisePcs force atIterNext prev cur) := by
  have hR := sweepClosed_sameAnnots.1
  refine hR.trans (hR.foldl (fun s r => closed_widenReg hR s force r) _ cur)
    (hR.foldl (fun s level => ?_) _ _)
  split
  · exact sameAnnots_modifyStackAt (annots_widenStack force _) s level
  · exact .refl s

theorem branchClosed_sameAnnots : BranchClosed SameAnnots where
  trans := .trans
  same _ hf := .of_frames hf
  sets _ _ _ _ := .of_frames rfl
  slots _ f hf := .of_map (g := mapStack f) (fun c q => annots_mapValues f (fun sp => (hf sp).1) c.stack q) rfl

theorem sameAnnots_transferMayGoto {s s' : State} {target : Nat} {prev : Option State}
    {precisePcs : Nat → Reg → Bool} {force : Bool}
    (h : s' ∈ transferMayGoto s target prev precisePcs force) : SameAnnots s s' :=
  closed_transferMayGoto branchClosed_sameAnnots
    (fun p t => sameAnnots_widenImpreciseScalars precisePcs force false p t) h

theorem iterNextFork_cases {s : State} {ty : RegType} {prev : Option State}
    {force : Bool} (h : s' ∈ iterNextFork s iterArg ty prev force) : ∃ level off,
      s' = iterNull s level off ∨ s' = iterElement s level off ty ∨
      ∃ p, s' = widenImpreciseScalars (fun _ _ => false) force true p
        (iterElement s level off ty) := by
  unfold iterNextFork at h
  split at h
  · cases h
  · next level off _ =>
    refine ⟨level, off, ?_⟩
    split at h
    · split_ifs at h
      · cases h
      · exact Or.inl (List.mem_singleton.1 h)
      · rcases List.mem_cons.1 h with rfl | h
        · cases prev with
          | none => exact Or.inr (Or.inl rfl)
          | some p => exact Or.inr (Or.inr ⟨p, rfl⟩)
        · exact Or.inl (List.mem_singleton.1 h)
    · rcases List.mem_cons.1 h with rfl | h
      · exact Or.inr (Or.inl rfl)
      · exact Or.inl (List.mem_singleton.1 h)

theorem sameCore_iterNextFork {s : State} {ty : RegType} {prev : Option State}
    {force : Bool} (h : s' ∈ iterNextFork s iterArg ty prev force) : SameCore s s' := by
  obtain ⟨level, off, rfl | rfl | ⟨p, rfl⟩⟩ := iterNextFork_cases h
  · exact sameCore_iterNull ..
  · exact sameCore_iterElement ..
  · exact (sameCore_iterElement s level off ty).trans
      (.of_same (sameAnnots_widenImpreciseScalars ..))

/-- A successor keeps the objects, or has those that the effects leave. -/
def KeepsOrEffects (proto : CallProto) (s s' : State) : Prop :=
  SameCore s s' ∨ ∃ t : State, t.frames = s.frames ∧ t.domain = s.domain ∧ t.types = s.types ∧
    s'.frames = (effectsOf env inTypes ids proto t).frames

theorem resSpinLock_cases {s : State} {proto : CallProto}
    (h : s' ∈ resSpinLock env inTypes s proto ids) :
    (∃ lock, s' = resLockSuccess env inTypes s proto lock ids) ∨ s' = resLockFail proto.flags s := by
  unfold resSpinLock at h
  split at h
  · cases h
  · next lock _ =>
    split at h
    · cases h
    · rcases List.mem_cons.1 h with rfl | h
      · exact Or.inl ⟨lock, rfl⟩
      · exact Or.inr (List.mem_singleton.1 h)

theorem resSpinLock_frames {s : State} {proto : CallProto}
    (h : s' ∈ resSpinLock env inTypes s proto ids) :
    KeepsOrEffects env inTypes ids proto s s' := by
  rcases resSpinLock_cases env inTypes ids h with ⟨lock, rfl⟩ | rfl
  · exact Or.inr ⟨withResLock s proto lock, rfl, rfl, rfl, frames_resLockSuccess ..⟩
  · exact Or.inl (.of_same (closed_resLockFail sweepClosed_sameAnnots.1 ..))

theorem transferKfunc_frames {s : State} {call : KfuncCall}
    (h : s' ∈ transferKfunc env inTypes s call ids) :
    KeepsOrEffects env inTypes ids call.proto s s' := by
  unfold transferKfunc at h
  split at h
  · rw [List.mem_singleton.1 h]
    exact Or.inr ⟨s, rfl, rfl, rfl, frames_wqSetCallbackSkip ..⟩
  · split at h
    · exact Or.inl (sameCore_iterNextFork h)
    · exact Or.inl (sameCore_iterNextFork h)
    · split at h
      · exact resSpinLock_frames env inTypes ids h
      · rw [List.mem_singleton.1 h]
        exact Or.inr ⟨s, rfl, rfl, rfl, frames_normalKfunc ..⟩

end Kfuncs

section Return
variable {env : CallEnv} {s s' : State} {prev : Option State} {precisePcs : Nat → Reg → Bool}
  {force : Bool} {id : Nat}

theorem annots_forgetChanged (snapshot stack : StackState) (q : Int) :
    annots (forgetChanged snapshot stack) q =
      if stack.slots.find q = snapshot.slots.find q then annots stack q else Annots.empty := by
  have hfind : (forgetChanged snapshot stack).slots.find q =
      if stack.slots.find q = snapshot.slots.find q then stack.slots.find q
      else some SpilledReg.misc := rfl
  split_ifs at hfind with h
  · rw [if_pos h, annots_of_find_eq hfind]
  · rw [if_neg h, annots_of_find_some _ hfind]
    rfl

def CallbackForgets (frame : CallFrame) (s : State) (l : Nat) (q : Int) : Prop :=
  frame.cbShouldWiden = true ∧ frame.callerFrameLevel = some l ∧
    ∃ snapshot, frame.callerStackSnapshot = some snapshot ∧
      ((stackAt s l).slots.find q ≠ snapshot.slots.find q ∨ q ∈ frame.cbWriteableCallerOffsets)

theorem drops_widenCaller (frame : CallFrame) (t : State)
    (hl : l ≤ t.frames.currentLevel) (q : Int) :
    Drops (CallbackForgets frame t l q) (annotsAt t l q) (annotsAt (widenCaller frame t) l q) := by
  unfold widenCaller CallbackForgets
  cases frame.callerStackSnapshot with
  | none => exact .of_not (fun ⟨_, _, _, h, _⟩ => nomatch h) rfl
  | some snapshot =>
    cases frame.callerFrameLevel with
    | none => exact .of_not (fun ⟨_, h, _⟩ => nomatch h) rfl
    | some level =>
      split_ifs with hw
      · rw [annotsAt_modifyStackAt, annots_invalidateSlots, annots_forgetChanged]
        refine ⟨fun ⟨_, hlevel, snap, hsnap, hq⟩ => ?_, fun hno => ?_⟩
        · cases hlevel
          cases hsnap
          rw [if_pos ⟨rfl, hl⟩]
          split_ifs with hmem hfind
          · rfl
          · exact absurd hq (by rw [not_or]; exact ⟨not_not.2 hfind, hmem⟩)
          · rfl
        · split_ifs with hlevel hmem hfind
          · exact absurd ⟨hw, congrArg some hlevel.1.symm, snapshot, rfl, Or.inr hmem⟩ hno
          · rfl
          · exact absurd ⟨hw, congrArg some hlevel.1.symm, snapshot, rfl, Or.inl hfind⟩ hno
          · rfl
      · exact .of_not (fun h => hw h.1) rfl

theorem frames_restoreRegs (frame caller : CallFrame) (callers : List CallFrame) :
    (restoreRegs env s frame caller callers id).frames = { current := caller, callers } := by
  unfold restoreRegs
  rw [frames_foldl fun t r => frames_declareArg t r .scalarValue]
  exact (closed_applyReturnBounds _ callClosed_frames ..).trans rfl

theorem transferCallbackExit_some (h : transferCallbackExit env s prev precisePcs force id = some s') :
    ∃ caller callers, s.frames.callers = caller :: callers ∧ SameAnnots
      (widenCaller s.frames.current (restoreRegs env s s.frames.current caller callers id)) s' := by
  unfold transferCallbackExit at h
  cases hcallers : s.frames.callers with
  | nil =>
    rw [hcallers] at h
    cases h
  | cons caller callers =>
    rw [hcallers] at h
    split_ifs at h
    rw [← Option.some_inj.1 h]
    refine ⟨caller, callers, rfl, ?_⟩
    unfold cbExitPropagate
    generalize widenCaller s.frames.current _ = t
    have hpc : SameAnnots t { t with pc := s.frames.current.returnPc } := .of_frames rfl
    cases prev with
    | none => exact hpc
    | some p => exact .ite (hpc.trans (sameAnnots_widenImpreciseScalars ..)) hpc

theorem currentLevel_widenCaller (frame : CallFrame) (t : State) :
    (widenCaller frame t).frames.currentLevel = t.frames.currentLevel := by
  unfold widenCaller
  split
  · split_ifs
    · exact currentLevel_modifyStackAt ..
    · rfl
  · rfl

theorem drops_callbackExit (h : transferCallbackExit env s prev precisePcs force id = some s')
    (hl : l ≤ s'.frames.currentLevel) (q : Int) :
    Drops (CallbackForgets s.frames.current s l q) (annotsAt s l q) (annotsAt s' l q) := by
  obtain ⟨caller, callers, hcallers, hsame⟩ := transferCallbackExit_some h
  have hframes : (restoreRegs env s s.frames.current caller callers id).frames = _ :=
    frames_restoreRegs ..
  have hcur := currentLevel_leaveFrame hcallers hframes
  rw [hsame.level, currentLevel_widenCaller] at hl
  have hlt : l < s.frames.currentLevel := by omega
  have hstack : stackAt (restoreRegs env s s.frames.current caller callers id) l = stackAt s l := by
    unfold stackAt
    rw [get_leaveFrame hcallers hframes hlt]
  have hdrops := drops_widenCaller s.frames.current _ hl q
  unfold CallbackForgets at hdrops
  rw [hstack, annotsAt_leaveFrame hcallers hframes, if_pos hlt] at hdrops
  rw [hsame.slots]
  exact hdrops

end Return

end ZoneVerifier.CallObjects
