import ZoneVerifier.MarkCalls

/-!
# Marks over moves

Stores, atomic operations, calls of subprograms and callbacks carry a marked
pointer from one place to another. No mark appears that was not there.
-/

set_option autoImplicit false

namespace ZoneVerifier.MarkMoves
open RegTypes Stack Machine StackOps MemTransfer CallTypes CallReturn Callback AnnotationFlow
open TypeInvariant CallAnnotations Marks MarkEffects MarkCalls
open Ast hiding Instr

section Stores
variable {τ : Type} {m : Marking τ} {Q : τ → Prop} {s : State}

theorem stackAll_setSlotType {P : RegType → Prop} {stack : StackState} (h : StackAll P stack)
    (o : Int) {ty : RegType} (hty : P ty) (src : Option Reg) :
    StackAll P (stack.setSlotType o ty src) := by
  intro q sp hq
  unfold StackState.setSlotType at hq
  split at hq
  · rw [FiniteMap.FinMap.find_modify] at hq
    split_ifs at hq
    · obtain ⟨sp₀, _, rfl⟩ := Option.map_eq_some_iff.1 hq
      exact hty
    · exact h q sp hq
  · rw [FiniteMap.FinMap.find_insert] at hq
    split_ifs at hq
    · cases hq
      exact hty
    · exact h q sp hq

theorem stackAll_updateStoreTypes {P : RegType → Prop} {stack : StackState} (hp : P .scalarValue)
    (h : StackAll P stack) {ty : RegType} (hty : P ty) (size : MemSize) (slot : Option Int) :
    StackAll P (updateStoreTypes stack ty size slot) := by
  cases slot with
  | none => exact h
  | some slot =>
    unfold updateStoreTypes
    generalize List.range size.bytes = l
    induction l generalizing stack with
    | nil => exact h
    | cons i l ih =>
      refine ih (stackAll_setSlotType h _ ?_ none)
      split_ifs
      · exact hty
      · exact hp

theorem stackTame_scrubRemainder (stack : StackState) (o : Int) (size : MemSize) :
    StackTame m stack (scrubRemainder stack o size) := by
  refine stackTame_foldl (fun stack b => ?_) _ stack
  unfold scrubRest
  split
  · split_ifs
    · exact .refl stack
    · exact stackTame_insert rfl rfl
  · exact .refl stack

theorem plain_immEntry (aligned : Bool) (masked : Int) (size : MemSize) :
    isAllocMem (immEntry aligned masked size).regType = false := by
  unfold immEntry
  split_ifs <;> rfl

theorem tame_storeImm {new : List τ} (s : State) (level : Nat) (k o : Int) (size : MemSize) :
    Tame m new s (storeImmToStackAt s level k o size) := by
  unfold storeImmToStackAt
  refine Tame.modifyStackAt (fun stack => ?_) s level
  have hscrub : StackTame m stack
      (if decide (o % 8 = 0) = true then stack
        else stack.scrubSpilledSlotsForWrite o size.bytes) := by
    split_ifs
    · exact .refl stack
    · exact stackTame_scrub stack o size.bytes
  generalize (if decide (o % 8 = 0) = true then stack
    else stack.scrubSpilledSlotsForWrite o size.bytes) = scrubbed at hscrub ⊢
  have hbytes : ∀ stack, StackTame m stack (spillBytes stack o size
      (immEntry (decide (o % 8 = 0)) (maskImm k size) size)
      (storeKind (decide (o % 8 = 0)) (maskImm k size))) := by
    intro stack
    refine stackTame_foldl (fun _ i => stackTame_insert rfl ?_) _ stack
    split_ifs
    · exact plain_immEntry ..
    · rfl
  split_ifs
  · exact (hscrub.trans (hbytes _)).trans (stackTame_scrubRemainder _ o size)
  · exact hscrub.trans (hbytes _)

theorem tagged_storeSource (h : Tagged m Q s) (level : Nat) (src : Operand) (o : Int)
    (size : MemSize) (fresh : Nat) : Tagged m Q (storeSource s level src o size fresh) := by
  cases src with
  | reg r => exact StateAll.spillAt (plain_carries m Q) h
  | imm k => exact (tame_storeImm s level k o size).tagged h (List.forall_mem_nil _)

theorem tagged_storeBehind (h : Tagged m Q s) (level : Nat) (src : Operand) (o off : Int)
    (size : MemSize) (fresh : Nat) {ty : RegType} (hty : Carries m Q ty) :
    Tagged m Q (modifyStackAt (updateFrameDepth (storeSource s level src o size fresh) off) level
      fun stack => updateStoreTypes stack ty size (some o)) := by
  have hsource := tagged_storeSource h level src o size fresh
  have hdepth : Tagged m Q (updateFrameDepth (storeSource s level src o size fresh) off) := by
    unfold updateFrameDepth
    split_ifs
    · exact StateAll.of_same hsource rfl rfl
    · exact hsource
  exact StateAll.modifyStackAt hdepth fun stack hstack =>
    stackAll_updateStoreTypes (plain_carries m Q).scalar hstack hty size _

theorem tame_storeVariable {new : List τ} (s : State) (level : Nat) (size : MemSize) (base : Reg)
    (off : Int) : Tame m new s (storeVariable s level size base off) := by
  unfold storeVariable
  have hdepth : ∀ t : State, Tame m new t (updateFrameDepth t off) := by
    intro t
    exact .ite (.of_same rfl rfl) (.refl t)
  refine Tame.trans ?_ (hdepth _)
  exact .ite (Tame.modifyStackAt (stackTame_foldl (fun stack _ => stackTame_invalidateSlot stack _) _) s level)
    (.refl s)

theorem tagged_atomicReload (h : Tagged m Q s) (size : MemSize) (off : Int) (target : Option Reg) :
    Tagged m Q ((atomicReload s size off target).getD s) := by
  cases hr : atomicReload s size off target with
  | none => exact h
  | some r =>
    cases target with
    | none => cases hr
    | some dst => exact StateAll.fillAt (plain_carries m Q) h hr

theorem tagged_transferAtomic (h : Tagged m Q s) (op : AtomicOp) (fetch : Bool) (size : MemSize)
    (base : Reg) (off : Int) (src : Reg) :
    Tagged m Q (transferAtomic s op fetch size base off src) := by
  have hreload := tagged_atomicReload h size off (atomicTarget op fetch src)
  unfold transferAtomic
  dsimp only
  generalize (atomicReload s size off (atomicTarget op fetch src)).getD s = r at hreload ⊢
  generalize (atomicReload s size off (atomicTarget op fetch src)).isSome = reloaded
  have hwrite : Tame m [] r (r.modifyStack fun stack =>
      atomicWrite stack base size off (atomicSlot r (s.types.get base) base off)) := by
    refine Tame.modifyStack (fun stack => ?_) r
    unfold atomicWrite
    split_ifs
    · exact (stackTame_updateStoreTypes stack size _).trans (stackTame_invalidateSlot _ off)
    · exact stackTame_updateStoreTypes stack size _
  generalize (r.modifyStack fun stack =>
    atomicWrite stack base size off (atomicSlot r (s.types.get base) base off)) = w at hwrite ⊢
  have hforget : Tame m [] w (if reloaded then w else forgetTarget w (atomicTarget op fetch src)) := by
    refine .ite (.refl w) ?_
    cases atomicTarget op fetch src with
    | none => exact .refl w
    | some dst => cases dst <;> exact .of_same rfl rfl
  generalize (if reloaded then w else forgetTarget w (atomicTarget op fetch src)) = v at hforget ⊢
  have hdepth : Tame m [] v (if base = .r10 then updateFrameDepth v off else v) := by
    exact .ite (.ite (.of_same rfl rfl) (.refl v)) (.refl v)
  exact StateAll.of_same (((hwrite.trans hforget).trans hdepth).tagged hreload
    (List.forall_mem_nil _)) rfl rfl

end Stores

section Callbacks
variable {τ : Type} {m : Marking τ} {Q : τ → Prop} {s s' : State}

theorem tame_declareArg {new : List τ} (t : State) (r : Reg) {ty : RegType} (h : isAllocMem ty = false) :
    Tame m new t (declareArg t r ty) :=
  (Tame.setPlain t r h).trans (closed_resetReg _ callClosed_tame r)

theorem tame_declareElem {new : List τ} (t : State) (r : Reg) (mapIdx : Option Nat) (id : Nat)
    (rdonly : Bool) : Tame m new t (declareElem t r mapIdx id rdonly) := by
  cases mapIdx with
  | none => exact tame_declareArg t r rfl
  | some idx =>
    have harg : Tame m new t (declareArg t r (.ptrToMapValue id (some 0) idx none rdonly)) :=
      tame_declareArg t r rfl
    exact harg.trans (.of_same rfl rfl)

theorem tame_declareArgs {new : List τ} (s₀ t : State) (helper : Nat) (ids : Nat → Nat) :
    Tame m new t (declareArgs s₀ t helper ids) := by
  refine .ite ?_ (.ite ?_ (.ite ?_ (.ite ?_ (.ite ?_ (.refl t)))))
  · have harg : Tame m new t (declareArg t .r1 .scalarValue) := tame_declareArg t .r1 rfl
    exact harg.trans (.of_same rfl rfl)
  · exact (tame_declareElem ..).trans (tame_declareElem ..)
  · exact tame_declareArg t .r1 rfl
  · exact tame_declareArg t .r2 rfl
  · refine Tame.trans (tame_declareArg t .r1 ?_) ((tame_declareArg _ .r2 rfl).trans
      (tame_declareElem ..))
    split <;> rfl

theorem tagged_enterCallback (h : Tagged m Q s) (helper entry : Nat) (offsets : List Int)
    (ids : Nat → Nat) : Tagged m Q (enterCallback s helper entry offsets ids) := by
  have hp := plain_carries m Q
  have hframe := frameAll_newFrame h (s.pc + 1) (some helper)
  have hpush : Tagged m Q (markCalleeEntryRegs (enterFrame s (callbackFrame s helper offsets))) :=
    StateAll.foldl (fun s r h => StateAll.markNotInit hp h r) _
      (StateAll.enterFrame h ⟨hframe.stack, hframe.saved⟩)
  have htypes : ∀ t, Tagged m Q t → Tagged m Q (updateCallRelTypes t) := by
    intro t ht
    have hregs : RegsAll (Carries m Q) (t.types.set .r0 .notInit) := ht.regs.set .r0 hp.notInit
    exact ⟨hregs.set .r10 (hp.stack t.frames.currentLevel), ht.frames⟩
  have hcopy : ∀ (t : State) (c : Reg × Reg), Tagged m Q t → Tagged m Q
      (((setType t c.1 (s.types.get c.2)).setTnum c.1 (s.getTnum c.2)).clearScalarId c.1) := by
    intro t c ht
    have hset : Tagged m Q (setType t c.1 (s.types.get c.2)) :=
      StateAll.setType ht (h.regs.get hp c.2)
    refine StateAll.of_same hset ?_ ?_ <;> cases c.1 <;> rfl
  have hscratch : ∀ (t : State) (r : Reg), Tagged m Q t → Tagged m Q
      (if (ctxPropagations helper).any (fun c => decide (c.1 = r)) then t
        else declareArg t r .notInit) := by
    intro t r ht
    split_ifs
    · exact ht
    · exact (tame_declareArg t r (rfl : isAllocMem .notInit = false)).tagged ht (List.forall_mem_nil _)
  unfold enterCallback
  refine StateAll.of_same (Tame.tagged (tame_declareArgs s _ helper ids) ?_
    (List.forall_mem_nil _)) rfl rfl
  refine StateAll.foldl hcopy _ (StateAll.foldl hscratch _ ?_)
  refine StateAll.foldl (fun t c ht => ?_) _ ?_
  · exact StateAll.of_same ht rfl rfl
  · exact StateAll.of_same (htypes _ hpush) rfl rfl

theorem tame_widenCaller {new : List τ} (frame : CallFrame) (t : State) :
    Tame m new t (widenCaller frame t) := by
  unfold widenCaller
  split
  · refine .ite (Tame.modifyStackAt (fun stack => ?_) t _) (.refl t)
    exact (stackTame_forgetChanged stack _).trans
      (stackTame_foldl stackTame_invalidateSlot _ _)
  · exact .refl t

theorem tagged_callbackExit {env : CallEnv} {prev : Option State} {precisePcs : Nat → Reg → Bool}
    {force : Bool} {id : Nat} (h : Tagged m Q s)
    (hexit : transferCallbackExit env s prev precisePcs force id = some s') : Tagged m Q s' := by
  unfold transferCallbackExit at hexit
  cases hcallers : s.frames.callers with
  | nil =>
    rw [hcallers] at hexit
    cases hexit
  | cons caller callers =>
    rw [hcallers] at hexit
    split_ifs at hexit
    rw [← Option.some_inj.1 hexit]
    have hcur := h.frames s.frames.current List.mem_cons_self
    have hpop : Tagged m Q { s with
        types := s.frames.current.callerTypes, domain := s.frames.current.callerDomain
        tnums := s.frames.current.callerTnums, frames := { current := caller, callers } } := by
      refine ⟨hcur.saved, fun f hmem => h.frames f ?_⟩
      unfold FrameStack.toList
      rw [hcallers]
      exact List.mem_cons_of_mem _ hmem
    have hrestore : Tagged m Q (restoreRegs env s s.frames.current caller callers id) := by
      refine Tame.tagged ?_ hpop (List.forall_mem_nil _)
      unfold restoreRegs
      refine Tame.trans ?_ (Tame.foldl (fun t r => tame_declareArg t r rfl) scratchRegs _)
      exact (Tame.setPlain _ .r0 (rfl : isAllocMem .scalarValue = false)).trans <|
        (closed_applyReturnBounds _ callClosed_tame ..).trans (.of_same rfl rfl)
    unfold cbExitPropagate
    generalize restoreRegs env s s.frames.current caller callers id = t at hrestore ⊢
    have hwiden : Tagged m Q { widenCaller s.frames.current t with pc := s.frames.current.returnPc } :=
      StateAll.of_same ((tame_widenCaller s.frames.current t).tagged hrestore
        (List.forall_mem_nil _)) rfl rfl
    cases prev with
    | none => exact hwiden
    | some p =>
      split_ifs
      · exact (tame_widenImpreciseScalars ..).tagged hwiden (List.forall_mem_nil _)
      · exact hwiden

end Callbacks

end ZoneVerifier.MarkMoves
