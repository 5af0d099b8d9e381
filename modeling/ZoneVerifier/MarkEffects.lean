import ZoneVerifier.StackObjects
import ZoneVerifier.TypeInvariant

/-!
# Marks on pointers to allocated memory

A marking reads something off the pointers to allocated memory: the memory
itself, or the dynptr it is a slice of. Calls do not move types around: behind
each part of a call every place holds a type with the marks it had, or with
none, and only the result can carry new ones.
-/

set_option autoImplicit false

namespace ZoneVerifier.Marks
open RegTypes Stack Machine StackOps CallTypes Annotations AnnotationFlow TypeInvariant
open Ast hiding Instr

variable {ty : RegType}

section Markings

/-- What a type carries; a null check does not change it. -/
structure Marking (τ : Type) where
  of : RegType → List τ
  plain : ∀ ty, isAllocMem ty = false → of ty = []
  orNull : ∀ id memSize refId dynptrId rdonly,
    of (.ptrToAllocMemOrNull id memSize refId dynptrId rdonly) =
      of (.ptrToAllocMem id memSize refId dynptrId rdonly)

variable {τ : Type} {m : Marking τ}

def Carries (m : Marking τ) (Q : τ → Prop) (ty : RegType) : Prop := ∀ t ∈ m.of ty, Q t

def Tagged (m : Marking τ) (Q : τ → Prop) : State → Prop := StateAll (Carries m Q)

theorem carries_of_nil {Q : τ → Prop} (h : m.of ty = []) : Carries m Q ty := by
  intro t ht
  rw [h] at ht
  cases ht

theorem carries_plain {Q : τ → Prop} (h : isAllocMem ty = false) : Carries m Q ty :=
  carries_of_nil (m.plain ty h)

theorem plain_carries (m : Marking τ) (Q : τ → Prop) : Plain (Carries m Q) where
  scalar := carries_plain rfl
  notInit := carries_plain rfl
  stack := fun _ => carries_plain rfl

theorem Carries.mono {Q R : τ → Prop} (h : ∀ t, Q t → R t) (hty : Carries m Q ty) :
    Carries m R ty := fun t ht => h t (hty t ht)

end Markings

section Less
variable {τ : Type} {m : Marking τ} {ty ty' ty'' : RegType}

/-- A type keeps its marks or loses all of them. -/
def Less (m : Marking τ) (ty' ty : RegType) : Prop := m.of ty' = [] ∨ m.of ty' = m.of ty

theorem Less.plain (h : isAllocMem ty' = false) : Less m ty' ty := Or.inl (m.plain ty' h)

theorem Less.refl (ty : RegType) : Less m ty ty := Or.inr rfl

theorem Less.trans (h : Less m ty' ty) (h' : Less m ty'' ty') : Less m ty'' ty := by
  rcases h' with h' | h'
  · exact Or.inl h'
  · rw [Less, h']
    exact h

theorem Less.carries {Q : τ → Prop} (h : Less m ty' ty) (hty : Carries m Q ty) : Carries m Q ty' := by
  rcases h with h | h
  · exact carries_of_nil h
  · intro t ht
    exact hty t (h ▸ ht)

theorem less_demoteSlice (touched : Nat → Bool) (ty : RegType) : Less m (demoteSlice touched ty) ty := by
  unfold demoteSlice
  split_ifs
  · exact .plain rfl
  · exact .refl ty

end Less

section Tame
variable {τ : Type} {m : Marking τ} {s t s' : State} {new : List τ}

def StackTame (m : Marking τ) (stack stack' : StackState) : Prop :=
  ∀ q sp', stack'.slots.find q = some sp' →
    m.of sp'.regType = [] ∨ ∃ sp, stack.slots.find q = some sp ∧ m.of sp'.regType = m.of sp.regType

structure FrameTame (m : Marking τ) (f f' : CallFrame) : Prop where
  stack : StackTame m f.stack f'.stack
  saved : ∀ i, Less m (f'.callerTypes.regs i) (f.callerTypes.regs i)

/-- Types stay where they are; a register may carry the new marks. -/
structure Tame (m : Marking τ) (new : List τ) (s s' : State) : Prop where
  level : s'.frames.currentLevel = s.frames.currentLevel
  regs : ∀ i, Less m (s'.types.regs i) (s.types.regs i) ∨ m.of (s'.types.regs i) ⊆ new
  frames : ∀ l f', s'.frames.get l = some f' → ∃ f, s.frames.get l = some f ∧ FrameTame m f f'

theorem StackTame.refl (stack : StackState) : StackTame m stack stack :=
  fun _ sp h => Or.inr ⟨sp, h, rfl⟩

theorem StackTame.trans {a b c : StackState} (h : StackTame m a b) (h' : StackTame m b c) :
    StackTame m a c := by
  intro q sp'' hq
  rcases h' q sp'' hq with hnil | ⟨sp', hq', heq⟩
  · exact Or.inl hnil
  · rcases h q sp' hq' with hnil | ⟨sp, hq, heq'⟩
    · exact Or.inl (heq.trans hnil)
    · exact Or.inr ⟨sp, hq, heq.trans heq'⟩

theorem FrameTame.refl (f : CallFrame) : FrameTame m f f := ⟨.refl _, fun _ => .refl _⟩

theorem FrameTame.trans {a b c : CallFrame} (h : FrameTame m a b) (h' : FrameTame m b c) :
    FrameTame m a c :=
  ⟨h.stack.trans h'.stack, fun i => (h.saved i).trans (h'.saved i)⟩

namespace Tame

theorem of_types (ht : ∀ i, Less m (s'.types.regs i) (s.types.regs i) ∨ m.of (s'.types.regs i) ⊆ new)
    (hf : s'.frames = s.frames) : Tame m new s s' :=
  ⟨by rw [hf], ht, fun l f' h => ⟨f', hf ▸ h, .refl f'⟩⟩

theorem of_same (ht : s'.types = s.types) (hf : s'.frames = s.frames) : Tame m new s s' :=
  of_types (fun i => Or.inl (by rw [ht]; exact .refl _)) hf

theorem refl (s : State) : Tame m new s s := of_same rfl rfl

theorem trans (h : Tame m new s t) (h' : Tame m new t s') : Tame m new s s' := by
  refine ⟨h'.level.trans h.level, fun i => ?_, fun l f'' hl => ?_⟩
  · rcases h'.regs i with hless | hnew
    · rcases hless with hnil | heq
      · exact Or.inl (Or.inl hnil)
      · rcases h.regs i with hless | hnew
        · exact Or.inl (hless.trans (Or.inr heq))
        · exact Or.inr (heq ▸ hnew)
    · exact Or.inr hnew
  · obtain ⟨f', hl', htame'⟩ := h'.frames l f'' hl
    obtain ⟨f, hl, htame⟩ := h.frames l f' hl'
    exact ⟨f, hl, htame.trans htame'⟩

theorem ite {p : Prop} [Decidable p] {u : State} (ht : Tame m new s t) (hu : Tame m new s u) :
    Tame m new s (if p then t else u) := by
  split_ifs
  · exact ht
  · exact hu

theorem foldl {α : Type} {f : State → α → State} (hf : ∀ s a, Tame m new s (f s a)) (l : List α)
    (s : State) : Tame m new s (l.foldl f s) := by
  induction l generalizing s with
  | nil => exact refl s
  | cons a l ih => exact (hf s a).trans (ih (f s a))

theorem setType (s : State) (r : Reg) (h : m.of ty ⊆ new) :
    Tame m new s (setType s r ty) := by
  refine of_types (fun i => ?_) rfl
  show Less m ((s.types.set r ty).regs i) _ ∨ m.of ((s.types.set r ty).regs i) ⊆ new
  unfold TypeState.set
  cases r.toIndex with
  | none => exact Or.inl (.refl _)
  | some j =>
    dsimp only
    split_ifs
    · exact Or.inr h
    · exact Or.inl (.refl _)

theorem setPlain (s : State) (r : Reg) (h : isAllocMem ty = false) :
    Tame m new s (CallTypes.setType s r ty) := by
  refine setType s r ?_
  rw [m.plain ty h]
  exact List.nil_subset _

theorem mapRegs {f : RegType → RegType} (hf : ∀ ty, Less m (f ty) ty)
    (ht : s'.types = { regs := fun i => f (s.types.regs i) }) (hframes : s'.frames = s.frames) :
    Tame m new s s' := by
  refine of_types (fun i => Or.inl ?_) hframes
  rw [ht]
  exact hf _

theorem mapFrames {g : CallFrame → CallFrame} (hg : ∀ f, FrameTame m f (g f))
    (ht : s'.types = s.types) (hf : s'.frames = s.frames.map g) : Tame m new s s' := by
  refine ⟨?_, fun i => Or.inl (by rw [ht]; exact .refl _), fun l f' hl => ?_⟩
  · rw [hf]
    exact List.length_map ..
  · rw [hf, get_map] at hl
    obtain ⟨f, hget, rfl⟩ := Option.map_eq_some_iff.1 hl
    exact ⟨f, hget, hg f⟩

theorem modifyStackAt {g : StackState → StackState} (hg : ∀ stack, StackTame m stack (g stack))
    (s : State) (level : Nat) : Tame m new s (modifyStackAt s level g) := by
  refine ⟨currentLevel_modifyStackAt .., fun i => Or.inl (.refl _), fun l f' hl => ?_⟩
  by_cases hlevel : l = level
  · subst hlevel
    have hget : (StackOps.modifyStackAt s l g).frames.get l =
        (s.frames.get l).map fun c => { c with stack := g c.stack } := FrameStack.get_modifyAt ..
    rw [hget] at hl
    obtain ⟨f, hold, rfl⟩ := Option.map_eq_some_iff.1 hl
    exact ⟨f, hold, hg f.stack, fun i => .refl _⟩
  · have hget : (StackOps.modifyStackAt s level g).frames.get l = s.frames.get l :=
      get_modifyAt_of_ne s.frames _ hlevel
    exact ⟨f', hget ▸ hl, .refl f'⟩

theorem modifyStack {g : StackState → StackState} (hg : ∀ stack, StackTame m stack (g stack))
    (s : State) : Tame m new s (s.modifyStack g) := by
  rw [modifyStack_eq]
  exact modifyStackAt hg s _

end Tame

theorem exists_get {fs : FrameStack} {f : CallFrame} (h : f ∈ fs.toList) :
    ∃ l, fs.get l = some f := by
  rcases List.mem_cons.1 h with rfl | hmem
  · exact ⟨_, FrameStack.get_currentLevel fs⟩
  · obtain ⟨l, hl⟩ := List.mem_iff_getElem?.1 (List.mem_reverse.2 hmem)
    have hne : l ≠ fs.currentLevel := by
      obtain ⟨hlt, _⟩ := List.getElem?_eq_some_iff.1 hl
      rw [List.length_reverse] at hlt
      exact Nat.ne_of_lt hlt
    refine ⟨l, ?_⟩
    rw [FrameStack.get_eq, if_neg hne]
    exact hl

theorem StackTame.all {Q : τ → Prop} {stack stack' : StackState} (h : StackTame m stack stack')
    (hall : StackAll (Carries m Q) stack) : StackAll (Carries m Q) stack' := by
  intro q sp' hq
  rcases h q sp' hq with hnil | ⟨sp, hq, heq⟩
  · exact carries_of_nil hnil
  · intro t ht
    exact hall q sp hq t (heq ▸ ht)

theorem Tame.tagged {Q : τ → Prop} (h : Tame m new s s') (hs : Tagged m Q s) (hnew : ∀ t ∈ new, Q t) :
    Tagged m Q s' := by
  refine ⟨fun i => ?_, fun f' hf' => ?_⟩
  · rcases h.regs i with hless | hsub
    · exact hless.carries (hs.regs i)
    · exact fun t ht => hnew t (hsub ht)
  · obtain ⟨l, hl⟩ := exists_get hf'
    obtain ⟨f, hl, htame⟩ := h.frames l f' hl
    have hf := hs.frames f (mem_of_get hl)
    exact ⟨htame.stack.all hf.stack, fun i => (htame.saved i).carries (hf.saved i)⟩

end Tame

end ZoneVerifier.Marks

namespace ZoneVerifier.MarkEffects
open RegTypes Stack Machine StackOps MemTransfer Signatures CallTypes CallTransfer Widen LockFlags
open Callback AnnotationFlow CallAnnotations EffectAnnotations StackInstr CallObjects Marks
open Ast hiding Instr

variable {f : SpilledReg → SpilledReg}

section Stacks
variable {τ : Type} {m : Marking τ} (stack : StackState) {stack' : StackState} (o : Int) (n : Nat)

theorem stackTame_foldl {α : Type} {f : StackState → α → StackState}
    (hf : ∀ stack a, StackTame m stack (f stack a)) (l : List α) (stack : StackState) :
    StackTame m stack (l.foldl f stack) := by
  induction l generalizing stack with
  | nil => exact .refl stack
  | cons a l ih => exact (hf stack a).trans (ih (f stack a))

theorem stackTame_insert {stack : StackState} {o : Int} {sp : SpilledReg}
    (h : stack'.slots = stack.slots.insert o sp) (hsp : isAllocMem sp.regType = false) :
    StackTame m stack stack' := by
  intro q sp' hq
  rw [h, FiniteMap.FinMap.find_insert] at hq
  split_ifs at hq
  · cases hq
    exact Or.inl (m.plain _ hsp)
  · exact Or.inr ⟨sp', hq, rfl⟩

theorem stackTame_mapEntries {stack : StackState} {f : Int → SpilledReg → SpilledReg}
    (h : stack'.slots = stack.slots.mapEntries f) (hf : ∀ q sp, Less m (f q sp).regType sp.regType) :
    StackTame m stack stack' := by
  intro q sp' hq
  rw [h, FiniteMap.FinMap.find_mapEntries] at hq
  obtain ⟨sp, hsp, rfl⟩ := Option.map_eq_some_iff.1 hq
  exact (hf q sp).imp_right fun heq => ⟨sp, hsp, heq⟩

theorem stackTame_mapValues {stack : StackState}
    (h : stack'.slots = stack.slots.mapValues f) (hf : ∀ sp, Less m (f sp).regType sp.regType) :
    StackTame m stack stack' := by
  intro q sp' hq
  rw [h, FiniteMap.FinMap.find_mapValues] at hq
  obtain ⟨sp, hsp, rfl⟩ := Option.map_eq_some_iff.1 hq
  exact (hf sp).imp_right fun heq => ⟨sp, hsp, heq⟩

theorem stackTame_modify {stack : StackState} {o : Int}
    (h : stack'.slots = stack.slots.modify o f) (hf : ∀ sp, Less m (f sp).regType sp.regType) :
    StackTame m stack stack' := by
  intro q sp' hq
  rw [h, FiniteMap.FinMap.find_modify] at hq
  split_ifs at hq
  · obtain ⟨sp, hsp, rfl⟩ := Option.map_eq_some_iff.1 hq
    exact (hf sp).imp_right fun heq => ⟨sp, hsp, heq⟩
  · exact Or.inr ⟨sp', hq, rfl⟩

theorem stackTame_invalidateSlot : StackTame m stack (stack.invalidateSlot o) :=
  stackTame_insert rfl rfl

theorem stackTame_setSlotType {ty : RegType} (h : isAllocMem ty = false) (src : Option Reg) :
    StackTame m stack (stack.setSlotType o ty src) := by
  unfold StackState.setSlotType
  split
  · exact stackTame_modify rfl fun _ => .plain h
  · exact stackTame_insert rfl h

theorem stackTame_updateStoreTypes (size : MemSize) (slot : Option Int) :
    StackTame m stack (updateStoreTypes stack .scalarValue size slot) := by
  cases slot with
  | none => exact .refl stack
  | some slot =>
    refine stackTame_foldl (fun stack i => stackTame_setSlotType stack _ ?_ none) _ stack
    split_ifs <;> rfl

theorem stackTame_scrubSlot (base : Int) : StackTame m stack (stack.scrubSlot base) := by
  have hbyte : ∀ (stack : StackState) (o : Int), StackTame m stack (stack.scrubByte o) := by
    intro stack o
    unfold StackState.scrubByte
    split_ifs
    · exact stackTame_invalidateSlot stack o
    · exact .refl stack
  unfold StackState.scrubSlot
  split_ifs
  · exact stackTame_foldl (fun stack o => hbyte stack _) _ stack
  · exact .refl stack

theorem stackTame_scrub : StackTame m stack (stack.scrubSpilledSlotsForWrite o n) :=
  stackTame_foldl stackTame_scrubSlot _ stack

theorem stackTame_scrubIf {p : Prop} [Decidable p] :
    StackTame m stack (if p then stack.scrubSpilledSlotsForWrite o n else stack) := by
  split_ifs
  · exact stackTame_scrub stack o n
  · exact .refl stack

theorem stackTame_clobberBytes : StackTame m stack (clobberBytes stack o n) := by
  refine (stackTame_scrubIf stack o n).trans (stackTame_foldl (fun stack i => ?_) _ _)
  dsimp only
  split_ifs
  · exact (stackTame_updateStoreTypes stack .u8 _).trans (stackTame_invalidateSlot _ _)
  · exact .refl stack

theorem stackTame_skbClobber : StackTame m stack (skbClobber stack o n) := by
  unfold skbClobber
  split_ifs
  · refine (stackTame_scrub stack o n).trans ?_
    exact stackTame_foldl (fun stack _ => stackTame_invalidateSlot stack _) _ _
  · exact stackTame_foldl (fun stack _ => stackTame_invalidateSlot stack _) _ _
  · exact .refl stack

theorem stackTame_markScalar : StackTame m stack (markScalar stack o n) :=
  stackTame_foldl (fun stack _ => stackTame_updateStoreTypes stack .u8 _) _ stack

theorem stackTame_putDynptr (d : Option DynptrSlot) :
    StackTame m stack (putDynptr stack o d) := stackTame_modify rfl fun _ => .refl _

theorem stackTame_putIterator (it : Option IteratorSlot) :
    StackTame m stack (putIterator stack o it) := stackTame_modify rfl fun _ => .refl _

theorem stackTame_clearTouched (n : Int) : StackTame m stack (clearTouchedDynptrs stack o n) := by
  refine stackTame_mapEntries rfl fun q sp => ?_
  split_ifs <;> exact .refl _

theorem stackTame_widenStack (force : Bool) (prev : StackState) :
    StackTame m stack (widenStack force prev stack) := by
  refine stackTame_mapEntries rfl fun q sp => ?_
  cases prev.slots.find q with
  | none => exact .refl _
  | some p =>
    dsimp only
    unfold widenEntry
    split_ifs <;> exact .refl _

theorem stackTame_forgetChanged (snapshot : StackState) :
    StackTame m stack (forgetChanged snapshot stack) := by
  intro q sp' hq
  have hfind : (forgetChanged snapshot stack).slots.find q =
      if stack.slots.find q = snapshot.slots.find q then stack.slots.find q
      else some SpilledReg.misc := rfl
  rw [hfind] at hq
  split_ifs at hq
  · exact Or.inr ⟨sp', hq, rfl⟩
  · cases hq
    exact Or.inl (m.plain _ rfl)

end Stacks

section Sweeps
variable {τ : Type} {m : Marking τ} {new : List τ} (s : State)

theorem frameTame_mapStack
    (hf : ∀ sp, Less m (f sp).regType sp.regType) (c : CallFrame) : FrameTame m c (mapStack f c) :=
  ⟨stackTame_mapValues rfl hf, fun _ => .refl _⟩

theorem tame_invalidateDynptrSlices (touched : Nat → Bool) :
    Tame m new s (invalidateDynptrSlices s touched) := by
  have hregs : Tame m new s { s with types :=
      { regs := fun i => demoteSlice touched (s.types.regs i) } } :=
    Tame.mapRegs (less_demoteSlice touched) rfl rfl
  refine hregs.trans (Tame.mapFrames (g := mapStack fun sp =>
    { sp with regType := demoteSlice touched sp.regType }) (fun c => ?_) rfl rfl)
  exact frameTame_mapStack (fun sp => less_demoteSlice touched sp.regType) c

theorem less_ite {p : Prop} [Decidable p] {ty ty' : RegType} (h : isAllocMem ty' = false) :
    Less m (if p then ty' else ty) ty := by
  split_ifs
  · exact .plain h
  · exact .refl ty

theorem tame_invalidateRef (id : Nat) : Tame m new s (s.invalidateRef id) := by
  have hregs : Tame m new s { s with types :=
      { regs := fun i =>
          if (s.types.regs i).getRefId = some id then .scalarValue else s.types.regs i } } :=
    Tame.mapRegs (f := fun ty => if ty.getRefId = some id then .scalarValue else ty)
      (fun _ => less_ite rfl) rfl rfl
  refine hregs.trans (Tame.modifyStack (fun stack => stackTame_mapValues rfl fun sp => ?_) _)
  split_ifs
  · exact .plain rfl
  · exact .refl _

theorem tame_convertRef (id : Nat) : Tame m new s (convertRefToNonOwning s id) := by
  refine Tame.of_types (fun i => Or.inl ?_) rfl
  unfold convertRefToNonOwning
  dsimp only
  split
  · exact .plain (by split_ifs <;> rfl)
  · exact .refl _

theorem tame_stampDynptr (level : Nat) (off : Int) (d : DynptrSlot) :
    Tame m new s (stampDynptr s level off d) :=
  Tame.modifyStackAt (fun stack => (stackTame_markScalar stack off 16).trans <|
    (stackTame_putDynptr _ _ _).trans (stackTame_putDynptr _ _ _)) s level

end Sweeps

section Effects
variable {τ : Type} {m : Marking τ} {new : List τ} (env : CallEnv) (inTypes : TypeState) (s : State)

theorem stackTame_of_edit {f : StackState → StackState} {iterators : Int → Prop}
    (h : StackEdit iterators f) (stack : StackState) : StackTame m stack (f stack) := by
  induction h with
  | refl => exact .refl stack
  | mark _ o n ih => exact ih.trans (stackTame_markScalar _ o n)
  | dynptr _ o d ih => exact ih.trans (stackTame_putDynptr _ o d)
  | iterator _ _ it ih => exact ih.trans (stackTame_putIterator _ _ it)
  | irqFlag _ o flag ih => exact ih.trans (stackTame_modify rfl fun _ => .refl _)

theorem effectClosed_tame : EffectClosed (fun _ _ => True) (Tame m new) where
  refl := .refl
  trans := .trans
  fields hf _ ht := .of_same ht hf
  ref := tame_invalidateRef
  converted := tame_convertRef
  slices := tame_invalidateDynptrSlices
  dropped _ id := by
    refine Tame.mapFrames (frameTame_mapStack fun sp => ?_) rfl rfl
    unfold dropDynptr
    split_ifs <;> exact .refl _
  edited s level _ h := Tame.modifyStackAt (stackTame_of_edit h) s level

theorem tame_effectsOf (ids : Nat → Nat) (proto : CallProto) :
    Tame m new s (effectsOf env inTypes ids proto s) :=
  Tame.foldl (fun s (e : SideEffect × Nat) =>
    effectClosed_tame.applySideEffect env inTypes proto.flags s (ids e.2) e.1 fun _ => trivial) _ s

end Effects

section Flags
variable {τ : Type} {m : Marking τ} {new : List τ}

theorem tame_mapStacks (hf : ∀ sp, Less m (f sp).regType sp.regType)
    (s : State) : Tame m new s (mapStacks s f) :=
  Tame.mapFrames (frameTame_mapStack hf) rfl rfl

theorem less_demoteRcu (ty : RegType) : Less m (demoteRcu ty) ty := by
  cases ty with
  | ptrToBtfId typeName flags refId | ptrToBtfIdOrNull id typeName flags refId => exact .plain rfl
  | _ => exact .refl _

theorem flagClosed_tame : FlagClosed (Tame m new) where
  refl := .refl
  trans := .trans
  counters hf _ ht := .of_same ht hf
  nonOwning s := by
    refine Tame.mapRegs (f := dropNonOwning) (fun ty => ?_) rfl rfl
    cases ty with
    | ptrToOwnedKptr refId offset nonOwning pointee => cases nonOwning <;> exact .plain rfl
    | _ => exact .refl _
  iterators s := tame_mapStacks (f := untrustIterator) (fun _ => .refl _) s
  demoted s := by
    refine Tame.trans ?_ (tame_mapStacks (f := demoteSlot) (fun _ => less_demoteRcu _) _)
    exact Tame.mapRegs less_demoteRcu rfl rfl

end Flags

end ZoneVerifier.MarkEffects
