import ZoneVerifier.CallAnnotations

/-!
# The declared effects on objects of the stack

An effect of a prototype works on the slot its argument points at. The effects
on iterators create or end one iterator, those on dynptrs leave the iterators
and the interrupt flags alone, and no effect changes where the arguments point.
-/

set_option autoImplicit false

namespace ZoneVerifier.EffectAnnotations
open Ast RegTypes Stack Machine StackOps MemTransfer Signatures CallTypes Annotations AnnotationFlow
open CallAnnotations

section Effects
variable (env : CallEnv) (inTypes : TypeState) (flags : CallFlags) (s : State) (id : Nat)
variable (level : Nat) (d : DynptrSlot) (off : Int)

def iteratorAt (s : State) (l : Nat) (q : Int) : Option IteratorSlot := (annotsAt s l q).iterator

def dynptrAt (s : State) (l : Nat) (q : Int) : Option DynptrSlot := (annotsAt s l q).dynptr

theorem sameAnnots_sweepReplaced :
    SameAnnots s (sweepReplaced s level off) := sameAnnots_invalidateDynptrSlices s _

theorem annotsAt_mapStacks {f : SpilledReg → SpilledReg} {g : Annots → Annots}
    (hf : ∀ sp, Annots.ofEntry (f sp) = g (Annots.ofEntry sp)) (hg : g Annots.empty = Annots.empty)
    {s s' : State} (h : s'.frames = s.frames.map (mapStack f)) (l : Nat) (q : Int) :
    annotsAt s' l q = g (annotsAt s l q) := by
  have hget : s'.frames.get l = (s.frames.get l).map (mapStack f) := by
    rw [h]
    exact get_map ..
  unfold annotsAt stackAt
  rw [hget]
  cases s.frames.get l with
  | none => exact hg.symm
  | some c =>
    show annots (mapStack f c).stack q = g (annots c.stack q)
    cases hq : c.stack.slots.find q with
    | none =>
      have hq' : (mapStack f c).stack.slots.find q = none := by
        show (c.stack.slots.find q).map f = none
        rw [hq]
        rfl
      rw [annots_of_find_none hq', annots_of_find_none hq, hg]
    | some sp =>
      have hq' : (mapStack f c).stack.slots.find q = some (f sp) := by
        show (c.stack.slots.find q).map f = some (f sp)
        rw [hq]
        rfl
      rw [annots_of_find_some _ hq', annots_of_find_some _ hq, hf]

def dropRef (id : Nat) (a : Annots) : Annots :=
  if a.dynptr.any (fun d => decide (d.refId = id)) then { a with dynptr := none } else a

theorem ofEntry_dropDynptr (id : Nat) (sp : SpilledReg) :
    Annots.ofEntry (dropDynptr id sp) = dropRef id (Annots.ofEntry sp) := by
  show Annots.ofEntry (if sp.dynptr.any _ then _ else _) = if sp.dynptr.any _ then _ else _
  split_ifs <;> rfl

theorem annotsAt_invalidateDynptrSlotsByRef {id : Nat} (hid : id ≠ 0) (l : Nat) (q : Int) :
    annotsAt (invalidateDynptrSlotsByRef s id) l q = dropRef id (annotsAt s l q) := by
  unfold invalidateDynptrSlotsByRef
  rw [if_neg hid, (sameAnnots_invalidateDynptrSlices _ _).slots]
  exact annotsAt_mapStacks (ofEntry_dropDynptr id) rfl rfl l q

/-- A release up to the slots of the dynptr itself. -/
def releaseRefOf (s : State) (d : DynptrSlot) : State :=
  if d.refId ≠ 0 then
    invalidateDynptrSlices
      (invalidateDynptrSlotsByRef ((s.releaseRef d.refId).invalidateRef d.refId) d.refId)
      fun id => decide (id = d.dynptrId)
  else s

theorem annotsAt_releaseRefOf (l : Nat) (q : Int) :
    annotsAt (releaseRefOf s d) l q =
      if d.refId ≠ 0 then dropRef d.refId (annotsAt s l q) else annotsAt s l q := by
  unfold releaseRefOf
  by_cases hd : d.refId ≠ 0
  · rw [if_pos hd, if_pos hd, (sameAnnots_invalidateDynptrSlices _ _).slots,
      annotsAt_invalidateDynptrSlotsByRef _ hd]
    rw [(closed_released s sweepClosed_sameAnnots _).slots]
  · rw [if_neg hd, if_neg hd]

theorem releaseDynptr_eq : releaseDynptr s level off =
    modifyStackAt (match getDynptr (stackAt s level) off with
      | some d => releaseRefOf s d
      | none => s) level fun stack => putDynptr (putDynptr stack off none) (off + 8) none := by
  unfold releaseDynptr releaseRefOf
  cases getDynptr (stackAt s level) off <;> rfl

def iterTarget (s : State) : SideEffect → Option (Nat × Int)
  | .iterInitOnArg arg _ | .iterDestroyOnArg arg => resolveStackArg s (argReg arg)
  | _ => none

section Edits
variable (iterators : Int → Prop)

/-- The changes of a stack that effects make, with an iterator put at certain offsets only. -/
inductive StackEdit : (StackState → StackState) → Prop where
  | refl : StackEdit fun stack => stack
  | mark {f : StackState → StackState} (h : StackEdit f) (o : Int) (n : Nat) :
      StackEdit fun stack => markScalar (f stack) o n
  | dynptr {f : StackState → StackState} (h : StackEdit f) (o : Int) (d : Option DynptrSlot) :
      StackEdit fun stack => putDynptr (f stack) o d
  | iterator {f : StackState → StackState} (h : StackEdit f) {o : Int} (ho : iterators o)
      (it : Option IteratorSlot) : StackEdit fun stack => putIterator (f stack) o it
  | irqFlag {f : StackState → StackState} (h : StackEdit f) (o : Int) (flag : Option IrqFlagSlot) :
      StackEdit fun stack => putIrqFlag (f stack) o flag

end Edits

/-- A relation that every part of an effect stays within, as long as the effect puts iterators
only where it may. -/
structure EffectClosed (iterators : Nat → Int → Prop) (R : State → State → Prop) : Prop where
  refl : ∀ s, R s s
  trans : ∀ {s t u}, R s t → R t u → R s u
  fields : ∀ {s s' : State}, s'.frames = s.frames → s'.domain = s.domain →
    s'.types = s.types → R s s'
  ref : ∀ s id, R s (State.invalidateRef s id)
  converted : ∀ s id, R s (convertRefToNonOwning s id)
  slices : ∀ s touched, R s (invalidateDynptrSlices s touched)
  dropped : ∀ (s : State) id, R s { s with frames := s.frames.map (mapStack (dropDynptr id)) }
  edited : ∀ s level f, StackEdit (iterators level) f → R s (modifyStackAt s level f)

namespace EffectClosed
variable {iterators : Nat → Int → Prop} {R : State → State → Prop} (hR : EffectClosed iterators R)
include hR

theorem releaseRefOf : R s (releaseRefOf s d) := by
  unfold EffectAnnotations.releaseRefOf
  split_ifs
  · refine hR.trans (hR.trans (hR.trans ?_
      (hR.ref (s.releaseRef d.refId) d.refId)) ?_) (hR.slices _ _)
    · exact hR.fields rfl rfl rfl
    · unfold invalidateDynptrSlotsByRef
      split_ifs
      · exact hR.refl _
      · exact hR.trans (hR.dropped _ _) (hR.slices _ _)
  · exact hR.refl s

theorem releaseDynptr : R s (releaseDynptr s level off) := by
  rw [releaseDynptr_eq]
  refine hR.trans ?_ (hR.edited _ level _ (.dynptr (.dynptr .refl off none) (off + 8) none))
  cases getDynptr (stackAt s level) off with
  | none => exact hR.refl s
  | some d => exact hR.releaseRefOf s d

theorem stampReplaced : R s (stampDynptr (sweepReplaced s level off) level off d) :=
  hR.trans (hR.slices s _) (hR.edited _ level _ (.dynptr (.dynptr (.mark .refl ..) ..) ..))

theorem irqRestoreSlot (slot : Option IrqFlagSlot) :
    R s (match slot with
      | some flag => irqRestore s flag.id
      | none => s) := by
  cases slot with
  | none => exact hR.refl s
  | some flag =>
    show R s (irqRestore s flag.id)
    unfold irqRestore
    split
    · split_ifs
      · exact hR.fields rfl rfl rfl
      · exact hR.refl s
    · exact hR.refl s

theorem applySideEffect (eff : SideEffect)
    (h : ∀ {l q}, iterTarget s eff = some (l, q) → iterators l q) :
    R s (applySideEffect env inTypes flags s id eff) := by
  cases eff with
  | releaseRefFromArg arg =>
    rw [CallTypes.applySideEffect]
    split
    · next refId _ =>
      have hrel : R s (s.releaseRef refId) := hR.fields rfl rfl rfl
      split_ifs
      · exact hR.trans hrel (hR.converted _ _)
      · exact hR.trans hrel (hR.ref _ _)
    · exact hR.refl s
  | setExceptionCallbackFromArg arg => exact hR.refl s
  | dynptrInitOnArg arg kind rdonly =>
    rw [CallTypes.applySideEffect]
    split
    · refine hR.trans ?_ (hR.stampReplaced ..)
      split_ifs
      · exact hR.fields rfl rfl rfl
      · exact hR.refl s
    · exact hR.refl s
  | dynptrReleaseFromArg arg =>
    rw [CallTypes.applySideEffect]
    split
    · exact hR.releaseDynptr ..
    · exact hR.refl s
  | dynptrCloneOnArg src dst =>
    rw [CallTypes.applySideEffect]
    split
    · split
      · exact hR.stampReplaced ..
      · exact hR.refl s
    · exact hR.refl s
  | iterInitOnArg arg kind =>
    rw [CallTypes.applySideEffect]
    split
    · next hres => exact hR.edited s _ _ (.iterator (.mark .refl ..) (h hres) _)
    · exact hR.refl s
  | iterDestroyOnArg arg =>
    rw [CallTypes.applySideEffect]
    split
    · next hres => exact hR.edited s _ _ (.iterator .refl (h hres) _)
    · exact hR.refl s
  | irqSaveOnArg arg kfuncClass =>
    rw [CallTypes.applySideEffect]
    split
    · refine hR.trans ?_ (hR.edited _ _ _ (.irqFlag (.mark .refl ..) ..))
      exact hR.fields rfl rfl rfl
    · exact hR.refl s
  | irqRestoreFromArg arg kfuncClass =>
    rw [CallTypes.applySideEffect]
    split
    · exact hR.trans (hR.irqRestoreSlot s _) (hR.edited _ _ _ (.irqFlag .refl ..))
    · exact hR.refl s

end EffectClosed

theorem effectClosed_level :
    EffectClosed (fun _ _ => True) fun s s' => s'.frames.currentLevel = s.frames.currentLevel where
  refl _ := rfl
  trans h h' := h'.trans h
  fields hf _ _ := congrArg _ hf
  ref s id := (sameAnnots_invalidateRef s id).level
  converted _ _ := rfl
  slices s _ := (sameAnnots_invalidateDynptrSlices s _).level
  dropped _ _ := List.length_map ..
  edited _ _ _ _ := currentLevel_modifyStackAt ..

theorem iterator_of_edit {f : StackState → StackState} {q : Int} (h : StackEdit (· ≠ q) f)
    (stack : StackState) : (annots (f stack) q).iterator = (annots stack q).iterator := by
  induction h with
  | refl => rfl
  | mark _ o n ih => rw [annots_markScalar, ih]
  | dynptr _ o d ih =>
    rw [annots_putDynptr]
    split_ifs <;> exact ih
  | iterator _ ho it ih => rw [annots_putIterator, if_neg fun h => ho h.1.symm, ih]
  | irqFlag _ o flag ih =>
    rw [annots_putIrqFlag]
    split_ifs <;> exact ih

theorem iteratorAt_of_sameAnnots {s s' : State} (h : SameAnnots s s') (l : Nat) (q : Int) :
    iteratorAt s' l q = iteratorAt s l q := congrArg (·.iterator) (h.slots l q)

theorem effectClosed_iteratorAt (l : Nat) (q : Int) :
    EffectClosed (fun l' q' => (l', q') ≠ (l, q)) fun s s' =>
      iteratorAt s' l q = iteratorAt s l q where
  refl _ := rfl
  trans h h' := h'.trans h
  fields hf _ _ := iteratorAt_of_sameAnnots (.of_frames hf) l q
  ref s id := iteratorAt_of_sameAnnots (sameAnnots_invalidateRef s id) l q
  converted _ _ := rfl
  slices s _ := iteratorAt_of_sameAnnots (sameAnnots_invalidateDynptrSlices s _) l q
  dropped s id := by
    unfold iteratorAt
    rw [annotsAt_mapStacks (s := s) (ofEntry_dropDynptr id) rfl rfl]
    unfold dropRef
    split_ifs <;> rfl
  edited s level f hf := by
    unfold iteratorAt
    rw [annotsAt_modifyStackAt]
    split_ifs with h
    · obtain ⟨rfl, -⟩ := h
      exact iterator_of_edit (by simpa using hf) _
    · rfl

/-- The effects on iterators and interrupt flags. -/
def isDynptrEffect : SideEffect → Bool
  | .iterInitOnArg .. | .iterDestroyOnArg _ | .irqSaveOnArg .. | .irqRestoreFromArg .. => false
  | _ => true

theorem frames_irqRestoreSlot (slot : Option IrqFlagSlot) :
    (match slot with
      | some flag => irqRestore s flag.id
      | none => s).frames = s.frames := by
  cases slot with
  | none => rfl
  | some flag =>
    show (irqRestore s flag.id).frames = _
    unfold irqRestore
    split
    · split_ifs <;> rfl
    · rfl

end Effects

section Args
variable {s s' : State}

structure SameStackArgs (s s' : State) : Prop where
  domain : s'.domain = s.domain
  types : ∀ r level, s'.types.get r = .ptrToStack level ↔ s.types.get r = .ptrToStack level

theorem SameStackArgs.refl (s : State) : SameStackArgs s s := ⟨rfl, fun _ _ => Iff.rfl⟩

theorem SameStackArgs.trans {s₁ s₂ s₃ : State} (h : SameStackArgs s₁ s₂)
    (h' : SameStackArgs s₂ s₃) : SameStackArgs s₁ s₃ :=
  ⟨h'.domain.trans h.domain, fun r level => (h'.types r level).trans (h.types r level)⟩

theorem SameStackArgs.of_types (hd : s'.domain = s.domain) (ht : s'.types = s.types) :
    SameStackArgs s s' := ⟨hd, fun _ _ => by rw [ht]⟩

theorem SameStackArgs.of_map {f : RegType → RegType}
    (hf : ∀ ty level, f ty = .ptrToStack level ↔ ty = .ptrToStack level)
    (hd : s'.domain = s.domain) (ht : s'.types = { regs := fun i => f (s.types.regs i) }) :
    SameStackArgs s s' := by
  refine ⟨hd, fun r level => ?_⟩
  rw [ht]
  unfold TypeState.get
  cases r.toIndex with
  | none => exact Iff.rfl
  | some i => exact hf _ level

theorem resolveStackArg_eq (h : SameStackArgs s s') (r : Reg) :
    resolveStackArg s' r = resolveStackArg s r := by
  have hty := h.types r
  unfold resolveStackArg
  rw [h.domain]
  cases hs : s.types.get r with
  | ptrToStack level => rw [(hty level).2 hs]
  | _ =>
    split
    · rename_i level _ hs' _
      rw [(hty level).1 hs'] at hs
      cases hs
    · rfl

theorem resolveStackArg_setR0 (s : State) (ty : RegType) (arg : Nat) :
    resolveStackArg (setType s .r0 ty) (argReg arg) = resolveStackArg s (argReg arg) := by
  match arg with
  | 0 | 1 | 2 | 3 | _ + 4 => rfl

theorem sameStackArgs_invalidateDynptrSlices (s : State) (touched : Nat → Bool) :
    SameStackArgs s (invalidateDynptrSlices s touched) := by
  refine .of_map (f := demoteSlice touched) (fun ty level => ?_) rfl rfl
  unfold demoteSlice
  constructor
  · intro h
    split_ifs at h
    exact h
  · rintro rfl
    rfl

theorem sameStackArgs_invalidateRef (s : State) (id : Nat) : SameStackArgs s (s.invalidateRef id) := by
  refine .of_map (f := fun ty => if ty.getRefId = some id then .scalarValue else ty)
    (fun ty level => ?_) rfl rfl
  constructor
  · intro h
    split_ifs at h
    exact h
  · rintro rfl
    rfl

theorem sameStackArgs_convertRef (s : State) (id : Nat) :
    SameStackArgs s (convertRefToNonOwning s id) := by
  refine ⟨rfl, fun r level => ?_⟩
  unfold convertRefToNonOwning TypeState.get
  cases r.toIndex with
  | none => exact Iff.rfl
  | some i =>
    dsimp only
    split
    · next heq =>
      rw [heq]
      split_ifs <;> simp
    · exact Iff.rfl

theorem effectClosed_sameStackArgs : EffectClosed (fun _ _ => True) SameStackArgs where
  refl := .refl
  trans := .trans
  fields _ hd ht := .of_types hd ht
  ref := sameStackArgs_invalidateRef
  converted := sameStackArgs_convertRef
  slices := sameStackArgs_invalidateDynptrSlices
  dropped _ _ := .of_types rfl rfl
  edited _ _ _ _ := .of_types rfl rfl

end Args

section Run
variable (env : CallEnv) (inTypes : TypeState) (flags : CallFlags) (ids : Nat → Nat)

def runEffects (s : State) (effects : List (SideEffect × Nat)) : State :=
  effects.foldl (fun s (eff, i) => applySideEffect env inTypes flags s (ids i) eff) s

theorem iteratorAt_runEffects (effects : List (SideEffect × Nat)) (s : State) {l : Nat} {q : Int}
    (h : ∀ e ∈ effects, iterTarget s e.1 ≠ some (l, q)) :
    iteratorAt (runEffects env inTypes flags ids s effects) l q = iteratorAt s l q := by
  induction effects generalizing s with
  | nil => rfl
  | cons e effects ih =>
    have hsame := effectClosed_sameStackArgs.applySideEffect env inTypes flags s (ids e.2) e.1
      fun _ => trivial
    have hstep := (effectClosed_iteratorAt l q).applySideEffect env inTypes flags s (ids e.2) e.1
      fun heq hp => h e List.mem_cons_self (heq.trans (congrArg some hp))
    refine (ih _ fun e' he' => ?_).trans hstep
    have htarget : iterTarget (applySideEffect env inTypes flags s (ids e.2) e.1) e'.1 =
        iterTarget s e'.1 := by
      unfold iterTarget
      split <;> first | exact resolveStackArg_eq hsame _ | rfl
    rw [htarget]
    exact h e' (List.mem_cons_of_mem _ he')

end Run

end ZoneVerifier.EffectAnnotations
