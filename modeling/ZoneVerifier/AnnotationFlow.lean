import ZoneVerifier.Annotations
import ZoneVerifier.AtomicSound

/-!
# What instructions do to annotations

For each transfer function, the annotations of every slot of every frame after
it in terms of those before. Calls and returns only open and close frames;
stores, atomic operations, the buffers of a helper and the return from a
callback drop the annotations of the slots they write.
-/

set_option autoImplicit false

namespace ZoneVerifier.AnnotationFlow
open Ast RegTypes Stack Machine StackOps MemTransfer CallTypes CallReturn Callback Annotations
open SpillSound

structure SameAnnots (s s' : State) : Prop where
  level : s'.frames.currentLevel = s.frames.currentLevel
  slots : ∀ l q, annotsAt s' l q = annotsAt s l q

namespace SameAnnots

theorem of_frames {s s' : State} (h : s'.frames = s.frames) : SameAnnots s s' :=
  ⟨by rw [h], annotsAt_of_frames h⟩

theorem refl (s : State) : SameAnnots s s := of_frames rfl

theorem trans {s₁ s₂ s₃ : State} (h : SameAnnots s₁ s₂) (h' : SameAnnots s₂ s₃) :
    SameAnnots s₁ s₃ :=
  ⟨h'.level.trans h.level, fun l q => (h'.slots l q).trans (h.slots l q)⟩

theorem of_map {g : CallFrame → CallFrame} (hg : ∀ c q, annots (g c).stack q = annots c.stack q)
    {s s' : State} (h : s'.frames = s.frames.map g) : SameAnnots s s' := by
  refine ⟨?_, annotsAt_map hg h⟩
  rw [h]
  exact List.length_map ..

theorem ite {p : Prop} [Decidable p] {s t u : State} (ht : SameAnnots s t) (hu : SameAnnots s u) :
    SameAnnots s (if p then t else u) := by
  split_ifs
  · exact ht
  · exact hu

end SameAnnots

section Stores
variable {s s' : State} {level : Nat} {q : Int} {size : MemSize}
variable {off : Int} {fresh : Nat} {src : Operand} (stack : StackState)

theorem currentLevel_modifyStackAt (s : State) (level : Nat) (f : StackState → StackState) :
    (modifyStackAt s level f).frames.currentLevel = s.frames.currentLevel := by
  show (s.frames.modifyAt level _).currentLevel = _
  unfold FrameStack.modifyAt
  split_ifs
  · rfl
  · simp [FrameStack.currentLevel]

theorem sameAnnots_modifyStackAt {f : StackState → StackState}
    (hf : ∀ stack q, annots (f stack) q = annots stack q) (s : State) (level : Nat) :
    SameAnnots s (modifyStackAt s level f) :=
  ⟨currentLevel_modifyStackAt s level f, annotsAt_modifyStackAt_of_keeps hf s level⟩

theorem annotsAt_spillAt (s : State) (hlevel : level ≤ s.frames.currentLevel) (reg : Reg) (o : Int)
    (size : MemSize) (fresh l : Nat) (q : Int) :
    annotsAt (spillAt s level reg o size fresh) l q =
      if l = level ∧ StoreDrops (stackAt s l) o size q (isSpill s reg o size) then Annots.empty
      else annotsAt s l q := by
  cases hs : isSpill s reg o size with
  | true =>
    have hframes := (sameRegs_linkedSource s reg size fresh).frames
    have hstack : stackAt (linkedSource s reg size fresh).1 l = stackAt s l := by
      unfold stackAt
      rw [hframes]
    rw [spillAt_of_isSpill level hs, annotsAt_modifyStackAt, hframes, hstack,
      annotsAt_of_frames hframes]
    by_cases hl : l = level
    · rw [if_pos ⟨hl, hlevel⟩, annots_alignedStore _ _ _ _ (by rfl)]
      simp only [hl, true_and]
      rfl
    · rw [if_neg fun h => hl h.1, if_neg fun h => hl h.1]
  | false =>
    have hframes : (if isNullScalar s reg then putPrecise s reg true else s).frames = s.frames := by
      split_ifs <;> rfl
    have hstack : stackAt (if isNullScalar s reg then putPrecise s reg true else s) l =
        stackAt s l := by
      unfold stackAt
      rw [hframes]
    rw [spillAt_of_not_isSpill level hs, annotsAt_modifyStackAt, hframes, hstack,
      annotsAt_of_frames hframes]
    by_cases hl : l = level
    · rw [if_pos ⟨hl, hlevel⟩,
        annots_unalignedStore _ _ _ _ fun _ => by cases isNullScalar s reg <;> rfl]
      simp only [hl, true_and]
      rfl
    · rw [if_neg fun h => hl h.1, if_neg fun h => hl h.1]

theorem ofEntry_immEntry (aligned : Bool) (masked : Int) (size : MemSize) :
    Annots.ofEntry (immEntry aligned masked size) = Annots.empty := by
  unfold immEntry
  split_ifs <;> rfl

theorem annotsAt_storeImm (s : State) (hlevel : level ≤ s.frames.currentLevel) (imm o : Int)
    (size : MemSize) (l : Nat) (q : Int) :
    annotsAt (storeImmToStackAt s level imm o size) l q =
      if l = level ∧ StoreDrops (stackAt s l) o size q (decide (o % 8 = 0)) then Annots.empty
      else annotsAt s l q := by
  unfold storeImmToStackAt
  rw [annotsAt_modifyStackAt]
  by_cases hl : l = level
  · rw [if_pos ⟨hl, hlevel⟩]
    simp only [hl, true_and]
    cases ha : decide (o % 8 = 0) with
    | true =>
      simp only [if_true, true_and]
      exact annots_alignedStore _ _ _ _ (ofEntry_immEntry ..) _
    | false =>
      simp only [Bool.false_eq_true, if_false, false_and]
      exact annots_unalignedStore _ _ _ _ (ofEntry_bytes size (ofEntry_immEntry ..) _)
  · rw [if_neg fun h => hl h.1, if_neg fun h => hl h.1]

/-- What becomes of a slice when dynptrs go away. -/
def demoteSlice (touched : Nat → Bool) (ty : RegType) : RegType :=
  if (dynptrSliceId ty).any touched then .scalarValue else ty

theorem get_map (fs : FrameStack) (g : CallFrame → CallFrame) (l : Nat) :
    (fs.map g).get l = (fs.get l).map g := by
  show ((fs.current :: fs.callers).map g).reverse[l]? = _
  rw [← List.map_reverse, List.getElem?_map]
  rfl

theorem find_invalidateDynptrSlices (s : State) (touched : Nat → Bool) (l : Nat) (q : Int) :
    (stackAt (invalidateDynptrSlices s touched) l).slots.find q =
      ((stackAt s l).slots.find q).map fun sp =>
        { sp with regType := demoteSlice touched sp.regType } := by
  have hget : (invalidateDynptrSlices s touched).frames.get l = _ := get_map s.frames _ l
  unfold stackAt
  rw [hget]
  cases s.frames.get l <;> rfl

theorem sameAnnots_invalidateDynptrSlices (s : State) (touched : Nat → Bool) :
    SameAnnots s (invalidateDynptrSlices s touched) where
  level := List.length_map ..
  slots l q := annots_of_find_map (find_invalidateDynptrSlices s touched l q) fun _ => rfl

def clearTouched (stack : StackState) (off n : Int) (q : Int) : Annots :=
  if dynptrPairTouched stack off n q || dynptrPairTouched stack off n (q - 8) then
    { annots stack q with dynptr := none }
  else annots stack q

theorem annots_clearTouchedDynptrs (off n q : Int) :
    annots (clearTouchedDynptrs stack off n) q = clearTouched stack off n q := by
  unfold clearTouched
  unfold annots clearTouchedDynptrs
  rw [FiniteMap.FinMap.find_mapEntries, Option.map_map]
  cases stack.slots.find q with
  | none => split_ifs <;> rfl
  | some sp =>
    split_ifs <;> rfl

def destroyDynptrs (s : State) (level : Nat) (stack : StackState) (off n : Int) : State :=
  invalidateDynptrSlices (modifyStackAt s level fun stack => clearTouchedDynptrs stack off n)
    (dynptrIdTouched stack off n)

theorem getSlotKind_clearTouchedDynptrs (off n q : Int) :
    (clearTouchedDynptrs stack off n).getSlotKind q = stack.getSlotKind q := by
  unfold StackState.getSlotKind clearTouchedDynptrs
  rw [FiniteMap.FinMap.find_mapEntries, Option.map_map]
  cases stack.slots.find q with
  | none => rfl
  | some sp =>
    split_ifs <;> rfl

theorem getSlotKind_destroyDynptrs (s : State) (level : Nat) (stack : StackState) (off n : Int)
    (l : Nat) (q : Int) :
    (stackAt (destroyDynptrs s level stack off n) l).getSlotKind q =
      (stackAt s l).getSlotKind q := by
  unfold destroyDynptrs StackState.getSlotKind
  rw [find_invalidateDynptrSlices, Option.map_map, stackAt_modifyStackAt]
  split_ifs
  · exact getSlotKind_clearTouchedDynptrs ..
  · rfl

theorem storeDrops_congr {stack stack' : StackState}
    (h : ∀ q, stack'.getSlotKind q = stack.getSlotKind q) (o q : Int) (size : MemSize)
    (aligned : Bool) : StoreDrops stack' o size q aligned ↔ StoreDrops stack o size q aligned := by
  unfold StoreDrops InRemainder InScrubbedSlot
  rw [h, h]

/-- Whether a store keeps its slots as a spill; `s` is the state behind the
destruction of the dynptrs. -/
def storeAligned (s : State) (src : Operand) (o : Int) (size : MemSize) : Bool :=
  match src with
  | .reg r => isSpill s r o size
  | .imm _ => decide (o % 8 = 0)

theorem frames_updateFrameDepth (s : State) (off : Int) :
    (updateFrameDepth s off).frames = s.frames := by
  unfold updateFrameDepth
  split_ifs <;> rfl

theorem annotsAt_destroyDynptrs (s : State) (hlevel : level ≤ s.frames.currentLevel)
    (stack : StackState) (off n : Int) (l : Nat) (q : Int) :
    annotsAt (destroyDynptrs s level stack off n) l q =
      if l = level then clearTouched (stackAt s l) off n q else annotsAt s l q := by
  unfold destroyDynptrs
  rw [(sameAnnots_invalidateDynptrSlices _ _).slots, annotsAt_modifyStackAt]
  by_cases hl : l = level
  · rw [if_pos ⟨hl, hlevel⟩, if_pos hl, annots_clearTouchedDynptrs]
  · rw [if_neg fun h => hl h.1, if_neg hl]

def storeSource (s : State) (level : Nat) (src : Operand) (o : Int) (size : MemSize)
    (fresh : Nat) : State :=
  match src with
  | .reg r => spillAt s level r o size fresh
  | .imm k => storeImmToStackAt s level k o size

theorem annotsAt_storeSource (s : State) (hlevel : level ≤ s.frames.currentLevel) (src : Operand)
    (o : Int) (size : MemSize) (fresh l : Nat) (q : Int) :
    annotsAt (storeSource s level src o size fresh) l q =
      if l = level ∧ StoreDrops (stackAt s l) o size q (storeAligned s src o size) then
        Annots.empty
      else annotsAt s l q := by
  cases src with
  | reg r => exact annotsAt_spillAt s hlevel r o size fresh l q
  | imm k => exact annotsAt_storeImm s hlevel k o size l q

theorem storeFixed_ok {full : Int} (h : storeFixed s level size full off src fresh = .ok s') :
    level ≤ s.frames.currentLevel ∧
      accessOverlapsIterator (stackAt s level) full size.bytes = false ∧
      s' = modifyStackAt (updateFrameDepth (storeSource
          (destroyDynptrs s level (stackAt s level) full size.bytes) level src (toI16 full) size
          fresh) off) level
        fun stack => updateStoreTypes stack (operandType s src) size (some (toI16 full)) := by
  unfold storeFixed at h
  cases hframe : s.frames.get level with
  | none =>
    rw [hframe] at h
    cases h
  | some frame =>
    rw [hframe] at h
    dsimp only at h
    split_ifs at h with hd hi hirq
    have hlevel : level ≤ s.frames.currentLevel := by
      rw [← get_isSome, hframe]
      rfl
    rw [stackAt_of_get hframe]
    refine ⟨hlevel, Bool.eq_false_of_not_eq_true hi, ?_⟩
    cases src <;> exact (Except.ok.inj h).symm

theorem annotsAt_storeFixed {full : Int} (h : storeFixed s level size full off src fresh = .ok s')
    (l : Nat) (q : Int) :
    annotsAt s' l q =
      if l = level ∧ StoreDrops (stackAt s l) (toI16 full) size q (storeAligned
          (destroyDynptrs s level (stackAt s level) full size.bytes) src (toI16 full) size) then
        Annots.empty
      else if l = level then clearTouched (stackAt s l) full size.bytes q
      else annotsAt s l q := by
  obtain ⟨hlevel, _, hs'⟩ := storeFixed_ok h
  have hcur : (destroyDynptrs s level (stackAt s level) full size.bytes).frames.currentLevel = _ :=
    (sameAnnots_invalidateDynptrSlices ..).level.trans (currentLevel_modifyStackAt ..)
  have hkind := storeDrops_congr
    (getSlotKind_destroyDynptrs s level (stackAt s level) full size.bytes l) (toI16 full) q size
  rw [hs', annotsAt_modifyStackAt_of_keeps fun _ _ => annots_updateStoreTypes ..,
    annotsAt_of_frames (frames_updateFrameDepth ..),
    annotsAt_storeSource _ (hcur ▸ hlevel), annotsAt_destroyDynptrs s hlevel]
  simp only [hkind]

def InRange (lo hi : Int) (q : Int) : Prop := ∃ i < (hi - lo).toNat, q = toI16 (lo + (i : Int))

instance (lo hi q : Int) : Decidable (InRange lo hi q) :=
  inferInstanceAs (Decidable (∃ i < (hi - lo).toNat, _))

theorem annots_invalidateRange (lo hi q : Int) :
    annots (invalidateRange stack lo hi) q =
      if InRange lo hi q then Annots.empty else annots stack q := by
  have hmap : invalidateRange stack lo hi =
      ((List.range (hi - lo).toNat).map fun i : Nat => toI16 (lo + (i : Int))).foldl
        StackState.invalidateSlot stack := by
    rw [List.foldl_map]
    rfl
  have hmem : q ∈ (List.range (hi - lo).toNat).map (fun i : Nat => toI16 (lo + (i : Int))) ↔
      InRange lo hi q := by
    rw [List.mem_map]
    unfold InRange
    simp only [List.mem_range, eq_comm]
  rw [hmap, annots_invalidateSlots]
  simp only [hmem]

/-- The slots a store through a base register at a variable offset invalidates,
if the offset is bounded. -/
def VariableDrops (s : State) (size : MemSize) (base : Reg) (off : Int) (q : Int) : Prop :=
  (s.domain.getDistanceInterval base .r10).1 ≠ -2^63 ∧
    (s.domain.getDistanceInterval base .r10).2 ≠ 2^63 - 1 ∧
    InRange ((s.domain.getDistanceInterval base .r10).1 + off)
      ((s.domain.getDistanceInterval base .r10).2 + off + (size.bytes : Int)) q

instance (s : State) (size : MemSize) (base : Reg) (off q : Int) :
    Decidable (VariableDrops s size base off q) := inferInstanceAs (Decidable (_ ∧ _ ∧ _))

theorem annotsAt_storeVariable (s : State) (hlevel : level ≤ s.frames.currentLevel) (size : MemSize)
    (base : Reg) (off : Int) (l : Nat) (q : Int) :
    annotsAt (storeVariable s level size base off) l q =
      if l = level ∧ VariableDrops s size base off q then Annots.empty else annotsAt s l q := by
  unfold storeVariable
  rw [annotsAt_of_frames (frames_updateFrameDepth ..)]
  by_cases hfin : (s.domain.getDistanceInterval base .r10).1 ≠ -2^63 ∧
      (s.domain.getDistanceInterval base .r10).2 ≠ 2^63 - 1
  · rw [if_pos hfin, annotsAt_modifyStackAt]
    by_cases hl : l = level
    · rw [if_pos ⟨hl, hlevel⟩, annots_invalidateRange]
      simp only [VariableDrops, hl, hfin.1, hfin.2, true_and, ne_eq, not_false_eq_true]
      rfl
    · rw [if_neg fun h => hl h.1, if_neg fun h => hl h.1]
  · rw [if_neg hfin, if_neg fun h => hfin ⟨h.2.1, h.2.2.1⟩]

theorem transferStoreStack_ok {base : Reg}
    (h : transferStoreStack s level size base off src fresh = .ok s') :
    (∃ baseOff s₁, s.domain.getDistanceFixed base .r10 = some baseOff ∧
        storeFixed s level size (baseOff + off) off src fresh = .ok s₁ ∧
        s' = { s₁ with pc := s₁.pc + 1 }) ∨
      (s.domain.getDistanceFixed base .r10 = none ∧
        s' = { storeVariable s level size base off with
          pc := (storeVariable s level size base off).pc + 1 }) := by
  unfold transferStoreStack at h
  cases hdist : s.domain.getDistanceFixed base .r10 with
  | none =>
    rw [hdist] at h
    cases h
    exact Or.inr ⟨rfl, rfl⟩
  | some baseOff =>
    rw [hdist] at h
    dsimp only at h
    cases hfix : storeFixed s level size (baseOff + off) off src fresh with
    | error e =>
      rw [hfix] at h
      cases h
    | ok s₁ =>
      rw [hfix] at h
      cases h
      exact Or.inl ⟨baseOff, s₁, rfl, hfix, rfl⟩

theorem modifyStack_eq (s : State) (f : StackState → StackState) :
    s.modifyStack f = modifyStackAt s s.frames.currentLevel f := by
  unfold State.modifyStack modifyStackAt FrameStack.modifyAt
  rw [if_pos rfl]

theorem sameAnnots_modifyStack {f : StackState → StackState}
    (hf : ∀ stack q, annots (f stack) q = annots stack q) (s : State) :
    SameAnnots s (s.modifyStack f) := by
  rw [modifyStack_eq]
  exact sameAnnots_modifyStackAt hf s _

theorem frames_atomicReload (s : State) (size : MemSize) (off : Int) (target : Option Reg) :
    ((atomicReload s size off target).getD s).frames = s.frames := by
  cases hr : atomicReload s size off target with
  | none => rfl
  | some r =>
    cases target with
    | none => cases hr
    | some dst =>
      obtain ⟨sp, _, hfill⟩ :=
        VariableStore.fillAt_some (FrameStack.get_currentLevel s.frames) hr
      rw [hfill]
      exact (AtomicSound.fillEntry_frame ..).1

theorem annots_atomicWrite (base : Reg) (size : MemSize) (off : Int) (slot : Option Int) (q : Int) :
    annots (atomicWrite stack base size off slot) q =
      if base = .r10 ∧ q = off then Annots.empty else annots stack q := by
  unfold atomicWrite
  by_cases hb : base = .r10
  · rw [if_pos hb, annots_invalidateSlot, annots_updateStoreTypes]
    simp only [hb, true_and]
  · rw [if_neg hb, if_neg fun h => hb h.1, annots_updateStoreTypes]

theorem frames_forgetTarget (s : State) (target : Option Reg) :
    (forgetTarget s target).frames = s.frames := by
  cases target with
  | none => rfl
  | some dst => cases dst <;> rfl

section
variable (s : State) (op : AtomicOp) (fetch : Bool) (size : MemSize) (base : Reg) (off : Int)
  (src : Reg)

theorem frames_transferAtomic : ∃ slot,
      (transferAtomic s op fetch size base off src).frames =
        (s.modifyStack fun stack => atomicWrite stack base size off slot).frames := by
  have hr := frames_atomicReload s size off (atomicTarget op fetch src)
  unfold transferAtomic
  dsimp only
  refine ⟨atomicSlot ((atomicReload s size off (atomicTarget op fetch src)).getD s)
    (s.types.get base) base off, ?_⟩
  have hw : ∀ f : StackState → StackState,
      (((atomicReload s size off (atomicTarget op fetch src)).getD s).modifyStack f).frames =
        (s.modifyStack f).frames := by
    intro f
    unfold State.modifyStack
    rw [hr]
  split_ifs
  · rw [frames_updateFrameDepth]
    exact hw _
  · rw [frames_updateFrameDepth, frames_forgetTarget]
    exact hw _
  · exact hw _
  · rw [frames_forgetTarget]
    exact hw _

theorem annotsAt_transferAtomic (l : Nat) (q : Int) :
    annotsAt (transferAtomic s op fetch size base off src) l q =
      if l = s.frames.currentLevel ∧ base = .r10 ∧ q = off then Annots.empty
      else annotsAt s l q := by
  obtain ⟨slot, hframes⟩ := frames_transferAtomic s op fetch size base off src
  rw [annotsAt_of_frames hframes, modifyStack_eq, annotsAt_modifyStackAt]
  by_cases hl : l = s.frames.currentLevel
  · rw [if_pos ⟨hl, Nat.le_refl _⟩, annots_atomicWrite]
    simp only [hl, true_and]
    rfl
  · rw [if_neg fun h => hl h.1, if_neg fun h => hl h.1]

end

end Stores

section Frames
variable {s s' : State} {l : Nat} {q : Int} {caller : CallFrame} {callers : List CallFrame}

theorem annotsAt_of_lt (hl : s.frames.currentLevel < l) (q : Int) : annotsAt s l q = Annots.empty := by
  have hnone : s.frames.get l = none := by
    rw [← Option.not_isSome_iff_eq_none, get_isSome]
    omega
  unfold annotsAt
  rw [stackAt_of_get_none hnone]
  rfl

theorem annotsAt_enterFrame (frame : CallFrame) (hstack : frame.stack = StackState.empty)
    (hframes : s'.frames = { current := frame, callers := s.frames.current :: s.frames.callers })
    (l : Nat) (q : Int) : annotsAt s' l q = annotsAt s l q := by
  have hget : s'.frames.get l =
      if l = s.frames.currentLevel + 1 then some frame else s.frames.get l := by
    rw [FrameStack.get_eq, hframes]
    rfl
  unfold annotsAt stackAt
  rw [hget]
  by_cases hl : l = s.frames.currentLevel + 1
  · have hnone : s.frames.get l = none := by
      rw [← Option.not_isSome_iff_eq_none, get_isSome]
      omega
    rw [if_pos hl, hnone]
    dsimp only
    rw [hstack]
  · rw [if_neg hl]

section
variable (hcallers : s.frames.callers = caller :: callers)
include hcallers

theorem get_leaveFrame
    (hframes : s'.frames = { current := caller, callers }) (hl : l < s.frames.currentLevel) :
    s'.frames.get l = s.frames.get l := by
  rw [FrameStack.get_eq s.frames, if_neg (Nat.ne_of_lt hl), hcallers, hframes]
  rfl

theorem currentLevel_leaveFrame
    (hframes : s'.frames = { current := caller, callers }) :
    s'.frames.currentLevel + 1 = s.frames.currentLevel := by
  rw [hframes]
  unfold FrameStack.currentLevel
  rw [hcallers]
  rfl

theorem annotsAt_leaveFrame
    (hframes : s'.frames = { current := caller, callers }) (l : Nat) (q : Int) :
    annotsAt s' l q = if l < s.frames.currentLevel then annotsAt s l q else Annots.empty := by
  have hcur := currentLevel_leaveFrame hcallers hframes
  by_cases hl : l < s.frames.currentLevel
  · unfold annotsAt stackAt
    rw [if_pos hl, get_leaveFrame hcallers hframes hl]
  · rw [if_neg hl, annotsAt_of_lt (by omega)]

end

theorem frames_foldl {α : Type} {f : State → α → State} (hf : ∀ s a, (f s a).frames = s.frames)
    (l : List α) (s : State) : (l.foldl f s).frames = s.frames := by
  induction l generalizing s with
  | nil => rfl
  | cons a l ih => rw [List.foldl_cons, ih, hf]

theorem frames_overrideArgs (s : State) (ids : Nat → Nat) (args : List GlobalFuncArg) :
    (overrideArgs s ids args).frames = s.frames := by
  refine frames_foldl (fun s a => ?_) _ s
  show (overrideArg s a.1 (ids a.2.2) a.2.1).frames = _
  unfold overrideArg
  cases globalArgType (ids a.2.2) a.2.1 <;> rfl

theorem annotsAt_transferCallRel (s : State) (target : Nat) (global : Option (List GlobalFuncArg))
    (ids : Nat → Nat) (l : Nat) (q : Int) :
    annotsAt (transferCallRel s target global ids) l q = annotsAt s l q := by
  cases global with
  | none =>
    exact annotsAt_enterFrame (newFrame s (s.pc + 1) none) rfl rfl l q
  | some args =>
    refine annotsAt_enterFrame { newFrame s (s.pc + 1) none with
      callerRcuReadDepthSnapshot := some s.rcuReadDepth } rfl ?_ l q
    exact (frames_overrideArgs ..).trans rfl

theorem annotsAt_transferExit (h : transferExit s = some s') (l : Nat) (q : Int) :
    annotsAt s' l q = if l < s.frames.currentLevel then annotsAt s l q else Annots.empty := by
  obtain ⟨caller, callers, _, hcallers, rfl⟩ := transferExit_some h
  exact annotsAt_leaveFrame hcallers rfl l q

theorem frames_declareElem (s : State) (r : Reg) (mapIdx : Option Nat) (id : Nat) (rdonly : Bool) :
    (declareElem s r mapIdx id rdonly).frames = s.frames := by
  cases mapIdx <;> cases r <;> rfl

theorem frames_declareArg (s : State) (r : Reg) (ty : RegType) :
    (declareArg s r ty).frames = s.frames := by
  cases r <;> rfl

theorem frames_declareArgs (s₀ s : State) (helper : Nat) (ids : Nat → Nat) :
    (declareArgs s₀ s helper ids).frames = s.frames := by
  unfold declareArgs
  split_ifs
  · exact frames_declareArg ..
  · exact (frames_declareElem ..).trans (frames_declareElem ..)
  · exact frames_declareArg ..
  · exact frames_declareArg ..
  · exact (frames_declareElem ..).trans ((frames_declareArg ..).trans (frames_declareArg ..))
  · rfl

theorem annotsAt_enterCallback (s : State) (helper entry : Nat) (offsets : List Int)
    (ids : Nat → Nat) (l : Nat) (q : Int) :
    annotsAt (enterCallback s helper entry offsets ids) l q = annotsAt s l q := by
  refine annotsAt_enterFrame (callbackFrame s helper offsets) rfl ?_ l q
  show (declareArgs _ _ _ _).frames = _
  rw [frames_declareArgs, frames_foldl, frames_foldl, frames_foldl]
  · rfl
  · intro s c
    rfl
  · intro s r
    split_ifs
    · rfl
    · exact frames_declareArg ..
  · intro s c
    obtain ⟨dst, src⟩ := c
    cases dst <;> rfl

end Frames

end ZoneVerifier.AnnotationFlow
