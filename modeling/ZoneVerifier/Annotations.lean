import ZoneVerifier.CallReturn
import ZoneVerifier.StackSlots

/-!
# Annotations of stack slots

An open-coded iterator, a dynptr or a saved interrupt flag is an annotation of
the slots it lives in. What an operation on a stack does to the annotations is
all that the results on these objects need: most operations leave them alone,
the ones that write fresh entries drop those of the bytes they write.
-/

set_option autoImplicit false

namespace ZoneVerifier.Annotations
open Ast RegTypes Stack Machine StackOps CallTypes

@[ext]
structure Annots where
  iterator : Option IteratorSlot
  dynptr : Option DynptrSlot
  irqFlag : Option IrqFlagSlot
  deriving DecidableEq

namespace Annots

def empty : Annots := ⟨none, none, none⟩

def ofEntry (sp : SpilledReg) : Annots := ⟨sp.iterator, sp.dynptr, sp.irqFlag⟩

end Annots

def annots (stack : StackState) (q : Int) : Annots :=
  ((stack.slots.find q).map Annots.ofEntry).getD Annots.empty

theorem iterator_annots (stack : StackState) (q : Int) :
    (annots stack q).iterator = getIterator stack q := by
  unfold annots getIterator
  cases stack.slots.find q <;> rfl

section Slots
variable {stack stack' : StackState} {q : Int}

theorem annots_of_find_eq (h : stack'.slots.find q = stack.slots.find q) :
    annots stack' q = annots stack q := by
  unfold annots
  rw [h]

theorem annots_of_find_some (sp : SpilledReg) (h : stack.slots.find q = some sp) :
    annots stack q = Annots.ofEntry sp := by
  unfold annots
  rw [h]
  rfl

theorem annots_of_find_none (h : stack.slots.find q = none) : annots stack q = Annots.empty := by
  unfold annots
  rw [h]
  rfl

theorem annots_of_find_map {f : SpilledReg → SpilledReg}
    (h : stack'.slots.find q = (stack.slots.find q).map f)
    (hf : ∀ sp, Annots.ofEntry (f sp) = Annots.ofEntry sp) : annots stack' q = annots stack q := by
  unfold annots
  rw [h, Option.map_map]
  cases stack.slots.find q with
  | none => rfl
  | some sp => exact hf sp

theorem annots_insert (stack : StackState) (o q : Int) (sp : SpilledReg) :
    annots (stack.insert o sp) q = if q = o then Annots.ofEntry sp else annots stack q := by
  by_cases h : q = o
  · rw [if_pos h, annots_of_find_some sp]
    rw [find_insert, if_pos h]
  · rw [if_neg h, annots_of_find_eq]
    rw [find_insert, if_neg h]

theorem annots_invalidateSlot (stack : StackState) (o q : Int) :
    annots (stack.invalidateSlot o) q = if q = o then Annots.empty else annots stack q :=
  annots_insert stack o q SpilledReg.misc

theorem annots_invalidateSlots (os : List Int) (stack : StackState) (q : Int) :
    annots (os.foldl StackState.invalidateSlot stack) q =
      if q ∈ os then Annots.empty else annots stack q := by
  induction os generalizing stack with
  | nil => rfl
  | cons o os ih =>
    rw [List.foldl_cons, ih, annots_invalidateSlot]
    by_cases hq : q = o
    · simp [hq]
    · simp [hq]

theorem annots_setSlotType (stack : StackState) (o : Int) (ty : RegType) (src : Option Reg)
    (q : Int) : annots (stack.setSlotType o ty src) q = annots stack q := by
  unfold StackState.setSlotType
  cases h : stack.slots.find o with
  | some sp =>
    by_cases hq : q = o
    · refine annots_of_find_map (f := fun sp => { sp with regType := ty }) ?_ fun _ => rfl
      exact if_pos hq
    · exact annots_of_find_eq (if_neg hq)
  | none =>
    by_cases hq : q = o
    · rw [hq, annots_of_find_none h]
      exact annots_of_find_some (SpilledReg.blank ty src .spill) (if_pos rfl)
    · exact annots_of_find_eq (if_neg hq)

theorem annots_foldl {α : Type} {f : StackState → α → StackState} (l : List α)
    (hf : ∀ stack a q, annots (f stack a) q = annots stack q) (stack : StackState) (q : Int) :
    annots (l.foldl f stack) q = annots stack q := by
  induction l generalizing stack with
  | nil => rfl
  | cons a l ih => rw [List.foldl_cons, ih, hf]

theorem annots_updateStoreTypes (stack : StackState) (ty : RegType) (size : MemSize)
    (slot : Option Int) (q : Int) :
    annots (updateStoreTypes stack ty size slot) q = annots stack q := by
  cases slot with
  | none => rfl
  | some slot => exact annots_foldl _ (fun _ _ _ => annots_setSlotType ..) stack q

theorem annots_markScalar (stack : StackState) (off : Int) (n : Nat) (q : Int) :
    annots (markScalar stack off n) q = annots stack q :=
  annots_foldl _ (fun _ _ _ => annots_updateStoreTypes ..) stack q

theorem annots_writeEntries (stack : StackState) (o : Int) (n : Nat) {entry : Nat → SpilledReg}
    (he : ∀ i, Annots.ofEntry (entry i) = Annots.empty) (q : Int) :
    annots (writeEntries stack o n entry) q =
      if o ≤ q ∧ q < o + n then Annots.empty else annots stack q := by
  by_cases hin : o ≤ q ∧ q < o + n
  · rw [if_pos hin, ← he (q - o).toNat]
    apply annots_of_find_some (entry (q - o).toNat)
    rw [find_writeEntries, if_pos hin]
  · rw [if_neg hin]
    apply annots_of_find_eq
    rw [find_writeEntries, if_neg hin]

/-- The slots of the spills a write at `[o, o + n)` reaches into. -/
def InScrubbedSlot (stack : StackState) (o : Int) (n : Nat) (q : Int) : Prop :=
  StackState.slotBase o ≤ StackState.slotBase q ∧
    StackState.slotBase q ≤ StackState.slotBase (o + n - 1) ∧
    stack.getSlotKind (StackState.slotBase q) = some .spill

instance (stack : StackState) (o : Int) (n : Nat) (q : Int) :
    Decidable (InScrubbedSlot stack o n q) := inferInstanceAs (Decidable (_ ∧ _ ∧ _))

theorem annots_of_find_wiped {P Q : Prop} [Decidable P] [Decidable Q] {sp : SpilledReg}
    (hsp : Annots.ofEntry sp = Annots.empty)
    (h : stack'.slots.find q = if P then some sp else stack.slots.find q)
    (hP : P ↔ Q ∧ (stack.slots.find q).isSome = true) :
    annots stack' q = if Q then Annots.empty else annots stack q := by
  split_ifs with hq
  · by_cases hs : (stack.slots.find q).isSome = true
    · rw [if_pos (hP.2 ⟨hq, hs⟩)] at h
      exact (annots_of_find_some sp h).trans hsp
    · rw [if_neg fun hp => hs (hP.1 hp).2] at h
      exact annots_of_find_none (h.trans (Option.not_isSome_iff_eq_none.1 hs))
  · exact annots_of_find_eq (h.trans (if_neg fun hp => hq (hP.1 hp).1))

theorem annots_scrub (stack : StackState) (o : Int) (n : Nat) (q : Int) :
    annots (stack.scrubSpilledSlotsForWrite o n) q =
      if InScrubbedSlot stack o n q then Annots.empty else annots stack q := by
  refine annots_of_find_wiped rfl (find_scrub stack o n q) ?_
  unfold Scrubbed InScrubbedSlot
  tauto

/-- The bytes of the slot behind a narrow aligned store; known zeroes stay. -/
def InRemainder (stack : StackState) (o : Int) (size : MemSize) (q : Int) : Prop :=
  o + size.bytes ≤ q ∧ q < o + 8 ∧ stack.getSlotKind q ≠ some .zero

instance (stack : StackState) (o : Int) (size : MemSize) (q : Int) :
    Decidable (InRemainder stack o size q) := inferInstanceAs (Decidable (_ ∧ _ ∧ _))

theorem annots_scrubRemainder (stack : StackState) (o : Int) (size : MemSize) (q : Int) :
    annots (scrubRemainder stack o size) q =
      if InRemainder stack o size q then Annots.empty else annots stack q := by
  refine annots_of_find_wiped rfl (find_scrubRemainder stack o size q) ?_
  unfold InRemainder
  tauto

theorem annots_mapValues (f : SpilledReg → SpilledReg)
    (hf : ∀ sp, Annots.ofEntry (f sp) = Annots.ofEntry sp) (stack : StackState) (q : Int) :
    annots { stack with slots := stack.slots.mapValues f } q = annots stack q :=
  annots_of_find_map rfl hf

theorem annots_modify {f : SpilledReg → SpilledReg} {g : Annots → Annots}
    (h : ∀ sp, Annots.ofEntry (f sp) = g (Annots.ofEntry sp)) (stack : StackState) (o q : Int) :
    annots { stack with slots := stack.slots.modify o f } q =
      if q = o ∧ (stack.slots.find o).isSome = true then g (annots stack q)
      else annots stack q := by
  by_cases hq : q = o
  · subst hq
    have hfind : (stack.slots.modify q f).find q = (stack.slots.find q).map f := if_pos rfl
    cases hs : stack.slots.find q with
    | none =>
      rw [hs] at hfind
      have hno : ¬ (q = q ∧ (none : Option SpilledReg).isSome = true) := by simp
      rw [if_neg hno]
      exact (annots_of_find_none hfind).trans (annots_of_find_none hs).symm
    | some sp =>
      rw [hs] at hfind
      rw [if_pos ⟨rfl, rfl⟩, annots_of_find_some sp hs, ← h sp]
      exact annots_of_find_some (f sp) hfind
  · rw [if_neg fun h => hq h.1]
    exact annots_of_find_eq (if_neg hq)

theorem annots_putIterator (stack : StackState) (o : Int) (it : Option IteratorSlot) (q : Int) :
    annots (putIterator stack o it) q =
      if q = o ∧ (stack.slots.find o).isSome = true then { annots stack q with iterator := it }
      else annots stack q :=
  annots_modify (g := fun a => { a with iterator := it }) (fun _ => rfl) stack o q

theorem annots_putDynptr (stack : StackState) (o : Int) (d : Option DynptrSlot) (q : Int) :
    annots (putDynptr stack o d) q =
      if q = o ∧ (stack.slots.find o).isSome = true then { annots stack q with dynptr := d }
      else annots stack q :=
  annots_modify (g := fun a => { a with dynptr := d }) (fun _ => rfl) stack o q

theorem annots_putIrqFlag (stack : StackState) (o : Int) (flag : Option IrqFlagSlot) (q : Int) :
    annots (putIrqFlag stack o flag) q =
      if q = o ∧ (stack.slots.find o).isSome = true then { annots stack q with irqFlag := flag }
      else annots stack q :=
  annots_modify (g := fun a => { a with irqFlag := flag }) (fun _ => rfl) stack o q

end Slots

section Stores
variable (stack : StackState) (o : Int) (size : MemSize) (q : Int)

/-- The bytes whose annotations a store at `o` drops: those it writes, the rest
of the slot behind an aligned store, and the spills an unaligned one reaches
into. -/
def StoreDrops (aligned : Bool) : Prop :=
  (o ≤ q ∧ q < o + size.bytes) ∨
    if aligned then InRemainder stack o size q else InScrubbedSlot stack o size.bytes q

instance (aligned : Bool) : Decidable (StoreDrops stack o size q aligned) := by
  unfold StoreDrops
  infer_instance

theorem ofEntry_bytes {first : SpilledReg} (hf : Annots.ofEntry first = Annots.empty)
    (kind : StackSlotKind) (i : Nat) :
    Annots.ofEntry (if i = 0 then first else plainEntry size kind) = Annots.empty := by
  split_ifs
  · exact hf
  · rfl

theorem annots_alignedStore {first : SpilledReg} (hf : Annots.ofEntry first = Annots.empty)
    (kind : StackSlotKind) :
    annots (if size.bytes < 8 then scrubRemainder (spillBytes stack o size first kind) o size
        else spillBytes stack o size first kind) q =
      if StoreDrops stack o size q true then Annots.empty else annots stack q := by
  have hwrite := annots_writeEntries stack o size.bytes (ofEntry_bytes size hf kind) q
  have hrem : ¬ (o ≤ q ∧ q < o + size.bytes) →
      (InRemainder (spillBytes stack o size first kind) o size q ↔ InRemainder stack o size q) := by
    intro hin
    unfold InRemainder StackState.getSlotKind spillBytes
    rw [find_writeEntries, if_neg hin]
  by_cases hin : o ≤ q ∧ q < o + size.bytes
  · have hdrop : StoreDrops stack o size q true := Or.inl hin
    rw [if_pos hdrop]
    rw [if_pos hin] at hwrite
    split_ifs
    · rw [annots_scrubRemainder, if_neg fun h => by have := h.1; omega]
      exact hwrite
    · exact hwrite
  · rw [if_neg hin] at hwrite
    by_cases hr : InRemainder stack o size q
    · have hdrop : StoreDrops stack o size q true := Or.inr hr
      rw [if_pos hdrop]
      have hlt : size.bytes < 8 := by
        have h1 := hr.1
        have h2 := hr.2.1
        omega
      rw [if_pos hlt, annots_scrubRemainder, if_pos ((hrem hin).2 hr)]
    · have hkeep : ¬ StoreDrops stack o size q true := by
        rintro (h | h)
        · exact hin h
        · exact hr h
      rw [if_neg hkeep]
      split_ifs
      · rw [annots_scrubRemainder, if_neg fun h => hr ((hrem hin).1 h)]
        exact hwrite
      · exact hwrite

theorem annots_unalignedStore {entry : Nat → SpilledReg}
    (he : ∀ i, Annots.ofEntry (entry i) = Annots.empty) :
    annots (writeEntries (stack.scrubSpilledSlotsForWrite o size.bytes) o size.bytes entry) q =
      if StoreDrops stack o size q false then Annots.empty else annots stack q := by
  rw [annots_writeEntries _ _ _ he, annots_scrub]
  by_cases hin : o ≤ q ∧ q < o + size.bytes
  · have hdrop : StoreDrops stack o size q false := Or.inl hin
    rw [if_pos hin, if_pos hdrop]
  · rw [if_neg hin]
    by_cases hs : InScrubbedSlot stack o size.bytes q
    · have hdrop : StoreDrops stack o size q false := Or.inr hs
      rw [if_pos hs, if_pos hdrop]
    · have hkeep : ¬ StoreDrops stack o size q false := by
        rintro (h | h)
        · exact hin h
        · exact hs h
      rw [if_neg hs, if_neg hkeep]

end Stores

section Frames
variable {s : State} {level l : Nat} {f : StackState → StackState} {q : Int}

theorem get_modifyAt_of_ne (fs : FrameStack) {level l : Nat} (g : CallFrame → CallFrame)
    (h : l ≠ level) : (fs.modifyAt level g).get l = fs.get l := by
  unfold FrameStack.modifyAt
  split_ifs with hlevel
  · rw [FrameStack.get_eq, FrameStack.get_eq]
    have hcur : (fs.modifyCurrent g).currentLevel = fs.currentLevel := rfl
    rw [hcur, if_neg (hlevel ▸ h), if_neg (hlevel ▸ h)]
    rfl
  · have hcur : FrameStack.currentLevel { fs with
        callers := (fs.callers.reverse.modify level g).reverse } = fs.currentLevel := by
      simp [FrameStack.currentLevel]
    rw [FrameStack.get_eq, FrameStack.get_eq, hcur, List.reverse_reverse,
      List.getElem?_modify_ne g _ (Ne.symm h)]

theorem stackAt_of_get {frame : CallFrame} (h : s.frames.get level = some frame) :
    stackAt s level = frame.stack := by
  unfold stackAt
  rw [h]

theorem stackAt_of_get_none (h : s.frames.get level = none) :
    stackAt s level = StackState.empty := by
  unfold stackAt
  rw [h]

theorem get_isSome (fs : FrameStack) (level : Nat) :
    (fs.get level).isSome = true ↔ level ≤ fs.currentLevel := by
  unfold FrameStack.get FrameStack.currentLevel
  rw [isSome_getElem?, List.length_reverse, List.length_cons]
  exact Nat.lt_succ_iff

theorem stackAt_modifyStackAt (s : State) (level : Nat) (f : StackState → StackState) (l : Nat) :
    stackAt (modifyStackAt s level f) l =
      if l = level ∧ level ≤ s.frames.currentLevel then f (stackAt s l) else stackAt s l := by
  by_cases hl : l = level
  · subst hl
    have hget : (modifyStackAt s l f).frames.get l =
        (s.frames.get l).map fun c => { c with stack := f c.stack } :=
      FrameStack.get_modifyAt ..
    cases hframe : s.frames.get l with
    | none =>
      rw [hframe] at hget
      have hle : ¬ l ≤ s.frames.currentLevel := by
        rw [← get_isSome, hframe]
        exact Bool.noConfusion
      rw [if_neg fun h => hle h.2, stackAt_of_get_none hget, stackAt_of_get_none hframe]
    | some frame =>
      rw [hframe] at hget
      have hle : l ≤ s.frames.currentLevel := by
        rw [← get_isSome, hframe]
        rfl
      rw [if_pos ⟨rfl, hle⟩, stackAt_of_get hget, stackAt_of_get hframe]
  · rw [if_neg fun h => hl h.1]
    have hget : (modifyStackAt s level f).frames.get l = s.frames.get l :=
      get_modifyAt_of_ne s.frames _ hl
    unfold stackAt
    rw [hget]

def annotsAt (s : State) (level : Nat) (q : Int) : Annots := annots (stackAt s level) q

theorem annotsAt_of_frames {s s' : State} (h : s'.frames = s.frames) (l : Nat) (q : Int) :
    annotsAt s' l q = annotsAt s l q := by
  unfold annotsAt stackAt
  rw [h]

theorem annotsAt_modifyStackAt (s : State) (level : Nat) (f : StackState → StackState) (l : Nat)
    (q : Int) : annotsAt (modifyStackAt s level f) l q =
      if l = level ∧ level ≤ s.frames.currentLevel then annots (f (stackAt s l)) q
      else annotsAt s l q := by
  unfold annotsAt
  rw [stackAt_modifyStackAt]
  split_ifs <;> rfl

theorem annotsAt_modifyStackAt_of_keeps (hf : ∀ stack q, annots (f stack) q = annots stack q)
    (s : State) (level l : Nat) (q : Int) :
    annotsAt (modifyStackAt s level f) l q = annotsAt s l q := by
  rw [annotsAt_modifyStackAt]
  split_ifs
  · exact hf _ q
  · rfl

theorem annotsAt_map {g : CallFrame → CallFrame}
    (hg : ∀ c q, annots (g c).stack q = annots c.stack q) {s s' : State}
    (h : s'.frames = s.frames.map g) (l : Nat) (q : Int) : annotsAt s' l q = annotsAt s l q := by
  have hget : s'.frames.get l = (s.frames.get l).map g := by
    rw [h]
    show ((s.frames.current :: s.frames.callers).map g).reverse[l]? = _
    rw [← List.map_reverse, List.getElem?_map]
    rfl
  unfold annotsAt stackAt
  rw [hget]
  cases s.frames.get l with
  | none => rfl
  | some c => exact hg c q

end Frames

end ZoneVerifier.Annotations
