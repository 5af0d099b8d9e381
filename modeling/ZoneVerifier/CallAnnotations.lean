import ZoneVerifier.AnnotationFlow
import ZoneVerifier.LockFlags

/-!
# What calls do to annotations

The types a call sweeps, the flags of its prototype and its result leave the
objects on the stack alone; the bytes it writes to the stack lose their
annotations. Only the declared effects create or end an object. An iterator is
compared up to how far it has advanced.
-/

set_option autoImplicit false

namespace ZoneVerifier.Marks

def isAllocMem : RegTypes.RegType → Bool
  | .ptrToAllocMem .. | .ptrToAllocMemOrNull .. => true
  | _ => false

end ZoneVerifier.Marks

namespace ZoneVerifier.CallAnnotations
open RegTypes Stack Machine StackOps MemTransfer Signatures CallTypes CallTransfer Annotations
open AnnotationFlow Marks
open Ast hiding Instr

section Core
variable {a a' : Annots} {P : Prop}

def iteratorCore (it : IteratorSlot) : IteratorSlot :=
  { it with state := .active, depth := 0, untrusted := false }

def core (a : Annots) : Annots := { a with iterator := a.iterator.map iteratorCore }

def coreAt (s : State) (l : Nat) (q : Int) : Annots := core (annotsAt s l q)

structure SameCore (s s' : State) : Prop where
  level : s'.frames.currentLevel = s.frames.currentLevel
  slots : ∀ l q, coreAt s' l q = coreAt s l q

theorem SameCore.of_same {s s' : State} (h : SameAnnots s s') : SameCore s s' :=
  ⟨h.level, fun l q => by unfold coreAt; rw [h.slots]⟩

theorem SameCore.refl (s : State) : SameCore s s := .of_same (.refl s)

theorem SameCore.trans {s₁ s₂ s₃ : State} (h : SameCore s₁ s₂) (h' : SameCore s₂ s₃) :
    SameCore s₁ s₃ :=
  ⟨h'.level.trans h.level, fun l q => (h'.slots l q).trans (h.slots l q)⟩

/-- The annotations are gone in one case and kept in the other. -/
structure Drops (P : Prop) (a a' : Annots) : Prop where
  gone : P → a' = Annots.empty
  kept : ¬ P → a' = a

theorem Drops.trans {Q : Prop} {a'' : Annots} (h : Drops P a a') (h' : Drops Q a' a'') :
    Drops (P ∨ Q) a a'' := by
  refine ⟨fun hpq => ?_, fun hpq => ?_⟩
  · by_cases hq : Q
    · exact h'.gone hq
    · rw [h'.kept hq, h.gone (hpq.resolve_right hq)]
  · rw [h'.kept fun hq => hpq (Or.inr hq), h.kept fun hp => hpq (Or.inl hp)]

theorem Drops.of_not (hp : ¬ P) (h : a' = a) : Drops P a a' :=
  ⟨fun h => absurd h hp, fun _ => h⟩

theorem Drops.of_eq (h : a' = a) : Drops False a a' := .of_not not_false h

theorem Drops.of_ite [Decidable P] (h : a' = if P then Annots.empty else a) : Drops P a a' := by
  refine ⟨fun hp => ?_, fun hp => ?_⟩
  · rw [h, if_pos hp]
  · rw [h, if_neg hp]

theorem Drops.empty_or_eq (h : Drops P a a') :
    a' = Annots.empty ∨ a' = a := (Classical.em P).imp h.gone h.kept

end Core

section Sweeps
variable (s : State)

theorem sameAnnots_invalidateRef (id : Nat) : SameAnnots s (s.invalidateRef id) := by
  refine SameAnnots.trans ?_ (sameAnnots_modifyStack (fun stack q => ?_) _)
  · exact .of_frames rfl
  · refine annots_mapValues _ (fun sp => ?_) stack q
    split_ifs <;> rfl

def sweepCaller (f : CallFrame) : CallFrame :=
  { f with callerTypes := { regs := fun i => sweepSaved (f.callerTypes.regs i) } }

def sweptPackets (s : State) : State :=
  let s := State.modifyStack { s with types := { regs := fun i => sweepReg (s.types.regs i) } }
    (·.invalidatePacketPointers)
  { s with frames := s.frames.map sweepCaller }

end Sweeps

section Closed
variable {allowed : RegType → Prop} {R : State → State → Prop} (s : State)

/-- A relation that holds as long as types and frames stay, and over giving a register an
allowed type. -/
structure CallClosed (allowed : RegType → Prop) (R : State → State → Prop) : Prop where
  plain : ∀ ty, isAllocMem ty = false → allowed ty
  trans : ∀ {s t u}, R s t → R t u → R s u
  same : ∀ {s s' : State}, s'.types = s.types → s'.frames = s.frames → R s s'
  sets : ∀ s r ty, allowed ty → R s (setType s r ty)

/-- It holds over the sweeps of a call as well. -/
structure SweepClosed (allowed : RegType → Prop) (R : State → State → Prop) : Prop
    extends CallClosed allowed R where
  ref : ∀ s id, R s (State.invalidateRef s id)
  converted : ∀ s id, R s (convertRefToNonOwning s id)
  slices : ∀ s touched, R s (invalidateDynptrSlices s touched)
  packets : ∀ s, R s (sweptPackets s)

theorem plain_perCpuPtrResult {env : CallEnv} {inTypes : TypeState} {helper id : Nat} {ty : RegType}
    (h : perCpuPtrResult env inTypes helper id = some ty) : isAllocMem ty = false := by
  unfold perCpuPtrResult at h
  split_ifs at h
  · obtain ⟨p, _, rfl⟩ := Option.map_eq_some_iff.1 h
    rfl
  · obtain ⟨p, _, rfl⟩ := Option.map_eq_some_iff.1 h
    rfl

section Calls
variable (hR : CallClosed allowed R)
include hR

theorem CallClosed.refl : R s s := hR.same rfl rfl

theorem CallClosed.setPlain (r : Reg) {ty : RegType} (h : isAllocMem ty = false) :
    R s (setType s r ty) := hR.sets s r ty (hR.plain ty h)

omit hR in
theorem CallClosed.ite (_ : CallClosed allowed R) {p : Prop} [Decidable p] {s t u : State}
    (ht : R s t) (hu : R s u) : R s (if p then t else u) := by
  split_ifs
  · exact ht
  · exact hu

theorem CallClosed.foldl {α : Type} {f : State → α → State} (hf : ∀ s a, R s (f s a))
    (l : List α) (s : State) : R s (l.foldl f s) := by
  induction l generalizing s with
  | nil => exact hR.refl s
  | cons a l ih => exact hR.trans (hf s a) (ih _)

theorem CallClosed.setAcquired (id : Nat) (r : Reg) {ty : RegType} (h : isAllocMem ty = false) :
    R s (setType (acquireRef s id) r ty) :=
  hR.trans (t := acquireRef s id) (hR.same rfl rfl) (hR.setPlain _ r h)

theorem closed_mapLookupResult (env : CallEnv) (inTypes : TypeState) (helper id : Nat) :
    R s (mapLookupResult env inTypes s helper id) := by
  unfold mapLookupResult
  dsimp only
  split
  · exact hR.setPlain s .r0 rfl
  · refine hR.ite (hR.setAcquired s id .r0 rfl) (hR.ite ?_ (hR.setPlain s .r0 rfl))
    exact hR.trans (hR.setPlain s .r0 rfl) (hR.same rfl rfl)

theorem closed_scratchTypes : R s (scratchTypes s) :=
  hR.foldl (fun s r => hR.setPlain s r rfl) scratchRegs s

theorem closed_narrowResult (env : CallEnv) (helper id : Nat) :
    R s (narrowResult env s helper id) := by
  iterate 7 refine hR.ite (hR.same rfl rfl) ?_
  exact hR.ite (hR.setPlain s .r0 rfl) (hR.refl s)

theorem closed_applyReturnBounds (env : CallEnv) (helper id : Nat) :
    R s (applyReturnBounds env s helper id) := by
  refine hR.trans ?_ (closed_narrowResult _ hR env helper id)
  exact hR.ite (hR.refl s) (hR.same rfl rfl)

theorem closed_identifyResult (id : Nat) : R s (identifyResult s id) :=
  hR.ite (hR.same rfl rfl) (hR.same rfl rfl)

theorem closed_resetReg (r : Reg) : R s (resetReg s r) := by
  refine hR.same ?_ ?_ <;> cases r <;> rfl

theorem closed_resetScratch : R s (resetScratch s) :=
  hR.foldl (fun s r => closed_resetReg s hR r) scratchRegs s

theorem closed_dropPtrConstOffs : R s (dropPtrConstOffs s) := by
  refine hR.foldl (fun s r => ?_) callerSaved s
  exact hR.same rfl rfl

theorem closed_finish (inTypes : TypeState) (invalidates : Bool) :
    R s (nextPc (if invalidates then
      modifyDomain (forgetPackets inTypes (dropPtrConstOffs (resetScratch s))) resetPacketAnchors
    else dropPtrConstOffs (resetScratch s))) := by
  have hclear := hR.trans (closed_resetScratch s hR) (closed_dropPtrConstOffs _ hR)
  have hforget : ∀ t, R t (forgetPackets inTypes t) := by
    refine hR.foldl (fun s r => ?_) Reg.all
    exact hR.ite (hR.same rfl rfl) (hR.refl s)
  refine hR.trans (hR.ite ?_ hclear) (hR.same rfl rfl)
  exact hR.trans hclear (hR.trans (hforget _) (hR.same rfl rfl))

end Calls

section Sweeps
variable (hR : SweepClosed allowed R)
include hR

theorem closed_released (refId : Nat) : R s ((s.releaseRef refId).invalidateRef refId) :=
  hR.trans (t := s.releaseRef refId) (hR.same rfl rfl) (hR.ref _ refId)

theorem closed_invalidatePackets : R s (invalidatePackets s) :=
  hR.trans (hR.packets s) (hR.trans (hR.slices _ _) (hR.same rfl rfl))

theorem closed_dynptrWriteSweep (inTypes : TypeState) : R s (dynptrWriteSweep inTypes s) := by
  unfold dynptrWriteSweep
  split
  · refine hR.ite ?_ (hR.refl s)
    split
    · exact hR.ite (hR.slices _ _) (hR.refl s)
    · exact hR.refl s
  · exact hR.refl s

variable (env : CallEnv) (inTypes : TypeState) {helper id : Nat}
  (hmem : ∀ memSize, allowed (.ptrToAllocMemOrNull id memSize none none false))
  (hskb : helper = Helper.skbLoadBytes → R s (skbLoadBytesClobber inTypes s))
include hmem hskb

theorem closed_legacyResult : R s (legacyResult env inTypes s helper id) := by
  refine hR.ite (closed_mapLookupResult s hR.1 env inTypes helper id) ?_
  refine hR.ite (hR.setAcquired s id .r0 rfl) ?_
  iterate 5 refine hR.ite (hR.setPlain s .r0 rfl) ?_
  refine hR.ite (hR.setAcquired s id .r0 rfl) (hR.ite ?_ (hR.ite (hR.setPlain s .r0 rfl) ?_))
  · split
    · exact closed_released s hR _
    · exact hR.refl s
  · by_cases h : helper = Helper.skbLoadBytes
    · rw [if_pos h]
      exact hskb h
    · rw [if_neg h]
      refine hR.ite (hR.sets s .r0 _ (hmem _)) ?_
      split
      · exact hR.ite (hR.setPlain s .r0 rfl) (hR.refl s)
      · exact hR.setPlain s .r0 rfl

theorem closed_updateRest (routed : Bool) :
    R s (match if routed then none else perCpuPtrResult env inTypes helper id with
      | some ty => setType s .r0 ty
      | none =>
        let s := if routed then s else legacyResult env inTypes s helper id
        let s := scratchTypes s
        let s := if helperInvalidatesPackets helper then invalidatePackets s else s
        if helper = Helper.dynptrWrite then dynptrWriteSweep inTypes s else s) := by
  split
  · next ty hty =>
    split_ifs at hty
    exact hR.setPlain s .r0 (plain_perCpuPtrResult hty)
  · have hlegacy : R s (if routed then s else legacyResult env inTypes s helper id) :=
      hR.ite (hR.refl s) (closed_legacyResult s hR env inTypes hmem hskb)
    have hscratch := hR.trans hlegacy (closed_scratchTypes _ hR.1)
    have hpackets := hR.trans hscratch <|
      hR.ite (p := helperInvalidatesPackets helper = true) (closed_invalidatePackets _ hR) (hR.refl _)
    exact hR.trans hpackets (hR.ite (closed_dynptrWriteSweep _ hR inTypes) (hR.refl _))

end Sweeps

end Closed

section Sweeps
variable (s : State)

theorem sameAnnots_sweptPackets : SameAnnots s (sweptPackets s) := by
  refine SameAnnots.trans (SameAnnots.trans ?_ (sameAnnots_modifyStack (fun stack q => ?_) _))
    (SameAnnots.of_map (g := sweepCaller) (fun _ _ => rfl) rfl)
  · exact .of_frames rfl
  · refine annots_mapValues _ (fun sp => ?_) stack q
    split_ifs <;> rfl

theorem sweepClosed_sameAnnots : SweepClosed (fun _ => True) SameAnnots where
  plain _ _ := trivial
  trans := .trans
  same _ := .of_frames
  sets _ _ _ _ := .of_frames rfl
  ref := sameAnnots_invalidateRef
  converted _ _ := .of_frames rfl
  slices := sameAnnots_invalidateDynptrSlices
  packets := sameAnnots_sweptPackets

theorem callClosed_frames : CallClosed (fun _ => True) fun s s' => s'.frames = s.frames where
  plain _ _ := trivial
  trans h h' := h'.trans h
  same _ h := h
  sets _ _ _ _ := rfl

theorem frames_refResult (flags : CallFlags) (id : Nat) (orNull plain : Option Nat → RegType) :
    (refResult s flags id orNull plain).frames = s.frames := by
  unfold refResult
  dsimp only
  split_ifs <;> rfl

theorem frames_applyRet (proto : CallProto) (id : Nat) :
    (applyRet s proto id).1.frames = s.frames := by
  unfold applyRet
  split <;> first | rfl | exact frames_refResult ..

end Sweeps

section Buffers
variable {l : Nat} (inTypes : TypeState) (args : List ArgKind) (s : State) (stack : StackState)

def InI16 (o : Int) : Prop := -2^15 ≤ o ∧ o < 2^15

instance (o : Int) : Decidable (InI16 o) := inferInstanceAs (Decidable (_ ∧ _))

/-- The slots a buffer of `n` bytes at `off` takes the annotations from. -/
def BufferDrops (off : Int) (n : Nat) (q : Int) : Prop :=
  (InI16 off ∧ InScrubbedSlot stack off n q) ∨ (off ≤ q ∧ q < off + n ∧ InI16 q)

instance (stack : StackState) (off : Int) (n : Nat) (q : Int) :
    Decidable (BufferDrops stack off n q) := inferInstanceAs (Decidable (_ ∨ _))

theorem annots_clobberRange (off : Int) (n : Nat) (q : Int) :
    annots ((List.range n).foldl (fun stack (i : Nat) =>
        if -2^15 ≤ off + (i : Int) ∧ off + (i : Int) < 2^15 then
          (updateStoreTypes stack .scalarValue .u8 (some (off + (i : Int)))).invalidateSlot
            (off + (i : Int))
        else stack) stack) q =
      if off ≤ q ∧ q < off + n ∧ InI16 q then Annots.empty else annots stack q := by
  induction n with
  | zero =>
    rw [if_neg fun h => by have := h.1; have := h.2.1; push_cast at *; omega]
    rfl
  | succ n ih =>
    rw [List.range_succ, List.foldl_append, List.foldl_cons, List.foldl_nil]
    by_cases hslot : -2^15 ≤ off + (n : Int) ∧ off + (n : Int) < 2^15
    · rw [if_pos hslot, annots_invalidateSlot, annots_updateStoreTypes, ih]
      by_cases hq : q = off + n
      · have hi : InI16 q := by
          rw [hq]
          exact hslot
        rw [if_pos hq, if_pos ⟨by omega, by push_cast; omega, hi⟩]
      · rw [if_neg hq]
        by_cases hin : off ≤ q ∧ q < off + n ∧ InI16 q
        · rw [if_pos hin, if_pos ⟨hin.1, by push_cast; omega, hin.2.2⟩]
        · rw [if_neg hin, if_neg]
          rintro ⟨h1, h2, h3⟩
          exact hin ⟨h1, by omega, h3⟩
    · rw [if_neg hslot, ih]
      by_cases hin : off ≤ q ∧ q < off + n ∧ InI16 q
      · rw [if_pos hin, if_pos ⟨hin.1, by push_cast; omega, hin.2.2⟩]
      · rw [if_neg hin, if_neg]
        rintro ⟨h1, h2, h3⟩
        have hne : q ≠ off + n := fun h => hslot (h ▸ h3)
        exact hin ⟨h1, by omega, h3⟩

theorem annots_clobberBytes (off : Int) (n : Nat) (q : Int) :
    annots (clobberBytes stack off n) q =
      if BufferDrops stack off n q then Annots.empty else annots stack q := by
  unfold clobberBytes
  rw [annots_clobberRange]
  by_cases hin : off ≤ q ∧ q < off + n ∧ InI16 q
  · have hdrop : BufferDrops stack off n q := Or.inr hin
    rw [if_pos hin, if_pos hdrop]
  · rw [if_neg hin]
    by_cases hoff : -2^15 ≤ off ∧ off < 2^15
    · rw [if_pos hoff, annots_scrub]
      by_cases hs : InScrubbedSlot stack off n q
      · have hdrop : BufferDrops stack off n q := Or.inl ⟨hoff, hs⟩
        rw [if_pos hs, if_pos hdrop]
      · rw [if_neg hs, if_neg]
        rintro (h | h)
        · exact hs h.2
        · exact hin h
    · rw [if_neg hoff, if_neg]
      rintro (h | h)
      · exact hoff h.1
      · exact hin h

/-- The frame, the offset and the size of the stack buffer behind a pair of
arguments the callee writes through. -/
def pairBuffer (inTypes : TypeState) (args : List ArgKind) (s : State) (pair : MemSizePair) :
    Option (Nat × Int × Nat) :=
  if (args[argIndex pair.ptrReg]?).any isUninitMem then
    match inTypes.get pair.ptrReg, s.domain.getDistanceFixed pair.ptrReg .r10 with
    | .ptrToStack level, some off =>
      let size := (s.domain.getInterval pair.sizeReg).2
      if size ≠ 2^63 - 1 ∧ 0 < size then some (level, off, min size.toNat 512) else none
    | _, _ => none
  else none

theorem initializePair_eq (pair : MemSizePair) : initializePair inTypes args s pair =
      match pairBuffer inTypes args s pair with
      | some (level, off, n) => modifyStackAt s level fun stack => clobberBytes stack off n
      | none => s := by
  unfold initializePair pairBuffer
  split_ifs
  · generalize inTypes.get pair.ptrReg = ty
    generalize s.domain.getDistanceFixed pair.ptrReg .r10 = dist
    cases dist with
    | none => cases ty <;> rfl
    | some off =>
      cases ty <;> try rfl
      dsimp only
      split_ifs <;> rfl
  · rfl

def BufferHits (s : State) (buffer : Option (Nat × Int × Nat)) (l : Nat) (q : Int) : Prop :=
  ∃ off n, buffer = some (l, off, n) ∧ BufferDrops (stackAt s l) off n q

theorem drops_buffer {hits : Int → Nat → Prop} {f : Int → Nat → StackState → StackState}
    (buffer : Option (Nat × Int × Nat)) (hl : l ≤ s.frames.currentLevel) (q : Int)
    (hf : ∀ off n, Drops (hits off n) (annots (stackAt s l) q) (annots (f off n (stackAt s l)) q)) :
    Drops (∃ off n, buffer = some (l, off, n) ∧ hits off n) (annotsAt s l q)
      (annotsAt (match buffer with
        | some (level, off, n) => modifyStackAt s level (f off n)
        | none => s) l q) := by
  cases buffer with
  | none =>
    refine ⟨?_, fun _ => rfl⟩
    rintro ⟨_, _, h, _⟩
    cases h
  | some b =>
    obtain ⟨level, off, n⟩ := b
    rw [annotsAt_modifyStackAt]
    refine ⟨fun ⟨off', n', h, hd⟩ => ?_, fun h => ?_⟩
    · cases h
      rw [if_pos ⟨rfl, hl⟩]
      exact (hf off n).gone hd
    · by_cases hlevel : l = level ∧ level ≤ s.frames.currentLevel
      · rw [if_pos hlevel]
        exact (hf off n).kept fun hd => h ⟨off, n, by rw [hlevel.1], hd⟩
      · rw [if_neg hlevel]

theorem drops_initializePair (pair : MemSizePair) (hl : l ≤ s.frames.currentLevel) (q : Int) :
    Drops (BufferHits s (pairBuffer inTypes args s pair) l q) (annotsAt s l q)
      (annotsAt (initializePair inTypes args s pair) l q) := by
  rw [initializePair_eq]
  exact drops_buffer s _ hl q fun off n => .of_ite (annots_clobberBytes _ off n q)

theorem currentLevel_initializePair (pair : MemSizePair) :
    (initializePair inTypes args s pair).frames.currentLevel = s.frames.currentLevel := by
  rw [initializePair_eq]
  split
  · exact currentLevel_modifyStackAt ..
  · rfl

def BuffersHit (inTypes : TypeState) (args : List ArgKind) (l : Nat) (q : Int) :
    State → List MemSizePair → Prop
  | _, [] => False
  | s, pair :: pairs => BufferHits s (pairBuffer inTypes args s pair) l q ∨
      BuffersHit inTypes args l q (initializePair inTypes args s pair) pairs

theorem drops_initializePairs (pairs : List MemSizePair) (s : State)
    (hl : l ≤ s.frames.currentLevel) (q : Int) :
    Drops (BuffersHit inTypes args l q s pairs) (annotsAt s l q)
      (annotsAt (pairs.foldl (initializePair inTypes args) s) l q) := by
  induction pairs generalizing s with
  | nil => exact .of_eq rfl
  | cons pair pairs ih =>
    have hl' : l ≤ (initializePair inTypes args s pair).frames.currentLevel := by
      rw [currentLevel_initializePair]
      exact hl
    exact (drops_initializePair inTypes args s pair hl q).trans (ih _ hl')

def skbBuffer (inTypes : TypeState) (s : State) : Option (Nat × Int × Nat) :=
  match inTypes.get .r3, s.domain.getDistanceFixed .r3 .r10 with
  | .ptrToStack level, some off =>
    let hi := (s.domain.getInterval .r4).2
    some (level, off, (if hi ≤ 0xFFFF then toI16 hi else 0).toNat)
  | _, _ => none

def skbClobber (off : Int) (n : Nat) : StackState :=
  if 0 < n then
    (List.range n).foldl (fun stack (i : Nat) => stack.invalidateSlot (toI16 (off + (i : Int))))
      (if -2^15 ≤ off ∧ off < 2^15 then stack.scrubSpilledSlotsForWrite off n else stack)
  else stack

theorem skbLoadBytesClobber_eq :
    skbLoadBytesClobber inTypes s =
      match skbBuffer inTypes s with
      | some (level, off, n) => modifyStackAt s level fun stack => skbClobber stack off n
      | none => s := by
  unfold skbLoadBytesClobber skbBuffer
  generalize inTypes.get .r3 = ty
  generalize s.domain.getDistanceFixed .r3 .r10 = dist
  cases dist with
  | none => cases ty <;> rfl
  | some off =>
    cases ty with
    | ptrToStack level =>
      dsimp only
      congr 1
      funext stack
      unfold skbClobber
      simp only [Int.lt_toNat, Nat.cast_zero]
    | _ => rfl

def SkbDrops (off : Int) (n : Nat) (q : Int) : Prop :=
  0 < n ∧ ((InI16 off ∧ InScrubbedSlot stack off n q) ∨ ∃ i < n, q = toI16 (off + (i : Int)))

theorem drops_skbClobber (off : Int) (n : Nat) (q : Int) :
    Drops (SkbDrops stack off n q) (annots stack q) (annots (skbClobber stack off n) q) := by
  unfold skbClobber
  by_cases hn : 0 < n
  · rw [if_pos hn]
    have hrange := annots_invalidateRange
      (if -2^15 ≤ off ∧ off < 2^15 then stack.scrubSpilledSlotsForWrite off n else stack) off
      (off + n) q
    unfold invalidateRange at hrange
    rw [show (off + n - off).toNat = n by omega] at hrange
    have hin : InRange off (off + n) q ↔ ∃ i < n, q = toI16 (off + (i : Int)) := by
      unfold InRange
      rw [show (off + n - off).toNat = n by omega]
    rw [hrange]
    refine ⟨fun h => ?_, fun h => ?_⟩
    · rcases h.2 with ⟨hoff, hs⟩ | hr
      · split_ifs with hq hi
        · rfl
        · rw [annots_scrub, if_pos hs]
        · exact absurd hoff hi
      · rw [if_pos (hin.2 hr)]
    · rw [if_neg fun hr => h ⟨hn, Or.inr (hin.1 hr)⟩]
      split_ifs with hoff
      · rw [annots_scrub, if_neg fun hs => h ⟨hn, Or.inl ⟨hoff, hs⟩⟩]
      · rfl
  · rw [if_neg hn]
    exact ⟨fun h => absurd h.1 hn, fun _ => rfl⟩

def SkbHits (inTypes : TypeState) (s : State) (l : Nat) (q : Int) : Prop :=
  ∃ off n, skbBuffer inTypes s = some (l, off, n) ∧ SkbDrops (stackAt s l) off n q

theorem drops_skbLoadBytes (hl : l ≤ s.frames.currentLevel) (q : Int) :
    Drops (SkbHits inTypes s l q) (annotsAt s l q)
      (annotsAt (skbLoadBytesClobber inTypes s) l q) := by
  rw [skbLoadBytesClobber_eq]
  exact drops_buffer s _ hl q fun off n => drops_skbClobber _ off n q

end Buffers

section Helpers
variable (env : CallEnv) (inTypes : TypeState) (s : State) (ids : Nat → Nat) (helper : Nat)

theorem sameAnnots_updateCallTypes {helper : Nat} (h : helper ≠ Helper.skbLoadBytes) :
    SameAnnots (callResult env inTypes s helper ids).1
      (updateCallTypes env inTypes s helper ids) :=
  closed_updateRest _ sweepClosed_sameAnnots env inTypes (fun _ => trivial) (absurd · h)
    (callResult env inTypes s helper ids).2

theorem drops_updateCallTypes {l : Nat} (hl : l ≤ s.frames.currentLevel) (q : Int) :
    Drops (helper = Helper.skbLoadBytes ∧ SkbHits inTypes s l q)
      (annotsAt (callResult env inTypes s helper ids).1 l q)
      (annotsAt (updateCallTypes env inTypes s helper ids) l q) := by
  by_cases h : helper = Helper.skbLoadBytes
  · subst h
    have hskb := drops_skbLoadBytes inTypes (setType s .r0 .scalarValue) (l := l) hl q
    refine ⟨fun hp => ?_, fun hp => ?_⟩
    · exact hskb.gone hp.2
    · exact hskb.kept fun hs => hp ⟨rfl, hs⟩
  · refine ⟨fun hp => absurd hp.1 h, fun _ => ?_⟩
    exact (sameAnnots_updateCallTypes env inTypes s ids h).slots l q

end Helpers

end ZoneVerifier.CallAnnotations
