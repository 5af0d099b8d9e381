import ZoneVerifier.MarkMoves

/-!
# Sweeps over the slices

A slice carries the identity of its dynptr and, if the dynptr holds one, its
reference. An effect ends dynptrs, and sweeps some of their slices. The sweep of
an identity reaches the registers and the stacks of all frames, the sweep of a
reference the registers and the current stack; no sweep reaches the registers
saved for a caller.
-/

set_option autoImplicit false

namespace ZoneVerifier.SliceTags
open RegTypes Stack Machine Signatures CallTypes CallObjects TypeInvariant Marks MarkCalls
open Ast hiding Instr

section Tags

inductive Tag where
  | id (n : Nat)
  | ref (n : Nat)
  deriving DecidableEq

/-- The dynptr and the reference behind a slice. -/
def tags : RegType → List Tag
  | .ptrToAllocMem _ _ refId dynptrId _ | .ptrToAllocMemOrNull _ _ refId dynptrId _ =>
    (dynptrId.map Tag.id).toList ++ (refId.map Tag.ref).toList
  | _ => []

abbrev slices : Marking Tag where
  of := tags
  plain ty h := by cases ty <;> first | rfl | cases h
  orNull _ _ _ _ _ := rfl

theorem neutral_carries (Q : Tag → Prop) : Neutral (Carries slices Q) where
  toPlain := plain_carries slices Q
  arg := by
    intro id arg ty hty
    cases arg with
    | ptrToMem memSize nonnull => cases nonnull <;> cases hty <;> exact carries_of_nil rfl
    | ptrToBtfIdTrusted typeName nullable =>
      cases nullable <;> cases hty <;> exact carries_of_nil rfl
    | _ => cases hty <;> exact carries_of_nil rfl

end Tags

section Results
variable (s : State) (env : CallEnv) (inTypes : TypeState) (ids : Nat → Nat)

def dynptrTags (d : DynptrSlot) : List Tag :=
  .id d.dynptrId :: if d.refId = 0 then [] else [.ref d.refId]

def sliceTags (proto : CallProto) : List Tag :=
  if slicesArg proto.ret then (argDynptr s).elim [] dynptrTags else []

theorem tags_sliceType (id memSize : Nat) (rdonly : Bool) :
    tags (sliceType s id memSize rdonly) = (argDynptr s).elim [] dynptrTags := by
  unfold sliceType
  cases argDynptr s with
  | none => rfl
  | some d =>
    by_cases href : d.refId = 0 <;> simp [tags, dynptrTags, href, Option.filter]

theorem grants_slices (new : List Tag) (id : Nat) : Grants slices new id :=
  fun _ _ => List.nil_subset _

theorem grantsSlice_slices (proto : CallProto) (id : Nat) :
    GrantsSlice slices (sliceTags s proto) s proto id := by
  intro hret memSize rdonly
  show tags (sliceType s id memSize rdonly) ⊆ _
  rw [tags_sliceType, sliceTags, if_pos hret]
  exact List.Subset.refl _

def helperSlices (helper : Nat) : List Tag :=
  (getHelperProto env helper).elim [] (sliceTags (helperEffects env inTypes ids s helper))

theorem helperGrants_slices (helper : Nat) :
    HelperGrants slices (helperSlices s env inTypes ids helper) env inTypes ids s helper where
  legacy := grants_slices _ _
  mem _ _ := grants_slices _ _
  slice proto hproto := by
    unfold helperSlices
    rw [hproto]
    exact grantsSlice_slices _ proto _

def kfuncSlices (proto : CallProto) : List Tag :=
  sliceTags (effectsOf env inTypes ids proto s) proto

theorem kfuncGrants_slices (proto : CallProto) :
    KfuncGrants slices (kfuncSlices s env inTypes ids proto) env inTypes ids s proto :=
  ⟨grants_slices _ _, grantsSlice_slices _ proto _⟩

end Results

end ZoneVerifier.SliceTags

namespace ZoneVerifier.SliceSweeps
open RegTypes Stack Machine StackOps MemTransfer Signatures CallTypes Annotations AnnotationFlow
open CallAnnotations EffectAnnotations StackInstr CallObjects StackObjects TypeInvariant Marks
open MarkEffects SliceTags
open Ast hiding Instr
open ObjectSteps (dynptrAt_eq)

variable {P Q killed swept : Tag → Prop}

section Covered
variable {killed swept swept' gone : Tag → Prop} {s s' : State}

/-- A sweep of a reference only reaches the current stack. -/
def Tag.Reaches (current : Prop) : Tag → Prop
  | .id _ => True
  | .ref _ => current

/-- Every slice with a killed tag has a swept one where the sweep finds it, and
no saved register holds one. -/
structure Covered (killed swept : Tag → Prop) (s : State) : Prop where
  regs : ∀ i, ∀ t ∈ tags (s.types.regs i), killed t → ∃ t' ∈ tags (s.types.regs i), swept t'
  stack : ∀ l f, s.frames.get l = some f → ∀ q sp, f.stack.slots.find q = some sp →
    ∀ t ∈ tags sp.regType, killed t →
      ∃ t' ∈ tags sp.regType, swept t' ∧ Tag.Reaches (l = s.frames.currentLevel) t'
  saved : ∀ l f, s.frames.get l = some f → ∀ i, ∀ t ∈ tags (f.callerTypes.regs i), ¬ killed t

structure Sweeps (gone : Tag → Prop) (s s' : State) : Prop where
  level : s'.frames.currentLevel = s.frames.currentLevel
  regs : ∀ i, tags (s'.types.regs i) = [] ∨
    (tags (s'.types.regs i) = tags (s.types.regs i) ∧ ∀ t ∈ tags (s.types.regs i), ¬ gone t)
  frames : ∀ l f', s'.frames.get l = some f' → ∃ f, s.frames.get l = some f ∧
    f'.callerTypes = f.callerTypes ∧ ∀ q sp', f'.stack.slots.find q = some sp' →
      tags sp'.regType = [] ∨ ∃ sp, f.stack.slots.find q = some sp ∧
        tags sp'.regType = tags sp.regType ∧
        ∀ t ∈ tags sp.regType, Tag.Reaches (l = s.frames.currentLevel) t → ¬ gone t

theorem Covered.of_none (h : ∀ t, ¬ killed t) : Covered killed swept s :=
  ⟨fun _ t _ hk => absurd hk (h t), fun _ _ _ _ _ _ t _ hk => absurd hk (h t),
    fun _ _ _ _ t _ => h t⟩

theorem Covered.sweep (h : Covered killed swept s) (hs : Sweeps gone s s')
    (hgone : ∀ t, swept t → swept' t ∨ gone t) : Covered killed swept' s' := by
  refine ⟨fun i t ht hk => ?_, fun l f' hf' q sp' hq t ht hk => ?_, fun l f' hf' i t ht => ?_⟩
  · rcases hs.regs i with hnil | ⟨heq, hstay⟩
    · rw [hnil] at ht
      cases ht
    · rw [heq] at ht ⊢
      obtain ⟨t', ht', hsw⟩ := h.regs i t ht hk
      exact ⟨t', ht', (hgone t' hsw).resolve_right (hstay t' ht')⟩
  · obtain ⟨f, hf, _, hslots⟩ := hs.frames l f' hf'
    rcases hslots q sp' hq with hnil | ⟨sp, hsp, heq, hstay⟩
    · rw [hnil] at ht
      cases ht
    · rw [heq] at ht ⊢
      obtain ⟨t', ht', hsw, hreach⟩ := h.stack l f hf q sp hsp t ht hk
      refine ⟨t', ht', (hgone t' hsw).resolve_right (hstay t' ht' hreach), ?_⟩
      rw [hs.level]
      exact hreach
  · obtain ⟨f, hf, hsaved, _⟩ := hs.frames l f' hf'
    rw [hsaved] at ht
    exact h.saved l f hf i t ht

theorem Covered.tame (h : Covered killed swept s) (ht : Tame slices [] s s') :
    Covered killed swept s' := by
  refine ⟨fun i t hmem hk => ?_, fun l f' hf' q sp' hq t hmem hk => ?_, fun l f' hf' i t hmem => ?_⟩
  · rcases ht.regs i with ((hnil : tags _ = []) | (heq : tags _ = tags _)) | hsub
    · rw [hnil] at hmem
      cases hmem
    · rw [heq] at hmem ⊢
      exact h.regs i t hmem hk
    · cases hsub hmem
  · obtain ⟨f, hf, hframe⟩ := ht.frames l f' hf'
    rcases hframe.stack q sp' hq with (hnil : tags _ = []) | ⟨sp, hsp, (heq : tags _ = tags _)⟩
    · rw [hnil] at hmem
      cases hmem
    · rw [heq] at hmem ⊢
      rw [ht.level]
      exact h.stack l f hf q sp hsp t hmem hk
  · obtain ⟨f, hf, hframe⟩ := ht.frames l f' hf'
    rcases hframe.saved i with (hnil : tags _ = []) | (heq : tags _ = tags _)
    · rw [hnil] at hmem
      cases hmem
    · rw [heq] at hmem
      exact h.saved l f hf i t hmem

theorem Covered.tagged (h : Covered killed swept s) (hnone : ∀ t, ¬ swept t) :
    Tagged slices (fun t => ¬ killed t) s := by
  refine ⟨fun i t ht hk => ?_, fun f hf => ?_⟩
  · obtain ⟨t', _, hsw⟩ := h.regs i t ht hk
    exact hnone t' hsw
  · obtain ⟨l, hl⟩ := exists_get hf
    refine ⟨fun q sp hq t ht hk => ?_, fun i t ht => h.saved l f hl i t ht⟩
    obtain ⟨t', _, hsw, _⟩ := h.stack l f hl q sp hq t ht hk
    exact hnone t' hsw

theorem Tagged.and (hp : Tagged slices P s) (hq : Tagged slices Q s) :
    Tagged slices (fun t => P t ∧ Q t) s := by
  refine ⟨fun i t ht => ⟨hp.regs i t ht, hq.regs i t ht⟩, fun f hf => ?_⟩
  have hpf := hp.frames f hf
  have hqf := hq.frames f hf
  exact ⟨fun q sp hsp t ht => ⟨hpf.stack q sp hsp t ht, hqf.stack q sp hsp t ht⟩,
    fun i t ht => ⟨hpf.saved i t ht, hqf.saved i t ht⟩⟩

theorem Tagged.mono (h : ∀ t, P t → Q t) (hp : Tagged slices P s) : Tagged slices Q s :=
  ⟨fun i => (hp.regs i).mono h, fun f hf =>
    ⟨fun q sp hq => ((hp.frames f hf).stack q sp hq).mono h,
      fun i => ((hp.frames f hf).saved i).mono h⟩⟩

end Covered

variable {n l arg l₀ : Nat} {q q₀ : Int} {d : DynptrSlot}

section Sweeps
variable (s : State)

theorem sliceId_of_mem {ty : RegType} (h : Tag.id n ∈ tags ty) :
    dynptrSliceId ty = some n := by
  cases ty with
  | ptrToAllocMem id memSize refId dynptrId rdonly =>
    cases refId <;> cases dynptrId <;> simp_all [tags, dynptrSliceId]
  | ptrToAllocMemOrNull id memSize refId dynptrId rdonly =>
    cases refId <;> cases dynptrId <;> simp_all [tags, dynptrSliceId]
  | _ => cases h

theorem refId_of_mem {ty : RegType} (h : Tag.ref n ∈ tags ty) :
    ty.getRefId = some n := by
  cases ty with
  | ptrToAllocMem id memSize refId dynptrId rdonly =>
    cases refId <;> cases dynptrId <;> simp_all [tags, RegType.getRefId]
  | ptrToAllocMemOrNull id memSize refId dynptrId rdonly =>
    cases refId <;> cases dynptrId <;> simp_all [tags, RegType.getRefId]
  | _ => cases h

def IdIn (touched : Nat → Bool) (t : Tag) : Prop := ∃ n, t = .id n ∧ touched n = true

theorem demoteSlice_cases (touched : Nat → Bool) (ty : RegType) :
    tags (demoteSlice touched ty) = [] ∨ (tags (demoteSlice touched ty) = tags ty ∧
      ∀ t ∈ tags ty, ¬ IdIn touched t) := by
  unfold demoteSlice
  split_ifs with hany
  · exact Or.inl rfl
  · refine Or.inr ⟨rfl, ?_⟩
    rintro t ht ⟨n, rfl, hn⟩
    rw [sliceId_of_mem ht] at hany
    exact hany hn

theorem sweeps_ids (touched : Nat → Bool) :
    Sweeps (IdIn touched) s (invalidateDynptrSlices s touched) where
  level := List.length_map ..
  regs i := demoteSlice_cases touched (s.types.regs i)
  frames l f' hf' := by
    have hget : (invalidateDynptrSlices s touched).frames.get l = _ := get_map s.frames _ l
    rw [hget] at hf'
    obtain ⟨f, hf, rfl⟩ := Option.map_eq_some_iff.1 hf'
    refine ⟨f, hf, rfl, fun q sp' hq => ?_⟩
    obtain ⟨sp, hsp, rfl⟩ := Option.map_eq_some_iff.1 hq
    refine (demoteSlice_cases touched sp.regType).imp_right fun ⟨heq, hstay⟩ => ?_
    exact ⟨sp, hsp, heq, fun t ht _ => hstay t ht⟩

theorem sweeps_ref (id : Nat) : Sweeps (· = .ref id) s (s.invalidateRef id) where
  level := rfl
  regs i := by
    show tags (if (s.types.regs i).getRefId = some id then .scalarValue else s.types.regs i) = [] ∨ _
    by_cases hid : (s.types.regs i).getRefId = some id
    · rw [if_pos hid]
      exact Or.inl rfl
    · refine Or.inr ⟨congrArg tags (if_neg hid), ?_⟩
      rintro t ht rfl
      exact hid (refId_of_mem ht)
  frames l f' hf' := by
    have hframes : (s.invalidateRef id).frames =
        (modifyStackAt s s.frames.currentLevel (·.invalidateRef id)).frames := by
      rw [← modifyStack_eq]
      rfl
    rw [hframes] at hf'
    by_cases hl : l = s.frames.currentLevel
    · subst hl
      have hget : (modifyStackAt s s.frames.currentLevel (·.invalidateRef id)).frames.get
          s.frames.currentLevel = (s.frames.get s.frames.currentLevel).map _ :=
        FrameStack.get_modifyAt ..
      rw [hget] at hf'
      obtain ⟨f, hf, rfl⟩ := Option.map_eq_some_iff.1 hf'
      refine ⟨f, hf, rfl, fun q sp' hq => ?_⟩
      obtain ⟨sp, hsp, rfl⟩ := Option.map_eq_some_iff.1 hq
      split_ifs with hid
      · exact Or.inl rfl
      · refine Or.inr ⟨sp, hsp, rfl, ?_⟩
        rintro t ht _ rfl
        exact hid (refId_of_mem ht)
    · have hget : (modifyStackAt s s.frames.currentLevel (·.invalidateRef id)).frames.get l =
          s.frames.get l := get_modifyAt_of_ne s.frames _ hl
      rw [hget] at hf'
      refine ⟨f', hf', rfl, fun q sp hsp => Or.inr ⟨sp, hsp, rfl, ?_⟩⟩
      rintro t _ hreach rfl
      exact hl hreach

theorem anyDynptr_of {p : DynptrSlot → Bool}
    (h : dynptrAt s l q = some d) (hp : p d = true) : anyDynptr s p = true := by
  rw [dynptrAt_eq] at h
  unfold getDynptr stackAt at h
  cases hf : s.frames.get l with
  | none =>
    rw [hf] at h
    cases h
  | some f =>
    rw [hf] at h
    obtain ⟨sp, hsp, hd⟩ := Option.bind_eq_some_iff.1 h
    refine List.any_eq_true.2 ⟨f, mem_of_get hf, decide_eq_true fun hall => ?_⟩
    rw [hall q sp hsp d hd] at hp
    cases hp

end Sweeps

section Effects
variable {s t : State}

/-- The dynptrs with a slot that overlaps a range of bytes. -/
def Hit (s : State) (level : Nat) (lo n : Int) (d : DynptrSlot) : Prop :=
  ∃ q, dynptrAt s level q = some d ∧ Overlaps lo n q 8

/-- The tags an effect ends: those of the dynptrs it overwrites, of a released
dynptr and of all dynptrs that share its reference. -/
def EffectKills (s : State) (tag : Tag) : SideEffect → Prop
  | .dynptrInitOnArg arg _ _ | .dynptrCloneOnArg _ arg =>
    ∃ l q d, resolveStackArg s (argReg arg) = some (l, q) ∧ Hit s l q 16 d ∧ tag = .id d.dynptrId
  | .dynptrReleaseFromArg arg =>
    ∃ l q d, resolveStackArg s (argReg arg) = some (l, q) ∧ dynptrAt s l q = some d ∧
      (tag = .id d.dynptrId ∨ (d.refId ≠ 0 ∧ (tag = .ref d.refId ∨
        ∃ l' q' d', dynptrAt s l' q' = some d' ∧ d'.refId = d.refId ∧ tag = .id d'.dynptrId)))
  | _ => False

def AtPair (s : State) (arg : Nat) (tag : Tag) : Prop :=
  ∃ l q d, resolveStackArg s (argReg arg) = some (l, q) ∧
    (dynptrAt s l q = some d ∨ dynptrAt s l (q + 8) = some d) ∧ tag = .id d.dynptrId

/-- The source of a clone is a dynptr on the stack. -/
def HasSource (s : State) (arg : Nat) : Prop :=
  ∃ l q d, resolveStackArg s (argReg arg) = some (l, q) ∧ dynptrAt s l q = some d

def EffectSweeps (s : State) (tag : Tag) : SideEffect → Prop
  | .dynptrInitOnArg arg _ _ => AtPair s arg tag
  | .dynptrCloneOnArg src arg => HasSource s src ∧ AtPair s arg tag
  | .dynptrReleaseFromArg arg =>
    ∃ l q d, resolveStackArg s (argReg arg) = some (l, q) ∧ dynptrAt s l q = some d ∧
      d.refId ≠ 0 ∧ (tag = .id d.dynptrId ∨ tag = .ref d.refId ∨
        ∃ l' q' d', dynptrAt s l' q' = some d' ∧ d'.refId = d.refId ∧ d'.firstSlot = true ∧
          tag = .id d'.dynptrId)
  | _ => False

def EffectClears (s : State) (l : Nat) (q : Int) : SideEffect → Prop
  | .dynptrInitOnArg arg _ _ =>
    ∃ q₀, resolveStackArg s (argReg arg) = some (l, q₀) ∧ (q = q₀ ∨ q = q₀ + 8)
  | .dynptrCloneOnArg src arg => HasSource s src ∧
    ∃ q₀, resolveStackArg s (argReg arg) = some (l, q₀) ∧ (q = q₀ ∨ q = q₀ + 8)
  | .dynptrReleaseFromArg arg =>
    ∃ l₀ q₀, resolveStackArg s (argReg arg) = some (l₀, q₀) ∧
      ((l = l₀ ∧ (q = q₀ ∨ q = q₀ + 8)) ∨
        ∃ d d', dynptrAt s l₀ q₀ = some d ∧ d.refId ≠ 0 ∧ dynptrAt s l q = some d' ∧
          d'.refId = d.refId)
  | _ => False

structure SameDynptrs (s t : State) : Prop where
  slots : ∀ l q, dynptrAt t l q = dynptrAt s l q
  args : ∀ arg, resolveStackArg t (argReg arg) = resolveStackArg s (argReg arg)

theorem effectKills_eq (h : SameDynptrs s t) : EffectKills t = EffectKills s := by
  funext tag eff
  cases eff <;> simp only [EffectKills, Hit, h.slots, h.args]

theorem effectSweeps_eq (h : SameDynptrs s t) : EffectSweeps t = EffectSweeps s := by
  funext tag eff
  cases eff <;> simp only [EffectSweeps, AtPair, HasSource, h.slots, h.args]

theorem effectClears_eq (h : SameDynptrs s t) : EffectClears t = EffectClears s := by
  funext l q eff
  cases eff <;> simp only [EffectClears, HasSource, h.slots, h.args]

theorem sameDynptrs_of_objects (h : SameObjects s t) : SameDynptrs s t where
  slots l q := by
    have hcore := congrArg Annots.dynptr (h.core.slots l q)
    exact hcore
  args arg := resolveStackArg_eq h.args (argReg arg)

theorem sweepReplaced_covers
    (h : Covered killed swept s)
    (hs : ∀ tag, swept tag → ∃ d, (dynptrAt s l q = some d ∨ dynptrAt s l (q + 8) = some d) ∧
      tag = .id d.dynptrId) : Covered killed (fun _ => False) (sweepReplaced s l q) := by
  refine h.sweep (sweeps_ids s _) fun tag htag => Or.inr ?_
  obtain ⟨d, hd, rfl⟩ := hs tag htag
  refine ⟨d.dynptrId, rfl, Bool.or_eq_true_iff.2 ?_⟩
  rw [dynptrAt_eq, dynptrAt_eq] at hd
  rcases hd with hd | hd
  · exact Or.inl (by rw [hd]; exact decide_eq_true rfl)
  · exact Or.inr (by rw [hd]; exact decide_eq_true rfl)

theorem releaseRefOf_covers (hd : d.refId ≠ 0)
    (h : Covered killed swept s)
    (hs : ∀ tag, swept tag → tag = .id d.dynptrId ∨ tag = .ref d.refId ∨
      ∃ l q d', dynptrAt s l q = some d' ∧ d'.refId = d.refId ∧ d'.firstSlot = true ∧
        tag = .id d'.dynptrId) : Covered killed (fun _ => False) (releaseRefOf s d) := by
  unfold releaseRefOf
  rw [if_pos hd]
  have hrel : Covered killed swept (s.releaseRef d.refId) := h.tame (.of_same rfl rfl)
  have href : Covered killed (fun tag => tag = .id d.dynptrId ∨
      ∃ l q d', dynptrAt s l q = some d' ∧ d'.refId = d.refId ∧ d'.firstSlot = true ∧
        tag = .id d'.dynptrId) ((s.releaseRef d.refId).invalidateRef d.refId) := by
    refine hrel.sweep (sweeps_ref _ d.refId) fun tag htag => ?_
    rcases hs tag htag with hid | href | hshared
    · exact Or.inl (Or.inl hid)
    · exact Or.inr href
    · exact Or.inl (Or.inr hshared)
  have hsame : ∀ l q, dynptrAt ((s.releaseRef d.refId).invalidateRef d.refId) l q =
      dynptrAt s l q := by
    intro l q
    unfold dynptrAt
    rw [(closed_released s sweepClosed_sameAnnots _).slots]
  generalize (s.releaseRef d.refId).invalidateRef d.refId = u at href hsame ⊢
  have hshared : Covered killed (fun tag => tag = .id d.dynptrId)
      (invalidateDynptrSlotsByRef u d.refId) := by
    unfold invalidateDynptrSlotsByRef
    rw [if_neg hd]
    refine (href.tame ((effectClosed_tame (m := slices)).dropped u d.refId)).sweep (sweeps_ids _ _)
      fun tag htag => ?_
    rcases htag with hid | ⟨l, q, d', hd', hrefId, hfirst, rfl⟩
    · exact Or.inl hid
    · refine Or.inr ⟨d'.dynptrId, rfl, anyDynptr_of u ((hsame l q).trans hd') ?_⟩
      exact decide_eq_true ⟨hrefId, hfirst, rfl⟩
  refine hshared.sweep (sweeps_ids _ _) fun tag htag => Or.inr ?_
  exact ⟨d.dynptrId, htag, decide_eq_true rfl⟩

section Swept
variable (env : CallEnv) (inTypes : TypeState) (flags : CallFlags) (id : Nat)

def Ends (s : State) (eff : SideEffect) : Prop :=
  Tagged slices (fun tag => ¬ EffectKills s tag eff) (applySideEffect env inTypes flags s id eff)

theorem ends_init {kind : DynptrKind} {rdonly : Bool}
    (h : Covered (EffectKills s · (.dynptrInitOnArg arg kind rdonly))
      (EffectSweeps s · (.dynptrInitOnArg arg kind rdonly)) s) :
    Ends env inTypes flags id s (.dynptrInitOnArg arg kind rdonly) := by
  unfold Ends
  rw [applySideEffect]
  split
  · next l q hres =>
    have hframes : (if decide (kind = .ringbuf) then acquireRef s id else s).frames = s.frames := by
      split_ifs <;> rfl
    have hacq := h.tame (.ite (.of_same rfl rfl) (.refl s) :
      Tame slices [] s (if decide (kind = .ringbuf) then acquireRef s id else s))
    have hswept := sweepReplaced_covers (l := l) (q := q) hacq fun tag htag => by
      obtain ⟨l', q', d, hres', hd, rfl⟩ := htag
      rw [hres] at hres'
      cases hres'
      refine ⟨d, ?_, rfl⟩
      unfold dynptrAt at hd ⊢
      rw [annotsAt_of_frames hframes, annotsAt_of_frames hframes]
      exact hd
    exact (hswept.tame (tame_stampDynptr ..)).tagged fun _ => not_false
  · next hres =>
    refine h.tagged fun tag htag => ?_
    obtain ⟨l, q, _, hres', _⟩ := htag
    rw [hres] at hres'
    cases hres'

theorem ends_clone {srcArg dstArg : Nat}
    (h : Covered (EffectKills s · (.dynptrCloneOnArg srcArg dstArg))
      (EffectSweeps s · (.dynptrCloneOnArg srcArg dstArg)) s) :
    Ends env inTypes flags id s (.dynptrCloneOnArg srcArg dstArg) := by
  -- without a source or a target nothing is swept, and the state stays
  have hstay : (¬ HasSource s srcArg ∨ resolveStackArg s (argReg dstArg) = none) →
      Tagged slices (fun tag => ¬ EffectKills s tag (.dynptrCloneOnArg srcArg dstArg)) s := by
    intro hno
    refine h.tagged fun tag ⟨hsrc, l, q, _, hres', _⟩ => ?_
    rcases hno with hno | hno
    · exact hno hsrc
    · rw [hno] at hres'
      cases hres'
  unfold Ends
  rw [applySideEffect]
  cases hsrc : resolveStackArg s (argReg srcArg) with
  | none =>
    refine hstay (Or.inl ?_)
    rintro ⟨l, q, d, hres, _⟩
    rw [hsrc] at hres
    cases hres
  | some p =>
    cases hdst : resolveStackArg s (argReg dstArg) with
    | none => exact hstay (Or.inr hdst)
    | some p' =>
      obtain ⟨l, q⟩ := p'
      dsimp only
      split
      · have hswept := sweepReplaced_covers (l := l) (q := q) h fun tag htag => by
          obtain ⟨_, l', q', d, hres', hd, rfl⟩ := htag
          rw [hdst] at hres'
          cases hres'
          exact ⟨d, hd, rfl⟩
        exact (hswept.tame (tame_stampDynptr ..)).tagged fun _ => not_false
      · next hnone =>
        refine hstay (Or.inl ?_)
        rintro ⟨l', q', d, hres, hd⟩
        rw [hsrc] at hres
        cases hres
        rw [dynptrAt_eq, hnone] at hd
        cases hd

theorem ends_release
    (h : Covered (EffectKills s · (.dynptrReleaseFromArg arg))
      (EffectSweeps s · (.dynptrReleaseFromArg arg)) s) :
    Ends env inTypes flags id s (.dynptrReleaseFromArg arg) := by
  unfold Ends
  rw [applySideEffect]
  split
  · next l q hres =>
    rw [releaseDynptr_eq]
    have hput : ∀ u : State, Tame slices [] u (modifyStackAt u l fun stack =>
        putDynptr (putDynptr stack q none) (q + 8) none) := fun u =>
      Tame.modifyStackAt (fun stack => (stackTame_putDynptr stack q none).trans
        (stackTame_putDynptr _ _ none)) u l
    have hat : ∀ tag, EffectSweeps s tag (.dynptrReleaseFromArg arg) →
        ∃ d, getDynptr (stackAt s l) q = some d ∧ d.refId ≠ 0 ∧ (tag = .id d.dynptrId ∨
          tag = .ref d.refId ∨ ∃ l' q' d', dynptrAt s l' q' = some d' ∧ d'.refId = d.refId ∧
            d'.firstSlot = true ∧ tag = .id d'.dynptrId) := by
      rintro tag ⟨l', q', d, hres', hd, hrest⟩
      rw [hres] at hres'
      cases hres'
      exact ⟨d, (dynptrAt_eq s l q).symm.trans hd, hrest⟩
    cases hd : getDynptr (stackAt s l) q with
    | none =>
      refine (h.tame (hput s)).tagged fun tag htag => ?_
      obtain ⟨d, hd', _⟩ := hat tag htag
      rw [hd] at hd'
      cases hd'
    | some d =>
      by_cases href : d.refId ≠ 0
      · have hswept := releaseRefOf_covers href h fun tag htag => by
          obtain ⟨d', hd', _, hrest⟩ := hat tag htag
          rw [hd] at hd'
          cases hd'
          exact hrest
        exact (hswept.tame (hput _)).tagged fun _ => not_false
      · have hsame : releaseRefOf s d = s := if_neg href
        dsimp only
        rw [hsame]
        refine (h.tame (hput s)).tagged fun tag htag => ?_
        obtain ⟨d', hd', href', _⟩ := hat tag htag
        rw [hd] at hd'
        cases hd'
        exact href href'
  · next hres =>
    refine h.tagged fun tag htag => ?_
    obtain ⟨l, q, _, hres', _⟩ := htag
    rw [hres] at hres'
    cases hres'

theorem ends_applySideEffect (eff : SideEffect)
    (h : Covered (EffectKills s · eff) (EffectSweeps s · eff) s) :
    Ends env inTypes flags id s eff := by
  have hnone : ∀ {killed : Tag → Prop} (u : State), (∀ tag, ¬ killed tag) →
      Tagged slices (fun tag => ¬ killed tag) u := fun u hk =>
    Covered.tagged (Covered.of_none hk : Covered _ (fun _ => False) u) fun _ => not_false
  cases eff with
  | dynptrInitOnArg arg kind rdonly => exact ends_init env inTypes flags id h
  | dynptrCloneOnArg srcArg dstArg => exact ends_clone env inTypes flags id h
  | dynptrReleaseFromArg arg => exact ends_release env inTypes flags id h
  | _ => exact hnone _ fun _ => not_false

end Swept

section Slots
variable {l : Nat} {q : Int} {d : DynptrSlot}

theorem dynptr_of_adds {s' : State} {dn : DynptrSlot}
    (h : Adds s s' l₀ q₀ (.dynptr dn)) (hd : dynptrAt s' l q = some d) :
    (dynptrAt s l q = some d ∧ ¬ (l = l₀ ∧ (q = q₀ ∨ q = q₀ + 8))) ∨
      (d.dynptrId = dn.dynptrId ∧ d.refId = dn.refId) := by
  have hw := (h l q).dynptr d hd
  split_ifs at hw with hl
  · simp only [place] at hw
    split_ifs at hw with htrail hq
    · cases hw
      exact Or.inr ⟨rfl, rfl⟩
    · cases hw
      exact Or.inr ⟨rfl, rfl⟩
    · exact Or.inl ⟨hw, fun hno => hno.2.elim hq htrail⟩
  · exact Or.inl ⟨hw, fun hno => hl hno.1⟩

def FreshDynptr (s : State) (id : Nat) (d : DynptrSlot) : Prop :=
  d.dynptrId = id ∧ (d.refId = id ∨ d.refId = 0 ∨
    ∃ l q d₀, dynptrAt s l q = some d₀ ∧ d.refId = d₀.refId)

def constructsDynptr : SideEffect → Bool
  | .dynptrInitOnArg .. | .dynptrCloneOnArg .. => true
  | _ => false

theorem dynptr_putDynptr_none (stack : StackState) (o : Int) :
    (annots (putDynptr stack o none) o).dynptr = none := by
  rw [annots_putDynptr]
  split_ifs with hsome
  · rfl
  · rw [annots_of_missing fun h => hsome ⟨rfl, h⟩]
    rfl

theorem dynptr_release (hd : dynptrAt (releaseDynptr s l₀ q₀) l q = some d) :
    dynptrAt s l q = some d ∧ ¬ (l = l₀ ∧ (q = q₀ ∨ q = q₀ + 8)) ∧
      ∀ d₀, dynptrAt s l₀ q₀ = some d₀ → d₀.refId ≠ 0 → d.refId ≠ d₀.refId := by
  rw [releaseDynptr_eq] at hd
  have hput : ∀ u : State, dynptrAt (modifyStackAt u l₀ fun stack =>
      putDynptr (putDynptr stack q₀ none) (q₀ + 8) none) l q = some d →
      dynptrAt u l q = some d ∧ ¬ (l = l₀ ∧ (q = q₀ ∨ q = q₀ + 8)) := by
    intro u hu
    have hshrinks : Shrinks u (modifyStackAt u l₀ fun stack =>
        putDynptr (putDynptr stack q₀ none) (q₀ + 8) none) :=
      shrinks_modifyStackAt (fun stack q => (within_putDynptr_none ..).trans
        (within_putDynptr_none ..)) u l₀
    have hold := (hshrinks l q).dynptr d hu
    refine ⟨hold, ?_⟩
    rintro ⟨rfl, hq⟩
    have hlevel : l ≤ u.frames.currentLevel := by
      by_contra hl
      have hempty : (annotsAt u l q).dynptr = some d := hold
      rw [annotsAt_of_lt (by omega)] at hempty
      cases hempty
    unfold dynptrAt at hu
    rw [annotsAt_modifyStackAt, if_pos ⟨rfl, hlevel⟩] at hu
    rcases hq with rfl | rfl
    · have hfirst := (within_putDynptr_none _ _ _).dynptr d hu
      rw [dynptr_putDynptr_none] at hfirst
      cases hfirst
    · rw [dynptr_putDynptr_none] at hu
      cases hu
  cases hd₀ : getDynptr (stackAt s l₀) q₀ with
  | none =>
    rw [hd₀] at hd
    obtain ⟨hold, hno⟩ := hput s hd
    refine ⟨hold, hno, fun d₀ hd₀' => ?_⟩
    rw [dynptrAt_eq, hd₀] at hd₀'
    cases hd₀'
  | some d₀ =>
    rw [hd₀] at hd
    obtain ⟨hold, hno⟩ := hput _ hd
    have hrel : (annotsAt (releaseRefOf s d₀) l q).dynptr = some d := hold
    rw [annotsAt_releaseRefOf] at hrel
    refine ⟨((shrinks_releaseRefOf s d₀) l q).dynptr d hold, hno, fun d₁ hd₁ href heq => ?_⟩
    rw [dynptrAt_eq, hd₀] at hd₁
    cases hd₁
    unfold dropRef at hrel
    split_ifs at hrel with hany
    rw [hrel] at hany
    exact hany (decide_eq_true heq)

theorem dynptr_applySideEffect {env : CallEnv} {inTypes : TypeState} {flags : CallFlags} {id : Nat}
    {eff : SideEffect} (h : dynptrAt (applySideEffect env inTypes flags s id eff) l q = some d) :
    (dynptrAt s l q = some d ∧ ¬ EffectClears s l q eff) ∨
      (constructsDynptr eff = true ∧ FreshDynptr s id d) := by
  cases eff with
  | dynptrInitOnArg arg kind rdonly =>
    rw [applySideEffect] at h
    split at h
    · next l₀ q₀ hres =>
      have hacq : SameAnnots s (if decide (kind = .ringbuf) = true then acquireRef s id else s) :=
        .ite (.of_frames rfl) (.refl s)
      have hsweep : Shrinks s (sweepReplaced (if decide (kind = .ringbuf) = true then
          acquireRef s id else s) l₀ q₀) := .of_same (hacq.trans (sameAnnots_sweepReplaced _ l₀ q₀))
      rcases dynptr_of_adds (.after_shrinks hsweep (adds_stampDynptr _ l₀ q₀ _)) h with
        ⟨hold, hno⟩ | ⟨hid, href⟩
      · refine Or.inl ⟨hold, ?_⟩
        rintro ⟨q', hres', hq⟩
        rw [hres] at hres'
        cases hres'
        exact hno ⟨rfl, hq⟩
      · refine Or.inr ⟨rfl, hid, ?_⟩
        rw [href]
        split_ifs
        · exact Or.inl rfl
        · exact Or.inr (Or.inl rfl)
    · next hres =>
      refine Or.inl ⟨h, ?_⟩
      rintro ⟨q', hres', _⟩
      rw [hres] at hres'
      cases hres'
  | dynptrCloneOnArg srcArg dstArg =>
    rw [applySideEffect] at h
    split at h
    · next l₁ q₁ l₀ q₀ hsrc hdst =>
      split at h
      · next d₀ hd₀ =>
        have hsweep : Shrinks s (sweepReplaced s l₀ q₀) := .of_same (sameAnnots_sweepReplaced _ l₀ q₀)
        rcases dynptr_of_adds (.after_shrinks hsweep (adds_stampDynptr _ l₀ q₀ _)) h with
          ⟨hold, hno⟩ | ⟨hid, href⟩
        · refine Or.inl ⟨hold, ?_⟩
          rintro ⟨_, q', hres', hq⟩
          rw [hdst] at hres'
          cases hres'
          exact hno ⟨rfl, hq⟩
        · exact Or.inr ⟨rfl, hid, Or.inr (Or.inr ⟨l₁, q₁, d₀, (dynptrAt_eq ..).trans hd₀, href⟩)⟩
      · next hnone =>
        refine Or.inl ⟨h, ?_⟩
        rintro ⟨⟨l', q', d', hres', hd'⟩, _⟩
        rw [hsrc] at hres'
        cases hres'
        rw [dynptrAt_eq, hnone] at hd'
        cases hd'
    · next hno =>
      refine Or.inl ⟨h, ?_⟩
      rintro ⟨⟨l', q', d', hsrc, _⟩, q'', hdst, _⟩
      exact hno _ _ _ _ hsrc hdst
  | dynptrReleaseFromArg arg =>
    rw [applySideEffect] at h
    split at h
    · next l₀ q₀ hres =>
      obtain ⟨hold, hno, hshared⟩ := dynptr_release h
      refine Or.inl ⟨hold, ?_⟩
      rintro ⟨l', q', hres', hclear⟩
      rw [hres] at hres'
      cases hres'
      rcases hclear with hpair | ⟨d₀, d', hd₀, href, hd', heq⟩
      · exact hno hpair
      · rw [hold] at hd'
        cases hd'
        exact hshared d₀ hd₀ href heq
    · next hres =>
      refine Or.inl ⟨h, ?_⟩
      rintro ⟨l', q', hres', _⟩
      rw [hres] at hres'
      cases hres'
  | iterInitOnArg _ _ | irqSaveOnArg _ _ =>
    refine Or.inl ⟨?_, not_false⟩
    rcases applySideEffect_objects env inTypes flags s id _ with hs | ⟨l', q', new, hc, ha⟩
    · exact (hs l q).dynptr d h
    · obtain ⟨_, _, heq⟩ := Option.map_eq_some_iff.1 hc
      cases heq
      have hw := (ha l q).dynptr d h
      split_ifs at hw
      · simp only [place] at hw
        split_ifs at hw <;> exact hw
      · exact hw
  | _ =>
    rcases applySideEffect_objects env inTypes flags s id _ with hs | ⟨_, _, _, hc, _⟩
    · exact Or.inl ⟨(hs l q).dynptr d h, not_false⟩
    · cases hc

end Slots

section Prototypes
variable (env : CallEnv) (inTypes : TypeState) (ids : Nat → Nat) {proto : CallProto}

theorem effectsOf_cases (h : Declared proto) (u : State) :
    (proto.sideEffects = [] ∧ effectsOf env inTypes ids proto u = u) ∨
      ∃ eff, proto.sideEffects = [eff] ∧
        effectsOf env inTypes ids proto u = applySideEffect env inTypes proto.flags u (ids 0) eff := by
  unfold effectsOf
  have hsingle := h.single
  rcases heffs : proto.sideEffects with _ | ⟨eff, _ | ⟨eff', rest⟩⟩
  · exact Or.inl ⟨rfl, rfl⟩
  · exact Or.inr ⟨eff, rfl, rfl⟩
  · rw [heffs] at hsingle
    simp at hsingle

theorem ends_effectsOf (h : Declared proto) (ht : Tame slices [] s t) (hsame : SameDynptrs s t)
    (hcov : Covered (fun tag => ∃ eff ∈ proto.sideEffects, EffectKills s tag eff)
      (fun tag => ∃ eff ∈ proto.sideEffects, EffectSweeps s tag eff) s) :
    Tagged slices (fun tag => ¬ ∃ eff ∈ proto.sideEffects, EffectKills s tag eff)
      (effectsOf env inTypes ids proto t) := by
  have hcov := hcov.tame ht
  rcases effectsOf_cases env inTypes ids h t with ⟨hnil, heq⟩ | ⟨eff, hone, heq⟩
  · rw [heq]
    refine hcov.tagged ?_
    rintro tag ⟨eff, hmem, _⟩
    rw [hnil] at hmem
    cases hmem
  · rw [heq]
    rw [hone] at hcov ⊢
    simp only [List.mem_singleton, exists_eq_left] at hcov ⊢
    rw [← effectKills_eq hsame, ← effectSweeps_eq hsame] at hcov
    rw [← effectKills_eq hsame]
    exact ends_applySideEffect env inTypes proto.flags (ids 0) eff hcov

theorem dynptr_effectsOf (h : Declared proto) (hsame : SameDynptrs s t)
    (hd : dynptrAt (effectsOf env inTypes ids proto t) l q = some d) :
    (dynptrAt s l q = some d ∧ ¬ ∃ eff ∈ proto.sideEffects, EffectClears s l q eff) ∨
      ∃ eff, proto.sideEffects = [eff] ∧ constructsDynptr eff = true ∧
        FreshDynptr s (ids 0) d := by
  rcases effectsOf_cases env inTypes ids h t with ⟨hnil, heq⟩ | ⟨eff, hone, heq⟩
  · rw [heq, hsame.slots] at hd
    refine Or.inl ⟨hd, ?_⟩
    rintro ⟨eff, hmem, _⟩
    rw [hnil] at hmem
    cases hmem
  · rw [heq] at hd
    rcases dynptr_applySideEffect hd with ⟨hold, hno⟩ | ⟨hc, hid, href⟩
    · rw [hsame.slots] at hold
      rw [effectClears_eq hsame] at hno
      refine Or.inl ⟨hold, ?_⟩
      rintro ⟨eff', hmem, hclear⟩
      rw [hone, List.mem_singleton] at hmem
      exact hno (hmem ▸ hclear)
    · refine Or.inr ⟨eff, hone, hc, hid, ?_⟩
      simp only [hsame.slots] at href
      exact href

end Prototypes

end Effects

end ZoneVerifier.SliceSweeps
