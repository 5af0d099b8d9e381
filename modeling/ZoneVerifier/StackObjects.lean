import ZoneVerifier.CallObjects

/-!
# Objects on the stack

An iterator, a dynptr and a saved interrupt flag occupy a range of bytes of
their frame, and only their first byte is annotated. Every instruction only
takes objects away, apart from a call whose prototype declares a constructor,
which stamps a new one where its argument points.
-/

set_option autoImplicit false

namespace ZoneVerifier.StackObjects
open RegTypes Stack Machine StackOps MemTransfer Signatures CallTypes CallTransfer Annotations
open AnnotationFlow CallAnnotations EffectAnnotations
open Ast hiding Instr

section Objects

inductive ObjKind where
  | iterator (kind : IterKind)
  | dynptr
  | irqFlag
  deriving DecidableEq

def ObjKind.size : ObjKind → Int
  | .iterator kind => bpfIterSize kind
  | .dynptr => 16
  | .irqFlag => 8

def Has (a : Annots) : ObjKind → Prop
  | .iterator kind => a.iterator.map (·.kind) = some kind
  | .dynptr => a.dynptr.map (·.firstSlot) = some true
  | .irqFlag => a.irqFlag.isSome = true

instance (a : Annots) (k : ObjKind) : Decidable (Has a k) :=
  match k with
  | .iterator kind => inferInstanceAs (Decidable (a.iterator.map (·.kind) = some kind))
  | .dynptr => inferInstanceAs (Decidable (a.dynptr.map (·.firstSlot) = some true))
  | .irqFlag => inferInstanceAs (Decidable (a.irqFlag.isSome = true))

def ObjectAt (s : State) (l : Nat) (q : Int) (k : ObjKind) : Prop := Has (annotsAt s l q) k

instance (s : State) (l : Nat) (q : Int) (k : ObjKind) : Decidable (ObjectAt s l q k) :=
  inferInstanceAs (Decidable (Has _ k))

end Objects

section Within
variable {a b c : Annots}

/-- Annotations are only taken away; an iterator may advance. -/
structure Within (a b : Annots) : Prop where
  iterator : ∀ it ∈ a.iterator, ∃ it₀ ∈ b.iterator, iteratorCore it = iteratorCore it₀
  dynptr : ∀ d ∈ a.dynptr, d ∈ b.dynptr
  irqFlag : ∀ flag ∈ a.irqFlag, flag ∈ b.irqFlag

theorem Within.refl (a : Annots) : Within a a := ⟨fun it h => ⟨it, h, rfl⟩, fun _ => id, fun _ => id⟩

theorem Within.trans (h : Within a b) (h' : Within b c) : Within a c := by
  refine ⟨fun it hit => ?_, fun d hd => h'.dynptr d (h.dynptr d hd),
    fun f hf => h'.irqFlag f (h.irqFlag f hf)⟩
  obtain ⟨it₁, hit₁, hcore⟩ := h.iterator it hit
  obtain ⟨it₂, hit₂, hcore'⟩ := h'.iterator it₁ hit₁
  exact ⟨it₂, hit₂, hcore.trans hcore'⟩

theorem Within.empty (a : Annots) : Within Annots.empty a := ⟨nofun, nofun, nofun⟩

theorem Within.of_empty_or_eq (h : a = Annots.empty ∨ a = b) : Within a b := by
  rcases h with rfl | rfl
  · exact .empty b
  · exact .refl a

theorem Within.of_core (h : core a = core b) : Within a b := by
  have hdynptr : a.dynptr = b.dynptr := congrArg (·.dynptr) h
  have hflag : a.irqFlag = b.irqFlag := congrArg (·.irqFlag) h
  have hiter : a.iterator.map iteratorCore = b.iterator.map iteratorCore :=
    congrArg (·.iterator) h
  refine ⟨fun it hit => ?_, fun d hd => hdynptr ▸ hd, fun f hf => hflag ▸ hf⟩
  rw [hit, Option.map_some] at hiter
  obtain ⟨it₀, hit₀, hcore⟩ := Option.map_eq_some_iff.1 hiter.symm
  exact ⟨it₀, hit₀, hcore.symm⟩

theorem Within.has (h : Within a b) {k : ObjKind} (ha : Has a k) : Has b k := by
  cases k with
  | iterator kind =>
    obtain ⟨it, hit, hkind⟩ := Option.map_eq_some_iff.1 ha
    obtain ⟨it₀, hit₀, hcore⟩ := h.iterator it hit
    have hkind₀ : it.kind = it₀.kind := congrArg (·.kind) hcore
    exact Option.map_eq_some_iff.2 ⟨it₀, hit₀, hkind₀ ▸ hkind⟩
  | dynptr =>
    obtain ⟨d, hd, hfirst⟩ := Option.map_eq_some_iff.1 ha
    exact Option.map_eq_some_iff.2 ⟨d, h.dynptr d hd, hfirst⟩
  | irqFlag =>
    obtain ⟨flag, hflag⟩ := Option.isSome_iff_exists.1 ha
    exact Option.isSome_iff_exists.2 ⟨flag, h.irqFlag flag hflag⟩

theorem within_dropDynptr (a : Annots) : Within { a with dynptr := none } a :=
  ⟨fun it h => ⟨it, h, rfl⟩, nofun, fun _ => id⟩

end Within

section Place

inductive NewObj where
  | iterator (it : IteratorSlot)
  | dynptr (d : DynptrSlot)
  | irqFlag (flag : IrqFlagSlot)

def NewObj.kind : NewObj → ObjKind
  | .iterator it => .iterator it.kind
  | .dynptr _ => .dynptr
  | .irqFlag _ => .irqFlag

/-- The annotations of the byte `q` with the object placed at `q₀`. A dynptr
takes a pair of slots. -/
def place (q₀ q : Int) (a : Annots) : NewObj → Annots
  | .iterator it => if q = q₀ then { a with iterator := some it } else a
  | .dynptr d =>
    if q = q₀ + 8 then { a with dynptr := some { d with firstSlot := false } }
    else if q = q₀ then { a with dynptr := some { d with firstSlot := true } }
    else a
  | .irqFlag flag => if q = q₀ then { a with irqFlag := some flag } else a

theorem within_place {a b : Annots} (h : Within a b) (q₀ q : Int) (new : NewObj) :
    Within (place q₀ q a new) (place q₀ q b new) := by
  cases new with
  | iterator it =>
    simp only [place]
    split_ifs
    · exact ⟨fun it' h' => ⟨it', h', rfl⟩, h.dynptr, h.irqFlag⟩
    · exact h
  | dynptr d =>
    simp only [place]
    split_ifs
    · exact ⟨h.iterator, fun _ => id, h.irqFlag⟩
    · exact ⟨h.iterator, fun _ => id, h.irqFlag⟩
    · exact h
  | irqFlag flag =>
    simp only [place]
    split_ifs
    · exact ⟨h.iterator, h.dynptr, fun _ => id⟩
    · exact h

/-- A new dynptr takes the place of one that starts eight bytes above it. -/
def Overwritten (q : Int) (k : ObjKind) (q' : Int) (k' : ObjKind) : Prop :=
  k = .dynptr ∧ k' = .dynptr ∧ q' = q + 8

theorem has_place {a : Annots} {q₀ q : Int} {new : NewObj} {k : ObjKind}
    (h : Has (place q₀ q a new) k) :
    (q = q₀ ∧ k = new.kind) ∨ (Has a k ∧ ¬ Overwritten q₀ new.kind q k) := by
  cases new with
  | iterator it =>
    have hno : ¬ Overwritten q₀ (NewObj.iterator it).kind q k := fun ho => nomatch ho.1
    simp only [place] at h
    split_ifs at h with hq
    · cases k with
      | iterator kind =>
        cases h
        exact Or.inl ⟨hq, rfl⟩
      | dynptr | irqFlag => exact Or.inr ⟨h, hno⟩
    · exact Or.inr ⟨h, hno⟩
  | dynptr d =>
    simp only [place] at h
    split_ifs at h with htrail hq
    · cases k with
      | dynptr => cases h
      | iterator kind | irqFlag => exact Or.inr ⟨h, fun ho => nomatch ho.2.1⟩
    · cases k with
      | dynptr => exact Or.inl ⟨hq, rfl⟩
      | iterator kind | irqFlag => exact Or.inr ⟨h, fun ho => nomatch ho.2.1⟩
    · exact Or.inr ⟨h, fun ho => htrail ho.2.2⟩
  | irqFlag flag =>
    have hno : ¬ Overwritten q₀ (NewObj.irqFlag flag).kind q k := fun ho => nomatch ho.1
    simp only [place] at h
    split_ifs at h with hq
    · cases k with
      | irqFlag => exact Or.inl ⟨hq, rfl⟩
      | iterator kind | dynptr => exact Or.inr ⟨h, hno⟩
    · exact Or.inr ⟨h, hno⟩

end Place

section Changes
variable {s t s' : State} {l : Nat} {q : Int} {new : NewObj}

/-- No object appears. -/
def Shrinks (s s' : State) : Prop := ∀ l q, Within (annotsAt s' l q) (annotsAt s l q)

theorem Shrinks.refl (s : State) : Shrinks s s := fun _ _ => .refl _

theorem Shrinks.trans (h : Shrinks s t) (h' : Shrinks t s') : Shrinks s s' :=
  fun l q => (h' l q).trans (h l q)

theorem Shrinks.of_core (h : SameCore s s') : Shrinks s s' := fun l q => .of_core (h.slots l q)

theorem Shrinks.of_same (h : SameAnnots s s') : Shrinks s s' := .of_core (.of_same h)

theorem Shrinks.of_annots
    (h : ∀ l q, annotsAt s' l q = Annots.empty ∨ annotsAt s' l q = annotsAt s l q) :
    Shrinks s s' := fun l q => .of_empty_or_eq (h l q)

/-- One object appears. -/
def Adds (s s' : State) (l₀ : Nat) (q₀ : Int) (new : NewObj) : Prop :=
  ∀ l q, Within (annotsAt s' l q)
    (if l = l₀ then place q₀ q (annotsAt s l q) new else annotsAt s l q)

theorem Adds.of_shrinks (h : Adds s t l q new) (h' : Shrinks t s') : Adds s s' l q new :=
  fun l' q' => (h' l' q').trans (h l' q')

theorem Adds.after_shrinks (h : Shrinks s t) (h' : Adds t s' l q new) : Adds s s' l q new := by
  intro l' q'
  refine (h' l' q').trans ?_
  split_ifs
  · exact within_place (h l' q') q q' new
  · exact h l' q'

theorem Adds.objectAt {l₀ : Nat} {q₀ : Int} (h : Adds s s' l₀ q₀ new) {k : ObjKind}
    (ho : ObjectAt s' l q k) : (l = l₀ ∧ q = q₀ ∧ k = new.kind) ∨
      (ObjectAt s l q k ∧ ¬ (l = l₀ ∧ Overwritten q₀ new.kind q k)) := by
  have hw := (h l q).has ho
  split_ifs at hw with hl
  · rcases has_place hw with hnew | ⟨hold, hno⟩
    · exact Or.inl ⟨hl, hnew⟩
    · exact Or.inr ⟨hold, fun ho => hno ho.2⟩
  · exact Or.inr ⟨hw, fun ho => hl ho.1⟩

theorem shrinks_modifyStackAt {f : StackState → StackState}
    (hf : ∀ stack q, Within (annots (f stack) q) (annots stack q)) (s : State) (level : Nat) :
    Shrinks s (modifyStackAt s level f) := by
  intro l q
  rw [annotsAt_modifyStackAt]
  split_ifs
  · exact hf _ q
  · exact .refl _

theorem adds_modifyStackAt {f : StackState → StackState} {off : Int}
    (hf : ∀ stack q, Within (annots (f stack) q) (place off q (annots stack q) new)) (s : State)
    (level : Nat) : Adds s (modifyStackAt s level f) level off new := by
  intro l q
  rw [annotsAt_modifyStackAt]
  split_ifs with hl hlevel hlevel
  · exact hf _ q
  · exact absurd hl.1 hlevel
  · have hlt : s.frames.currentLevel < l := by
      by_contra hle
      exact hl ⟨hlevel, by omega⟩
    rw [annotsAt_of_lt hlt]
    exact .empty _
  · exact .refl _

end Changes

section Effects
variable (env : CallEnv) (inTypes : TypeState) (flags : CallFlags) (s : State) (id : Nat)
variable (level : Nat) (off : Int)

/-- The object an effect creates, and where. -/
def constructed (env : CallEnv) (s : State) (id : Nat) : SideEffect → Option (Nat × Int × NewObj)
  | .iterInitOnArg arg kind =>
    (resolveStackArg s (argReg arg)).map fun (l, q) => (l, q, .iterator
      { kind, state := .active, id, depth := 0
        untrusted := isRcuProtected kind && decide (s.rcuReadDepth = 0) })
  | .dynptrInitOnArg arg kind rdonly =>
    (resolveStackArg s (argReg arg)).map fun (l, q) => (l, q, .dynptr
      { kind, refId := if decide (kind = .ringbuf) then id else 0
        rdonly := rdonly && !(decide (kind = .skb) && env.isSched)
        firstSlot := true, dynptrId := id })
  | .dynptrCloneOnArg srcArg dstArg =>
    match resolveStackArg s (argReg srcArg), resolveStackArg s (argReg dstArg) with
    | some (srcLevel, srcOff), some (l, q) =>
      (getDynptr (stackAt s srcLevel) srcOff).map fun src =>
        (l, q, .dynptr { src with dynptrId := id })
    | _, _ => none
  | .irqSaveOnArg arg kfuncClass =>
    (resolveStackArg s (argReg arg)).map fun (l, q) => (l, q, .irqFlag { id, kfuncClass })
  | _ => none

theorem within_putDynptr_none (stack : StackState) (off q : Int) :
    Within (annots (putDynptr stack off none) q) (annots stack q) := by
  rw [annots_putDynptr]
  split_ifs
  · exact within_dropDynptr _
  · exact .refl _

theorem within_clearTouched (stack : StackState) (off n q : Int) :
    Within (clearTouched stack off n q) (annots stack q) := by
  unfold clearTouched
  split_ifs
  · exact within_dropDynptr _
  · exact .refl _

theorem within_dropRef (id : Nat) (a : Annots) : Within (dropRef id a) a := by
  unfold dropRef
  split_ifs
  · exact within_dropDynptr _
  · exact .refl _

theorem annots_of_missing {stack : StackState} {q : Int}
    (h : ¬ (stack.slots.find q).isSome = true) : annots stack q = Annots.empty :=
  annots_of_find_none (Option.not_isSome_iff_eq_none.1 h)

theorem within_marked {stack stack' : StackState} {off q : Int} {g : Annots → Annots}
    (h : annots stack' q = if q = off ∧ (stack.slots.find off).isSome = true then
      g (annots stack q) else annots stack q) :
    Within (annots stack' q) (if q = off then g (annots stack q) else annots stack q) := by
  rw [h]
  split_ifs with h hq hq
  · exact .refl _
  · exact absurd h.1 hq
  · subst hq
    rw [annots_of_missing fun hsome => h ⟨rfl, hsome⟩]
    exact .empty _
  · exact .refl _

theorem within_putDynptr (stack : StackState) (off q : Int) (d : DynptrSlot) :
    Within (annots (putDynptr stack off (some d)) q)
      (if q = off then { annots stack q with dynptr := some d } else annots stack q) :=
  within_marked (g := fun a => { a with dynptr := some d }) (annots_putDynptr stack off (some d) q)

theorem adds_stampDynptr (d : DynptrSlot) :
    Adds s (stampDynptr s level off d) level off (.dynptr d) := by
  refine adds_modifyStackAt (fun stack q => ?_) s level
  have hbase := within_putDynptr (markScalar stack off 16) off q { d with firstSlot := true }
  have htrail := within_putDynptr
    (putDynptr (markScalar stack off 16) off (some { d with firstSlot := true })) (off + 8) q
    { d with firstSlot := false }
  rw [annots_markScalar] at hbase
  refine htrail.trans ?_
  simp only [place]
  split_ifs with h8 h0
  · rw [annots_putDynptr, if_neg fun h => by omega, annots_markScalar]
    exact .refl _
  · rw [if_pos h0] at hbase
    exact hbase
  · rw [if_neg h0] at hbase
    exact hbase

theorem adds_iterInit (it : IteratorSlot) (n level : Nat) (off : Int) :
    Adds s (modifyStackAt s level fun stack =>
      putIterator (markScalar stack off n) off (some it)) level off (.iterator it) := by
  refine adds_modifyStackAt (fun stack q => ?_) s level
  have h := within_marked (g := fun a => { a with iterator := some it })
    (annots_putIterator (markScalar stack off n) off (some it) q)
  rwa [annots_markScalar] at h

theorem adds_irqSave (flag : IrqFlagSlot) (n level : Nat) (off : Int) :
    Adds s (modifyStackAt s level fun stack =>
      putIrqFlag (markScalar stack off n) off (some flag)) level off (.irqFlag flag) := by
  refine adds_modifyStackAt (fun stack q => ?_) s level
  have h := within_marked (g := fun a => { a with irqFlag := some flag })
    (annots_putIrqFlag (markScalar stack off n) off (some flag) q)
  rwa [annots_markScalar] at h

theorem shrinks_putIterator_none :
    Shrinks s (modifyStackAt s level fun stack => putIterator stack off none) := by
  refine shrinks_modifyStackAt (fun stack q => ?_) s level
  rw [annots_putIterator]
  split_ifs
  · exact ⟨nofun, fun _ => id, fun _ => id⟩
  · exact .refl _

theorem shrinks_putIrqFlag_none :
    Shrinks s (modifyStackAt s level fun stack => putIrqFlag stack off none) := by
  refine shrinks_modifyStackAt (fun stack q => ?_) s level
  rw [annots_putIrqFlag]
  split_ifs
  · exact ⟨fun it h => ⟨it, h, rfl⟩, fun _ => id, nofun⟩
  · exact .refl _

theorem shrinks_dropReinitialised (helper : Nat) :
    Shrinks s (dropReinitialisedDynptrs s helper) := by
  unfold dropReinitialisedDynptrs
  split
  · refine Shrinks.trans (shrinks_modifyStackAt (fun stack q => ?_) s _)
      (.of_same (sameAnnots_invalidateDynptrSlices _ _))
    rw [annots_clearTouchedDynptrs]
    exact within_clearTouched ..
  · exact .refl s

theorem shrinks_releaseRefOf (d : DynptrSlot) : Shrinks s (releaseRefOf s d) := by
  intro l q
  rw [annotsAt_releaseRefOf]
  split_ifs
  · exact within_dropRef ..
  · exact .refl _

theorem shrinks_releaseDynptr : Shrinks s (releaseDynptr s level off) := by
  have hput : ∀ t : State, Shrinks t (modifyStackAt t level fun stack =>
      putDynptr (putDynptr stack off none) (off + 8) none) := fun t =>
    shrinks_modifyStackAt (fun stack q => (within_putDynptr_none _ _ q).trans
      (within_putDynptr_none stack off q)) t level
  rw [releaseDynptr_eq]
  cases getDynptr (stackAt s level) off with
  | none => exact hput s
  | some d => exact (shrinks_releaseRefOf s d).trans (hput _)

theorem applySideEffect_objects (eff : SideEffect) :
    Shrinks s (applySideEffect env inTypes flags s id eff) ∨
      ∃ l q new, constructed env s id eff = some (l, q, new) ∧
        Adds s (applySideEffect env inTypes flags s id eff) l q new := by
  cases eff with
  | releaseRefFromArg arg =>
    refine Or.inl ?_
    rw [applySideEffect]
    split
    · split_ifs
      · exact .of_same (.of_frames rfl)
      · exact .of_same (closed_released s sweepClosed_sameAnnots _)
    · exact .refl s
  | setExceptionCallbackFromArg arg => exact Or.inl (.refl s)
  | dynptrInitOnArg arg kind rdonly =>
    rw [applySideEffect, constructed]
    cases resolveStackArg s (argReg arg) with
    | none => exact Or.inl (.refl s)
    | some p =>
      have hacq : SameAnnots s (if decide (kind = .ringbuf) = true then acquireRef s id else s) :=
        .ite (.of_frames rfl) (.refl s)
      have hsweep := hacq.trans (sameAnnots_sweepReplaced _ p.1 p.2)
      refine Or.inr ⟨p.1, p.2, _, rfl, Adds.after_shrinks (.of_same hsweep) ?_⟩
      exact adds_stampDynptr _ p.1 p.2 _
  | dynptrReleaseFromArg arg =>
    refine Or.inl ?_
    rw [applySideEffect]
    split
    · exact shrinks_releaseDynptr s _ _
    · exact .refl s
  | dynptrCloneOnArg src dst =>
    rw [applySideEffect, constructed]
    cases resolveStackArg s (argReg src) with
    | none => exact Or.inl (.refl s)
    | some p =>
      cases resolveStackArg s (argReg dst) with
      | none => exact Or.inl (.refl s)
      | some p' =>
        dsimp only
        cases getDynptr (stackAt s p.1) p.2 with
        | none => exact Or.inl (.refl s)
        | some d =>
          refine Or.inr ⟨p'.1, p'.2, _, rfl,
            Adds.after_shrinks (.of_same (sameAnnots_sweepReplaced s p'.1 p'.2)) ?_⟩
          exact adds_stampDynptr _ p'.1 p'.2 _
  | iterInitOnArg arg kind =>
    rw [applySideEffect, constructed]
    cases resolveStackArg s (argReg arg) with
    | none => exact Or.inl (.refl s)
    | some p => exact Or.inr ⟨p.1, p.2, _, rfl, adds_iterInit s _ _ p.1 p.2⟩
  | iterDestroyOnArg arg =>
    refine Or.inl ?_
    rw [applySideEffect]
    split
    · exact shrinks_putIterator_none s _ _
    · exact .refl s
  | irqSaveOnArg arg kfuncClass =>
    rw [applySideEffect, constructed]
    cases resolveStackArg s (argReg arg) with
    | none => exact Or.inl (.refl s)
    | some p =>
      have hids : Shrinks s { s with acquiredIrqIds := id :: s.acquiredIrqIds } :=
        .of_same (.of_frames rfl)
      exact Or.inr ⟨p.1, p.2, _, rfl, .after_shrinks hids (adds_irqSave _ _ _ p.1 p.2)⟩
  | irqRestoreFromArg arg kfuncClass =>
    refine Or.inl ?_
    rw [applySideEffect]
    split
    · next level off _ =>
      have hframes := frames_irqRestoreSlot s (getIrqFlag (stackAt s level) off)
      exact Shrinks.trans (.of_same (.of_frames hframes)) (shrinks_putIrqFlag_none _ level off)
    · exact .refl s

end Effects

end ZoneVerifier.StackObjects

namespace ZoneVerifier.ObjectSteps
open RegTypes Machine Signatures CallTypes CallTransfer KfuncTransfer Annotations AnnotationFlow
open CallAnnotations EffectAnnotations StackInstr CallObjects StackObjects
open BranchTransfer (closed_transferIf)
open Ast hiding Instr

variable {env : CallEnv} {s s' : State}

def Declares (env : CallEnv) (eff : SideEffect) : Instr → Prop
  | .helper helper _ _ => ∃ proto, getHelperProto env helper = some proto ∧ eff ∈ proto.sideEffects
  | .kfunc _ call _ => eff ∈ call.proto.sideEffects
  | _ => False

def freshId : Instr → Nat
  | .helper _ _ ids | .kfunc _ _ ids => ids 0
  | _ => 0

def target (s : State) : SideEffect → Option (Nat × Int × ObjKind)
  | .iterInitOnArg arg kind =>
    (resolveStackArg s (argReg arg)).map fun (l, q) => (l, q, .iterator kind)
  | .dynptrInitOnArg arg _ _ | .dynptrCloneOnArg _ arg =>
    (resolveStackArg s (argReg arg)).map fun (l, q) => (l, q, .dynptr)
  | .irqSaveOnArg arg _ => (resolveStackArg s (argReg arg)).map fun (l, q) => (l, q, .irqFlag)
  | _ => none

/-- What is known of a new dynptr; a clone shares its reference with a live one. -/
def NewFrom (s : State) (id : Nat) (eff : SideEffect) : NewObj → Prop
  | .dynptr d => d.dynptrId = id ∧
      ((∃ arg kind rdonly, eff = .dynptrInitOnArg arg kind rdonly ∧ d.kind = kind ∧
          d.refId = if decide (kind = .ringbuf) then id else 0) ∨
        ∃ srcArg dstArg l q d₀, eff = .dynptrCloneOnArg srcArg dstArg ∧
          dynptrAt s l q = some d₀ ∧ d.refId = d₀.refId ∧ d.kind = d₀.kind)
  | _ => True

def Evolves (env : CallEnv) (s s' : State) (instr : Instr) : Prop :=
  Shrinks s s' ∨ ∃ eff l q new, Declares env eff instr ∧ target s eff = some (l, q, new.kind) ∧
    NewFrom s (freshId instr) eff new ∧ Adds s s' l q new

theorem dynptrAt_eq (s : State) (l : Nat) (q : Int) :
    dynptrAt s l q = getDynptr (stackAt s l) q := by
  unfold dynptrAt annotsAt annots getDynptr
  cases (stackAt s l).slots.find q <;> rfl

theorem constructed_from {t : State} {id : Nat} {eff : SideEffect} {l : Nat} {q : Int}
    {new : NewObj} (hshrinks : Shrinks s t)
    (h : ∀ arg, resolveStackArg t (argReg arg) = resolveStackArg s (argReg arg))
    (hc : constructed env t id eff = some (l, q, new)) :
    target s eff = some (l, q, new.kind) ∧ NewFrom s id eff new := by
  cases eff with
  | iterInitOnArg arg _ | irqSaveOnArg arg _ =>
    rw [constructed, h] at hc
    obtain ⟨p, hp, heq⟩ := Option.map_eq_some_iff.1 hc
    cases heq
    rw [target, hp]
    exact ⟨rfl, trivial⟩
  | dynptrInitOnArg arg kind rdonly =>
    rw [constructed, h] at hc
    obtain ⟨p, hp, heq⟩ := Option.map_eq_some_iff.1 hc
    cases heq
    rw [target, hp]
    exact ⟨rfl, rfl, Or.inl ⟨arg, kind, rdonly, rfl, rfl, rfl⟩⟩
  | dynptrCloneOnArg src dst =>
    rw [constructed, h, h] at hc
    split at hc
    · next srcLevel srcOff l' q' _ hdst =>
      obtain ⟨d₀, hd₀, heq⟩ := Option.map_eq_some_iff.1 hc
      cases heq
      rw [target, hdst]
      have hlive : dynptrAt s srcLevel srcOff = some d₀ :=
        (hshrinks srcLevel srcOff).dynptr d₀ ((dynptrAt_eq ..).trans hd₀)
      exact ⟨rfl, rfl, Or.inr ⟨src, dst, srcLevel, srcOff, d₀, rfl, hlive, rfl, rfl⟩⟩
    · cases hc
  | releaseRefFromArg arg => cases hc
  | setExceptionCallbackFromArg arg => cases hc
  | dynptrReleaseFromArg arg | iterDestroyOnArg arg | irqRestoreFromArg arg kfuncClass => cases hc

theorem effectsOf_objects (env : CallEnv) (inTypes : TypeState) (ids : Nat → Nat) {proto : CallProto}
    (hd : Declared proto) {t : State} (ht : Shrinks s t)
    (h : ∀ arg, resolveStackArg t (argReg arg) = resolveStackArg s (argReg arg)) :
    Shrinks s (effectsOf env inTypes ids proto t) ∨ ∃ eff l q new, eff ∈ proto.sideEffects ∧
      target s eff = some (l, q, new.kind) ∧ NewFrom s (ids 0) eff new ∧
      Adds s (effectsOf env inTypes ids proto t) l q new := by
  unfold effectsOf
  rcases heffs : proto.sideEffects with _ | ⟨eff, _ | ⟨eff', rest⟩⟩
  · exact Or.inl ht
  · rcases applySideEffect_objects env inTypes proto.flags t (ids 0) eff with
      hs | ⟨l, q, new, hc, ha⟩
    · exact Or.inl (ht.trans hs)
    · obtain ⟨htarget, hnew⟩ := constructed_from ht h hc
      exact Or.inr ⟨eff, l, q, new, List.mem_singleton_self eff, htarget, hnew,
        .after_shrinks ht ha⟩
  · have hsingle := hd.single
    rw [heffs] at hsingle
    simp at hsingle

theorem shrinks_normalCall (inTypes : TypeState) (s : State) (ids : Nat → Nat) (helper : Nat) :
    Shrinks (helperEffects env inTypes ids s helper) (normalCall env inTypes s helper ids) := by
  refine .of_annots fun l q => ?_
  by_cases hl : l ≤ s.frames.currentLevel
  · exact (drops_normalCall env inTypes s ids helper hl q).empty_or_eq
  · refine Or.inl (annotsAt_of_lt ?_ q)
    rw [frames_normalCall, currentLevel_buffers, currentLevel_beforeBuffers]
    omega

theorem helper_evolves {helper : Nat} {couldReinit : Bool} {ids : Nat → Nat}
    (henv : TableDeclared env) (h : Succ env s s' (.helper helper couldReinit ids)) :
    Evolves env s s' (.helper helper couldReinit ids) := by
  obtain ⟨_, s₁, hflags, hcall⟩ := h
  have hobj := sameObjects_helperFlags hflags
  have hs₁ : Shrinks s s₁ := .of_core hobj.core
  have heffects : ∀ t, Shrinks s₁ t → SameStackArgs s₁ t →
      Shrinks (helperEffects env s.types ids t helper) s' →
      Evolves env s s' (.helper helper couldReinit ids) := by
    intro t ht hsame hafter
    have hset : Shrinks s (setType t .r0 .scalarValue) :=
      (hs₁.trans ht).trans (.of_same (.of_frames rfl))
    unfold helperEffects at hafter
    cases hproto : getHelperProto env helper with
    | none =>
      rw [hproto] at hafter
      exact Or.inl (hset.trans hafter)
    | some proto =>
      rw [hproto] at hafter
      have hres : ∀ arg, resolveStackArg (setType t .r0 .scalarValue) (argReg arg) =
          resolveStackArg s (argReg arg) := fun arg =>
        (resolveStackArg_setR0 t _ arg).trans (resolveStackArg_eq (hobj.args.trans hsame) _)
      rcases effectsOf_objects env s.types ids (declared_getHelperProto henv hproto) hset hres with
        hs | ⟨eff, l, q, new, hmem, htarget, hnew, ha⟩
      · exact Or.inl (hs.trans hafter)
      · exact Or.inr ⟨eff, l, q, new, ⟨proto, hproto, hmem⟩, htarget, hnew, ha.of_shrinks hafter⟩
  unfold transferCall at hcall
  split at hcall
  · next htail =>
    cases hcall
    subst htail
    exact heffects s₁ (.refl s₁) (.refl s₁) (.of_same (sameAnnots_tailCall ..))
  · split at hcall
    · exact Or.inl (hs₁.trans (.of_same (closed_kptrXchg env sweepClosed_sameAnnots hcall)))
    · split at hcall
      · next hcb =>
        cases hcall
        refine heffects (if couldReinit then dropReinitialisedDynptrs s₁ helper else s₁) ?_ ?_
          (.of_same (sameAnnots_callbackSkip env s.types s₁ ids hcb couldReinit))
        · split_ifs
          · exact shrinks_dropReinitialised s₁ helper
          · exact .refl s₁
        · split_ifs
          · exact sameStackArgs_dropReinitialised s₁ helper
          · exact .refl s₁
      · cases hcall
        exact heffects s₁ (.refl s₁) (.refl s₁) (shrinks_normalCall s.types s₁ ids helper)

theorem kfunc_evolves {btfId : Nat} {call : KfuncCall} {ids : Nat → Nat} (hd : Declared call.proto)
    (h : Succ env s s' (.kfunc btfId call ids)) : Evolves env s s' (.kfunc btfId call ids) := by
  obtain ⟨_, s₁, hflags, hmem⟩ := h
  have hobj := sameObjects_lockFlags hflags
  have hs₁ : Shrinks s s₁ := .of_core hobj.core
  rcases transferKfunc_frames env s.types ids hmem with hcore | ⟨t, hframes, hdom, htypes, heff⟩
  · exact Or.inl (hs₁.trans (.of_core hcore))
  · have ht : Shrinks s t := hs₁.trans (.of_same (.of_frames hframes))
    have hafter : Shrinks (effectsOf env s.types ids call.proto t) s' := .of_same (.of_frames heff)
    have hsame : SameStackArgs s t := hobj.args.trans (.of_types hdom htypes)
    rcases effectsOf_objects env s.types ids hd ht fun arg => resolveStackArg_eq hsame (argReg arg)
      with hs | ⟨eff, l, q, new, hmem, htarget, hnew, ha⟩
    · exact Or.inl (hs.trans hafter)
    · exact Or.inr ⟨eff, l, q, new, hmem, htarget, hnew, ha.of_shrinks hafter⟩

theorem shrinks_store {level : Nat} {size : MemSize} {base : Reg} {off : Int} {src : Operand}
    {fresh : Nat} (h : Succ env s s' (.store level size base off src fresh)) : Shrinks s s' := by
  obtain ⟨_, hlevel, hstep⟩ := h
  rcases transferStoreStack_ok hstep with ⟨baseOff, s₁, _, hfix, rfl⟩ | ⟨_, rfl⟩
  · intro l q
    show Within (annotsAt s₁ l q) _
    rw [annotsAt_storeFixed hfix]
    split_ifs
    · exact .empty _
    · exact within_clearTouched ..
    · exact .refl _
  · refine .of_annots fun l q => ?_
    exact (Drops.of_ite (annotsAt_storeVariable s hlevel size base off l q)).empty_or_eq

theorem evolves_succ {instr : Instr} (hd : InstrDeclared env instr) (h : Succ env s s' instr) :
    Evolves env s s' instr := by
  cases instr with
  | regs => exact Or.inl (.of_same (.of_frames h))
  | store level size base off src fresh => exact Or.inl (shrinks_store h)
  | atomic op fetch size base off src =>
    obtain ⟨_, rfl⟩ := h
    refine Or.inl (.of_annots fun l q => ?_)
    have hatomic := annotsAt_transferAtomic s op fetch size base off src l q
    exact (Drops.of_ite hatomic).empty_or_eq
  | callRel target global ids =>
    cases h
    exact Or.inl (.of_annots fun l q => Or.inr (annotsAt_transferCallRel ..))
  | exit =>
    refine Or.inl (.of_annots fun l q => ?_)
    have hexit := annotsAt_transferExit h l q
    split_ifs at hexit
    · exact Or.inr hexit
    · exact Or.inl hexit
  | branch width left op right target =>
    exact Or.inl (.of_same (closed_transferIf branchClosed_sameAnnots h))
  | mayGoto target prev precisePcs force => exact Or.inl (.of_same (sameAnnots_transferMayGoto h))
  | helper helper couldReinit ids => exact helper_evolves hd h
  | kfunc btfId call ids => exact kfunc_evolves hd h
  | callback helper entry offsets ids =>
    cases h
    exact Or.inl (.of_annots fun l q => Or.inr (annotsAt_enterCallback ..))
  | callbackExit prev precisePcs force id =>
    refine Or.inl (.of_annots fun l q => ?_)
    by_cases hl : l ≤ s'.frames.currentLevel
    · exact (drops_callbackExit h hl q).empty_or_eq
    · exact Or.inl (annotsAt_of_lt (by omega) q)

end ZoneVerifier.ObjectSteps
