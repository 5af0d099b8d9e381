import ZoneVerifier.CallObjects
import ZoneVerifier.PacketSweep

/-!
# Iterators stay until they are destroyed

An iterator on the stack is one annotation of one slot. Every path that writes
the slot again drops it: the check of a store looks for overlapping iterators
only at a known offset and only at the bytes of the store itself, and no check
stands in front of an atomic operation, of the buffers of a helper or of the
slots that are forgotten when a callback returns.
-/

set_option autoImplicit false

namespace ZoneVerifier.IteratorKept
open RegTypes Stack Machine MemTransfer Signatures CallTypes CallTransfer KfuncTransfer Annotations
open AnnotationFlow CallAnnotations EffectAnnotations StackInstr CallObjects PacketSweep
open BranchTransfer (closed_transferIf)
open Ast hiding Instr

variable {id helper : Nat}

section Identity
variable {s s' : State} {l : Nat} {q : Int}

def iterIdAt (s : State) (l : Nat) (q : Int) : Option Nat := (iteratorAt s l q).map (·.id)

theorem iterIdAt_of_core (h : coreAt s' l q = coreAt s l q) : iterIdAt s' l q = iterIdAt s l q := by
  have hcore : ∀ t : State, iterIdAt t l q = (coreAt t l q).iterator.map (·.id) := by
    intro t
    unfold iterIdAt coreAt core
    rw [Option.map_map]
    rfl
  rw [hcore, hcore, h]

theorem iterIdAt_of_annots (h : annotsAt s' l q = annotsAt s l q) :
    iterIdAt s' l q = iterIdAt s l q := by
  unfold iterIdAt iteratorAt
  rw [h]

theorem iterIdAt_of_empty (h : annotsAt s l q = Annots.empty) : iterIdAt s l q = none := by
  unfold iterIdAt iteratorAt
  rw [h]
  rfl

/-- The iterator is lost in one case and kept in the other. -/
def Loses (P : Prop) (before after : Option Nat) : Prop :=
  (P → after = none) ∧ (¬ P → after = before)

theorem Loses.of_drops {P : Prop} {t : State} (h : Drops P (annotsAt t l q) (annotsAt s' l q))
    (ht : iterIdAt t l q = iterIdAt s l q) : Loses P (iterIdAt s l q) (iterIdAt s' l q) :=
  ⟨fun hp => iterIdAt_of_empty (h.gone hp), fun hp => (iterIdAt_of_annots (h.kept hp)).trans ht⟩

theorem Loses.of_eq (h : iterIdAt s' l q = iterIdAt s l q) :
    Loses False (iterIdAt s l q) (iterIdAt s' l q) := ⟨False.elim, fun _ => h⟩

theorem Loses.kept_iff {P : Prop} {after : Option Nat}
    (h : Loses P (some id) after) : after = some id ↔ ¬ P := by
  refine ⟨fun hk hp => ?_, h.2⟩
  rw [h.1 hp] at hk
  cases hk

end Identity

section Effects
variable (env : CallEnv) (inTypes : TypeState) (ids : Nat → Nat) {s t : State} {l : Nat} {q : Int}

def DestroysAt (proto : CallProto) (s : State) (l : Nat) (q : Int) : Prop :=
  ∃ arg, .iterDestroyOnArg arg ∈ proto.sideEffects ∧ resolveStackArg s (argReg arg) = some (l, q)

theorem iteratorAt_of_uninit (kind : IterKind) (r : Reg)
    (h : validateIterArg s r kind .uninit = true) (hr : resolveStackArg s r = some (l, q)) :
    iteratorAt s l q = none := by
  unfold validateIterArg at h
  rw [hr] at h
  dsimp only at h
  unfold iteratorAt annotsAt
  rw [iterator_annots]
  cases hit : getIterator (stackAt s l) q with
  | none => rfl
  | some it =>
    rw [hit] at h
    cases h

theorem stackArgAccepted_of_mem {proto : CallProto}
    (h : stackArgsAccepted s helper proto = true) {arg : Nat} (harg : arg < 5) {kind : ArgKind}
    (hk : proto.args[arg]? = some kind) : stackArgAccepted s helper (argReg arg) kind = true := by
  have := List.all_eq_true.1 h arg (List.mem_range.2 harg)
  rw [hk] at this
  exact this

theorem iterIdAt_effectsOf {proto : CallProto} (hd : Declared proto)
    (hargs : stackArgsAccepted s helper proto = true) (hit : iterIdAt s l q = some id)
    (hdestroy : ¬ DestroysAt proto s l q)
    (hres : ∀ arg < 5, resolveStackArg t (argReg arg) = resolveStackArg s (argReg arg)) :
    iterIdAt (effectsOf env inTypes ids proto t) l q = iterIdAt t l q := by
  unfold iterIdAt at hit ⊢
  refine congrArg (Option.map _) ?_
  refine iteratorAt_runEffects env inTypes proto.flags ids _ t fun e he => ?_
  have hmem : e.1 ∈ proto.sideEffects := (List.of_mem_zip he).1
  have hdecl := hd.args e.1 hmem
  cases heff : e.1 with
  | iterInitOnArg arg kind =>
    rw [heff] at hdecl
    obtain ⟨harg, hkind⟩ := of_decide_eq_true hdecl
    have hacc := stackArgAccepted_of_mem hargs harg hkind
    intro htarget
    have hnone := iteratorAt_of_uninit kind (argReg arg) hacc ((hres arg harg).symm.trans htarget)
    rw [hnone] at hit
    cases hit
  | iterDestroyOnArg arg =>
    rw [heff] at hdecl hmem
    have harg : arg < 5 := of_decide_eq_true (Bool.and_eq_true_iff.1 hdecl).1
    intro htarget
    exact hdestroy ⟨arg, hmem, (hres arg harg).symm.trans htarget⟩
  | _ => exact fun htarget => nomatch htarget

end Effects

section Step
variable {env : CallEnv} {s s' : State} {l : Nat} {q : Int}

def StoreHits (s : State) (l : Nat) (q : Int) (size : MemSize) (base : Reg) (off : Int)
    (src : Operand) : Prop :=
  match s.domain.getDistanceFixed base .r10 with
  | some baseOff => StoreDrops (stackAt s l) (toI16 (baseOff + off)) size q
      (storeAligned (destroyDynptrs s l (stackAt s l) (baseOff + off) size.bytes) src
        (toI16 (baseOff + off)) size)
  | none => VariableDrops s size base off q

/-- The slots from which an instruction takes the annotations away. -/
def Hits (env : CallEnv) (s : State) (l : Nat) (q : Int) : Instr → Prop
  | .store level size base off src _ => level = l ∧ StoreHits s l q size base off src
  | .atomic _ _ _ base off _ => l = s.frames.currentLevel ∧ base = .r10 ∧ q = off
  | .helper helper _ ids =>
      helper ∉ [Helper.tailCall, Helper.kptrXchg] ∧ isCallbackHelper helper = false ∧
        ∃ s₁, helperFlags env s helper = .ok s₁ ∧ HelperHits env s.types s₁ ids helper l q
  | .callbackExit .. => CallbackForgets s.frames.current s l q
  | .regs | .callRel .. | .exit | .branch .. | .mayGoto .. | .kfunc .. | .callback .. => False

/-- A call that ends the iterator at a slot. -/
def Destroys (env : CallEnv) (s : State) (l : Nat) (q : Int) : Instr → Prop
  | .helper helper _ _ => ∃ proto, getHelperProto env helper = some proto ∧ DestroysAt proto s l q
  | .kfunc _ call _ => DestroysAt call.proto s l q
  | _ => False

theorem loses_store {level : Nat} {size : MemSize} {base : Reg} {off : Int} {src : Operand}
    {fresh : Nat} (h : Succ env s s' (.store level size base off src fresh)) :
    Loses (Hits env s l q (.store level size base off src fresh)) (iterIdAt s l q)
      (iterIdAt s' l q) := by
  obtain ⟨_, hlevel, hstep⟩ := h
  show Loses (level = l ∧ StoreHits s l q size base off src) _ _
  unfold StoreHits
  rcases transferStoreStack_ok hstep with ⟨baseOff, s₁, hdist, hfix, rfl⟩ | ⟨hdist, rfl⟩
  · rw [hdist]
    have hstore := annotsAt_storeFixed hfix l q
    refine ⟨fun ⟨hl, hd⟩ => ?_, fun hno => ?_⟩
    · subst hl
      rw [if_pos ⟨rfl, hd⟩] at hstore
      exact iterIdAt_of_empty hstore
    · rw [if_neg] at hstore
      · show iterIdAt s₁ l q = iterIdAt s l q
        unfold iterIdAt iteratorAt
        rw [hstore]
        split_ifs
        · unfold clearTouched
          split_ifs <;> rfl
        · rfl
      · rintro ⟨rfl, hd⟩
        exact hno ⟨rfl, hd⟩
  · rw [hdist]
    have hstore := annotsAt_storeVariable s hlevel size base off l q
    refine ⟨fun ⟨hl, hd⟩ => ?_, fun hno => ?_⟩
    · rw [if_pos ⟨hl.symm, hd⟩] at hstore
      exact iterIdAt_of_empty hstore
    · rw [if_neg fun h => hno ⟨h.1.symm, h.2⟩] at hstore
      exact iterIdAt_of_annots hstore

theorem le_of_iterIdAt (h : iterIdAt s l q = some id) : l ≤ s.frames.currentLevel := by
  by_contra hl
  rw [iterIdAt_of_empty (annotsAt_of_lt (by omega) q)] at h
  cases h

theorem iterIdAt_helperEffects (inTypes : TypeState) (ids : Nat → Nat) {t : State}
    (henv : TableDeclared env) (hargs : helperArgsAccepted env s helper = true)
    (hit : iterIdAt s l q = some id) (ht : iterIdAt t l q = iterIdAt s l q)
    (hsame : SameStackArgs s t)
    (hdestroy : ¬ ∃ proto, getHelperProto env helper = some proto ∧ DestroysAt proto s l q) :
    iterIdAt (helperEffects env inTypes ids t helper) l q = iterIdAt s l q := by
  have hset : iterIdAt (setType t .r0 .scalarValue) l q = iterIdAt s l q :=
    (iterIdAt_of_annots (annotsAt_of_frames rfl l q)).trans ht
  unfold helperEffects
  cases hproto : getHelperProto env helper with
  | none => exact hset
  | some proto =>
    refine (iterIdAt_effectsOf env inTypes ids (declared_getHelperProto henv hproto)
      (stackArgsAccepted_of_helper hargs hproto) hit (fun h => hdestroy ⟨proto, hproto, h⟩)
      fun arg _ => ?_).trans hset
    rw [← resolveStackArg_eq hsame]
    exact resolveStackArg_setR0 t _ arg

theorem loses_helper {couldReinit : Bool} {ids : Nat → Nat}
    (henv : TableDeclared env) (h : Succ env s s' (.helper helper couldReinit ids))
    (hit : iterIdAt s l q = some id) (hdestroy : ¬ Destroys env s l q (.helper helper couldReinit ids)) :
    Loses (Hits env s l q (.helper helper couldReinit ids)) (iterIdAt s l q) (iterIdAt s' l q) := by
  obtain ⟨hargs, s₁, hflags, hcall⟩ := h
  have hobj := sameObjects_helperFlags hflags
  have hs₁ : iterIdAt s₁ l q = iterIdAt s l q := iterIdAt_of_core (hobj.core.slots l q)
  have heffects : ∀ t : State, iterIdAt t l q = iterIdAt s₁ l q → SameStackArgs s₁ t →
      iterIdAt (helperEffects env s.types ids t helper) l q = iterIdAt s l q := fun t ht hsame =>
    iterIdAt_helperEffects s.types ids henv hargs hit (ht.trans hs₁) (hobj.args.trans hsame) hdestroy
  have hno : ∀ P : Prop, (P → False) → iterIdAt s' l q = iterIdAt s l q →
      Loses P (iterIdAt s l q) (iterIdAt s' l q) := fun _ hp hk => ⟨fun h => (hp h).elim, fun _ => hk⟩
  unfold transferCall at hcall
  split at hcall
  · next htail =>
    cases hcall
    subst htail
    refine hno _ (fun hp => hp.1 (by decide)) ?_
    refine (iterIdAt_of_annots ((sameAnnots_tailCall ..).slots l q)).trans ?_
    exact heffects s₁ rfl (.refl s₁)
  · next htail =>
    split at hcall
    · next hx =>
      subst hx
      refine hno _ (fun hp => hp.1 (by decide)) ?_
      exact (iterIdAt_of_annots ((closed_kptrXchg env sweepClosed_sameAnnots hcall).slots l q)).trans hs₁
    · next hx =>
      split at hcall
      · next hcb =>
        cases hcall
        refine hno _ (fun hp => Bool.false_ne_true (hp.2.1.symm.trans hcb)) ?_
        have hskip := sameAnnots_callbackSkip env s.types s₁ ids hcb couldReinit
        refine (iterIdAt_of_annots (hskip.slots l q)).trans (heffects _ ?_ ?_)
        · split_ifs
          · exact congrArg (Option.map _) (iteratorAt_dropReinitialised s₁ helper l q)
          · rfl
        · split_ifs
          · exact sameStackArgs_dropReinitialised s₁ helper
          · exact .refl s₁
      · next hcb =>
        cases hcall
        have hcur : l ≤ s₁.frames.currentLevel := by
          rw [hobj.core.level]
          exact le_of_iterIdAt hit
        have hdrops := drops_normalCall env s.types s₁ ids helper hcur q
        have hloses := Loses.of_drops hdrops (heffects s₁ rfl (.refl s₁))
        refine ⟨fun ⟨_, _, s₂, h₂, hp⟩ => ?_, fun hp => ?_⟩
        · rw [hflags] at h₂
          cases h₂
          exact hloses.1 hp
        · refine hloses.2 fun hh => hp ⟨?_, Bool.eq_false_of_not_eq_true hcb, s₁, hflags, hh⟩
          simp [htail, hx]

theorem iterIdAt_kfunc {btfId : Nat} {call : KfuncCall} {ids : Nat → Nat}
    (hd : Declared call.proto) (h : Succ env s s' (.kfunc btfId call ids))
    (hit : iterIdAt s l q = some id) (hdestroy : ¬ DestroysAt call.proto s l q) :
    iterIdAt s' l q = iterIdAt s l q := by
  obtain ⟨hargs, s₁, hflags, hmem⟩ := h
  have hobj := sameObjects_lockFlags hflags
  have hs₁ : iterIdAt s₁ l q = iterIdAt s l q := iterIdAt_of_core (hobj.core.slots l q)
  rcases transferKfunc_frames env s.types ids hmem with hcore | ⟨t, hframes, hdom, htypes, heff⟩
  · exact (iterIdAt_of_core (hcore.slots l q)).trans hs₁
  · have ht : iterIdAt t l q = iterIdAt s₁ l q := iterIdAt_of_annots (annotsAt_of_frames hframes l q)
    have hsame : SameStackArgs s t := hobj.args.trans (.of_types hdom htypes)
    have hkept := iterIdAt_effectsOf env s.types ids hd hargs hit hdestroy (t := t) fun arg _ =>
      resolveStackArg_eq hsame (argReg arg)
    exact (iterIdAt_of_annots (annotsAt_of_frames heff l q)).trans (hkept.trans (ht.trans hs₁))

theorem loses_succ {instr : Instr} (hd : InstrDeclared env instr)
    (h : Succ env s s' instr) (hit : iterIdAt s l q = some id) (hl : l ≤ s'.frames.currentLevel)
    (hdestroy : ¬ Destroys env s l q instr) :
    Loses (Hits env s l q instr) (iterIdAt s l q) (iterIdAt s' l q) := by
  cases instr with
  | regs => exact .of_eq (iterIdAt_of_annots (annotsAt_of_frames h l q))
  | store level size base off src fresh => exact loses_store h
  | atomic op fetch size base off src =>
    obtain ⟨_, rfl⟩ := h
    have hatomic := annotsAt_transferAtomic s op fetch size base off src l q
    have hdrops := Drops.of_ite hatomic
    exact .of_drops hdrops rfl
  | callRel target global ids =>
    cases h
    exact .of_eq (iterIdAt_of_annots (annotsAt_transferCallRel ..))
  | exit =>
    refine .of_eq (iterIdAt_of_annots ?_)
    obtain ⟨caller, callers, _, hcallers, hs'⟩ := CallReturn.transferExit_some h
    have hcur := currentLevel_leaveFrame hcallers (congrArg State.frames hs')
    rw [annotsAt_transferExit h, if_pos (by omega)]
  | branch width left op right target =>
    exact .of_eq (iterIdAt_of_annots ((closed_transferIf branchClosed_sameAnnots h).slots l q))
  | mayGoto target prev precisePcs force =>
    exact .of_eq (iterIdAt_of_annots ((sameAnnots_transferMayGoto h).slots l q))
  | helper helper couldReinit ids => exact loses_helper hd h hit hdestroy
  | kfunc btfId call ids => exact .of_eq (iterIdAt_kfunc hd h hit hdestroy)
  | callback helper entry offsets ids =>
    cases h
    exact .of_eq (iterIdAt_of_annots (annotsAt_enterCallback ..))
  | callbackExit prev precisePcs force id => exact .of_drops (drops_callbackExit h hl q) rfl

/-- An iterator disappears only when it is destroyed, for every instruction, if
and only if the instruction does not write its slot. -/
theorem iterator_kept_iff {instr : Instr} {id : Nat} (hd : InstrDeclared env instr)
    (h : Succ env s s' instr) (hit : iterIdAt s l q = some id) (hl : l ≤ s'.frames.currentLevel) :
    (Destroys env s l q instr ∨ iterIdAt s' l q = some id) ↔
      (Destroys env s l q instr ∨ ¬ Hits env s l q instr) := by
  by_cases hdestroy : Destroys env s l q instr
  · simp only [hdestroy, true_or]
  · have hloses := loses_succ hd h hit hl hdestroy
    rw [hit] at hloses
    rw [hloses.kept_iff]

end Step

section Example

/-- A numbers iterator at `r10 - 8`, and `R1` again at one or two slots. -/
def iterating (lo : Int) (width : Nat) : State :=
  { applySideEffect noTable (pointing (-8) 0).types 0 (pointing (-8) 0) 7
      (.iterInitOnArg 0 .num) with domain := (pointing lo width).domain }

def storeZero : Instr := .store 0 .u64 .r1 0 (.imm 0) 0

def stored (s : State) : State :=
  nextPc (storeVariable s 0 .u64 .r1 0)

theorem succ_stored (lo : Int)
    (hdist : (iterating lo 8).domain.getDistanceFixed .r1 .r10 = none) :
    Succ noTable (iterating lo 8) (stored (iterating lo 8)) storeZero := by
  refine ⟨rfl, Nat.zero_le _, ?_⟩
  unfold transferStoreStack
  rw [hdist]
  rfl

/-- The store may go to either of two slots and passes; the iterator in one of
them is gone. -/
theorem variableStore_drops_iterator :
    Succ noTable (iterating (-16) 8) (stored (iterating (-16) 8)) storeZero ∧
      iterIdAt (iterating (-16) 8) 0 (-8) = some 7 ∧
      ¬ Destroys noTable (iterating (-16) 8) 0 (-8) storeZero ∧
      iterIdAt (stored (iterating (-16) 8)) 0 (-8) = none :=
  ⟨succ_stored (-16) (by decide +kernel), by decide +kernel, not_false, by decide +kernel⟩

/-- A store to other slots keeps the iterator. -/
theorem variableStore_keeps_iterator :
    iterIdAt (stored (iterating (-32) 8)) 0 (-8) = some 7 := by
  have hdist : (iterating (-32) 8).domain.getDistanceFixed .r1 .r10 = none := by decide +kernel
  have hit : iterIdAt (iterating (-32) 8) 0 (-8) = some 7 := by decide +kernel
  have hmiss : ¬ Hits noTable (iterating (-32) 8) 0 (-8) storeZero := by
    rintro ⟨_, hstore⟩
    unfold StoreHits at hstore
    rw [hdist] at hstore
    revert hstore
    decide +kernel
  have hdecl : InstrDeclared noTable storeZero := trivial
  have hkept := (iterator_kept_iff hdecl (succ_stored (-32) hdist) hit (Nat.zero_le _)).2
    (Or.inr hmiss)
  exact hkept.resolve_left not_false

end Example

end ZoneVerifier.IteratorKept
