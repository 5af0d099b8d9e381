import ZoneVerifier.PacketSweep
import ZoneVerifier.StackObjects

/-!
# The layout of objects on the stack

A constructor looks at annotations at one or two exact offsets, and not at the
bounds of the frame, so the ranges of the objects are kept apart only in runs
whose constructors find room.
-/

set_option autoImplicit false

namespace ZoneVerifier.ObjectLayout
open Machine Signatures CallTypes KfuncTransfer Annotations StackInstr StackObjects ObjectSteps
open PacketSweep
open Ast hiding Instr

section Layout

def Apart (q : Int) (k : ObjKind) (q' : Int) (k' : ObjKind) : Prop :=
  q + k.size ≤ q' ∨ q' + k'.size ≤ q

instance (q : Int) (k : ObjKind) (q' : Int) (k' : ObjKind) : Decidable (Apart q k q' k') :=
  inferInstanceAs (Decidable (_ ∨ _))

theorem Apart.symm {q q' : Int} {k k' : ObjKind} (h : Apart q k q' k') : Apart q' k' q k := Or.symm h

/-- All objects lie inside their frame and apart from each other. -/
structure Layout (s : State) : Prop where
  inside : ∀ l q k, ObjectAt s l q k → -512 ≤ q ∧ q + k.size ≤ 0
  apart : ∀ l q k q' k', ObjectAt s l q k → ObjectAt s l q' k' → (q, k) ≠ (q', k') →
    Apart q k q' k'

end Layout

section Run
variable {env : CallEnv} {s s' : State}

/-- A constructor finds room: its object lies inside the frame and apart from
those it does not replace. -/
def Room (env : CallEnv) (s : State) (instr : Instr) : Prop :=
  ∀ eff l q k, Declares env eff instr → target s eff = some (l, q, k) → -512 ≤ q ∧ q + k.size ≤ 0 ∧
    ∀ q' k', ObjectAt s l q' k' → (q', k') = (q, k) ∨ Overwritten q k q' k' ∨ Apart q k q' k'

/-- A step of the verifier in which a constructor finds room. -/
def Step (env : CallEnv) (s s' : State) : Prop :=
  ∃ instr, InstrDeclared env instr ∧ Succ env s s' instr ∧ Room env s instr

theorem layout_of_shrinks (h : Layout s) (hs : Shrinks s s') : Layout s' where
  inside l q k ho := h.inside l q k ((hs l q).has ho)
  apart l q k q' k' ho ho' hne := h.apart l q k q' k' ((hs l q).has ho) ((hs l q').has ho') hne

theorem layout_step (h : Layout s) (hstep : Step env s s') : Layout s' := by
  obtain ⟨instr, hd, hsucc, hroom⟩ := hstep
  rcases evolves_succ hd hsucc with hs | ⟨eff, l₀, q₀, new, hdecl, htarget, _, ha⟩
  · exact layout_of_shrinks h hs
  · obtain ⟨hlo, hhi, hfree⟩ := hroom eff l₀ q₀ new.kind hdecl htarget
    have hnew : ∀ q k, ObjectAt s l₀ q k → ¬ Overwritten q₀ new.kind q k →
        (q₀, new.kind) ≠ (q, k) → Apart q₀ new.kind q k := by
      intro q k ho hno hne
      rcases hfree q k ho with heq | hover | hapart
      · exact absurd heq.symm hne
      · exact absurd hover hno
      · exact hapart
    refine ⟨fun l q k ho => ?_, fun l q k q' k' ho ho' hne => ?_⟩
    · rcases ha.objectAt ho with ⟨_, rfl, rfl⟩ | ⟨hold, _⟩
      · exact ⟨hlo, hhi⟩
      · exact h.inside l q k hold
    · rcases ha.objectAt ho with ⟨rfl, rfl, rfl⟩ | ⟨hold, hno⟩
      · rcases ha.objectAt ho' with ⟨_, rfl, rfl⟩ | ⟨hold', hno'⟩
        · exact absurd rfl hne
        · exact hnew q' k' hold' (fun hover => hno' ⟨rfl, hover⟩) hne
      · rcases ha.objectAt ho' with ⟨rfl, rfl, rfl⟩ | ⟨hold', _⟩
        · exact (hnew q k hold (fun hover => hno ⟨rfl, hover⟩) hne.symm).symm
        · exact h.apart l q k q' k' hold hold' hne

/-- In every run whose constructors find room, the objects lie inside their
frames and apart. -/
theorem layout_run (h : Layout s) (hrun : Relation.ReflTransGen (Step env) s s') : Layout s' := by
  induction hrun with
  | refl => exact h
  | tail _ hstep ih => exact layout_step ih hstep

end Run

section Example

def iterNumNew : KfuncCall where
  proto := { CallProto.withArgs [.iterArg .num .uninit, .anything, .anything, .anything] with
    ret := .scalar, sideEffects := [.iterInitOnArg 0 .num] }
  isWqSetCallback := false
  fixup := .none
  prev := none
  force := false

def afterNew (s : State) (id : Nat) : State :=
  normalKfunc noTable s.types s iterNumNew.proto .none fun _ => id

def repoint (s : State) (off : Int) : State := { pointing off 0 with frames := s.frames }

def firstIterator : State := afterNew (pointing (-8) 0) 1

def secondIterator : State := afterNew (repoint firstIterator (-12)) 2

theorem succ_afterNew (s : State) (id : Nat)
    (hargs : stackArgsAccepted s 0 iterNumNew.proto = true) :
    Succ noTable s (afterNew s id) (.kfunc 0 iterNumNew fun _ => id) :=
  ⟨hargs, s, rfl, List.mem_singleton_self _⟩

/-- Both calls are accepted; the second iterator starts inside the first. -/
theorem iterators_overlap :
    Succ noTable (pointing (-8) 0) firstIterator (.kfunc 0 iterNumNew fun _ => 1) ∧
      Succ noTable firstIterator (repoint firstIterator (-12)) .regs ∧
      Succ noTable (repoint firstIterator (-12)) secondIterator (.kfunc 0 iterNumNew fun _ => 2) ∧
      ObjectAt secondIterator 0 (-8) (.iterator .num) ∧
      ObjectAt secondIterator 0 (-12) (.iterator .num) ∧
      ¬ Apart (-8) (.iterator .num) (-12) (.iterator .num) ∧ ¬ Layout secondIterator := by
  have hold : ObjectAt secondIterator 0 (-8) (.iterator .num) := by decide +kernel
  have hnew : ObjectAt secondIterator 0 (-12) (.iterator .num) := by decide +kernel
  have hover : ¬ Apart (-8) (.iterator .num) (-12) (.iterator .num) := by decide
  refine ⟨?_, rfl, ?_, hold, hnew, hover, fun h => hover (h.apart 0 _ _ _ _ hold hnew (by decide))⟩
  · exact succ_afterNew _ 1 (by decide +kernel)
  · exact succ_afterNew _ 2 (by decide +kernel)

theorem not_objectAt_pointing (off : Int) (l : Nat) (q : Int) (k : ObjKind) :
    ¬ ObjectAt (pointing off 0) l q k := by
  have hempty : annotsAt (pointing off 0) l q = Annots.empty := by
    cases l <;> rfl
  unfold ObjectAt
  rw [hempty]
  cases k <;> exact fun h => nomatch h

theorem layout_pointing (off : Int) : Layout (pointing off 0) where
  inside l q k ho := absurd ho (not_objectAt_pointing off l q k)
  apart l q k _ _ ho := absurd ho (not_objectAt_pointing off l q k)

/-- One iterator at the top of the frame finds room. -/
theorem firstIterator_layout : Layout firstIterator := by
  have hargs : target (pointing (-8) 0) (.iterInitOnArg 0 .num) =
      some (0, -8, .iterator .num) := by decide +kernel
  have hroom : Room noTable (pointing (-8) 0) (.kfunc 0 iterNumNew fun _ => 1) := by
    intro eff l q k hmem hc
    rw [List.mem_singleton.1 hmem, hargs] at hc
    cases hc
    exact ⟨by decide, by decide, fun q' k' ho => absurd ho (not_objectAt_pointing _ _ q' k')⟩
  have hdecl : Declared iterNumNew.proto := by decide
  have hstep : Step noTable (pointing (-8) 0) firstIterator :=
    ⟨.kfunc 0 iterNumNew fun _ => 1, hdecl, succ_afterNew _ 1 (by decide +kernel), hroom⟩
  exact layout_run (layout_pointing (-8)) (.single hstep)

end Example

end ZoneVerifier.ObjectLayout
