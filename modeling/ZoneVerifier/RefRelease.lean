import ZoneVerifier.LockFlags
import ZoneVerifier.PacketSweep
import ZoneVerifier.TypeInvariant

/-!
# Released and non-owning references

`release_ref` and `invalidate_ref` take a reference out of the registers and the
stack of the current frame; callers keep their own copies. Handing a node to a
list or a tree releases its reference and makes the registers that hold it
non-owning; dropping the lock turns those into scalars. Neither looks at a stack
or at the registers saved for a caller.
-/

set_option autoImplicit false

namespace ZoneVerifier.RefRelease
open Ast RegTypes Stack Machine Numeric TypeInvariant TypeFlow

def Without (id : Nat) (ty : RegType) : Prop := ty.getRefId ≠ some id

instance (id : Nat) (ty : RegType) : Decidable (Without id ty) := by
  unfold Without
  infer_instance

theorem neutral_without (id : Nat) : Neutral (Without id) where
  scalar := nofun
  notInit := nofun
  stack := fun _ => nofun
  arg := by
    intro ptr arg ty hty
    cases arg with
    | ptrToMem memSize nonnull =>
      cases nonnull <;> cases hty <;> exact nofun
    | ptrToBtfIdTrusted typeName nullable =>
      cases nullable <;> cases hty <;> exact nofun
    | _ => cases hty <;> exact nofun

/-- A state, and the references released on the way to it. -/
structure Config where
  state : State
  released : List Nat

/-- No register, no stack entry and no saved register holds a released
reference. -/
def Config.Clean (c : Config) : Prop := ∀ id ∈ c.released, StateAll (Without id) c.state

inductive Op where
  | flow (op : FlowOp)
  | release (id : Nat)

namespace Op

def exec (c : Config) : Op → Option Config
  | flow op => (op.exec c.state).map fun s => { c with state := s }
  | release id =>
    some { state := (c.state.releaseRef id).invalidateRef id, released := id :: c.released }

/-- A reference is released only when no caller's stack and no saved register
holds it. -/
def Kept (c : Config) : Op → Prop
  | release id => (∀ f ∈ c.state.frames.callers, StackAll (Without id) f.stack) ∧
      ∀ f ∈ c.state.frames.toList, RegsAll (Without id) f.callerTypes
  | _ => True

def execAll (c : Config) (ops : List Op) : Option Config := ops.foldlM exec c

end Op

def Step (c c' : Config) : Prop := ∃ op : Op, op.Kept c ∧ op.exec c = some c'

section Release
variable {s : State} {id q : Nat}

theorem stackAll_invalidateRef {stack : StackState} {P : RegType → Prop} (hp : Neutral P)
    (h : StackAll P stack) : StackAll P (stack.invalidateRef id) := by
  refine (FiniteMap.FinMap.all_mapValues ..).2 fun o sp hsp => ?_
  dsimp only
  split_ifs
  · exact hp.scalar
  · exact h o sp hsp

theorem stackAll_invalidated (stack : StackState) (id : Nat) :
    StackAll (Without id) (stack.invalidateRef id) := by
  refine (FiniteMap.FinMap.all_mapValues ..).2 fun o sp _ => ?_
  dsimp only
  split_ifs with hid
  · exact (neutral_without id).scalar
  · exact hid

theorem stateAll_invalidateRef {P : RegType → Prop} (hp : Neutral P) (h : StateAll P s) :
    StateAll P (s.invalidateRef id) := by
  refine ⟨fun i => ?_, fun f hf => ?_⟩
  · show P (if (s.types.regs i).getRefId = some id then .scalarValue else s.types.regs i)
    split_ifs
    · exact hp.scalar
    · exact h.regs i
  · rcases List.mem_cons.1 hf with rfl | hmem
    · have hcur := h.frames s.frames.current List.mem_cons_self
      exact ⟨stackAll_invalidateRef hp hcur.stack, hcur.saved⟩
    · exact h.frames f (List.mem_cons_of_mem _ hmem)

theorem stateAll_invalidated (hstack : ∀ f ∈ s.frames.callers, StackAll (Without id) f.stack)
    (hsaved : ∀ f ∈ s.frames.toList, RegsAll (Without id) f.callerTypes) :
    StateAll (Without id) (s.invalidateRef id) := by
  refine ⟨fun i => ?_, fun f hf => ?_⟩
  · show Without id (if (s.types.regs i).getRefId = some id then .scalarValue else s.types.regs i)
    split_ifs with hid
    · exact (neutral_without id).scalar
    · exact hid
  · rcases List.mem_cons.1 hf with rfl | hmem
    · exact ⟨stackAll_invalidated _ id, hsaved s.frames.current List.mem_cons_self⟩
    · exact ⟨hstack f hmem, hsaved f (List.mem_cons_of_mem _ hmem)⟩

end Release

theorem clean_exec {c c' : Config} {op : Op} (h : c.Clean) (hk : op.Kept c)
    (hexec : op.exec c = some c') : c'.Clean := by
  intro id hid
  have hp := neutral_without id
  cases op with
  | flow op =>
    obtain ⟨s', hs', rfl⟩ := Option.map_eq_some_iff.1 hexec
    exact stateAll_flow hp (h id hid) hs'
  | release r =>
    cases hexec
    rcases List.mem_cons.1 hid with rfl | hmem
    · exact stateAll_invalidated hk.1 hk.2
    · exact stateAll_invalidateRef hp ((h id hmem).of_same rfl rfl)

/-- Released references stay away over every run whose releases leave no copy
with a caller. -/
theorem clean_of_reaches {c₀ c : Config} (h : c₀.Clean) (hrun : Relation.ReflTransGen Step c₀ c) :
    c.Clean := by
  induction hrun with
  | refl => exact h
  | tail _ hstep ih =>
    obtain ⟨op, hk, hexec⟩ := hstep
    exact clean_exec ih hk hexec

/-- A socket in `r1` and a copy in `reg`, before anything is released. -/
def socketIn (reg : Reg) : Config :=
  { state :=
      { State.new NumericDomain.newInterval 0 with
        types := (TypeState.newNotInit.set .r1 (.ptrToSocket (some 1))).set reg
          (.ptrToSocket (some 1))
        activeRefs := {1} }
    released := [] }

theorem clean_socketIn (reg : Reg) : (socketIn reg).Clean := by
  intro id hid
  cases hid

/-- The callee releases the socket its caller keeps in `r6`; the return hands
the stale pointer back. -/
theorem released_socket_restored :
    (socketIn .r6).Clean ∧
      ∃ c, Op.execAll (socketIn .r6) [.flow (.call 7 none id), .release 1, .flow .exit] = some c ∧
        c.released = [1] ∧ c.state.types.get .r6 = .ptrToSocket (some 1) ∧ ¬ c.Clean := by
  have hrun : (Op.execAll (socketIn .r6) [.flow (.call 7 none id), .release 1, .flow .exit]).map
      (fun c => (c.released, c.state.types.get .r6)) = some ([1], .ptrToSocket (some 1)) := by
    decide +kernel
  obtain ⟨c, hc, hval⟩ := Option.map_eq_some_iff.1 hrun
  obtain ⟨hreleased, hty⟩ := Prod.mk.inj hval
  refine ⟨clean_socketIn .r6, c, hc, hreleased, hty, fun h => ?_⟩
  have hmem : 1 ∈ c.released := by
    rw [hreleased]
    exact List.mem_cons_self
  have hget := (h 1 hmem).regs.get (neutral_without 1).toPlain .r6
  rw [hty] at hget
  exact hget rfl

/-- The main program releases the socket itself, then calls. -/
theorem released_socket_gone :
    ∃ c, Op.execAll (socketIn .r6) [.release 1, .flow (.call 7 none id)] = some c ∧
      c.released = [1] ∧ c.Clean := by
  have hkept : (Op.release 1).Kept (socketIn .r6) := by
    constructor
    · intro f hf
      cases hf
    · intro f hf i hid
      rw [List.mem_singleton.1 hf] at hid
      cases hid
  have hcall : ∀ c, (Op.flow (.call 7 none id)).Kept c := fun _ => trivial
  obtain ⟨c₁, h₁⟩ : ∃ c, (Op.release 1).exec (socketIn .r6) = some c := ⟨_, rfl⟩
  obtain ⟨c₂, h₂⟩ : ∃ c, (Op.flow (.call 7 none id)).exec c₁ = some c := ⟨_, rfl⟩
  have hrun : Relation.ReflTransGen Step (socketIn .r6) c₂ :=
    (Relation.ReflTransGen.single ⟨_, hkept, h₁⟩).tail ⟨_, hcall c₁, h₂⟩
  refine ⟨c₂, ?_, ?_, clean_of_reaches (clean_socketIn .r6) hrun⟩
  · unfold Op.execAll
    rw [List.foldlM_cons, h₁]
    exact h₂
  · cases h₁
    cases h₂
    rfl

end ZoneVerifier.RefRelease

namespace ZoneVerifier.NonOwning
open Ast RegTypes Machine Numeric StackOps Signatures CallTypes CallTransfer LockFlags TypeInvariant
open PacketSweep (keptRegs noTable)

/-- An allocated object is owned through one of the active references. -/
def Owned (refs : Finset Nat) : RegType → Prop
  | .ptrToOwnedKptr refId _ nonOwning _ => nonOwning = false ∧ ∀ id ∈ refId, id ∈ refs
  | _ => True

section Unlock
variable (env : CallEnv) (s : State) (ids : Nat → Nat)

theorem helperCall_spinUnlock : helperCall env s Helper.spinUnlock ids =
    (dropSpinLock .spinLockRelease s).map fun s₁ =>
      normalCall env s.types s₁ Helper.spinUnlock ids := by
  have hflags : applyPreCallLockFlags s Helper.spinUnlock
      { CallProto.withArgs [.mapValueSpecial] with ret := .scalar, flags := .spinLockRelease } =
        dropSpinLock .spinLockRelease s := by
    show (dropSpinLock .spinLockRelease s >>= fun s => _) = _
    cases dropSpinLock .spinLockRelease s <;> rfl
  rw [← hflags]
  rfl

theorem frames_normalCall (inTypes : TypeState) :
    (normalCall env inTypes s Helper.spinUnlock ids).frames = s.frames := rfl

theorem activeRefs_normalCall (inTypes : TypeState) :
    (normalCall env inTypes s Helper.spinUnlock ids).activeRefs = s.activeRefs := rfl

theorem dropSpinLock_ok {s s₁ : State} (h : dropSpinLock .spinLockRelease s = .ok s₁) :
    s₁ = invalidateNonOwningRefs { s with activeLock := none } := by
  unfold dropSpinLock at h
  rw [if_pos (by decide)] at h
  split at h
  · cases h
  · cases h
  · split_ifs at h
    exact (Except.ok.inj h).symm

end Unlock

/-- The registers an unlock keeps hold no owning pointer without its reference,
and neither a stack nor a saved register holds an object that is not owned. -/
structure UnlockSafe (s : State) : Prop where
  regs : ∀ r ∈ keptRegs, Owned s.activeRefs (dropNonOwning (s.types.get r))
  frames : ∀ f ∈ s.frames.toList, FrameAll (Owned s.activeRefs) f

/-- After an accepted unlock every allocated object is owned through an active
reference if and only if the state before was safe. -/
theorem spinUnlock_owned_iff (env : CallEnv) (s s' : State) (ids : Nat → Nat)
    (h : helperCall env s Helper.spinUnlock ids = .ok s') :
    StateAll (Owned s'.activeRefs) s' ↔ UnlockSafe s := by
  rw [helperCall_spinUnlock] at h
  cases hdrop : dropSpinLock .spinLockRelease s with
  | error e =>
    rw [hdrop] at h
    cases h
  | ok s₁ =>
    rw [hdrop] at h
    have hs' := Except.ok.inj h
    rw [← hs']
    have hs₁ := dropSpinLock_ok hdrop
    have hregs := (PacketSweep.scratched_scratchTypes s₁).regsAll_iff (P := Owned s.activeRefs)
      trivial trivial
    have hget : ∀ r ∈ keptRegs, s₁.types.get r = dropNonOwning (s.types.get r) := by
      rw [hs₁]
      intro r hr
      fin_cases hr <;> rfl
    have hrefs : s₁.activeRefs = s.activeRefs := by rw [hs₁]; rfl
    have hframes : s₁.frames = s.frames := by rw [hs₁]; rfl
    rw [activeRefs_normalCall, hrefs]
    constructor
    · intro hall
      refine ⟨fun r hr => ?_, fun f hf => ?_⟩
      · rw [← hget r hr]
        exact hregs.1 hall.regs r hr
      · refine hall.frames f ?_
        rw [frames_normalCall, hframes]
        exact hf
    · intro hsafe
      refine ⟨hregs.2 fun r hr => ?_, fun f hf => ?_⟩
      · rw [hget r hr]
        exact hsafe.regs r hr
      · rw [frames_normalCall, hframes] at hf
        exact hsafe.frames f hf

section Example

def lockedValue : RegType := .ptrToMapValue 5 (some 0) 0 none false

def node : RegType := .ptrToOwnedKptr (some 1) 0 false none

def holdingNode : State :=
  { State.new NumericDomain.newInterval 0 with
    types := ((TypeState.newNotInit.set .r7 lockedValue).set .r6 node).set .r10 (.ptrToStack 0)
    activeRefs := {1}
    activeLock := some { ptrId := 5, lockOffset := 0 } }

/-- The effect `bpf_list_push_front` declares on its second argument. -/
def pushNode (s : State) : State :=
  applySideEffect noTable s.types .releaseNonOwn s 0 (.releaseRefFromArg 1)

def moveType (s : State) (dst src : Reg) : State := setType s dst (s.types.get src)

/-- The node is spilled or not, handed over, and the lock is dropped. -/
def pushAndUnlock (s : State) : Except LockError State :=
  helperCall noTable (moveType (pushNode (moveType s .r2 .r6)) .r1 .r7) Helper.spinUnlock id

/-- The copy on the stack comes back as an owning pointer to the node, whose
reference is gone. -/
theorem spilled_node_survives_unlock :
    ((pushAndUnlock (spillAt holdingNode 0 .r6 (-8) .u64 0)).toOption.bind fun s =>
      fillAt s 0 .r8 (-8) .u64).map (fun s => (s.types.get .r8, decide (1 ∈ s.activeRefs))) =
        some (node, false) ∧
      ∃ s', pushAndUnlock (spillAt holdingNode 0 .r6 (-8) .u64 0) = .ok s' ∧
        ¬ StateAll (Owned s'.activeRefs) s' := by
  refine ⟨by decide +kernel, ?_⟩
  have hrun : (pushAndUnlock (spillAt holdingNode 0 .r6 (-8) .u64 0)).toOption.map (fun s =>
      ((s.frames.current.stack.slots.find (-8)).map (·.regType), decide (1 ∈ s.activeRefs))) =
        some (some node, false) := by
    decide +kernel
  cases hs : pushAndUnlock (spillAt holdingNode 0 .r6 (-8) .u64 0) with
  | error e =>
    rw [hs] at hrun
    cases hrun
  | ok s' =>
    rw [hs] at hrun
    obtain ⟨hslot, hrefs⟩ := Prod.mk.inj (Option.some_inj.1 hrun)
    refine ⟨s', rfl, fun hall => ?_⟩
    obtain ⟨sp, hsp, hty⟩ := Option.map_eq_some_iff.1 hslot
    have howned : Owned s'.activeRefs sp.regType :=
      (hall.frames s'.frames.current List.mem_cons_self).stack (-8) sp hsp
    rw [hty] at howned
    exact of_decide_eq_false hrefs (howned.2 1 rfl)

/-- Without the spill the node is gone after the unlock. -/
theorem pushed_node_ends_with_lock :
    ∃ s', pushAndUnlock holdingNode = .ok s' ∧ StateAll (Owned s'.activeRefs) s' := by
  have hsafe : UnlockSafe (moveType (pushNode (moveType holdingNode .r2 .r6)) .r1 .r7) := by
    refine ⟨fun r hr => ?_, fun f hf => ?_⟩
    · fin_cases hr <;> trivial
    · rw [List.mem_singleton.1 hf]
      refine ⟨fun o sp hsp => ?_, fun i => trivial⟩
      cases hsp
  have hok : (pushAndUnlock holdingNode).toBool = true := by decide +kernel
  cases hs : pushAndUnlock holdingNode with
  | error e =>
    rw [hs] at hok
    cases hok
  | ok s' => exact ⟨s', rfl, (spinUnlock_owned_iff noTable _ s' id hs).2 hsafe⟩

end Example

end ZoneVerifier.NonOwning
