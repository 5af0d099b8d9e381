import ZoneVerifier.LockFlags
import ZoneVerifier.PacketSweep
import ZoneVerifier.TypeInvariant

/-!
# RCU pointers after their read section

Leaving the outermost RCU read section takes the RCU flag from the BTF pointers
in the registers and on all stacks. Kptr pointers carry the same flag and keep
it, and so do the registers saved for the callers. A section that is left while
neither holds an RCU pointer leaves none behind, however the types are moved
around afterwards.
-/

set_option autoImplicit false

namespace ZoneVerifier.RcuSections
open Ast RegTypes Machine Numeric Signatures CallTypes CallTransfer KfuncTransfer LockFlags
open TypeInvariant TypeFlow
open PacketSweep (keptRegs Scratched noTable)

/-- An RCU pointer is marked as untrusted. -/
def Settled (ty : RegType) : Prop :=
  PtrFlags.contains (ptrFlags ty) PtrFlags.rcu = true →
    PtrFlags.contains (ptrFlags ty) PtrFlags.untrusted = true

instance (ty : RegType) : Decidable (Settled ty) := by
  unfold Settled
  infer_instance

/-- The pointers the sweep does not look at. -/
def KptrSettled : RegType → Prop
  | .ptrToMapKptr pointee refId flags offset => Settled (.ptrToMapKptr pointee refId flags offset)
  | .ptrToMapKptrOrNull pointee refId flags offset =>
    Settled (.ptrToMapKptrOrNull pointee refId flags offset)
  | _ => True

theorem settled_of_flags {ty : RegType} (flags : PtrFlags) (h : ptrFlags ty = flags)
    (hf : PtrFlags.contains flags PtrFlags.rcu = false) : Settled ty := by
  intro hrcu
  rw [h, hf] at hrcu
  cases hrcu

theorem settled_of_no_flags {ty : RegType} (h : ptrFlags ty = 0) : Settled ty :=
  settled_of_flags 0 h (by decide)

theorem neutral_settled : Neutral Settled where
  scalar := settled_of_no_flags rfl
  notInit := settled_of_no_flags rfl
  stack := fun _ => settled_of_no_flags rfl
  arg := by
    intro id arg ty hty
    cases arg with
    | ptrToMem memSize nonnull => cases nonnull <;> cases hty <;> exact settled_of_no_flags rfl
    | ptrToBtfIdTrusted typeName nullable =>
      cases nullable <;> cases hty <;> exact settled_of_flags 1 rfl (by decide)
    | _ => cases hty <;> exact settled_of_no_flags rfl

section Demote

theorem untrusted_or (flags : PtrFlags) :
    PtrFlags.contains (flags ||| PtrFlags.untrusted) PtrFlags.untrusted = true := by
  refine decide_eq_true ?_
  ext i hi
  simp only [BitVec.getElem_and, BitVec.getElem_or]
  cases flags[i] <;> cases PtrFlags.untrusted[i] <;> rfl

theorem settled_demoteFlags (flags : PtrFlags)
    (h : PtrFlags.contains (demoteFlags flags) PtrFlags.rcu = true) :
    PtrFlags.contains (demoteFlags flags) PtrFlags.untrusted = true := by
  unfold demoteFlags at h ⊢
  split_ifs at h ⊢ with hrcu
  · exact untrusted_or _
  · exact absurd h hrcu

theorem settled_demoteRcu_iff (ty : RegType) : Settled (demoteRcu ty) ↔ KptrSettled ty := by
  cases ty with
  | ptrToBtfId typeName flags refId => exact iff_of_true (settled_demoteFlags flags) trivial
  | ptrToBtfIdOrNull id typeName flags refId => exact iff_of_true (settled_demoteFlags flags) trivial
  | ptrToMapKptr pointee refId flags offset => exact Iff.rfl
  | ptrToMapKptrOrNull pointee refId flags offset => exact Iff.rfl
  | _ => exact iff_of_true (settled_of_no_flags rfl) trivial

end Demote

section Unlock
variable {s s₁ : State}

def unlockProto : CallProto :=
  { CallProto.withArgs [] with ret := .scalar, flags := .rcuReadUnlock }

def unlockKfuncProto : CallProto :=
  { CallProto.withArgs [] with ret := .void, flags := .rcuReadUnlock }

/-- The pointers that a sweep at this point misses. -/
structure UnlockSafe (s : State) : Prop where
  regs : ∀ r ∈ keptRegs, KptrSettled (s.types.get r)
  slots : ∀ f ∈ s.frames.toList, StackAll KptrSettled f.stack
  saved : ∀ f ∈ s.frames.toList, RegsAll Settled f.callerTypes

theorem applyFlags_of_rcuReadUnlock {helper : Nat} (proto : CallProto)
    (hflags : proto.flags = .rcuReadUnlock) :
    applyPreCallLockFlags s helper proto = leaveRcu .rcuReadUnlock s := by
  unfold applyPreCallLockFlags
  rw [hflags]
  show (leaveRcu .rcuReadUnlock s >>= fun s => _) = _
  cases leaveRcu .rcuReadUnlock s <;> rfl

theorem leaveRcu_ok (h : leaveRcu .rcuReadUnlock s = .ok s₁) :
    s₁ = if s₁.rcuReadDepth = 0 then demoteRcuBtfRegsToUntrusted
        (invalidateRcuIterSlots { s with rcuReadDepth := s.rcuReadDepth - 1 })
      else { s with rcuReadDepth := s.rcuReadDepth - 1 } := by
  unfold leaveRcu at h
  rw [if_pos (by decide)] at h
  dsimp only at h
  split_ifs at h with h0 hin
  · cases h
    exact (if_neg (Nat.pos_iff_ne_zero.1 (of_decide_eq_true hin))).symm
  · cases h
    exact (if_pos (Nat.eq_zero_of_not_pos fun hlt => hin (decide_eq_true hlt))).symm

theorem enterRcu_ok (h : enterRcu .rcuReadLock s = .ok s₁) :
    s₁ = { s with rcuReadDepth := s.rcuReadDepth + 1 } := by
  unfold enterRcu at h
  rw [if_pos (by decide)] at h
  split_ifs at h
  exact (Except.ok.inj h).symm

section Calls
variable (env : CallEnv) (s : State) (ids : Nat → Nat)

theorem helperCall_rcuReadUnlock : helperCall env s Helper.rcuReadUnlock ids =
    (leaveRcu .rcuReadUnlock s).map fun s₁ =>
      normalCall env s.types s₁ Helper.rcuReadUnlock ids := by
  rw [← applyFlags_of_rcuReadUnlock unlockProto rfl]
  rfl

theorem helperCall_rcuReadLock : helperCall env s Helper.rcuReadLock ids =
    (enterRcu .rcuReadLock s).map fun s₁ => normalCall env s.types s₁ Helper.rcuReadLock ids := by
  have hflags : applyPreCallLockFlags s Helper.rcuReadLock
      { CallProto.withArgs [] with ret := .scalar, flags := .rcuReadLock } =
        enterRcu .rcuReadLock s := by
    show (enterRcu .rcuReadLock s >>= fun s => _) = _
    cases enterRcu .rcuReadLock s <;> rfl
  rw [← hflags]
  rfl

theorem kfuncCall_rcuReadUnlock {btfId : Nat} {s' : State}
    (h : (kfuncCall env s btfId unlockKfuncProto .none ids).toOption = some s') :
    ∃ s₁, leaveRcu .rcuReadUnlock s = .ok s₁ ∧
      s' = normalKfunc env s.types s₁ unlockKfuncProto .none ids := by
  unfold kfuncCall at h
  rw [applyFlags_of_rcuReadUnlock unlockKfuncProto rfl] at h
  split_ifs at h
  · cases h
  · cases hleave : leaveRcu .rcuReadUnlock s with
    | error e =>
      rw [hleave] at h
      cases h
    | ok s₁ =>
      rw [hleave] at h
      exact ⟨s₁, rfl, (Option.some_inj.1 h).symm⟩

theorem scratched_normalKfunc (inTypes : TypeState) :
    Scratched s.types (normalKfunc env inTypes s unlockKfuncProto .none ids).types := by
  refine ⟨rfl, fun r hr => ?_, fun r hr => ?_⟩
  · fin_cases hr <;> rfl
  · fin_cases hr <;> rfl

end Calls

theorem frameAll_swept (f : CallFrame) :
    FrameAll Settled (mapStack demoteSlot (mapStack untrustIterator f)) ↔
      StackAll KptrSettled f.stack ∧ RegsAll Settled f.callerTypes := by
  have hstack : StackAll Settled (mapStack demoteSlot (mapStack untrustIterator f)).stack ↔
      StackAll KptrSettled f.stack := by
    refine (FiniteMap.FinMap.all_mapValues ..).trans ((FiniteMap.FinMap.all_mapValues ..).trans ?_)
    exact forall₂_congr fun _ sp => imp_congr_right fun _ => settled_demoteRcu_iff sp.regType
  exact ⟨fun h => ⟨hstack.1 h.stack, h.saved⟩, fun h => ⟨hstack.2 h.1, h.2⟩⟩

/-- After the outermost section is left, no RCU pointer remains if and only if
none was where the sweep does not look. -/
theorem settled_unlocked_iff {s' : State} (h : leaveRcu .rcuReadUnlock s = .ok s₁)
    (hdepth : s₁.rcuReadDepth = 0) (htypes : Scratched s₁.types s'.types)
    (hframes : s'.frames = s₁.frames) :
    StateAll Settled s' ↔ UnlockSafe s := by
  have hs₁ := leaveRcu_ok h
  rw [if_pos hdepth] at hs₁
  have hregs := htypes.regsAll_iff neutral_settled.scalar neutral_settled.notInit
  have hget : ∀ r ∈ keptRegs, s₁.types.get r = demoteRcu (s.types.get r) := by
    rw [hs₁]
    intro r hr
    fin_cases hr <;> rfl
  have hmap : s₁.frames.toList = s.frames.toList.map fun c =>
      mapStack demoteSlot (mapStack untrustIterator c) := by
    rw [hs₁]
    show ((s.frames.map (mapStack untrustIterator)).map (mapStack demoteSlot)).toList = _
    rw [FrameStack.toList_map, FrameStack.toList_map, List.map_map]
    rfl
  constructor
  · intro hall
    have hmem : ∀ f ∈ s.frames.toList, StackAll KptrSettled f.stack ∧
        RegsAll Settled f.callerTypes := by
      intro f hf
      refine (frameAll_swept f).1 (hall.frames _ ?_)
      rw [hframes, hmap]
      exact List.mem_map_of_mem hf
    refine ⟨fun r hr => ?_, fun f hf => (hmem f hf).1, fun f hf => (hmem f hf).2⟩
    rw [← settled_demoteRcu_iff, ← hget r hr]
    exact hregs.1 hall.regs r hr
  · intro hsafe
    refine ⟨hregs.2 fun r hr => ?_, fun f hf => ?_⟩
    · rw [hget r hr, settled_demoteRcu_iff]
      exact hsafe.regs r hr
    · rw [hframes, hmap] at hf
      obtain ⟨f₀, hf₀, rfl⟩ := List.mem_map.1 hf
      exact (frameAll_swept f₀).2 ⟨hsafe.slots f₀ hf₀, hsafe.saved f₀ hf₀⟩

end Unlock

section Run

/-- A state, and whether a read section has been left since an RCU pointer was
last loaded. -/
structure Config where
  state : State
  left : Bool

/-- No RCU pointer of the section that was left is found anywhere. -/
def Config.Clean (c : Config) : Prop := c.left = true → StateAll Settled c.state

inductive Op where
  | flow (op : FlowOp)
  | load (dst : Reg) (ty : RegType)
  | lock (env : CallEnv) (ids : Nat → Nat)
  | unlock (env : CallEnv) (ids : Nat → Nat)
  | unlockKfunc (env : CallEnv) (btfId : Nat) (ids : Nat → Nat)

namespace Op

/-- The state after leaving a section; the outermost one counts. -/
def leave (c : Config) (s : State) : Config :=
  { state := s, left := if s.rcuReadDepth = 0 then true else c.left }

def exec (c : Config) : Op → Option Config
  | flow op => (op.exec c.state).map fun s => { c with state := s }
  | load dst ty =>
    some { state := setType c.state dst ty, left := c.left && decide (Settled ty) }
  | lock env ids =>
    (helperCall env c.state Helper.rcuReadLock ids).toOption.map fun s => { c with state := s }
  | unlock env ids => (helperCall env c.state Helper.rcuReadUnlock ids).toOption.map (leave c)
  | unlockKfunc env btfId ids =>
    (kfuncCall env c.state btfId unlockKfuncProto .none ids).toOption.map (leave c)

def Kept (c : Config) : Op → Prop
  | unlock _ _ | unlockKfunc _ _ _ => UnlockSafe c.state
  | _ => True

def execAll (c : Config) (ops : List Op) : Option Config := ops.foldlM exec c

end Op

def Step (c c' : Config) : Prop := ∃ op : Op, op.Kept c ∧ op.exec c = some c'

section Steps
variable {c c' : Config}

theorem stateAll_scratched {P : RegType → Prop} {s s' : State} (hp : Neutral P) (h : StateAll P s)
    (htypes : Scratched s.types s'.types) (hframes : s'.frames = s.frames) : StateAll P s' := by
  refine ⟨(htypes.regsAll_iff hp.scalar hp.notInit).2 fun r _ => h.regs.get hp.toPlain r, ?_⟩
  rw [hframes]
  exact h.frames

theorem clean_leave {s₁ s' : State} (h : c.Clean) (hsafe : UnlockSafe c.state)
    (hleave : leaveRcu .rcuReadUnlock c.state = .ok s₁) (htypes : Scratched s₁.types s'.types)
    (hframes : s'.frames = s₁.frames) (hdepth : s'.rcuReadDepth = s₁.rcuReadDepth) :
    (Op.leave c s').Clean := by
  intro hleft
  by_cases h0 : s'.rcuReadDepth = 0
  · exact (settled_unlocked_iff hleave (hdepth ▸ h0) htypes hframes).2 hsafe
  · have hleft' : c.left = true := by
      unfold Op.leave at hleft
      rwa [if_neg h0] at hleft
    have hsame := leaveRcu_ok hleave
    rw [if_neg (hdepth ▸ h0)] at hsame
    refine stateAll_scratched neutral_settled ?_ htypes hframes
    exact (h hleft').of_same (by rw [hsame]) (by rw [hsame])

theorem clean_exec {op : Op} (h : c.Clean) (hk : op.Kept c) (hexec : op.exec c = some c') :
    c'.Clean := by
  cases op with
  | flow op =>
    obtain ⟨s', hs', rfl⟩ := Option.map_eq_some_iff.1 hexec
    exact fun hleft => stateAll_flow neutral_settled (h hleft) hs'
  | load dst ty =>
    cases hexec
    intro hleft
    obtain ⟨hold, hty⟩ := Bool.and_eq_true_iff.1 hleft
    exact (h hold).setType (of_decide_eq_true hty)
  | lock env ids =>
    obtain ⟨s', hs', rfl⟩ := Option.map_eq_some_iff.1 hexec
    rw [helperCall_rcuReadLock] at hs'
    cases henter : enterRcu .rcuReadLock c.state with
    | error e =>
      rw [henter] at hs'
      cases hs'
    | ok s₁ =>
      rw [henter] at hs'
      have hs₁ := enterRcu_ok henter
      rw [← Option.some_inj.1 hs']
      intro hleft
      refine stateAll_scratched neutral_settled ((h hleft).of_same ?_ ?_)
        (PacketSweep.scratched_scratchTypes s₁) rfl
      · rw [hs₁]
      · rw [hs₁]
  | unlock env ids =>
    obtain ⟨s', hs', rfl⟩ := Option.map_eq_some_iff.1 hexec
    rw [helperCall_rcuReadUnlock] at hs'
    cases hleave : leaveRcu .rcuReadUnlock c.state with
    | error e =>
      rw [hleave] at hs'
      cases hs'
    | ok s₁ =>
      rw [hleave] at hs'
      rw [← Option.some_inj.1 hs']
      exact clean_leave h hk hleave (PacketSweep.scratched_scratchTypes s₁) rfl rfl
  | unlockKfunc env btfId ids =>
    obtain ⟨s', hs', rfl⟩ := Option.map_eq_some_iff.1 hexec
    obtain ⟨s₁, hleave, rfl⟩ := kfuncCall_rcuReadUnlock env c.state ids hs'
    exact clean_leave h hk hleave (scratched_normalKfunc env s₁ ids c.state.types) rfl rfl

end Steps

/-- No RCU pointer outlives its section in a run that leaves each section while
the sweep sees every RCU pointer. -/
theorem settled_of_reaches {c₀ c : Config} (h : c₀.Clean)
    (hrun : Relation.ReflTransGen Step c₀ c) : c.Clean := by
  induction hrun with
  | refl => exact h
  | tail _ hstep ih =>
    obtain ⟨op, hk, hexec⟩ := hstep
    exact clean_exec ih hk hexec

end Run

section Example

def entry : Config :=
  { state := { State.new NumericDomain.newInterval 0 with
      types := TypeState.newNotInit.set .r10 (.ptrToStack 0) }
    left := false }

def rcuTask : RegType := .ptrToBtfId "task_struct" PtrFlags.rcu none

/-- The callee leaves the section its caller entered; the return hands the
caller's RCU pointer back. -/
theorem rcu_pointer_restored :
    entry.Clean ∧ ∃ c, Op.execAll entry [.lock noTable id, .load .r6 rcuTask,
      .flow (.call 7 none id), .unlock noTable id, .flow .exit] = some c ∧
        c.left = true ∧ c.state.rcuReadDepth = 0 ∧ c.state.types.get .r6 = rcuTask ∧
        ¬ c.Clean := by
  have hrun : (Op.execAll entry [.lock noTable id, .load .r6 rcuTask, .flow (.call 7 none id),
      .unlock noTable id, .flow .exit]).map
        (fun c => (c.left, c.state.rcuReadDepth, c.state.types.get .r6)) =
          some (true, 0, rcuTask) := by
    decide +kernel
  obtain ⟨c, hc, hval⟩ := Option.map_eq_some_iff.1 hrun
  obtain ⟨hleft, hval⟩ := Prod.mk.inj hval
  obtain ⟨hdepth, hty⟩ := Prod.mk.inj hval
  refine ⟨nofun, c, hc, hleft, hdepth, hty, fun h => ?_⟩
  have hget := (h hleft).regs.get neutral_settled.toPlain .r6
  rw [hty] at hget
  exact absurd hget (by decide)

def inSection : Config :=
  { entry with state := setType { entry.state with rcuReadDepth := 1 } .r6 rcuTask }

theorem unlockSafe_inSection : UnlockSafe inSection.state := by
  refine ⟨fun r hr => ?_, fun f hf => ?_, fun f hf => ?_⟩
  · fin_cases hr <;> trivial
  · rw [List.mem_singleton.1 hf]
    intro o sp hsp
    cases hsp
  · rw [List.mem_singleton.1 hf]
    exact fun _ => neutral_settled.notInit

/-- When main leaves the section itself, the pointer is demoted. -/
theorem rcu_pointer_demoted :
    ∃ c, (Op.unlock noTable id).exec inSection = some c ∧ c.left = true ∧ c.Clean := by
  have hrun : ((Op.unlock noTable id).exec inSection).map (·.left) = some true := by decide +kernel
  obtain ⟨c, hc, hleft⟩ := Option.map_eq_some_iff.1 hrun
  have hstep : Step inSection c := ⟨.unlock noTable id, unlockSafe_inSection, hc⟩
  have hclean : inSection.Clean := nofun
  exact ⟨c, hc, hleft, settled_of_reaches hclean (.single hstep)⟩

end Example

end ZoneVerifier.RcuSections
