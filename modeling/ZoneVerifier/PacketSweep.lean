import ZoneVerifier.CallTypes
import ZoneVerifier.TypeInvariant
import Mathlib.Tactic.FinCases

/-!
# Packet pointers after a helper that changes the packet

The sweep of `update_call_types` misses three places: metadata pointers in the
registers that a call keeps, end and metadata pointers on the stack of the
current frame, and the stacks of the callers. The registers saved for the
callers are swept completely.
-/

set_option autoImplicit false

namespace ZoneVerifier.PacketSweep
open Ast RegTypes Stack Machine Numeric StackOps MemTransfer CallTypes TypeInvariant

def NotPacket (ty : RegType) : Prop := ty.isPacketPtr = false

/-- The pointers the sweep has to see are where it looks for them. -/
structure Swept (s : State) : Prop where
  regs : ∀ r ∈ [Reg.r6, .r7, .r8, .r9, .r10], s.types.get r ≠ .ptrToPacketMeta
  stack : s.frames.current.stack.slots.All fun _ sp =>
    sp.regType ≠ .ptrToPacketEnd ∧ sp.regType ≠ .ptrToPacketMeta
  callers : ∀ f ∈ s.frames.callers, StackAll NotPacket f.stack

theorem updateCallTypes_of_packets (env : CallEnv) (inTypes : TypeState) (s : State)
    {helper : Nat} (ids : Nat → Nat) (h : helperInvalidatesPackets helper = true) :
    updateCallTypes env inTypes s helper ids =
      invalidatePackets (scratchTypes (setType (setType s .r0 .scalarValue) .r0 .scalarValue)) := by
  have hmem := of_decide_eq_true h
  simp only [List.mem_cons, List.not_mem_nil, or_false] at hmem
  rcases hmem with rfl | rfl | rfl | rfl | rfl | rfl | rfl | rfl | rfl | rfl | rfl | rfl <;> rfl

section Sweep

theorem notPacket_demote (touched : Nat → Bool) (ty : RegType) :
    NotPacket (if (dynptrSliceId ty).any touched then .scalarValue else ty) ↔ NotPacket ty := by
  cases ty <;> first | exact Iff.rfl | skip
  all_goals
    split_ifs <;> exact Iff.rfl

theorem notPacket_sweepReg (ty : RegType) : NotPacket (sweepReg ty) ↔ ty ≠ .ptrToPacketMeta := by
  unfold sweepReg NotPacket
  cases ty <;> simp [RegType.isPacketPtr]

theorem notPacket_sweepSaved (ty : RegType) : NotPacket (sweepSaved ty) := by
  unfold sweepSaved NotPacket
  split_ifs with h
  · rfl
  · exact Bool.eq_false_iff.2 h

theorem notPacket_invalidated (sp : SpilledReg) :
    NotPacket (if sp.regType = .ptrToPacket then { sp with regType := .scalarValue }
      else sp).regType ↔ sp.regType ≠ .ptrToPacketEnd ∧ sp.regType ≠ .ptrToPacketMeta := by
  unfold NotPacket
  split_ifs with h
  · rw [h]
    exact ⟨fun _ => ⟨nofun, nofun⟩, fun _ => rfl⟩
  · cases hty : sp.regType <;> simp_all [RegType.isPacketPtr]

theorem stateAll_invalidateDynptrSlices (s : State) (touched : Nat → Bool) :
    StateAll NotPacket (invalidateDynptrSlices s touched) ↔ StateAll NotPacket s := by
  let demote (ty : RegType) : RegType :=
    if (dynptrSliceId ty).any touched then .scalarValue else ty
  have hstack : ∀ stack : StackState, StackAll NotPacket
      { stack with slots := stack.slots.mapValues fun sp =>
          { sp with regType := demote sp.regType } } ↔ StackAll NotPacket stack := by
    intro stack
    refine (FiniteMap.FinMap.all_mapValues ..).trans (forall₂_congr fun _ sp => ?_)
    exact imp_congr_right fun _ => notPacket_demote touched sp.regType
  constructor
  · intro h
    refine ⟨fun i => (notPacket_demote touched _).1 (h.regs i), fun f hf => ?_⟩
    have hall := h.frames
    unfold invalidateDynptrSlices at hall
    rw [FrameStack.toList_map] at hall
    have hmem := hall _ (List.mem_map_of_mem hf)
    exact ⟨(hstack _).1 hmem.stack, hmem.saved⟩
  · intro h
    refine ⟨fun i => (notPacket_demote touched _).2 (h.regs i), fun f hf => ?_⟩
    unfold invalidateDynptrSlices at hf
    rw [FrameStack.toList_map] at hf
    obtain ⟨f₀, hf₀, rfl⟩ := List.mem_map.1 hf
    exact ⟨(hstack _).2 (h.frames f₀ hf₀).stack, (h.frames f₀ hf₀).saved⟩

theorem stateAll_invalidatePackets (s : State) :
    StateAll NotPacket (invalidatePackets s) ↔
      (∀ i, s.types.regs i ≠ .ptrToPacketMeta) ∧
      (s.frames.current.stack.slots.All fun _ sp =>
        sp.regType ≠ .ptrToPacketEnd ∧ sp.regType ≠ .ptrToPacketMeta) ∧
      ∀ f ∈ s.frames.callers, StackAll NotPacket f.stack := by
  have hcurrent : StackAll NotPacket s.frames.current.stack.invalidatePacketPointers ↔
      s.frames.current.stack.slots.All fun _ sp =>
        sp.regType ≠ .ptrToPacketEnd ∧ sp.regType ≠ .ptrToPacketMeta := by
    refine (FiniteMap.FinMap.all_mapValues ..).trans (forall₂_congr fun _ sp => ?_)
    exact imp_congr_right fun _ => notPacket_invalidated sp
  have hdomain : ∀ (s : State) (d : NumericDomain),
      StateAll NotPacket { s with domain := d } ↔ StateAll NotPacket s := fun s d =>
    ⟨fun h => ⟨h.regs, h.frames⟩, fun h => ⟨h.regs, h.frames⟩⟩
  unfold invalidatePackets
  rw [hdomain, stateAll_invalidateDynptrSlices]
  constructor
  · intro h
    refine ⟨fun i => (notPacket_sweepReg _).1 (h.regs i), ?_, fun f hf => ?_⟩
    · exact hcurrent.1 (h.frames _ List.mem_cons_self).stack
    · exact (h.frames _ (List.mem_cons_of_mem _ (List.mem_map_of_mem hf))).stack
  · rintro ⟨hregs, hstack, hcallers⟩
    refine ⟨fun i => (notPacket_sweepReg _).2 (hregs i), fun f hf => ?_⟩
    rcases List.mem_cons.1 hf with rfl | hmem
    · exact ⟨hcurrent.2 hstack, fun i => notPacket_sweepSaved _⟩
    · obtain ⟨f₀, hf₀, rfl⟩ := List.mem_map.1 hmem
      exact ⟨hcallers f₀ hf₀, fun i => notPacket_sweepSaved _⟩

end Sweep

def keptRegs : List Reg := [.r6, .r7, .r8, .r9, .r10]

/-- The types after a call: a scalar result, and `R1` to `R5` not readable. -/
structure Scratched (t t' : TypeState) : Prop where
  result : t'.get .r0 = .scalarValue
  scratch : ∀ r ∈ scratchRegs, t'.get r = .notInit
  kept : ∀ r ∈ keptRegs, t'.get r = t.get r

theorem Scratched.regsAll_iff {P : RegType → Prop} {t t' : TypeState} (h : Scratched t t')
    (h0 : P .scalarValue) (h1 : P .notInit) : RegsAll P t' ↔ ∀ r ∈ keptRegs, P (t.get r) := by
  constructor
  · intro hall r hr
    rw [← h.kept r hr]
    fin_cases hr
    exacts [hall 6, hall 7, hall 8, hall 9, hall 10]
  · intro hall i
    have hscratch : ∀ r ∈ scratchRegs, P (t'.get r) := fun r hr => h.scratch r hr ▸ h1
    have hkept : ∀ r ∈ keptRegs, P (t'.get r) := fun r hr => h.kept r hr ▸ hall r hr
    have hresult : P (t'.get .r0) := h.result ▸ h0
    fin_cases i
    exacts [hresult, hscratch .r1 (by decide), hscratch .r2 (by decide), hscratch .r3 (by decide),
      hscratch .r4 (by decide), hscratch .r5 (by decide), hkept .r6 (by decide),
      hkept .r7 (by decide), hkept .r8 (by decide), hkept .r9 (by decide), hkept .r10 (by decide)]

theorem scratched_scratchTypes (s : State) :
    Scratched s.types (scratchTypes (setType (setType s .r0 .scalarValue) .r0 .scalarValue)).types := by
  refine ⟨rfl, fun r hr => ?_, fun r hr => ?_⟩
  · fin_cases hr <;> rfl
  · fin_cases hr <;> rfl

/-- No packet pointer survives a helper that changes the packet if and only if
none was in a place the sweep misses. -/
theorem updateCallTypes_sweeps (env : CallEnv) (inTypes : TypeState) (s : State) {helper : Nat}
    (ids : Nat → Nat) (h : helperInvalidatesPackets helper = true) :
    StateAll NotPacket (updateCallTypes env inTypes s helper ids) ↔ Swept s := by
  have hregs := (scratched_scratchTypes s).regsAll_iff (P := fun ty => ty ≠ .ptrToPacketMeta)
    (by decide) (by decide)
  rw [updateCallTypes_of_packets env inTypes s ids h, stateAll_invalidatePackets]
  refine (and_congr_left' hregs).trans ?_
  exact ⟨fun ⟨hregs, hstack, hcallers⟩ => ⟨hregs, hstack, hcallers⟩,
    fun hs => ⟨hs.regs, hs.stack, hs.callers⟩⟩

def packetInMain : State :=
  { State.new NumericDomain.newInterval 0 with
    types := (TypeState.newNotInit.set .r6 .ptrToPacket).set .r10 (.ptrToStack 0) }

/-- The subprogram that main calls after spilling the packet pointer at `-8`. -/
def spilledByMain : State :=
  CallReturn.transferCallRel (spillAt packetInMain 0 .r6 (-8) .u64 0) 7 none id

def noTable : CallEnv :=
  { otherProtos := fun _ => none, mapDefs := fun _ => none, structName := fun _ => none
    mapKptrField := fun _ _ => none, structKptrField := fun _ _ => none
    isPrivileged := true, isSched := true }

/-- After `bpf_skb_pull_data` in the callee and its return, main still fills
the packet pointer it had spilled. -/
theorem pullData_keeps_spilled_packet :
    ((CallReturn.transferExit (updateCallTypes noTable spilledByMain.types spilledByMain
      Helper.skbPullData id)).bind fun s => fillAt s 0 .r7 (-8) .u64).map
        (fun s => s.types.get .r7) = some .ptrToPacket ∧
      ¬ StateAll NotPacket (updateCallTypes noTable spilledByMain.types spilledByMain
        Helper.skbPullData id) := by
  constructor
  · decide +kernel
  · intro h
    have hslot : ((updateCallTypes noTable spilledByMain.types spilledByMain Helper.skbPullData
        id).frames.callers.map fun f => (f.stack.slots.find (-8)).map (·.regType)) =
          [some .ptrToPacket] := by
      decide +kernel
    have hmem := List.mem_singleton_self (some RegType.ptrToPacket)
    rw [← hslot] at hmem
    obtain ⟨f, hf, hfind⟩ := List.mem_map.1 hmem
    obtain ⟨sp, hsp, hty⟩ := Option.map_eq_some_iff.1 hfind
    have hnot : NotPacket sp.regType := (h.frames f (List.mem_cons_of_mem _ hf)).stack (-8) sp hsp
    rw [hty] at hnot
    cases hnot

/-- In main the pointer in `R6` is swept. -/
theorem pullData_sweeps_main :
    Swept packetInMain ∧ StateAll NotPacket
      (updateCallTypes noTable packetInMain.types packetInMain Helper.skbPullData id) := by
  have hswept : Swept packetInMain := by
    refine ⟨by decide, fun o sp hsp => ?_, fun f hf => ?_⟩
    · cases hsp
    · cases hf
  exact ⟨hswept, (updateCallTypes_sweeps noTable packetInMain.types packetInMain id rfl).2 hswept⟩

end ZoneVerifier.PacketSweep
