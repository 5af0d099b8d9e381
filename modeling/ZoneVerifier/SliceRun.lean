import ZoneVerifier.DynptrSlices

/-!
# Runs that keep slices and dynptrs in step

One step lemma for each instruction, then the whole run: slices die with their
dynptr wherever the sweeps reach them. The example is a release in a callee: the
slice in a register saved for the caller comes back.
-/

set_option autoImplicit false

namespace ZoneVerifier.SliceRun
open RegTypes Stack Machine Signatures CallTypes CallTransfer CallReturn KfuncTransfer Annotations
open CallAnnotations EffectAnnotations StackInstr CallObjects StackObjects
open ObjectSteps TypeInvariant Marks MarkEffects MarkCalls MarkMoves SliceTags SliceSweeps
open DynptrSlices
open Ast hiding Instr
open PacketSweep (noTable updateCallTypes_of_packets)
open BranchTransfer (closed_transferIf closed_transferMayGoto)

section Helpers
variable {env : CallEnv} {c : Config} {s' : State} {helper : Nat} {couldReinit : Bool}
  {ids : Nat → Nat}

/-- The helpers with a path of their own, and those that change the packet. -/
def withoutEffects : List Nat :=
  [Helper.tailCall, Helper.kptrXchg, Helper.loop, Helper.forEachMapElem, Helper.timerSetCallback,
    Helper.userRingbufDrain, Helper.findVma, Helper.xdpAdjustHead, Helper.xdpAdjustTail,
    Helper.xdpAdjustMeta, Helper.skbPullData, Helper.skbChangeHead, Helper.skbChangeTail,
    Helper.skbChangeProto, Helper.skbAdjustRoom, Helper.skbStoreBytes, Helper.skbVlanPush,
    Helper.skbVlanPop, Helper.cloneRedirect]

theorem withoutEffects_known : ∀ helper ∈ withoutEffects, ((knownProtos.lookup helper).any fun proto =>
    proto.sideEffects.isEmpty && !slicesArg proto.ret) = true := by decide +kernel

theorem proto_withoutEffects (h : helper ∈ withoutEffects) : ∃ proto,
    getHelperProto env helper = some proto ∧ proto.sideEffects = [] ∧
      slicesArg proto.ret = false := by
  have hknown := withoutEffects_known helper h
  cases hproto : knownProtos.lookup helper with
  | none =>
    rw [hproto] at hknown
    cases hknown
  | some proto =>
    rw [hproto, Option.any_some, Bool.and_eq_true] at hknown
    refine ⟨proto, ?_, List.isEmpty_iff.1 hknown.1, Bool.not_eq_true' _ ▸ hknown.2⟩
    unfold getHelperProto
    rw [hproto]
    rfl

theorem not_kills_withoutEffects (h : helper ∈ withoutEffects) (s : State) (tag : Tag) :
    ¬ Kills env s tag (.helper helper couldReinit ids) := by
  obtain ⟨proto, hproto, hnil, _⟩ := proto_withoutEffects h
  exact (callsWith_helper s couldReinit ids hproto).not_kills hnil tag

theorem helperSlices_withoutEffects (h : helper ∈ withoutEffects) (s : State)
    (inTypes : TypeState) : helperSlices s env inTypes ids helper = [] := by
  obtain ⟨proto, hproto, _, hret⟩ := proto_withoutEffects h
  unfold helperSlices sliceTags
  rw [hproto, Option.elim_some, hret]
  rfl

theorem shrinks_withoutEffects (h : helper ∈ withoutEffects) (henv : TableDeclared env)
    {s : State} (hsucc : Succ env s s' (.helper helper couldReinit ids)) : Shrinks s s' := by
  obtain ⟨proto, hproto, hnil, _⟩ := proto_withoutEffects h
  rcases helper_evolves henv hsucc with hs | ⟨eff, _, _, _, ⟨proto', hproto', hmem⟩, _⟩
  · exact hs
  · rw [hproto] at hproto'
    cases hproto'
    rw [hnil] at hmem
    cases hmem

theorem invalidatePackets_covers {s : State} {killed : Tag → Prop}
    (h : Covered killed (SweptPacket s) s) : Covered killed (fun _ => False) (invalidatePackets s) := by
  refine Covered.tame (Covered.sweep (h.tame (tame_sweptPackets s)) (sweeps_ids (sweptPackets s) _)
    fun tag htag => Or.inr ?_) (.of_same rfl rfl)
  obtain ⟨l, q, d, hd, hkind, hfirst, rfl⟩ := htag
  have hd' : dynptrAt (sweptPackets s) l q = some d :=
    (congrArg Annots.dynptr ((sameAnnots_sweptPackets s).slots l q)).trans hd
  exact ⟨d.dynptrId, rfl,
    anyDynptr_of _ hd' (decide_eq_true ⟨of_decide_eq_true hkind, hfirst, rfl⟩)⟩

theorem tame_withoutEffects (h : helper ∈ withoutEffects) (hp : helperInvalidatesPackets helper = false)
    {inTypes : TypeState} {s : State}
    (hcall : transferCall env inTypes s helper couldReinit ids = some s') : Tame slices [] s s' := by
  have hslices : ∀ s, helperSlices s env inTypes ids helper = [] := fun s =>
    helperSlices_withoutEffects h s inTypes
  unfold transferCall at hcall
  split at hcall
  · next htail =>
    cases hcall
    subst htail
    have htame := tame_tailCall s (helperGrants_slices s env inTypes ids _)
    exact (tame_helperEffects s env inTypes ids _).trans htame
  · split at hcall
    · exact closed_kptrXchg env sweepClosed_tame hcall
    · split at hcall
      · cases hcall
        have htame := tame_callbackSkip s (helperGrants_slices (beforeSkip s helper couldReinit)
          env inTypes ids helper)
        rw [hslices] at htame
        exact ((Tame.ite (tame_dropReinitialised s helper) (.refl s)).trans
          (tame_helperEffects _ env inTypes ids helper)).trans htame
      · cases hcall
        have htame := tame_normalCall s (helperGrants_slices s env inTypes ids helper)
        rw [hslices] at htame
        exact (tame_helperEffects s env inTypes ids helper).trans htame

theorem packets_mem (h : helperInvalidatesPackets helper = true) : helper ∈ withoutEffects := by
  have hmem := of_decide_eq_true h
  simp only [List.mem_cons, List.not_mem_nil, or_false] at hmem
  rcases hmem with rfl | rfl | rfl | rfl | rfl | rfl | rfl | rfl | rfl | rfl | rfl | rfl <;> decide

theorem packets_normal (h : helperInvalidatesPackets helper = true) (inTypes : TypeState)
    (s : State) : transferCall env inTypes s helper couldReinit ids =
      some (normalCall env inTypes s helper ids) := by
  have hmem := of_decide_eq_true h
  simp only [List.mem_cons, List.not_mem_nil, or_false] at hmem
  rcases hmem with rfl | rfl | rfl | rfl | rfl | rfl | rfl | rfl | rfl | rfl | rfl | rfl <;> rfl

theorem packet_clean (hclean : c.Clean) (hk : Kept env c (.helper helper couldReinit ids))
    (hp : helperInvalidatesPackets helper = true)
    (hsucc : Succ env c.state s' (.helper helper couldReinit ids)) :
    (c.next env (.helper helper couldReinit ids) s').Clean := by
  obtain ⟨_, s₁, hflags, hcall⟩ := hsucc
  rw [packets_normal hp] at hcall
  cases hcall
  let u := scratchTypes (setType (setType s₁ .r0 .scalarValue) .r0 .scalarValue)
  have hu : Tame slices [] c.state u := by
    have hset : ∀ t : State, Tame slices [] t (setType t .r0 .scalarValue) := fun t => .setPlain t .r0 rfl
    exact (flagClosed_tame.helperFlags hflags).trans <| (hset _).trans <| (hset _).trans <|
      closed_scratchTypes _ callClosed_tame
  have hafter : Tame slices [] (invalidatePackets u) (normalCall env c.state.types s₁ helper ids) := by
    have hfinish : Tame slices [] _ _ := tame_finish s₁ env c.state.types ids helper
    rw [updateCallTypes_of_packets env c.state.types s₁ ids hp] at hfinish
    exact hfinish
  have hslots : ∀ l q, dynptrAt u l q = dynptrAt c.state l q := fun l q =>
    (sameDynptrs_of_objects (sameObjects_helperFlags hflags)).slots l q
  have hpackets : SweptPacket u = SweptPacket c.state := by
    funext tag
    simp only [SweptPacket, hslots]
  have hcov := (hk.packets hp).tame hu
  rw [← hpackets] at hcov
  have hstale := hafter.tagged ((invalidatePackets_covers hcov).tagged fun _ => not_false)
    (List.forall_mem_nil _)
  have hold := ((hu.trans (closed_invalidatePackets u sweepClosed_tame)).trans hafter).tagged hclean
    (List.forall_mem_nil _)
  refine clean_next (Tagged.mono (fun tag h => ⟨h.1, ?_⟩) hold)
    (Tagged.mono (fun tag h hst => ?_) (Tagged.and hold hstale))
  · exact not_kills_withoutEffects (packets_mem hp) c.state tag
  · rcases hst with hst | ⟨_, hst⟩
    · exact absurd hst h.1.2
    · exact absurd hst h.2

theorem helper_step (hclean : c.Clean) (hlive : c.Live)
    (hacc : Accepts env c (.helper helper couldReinit ids) s')
    (hk : Kept env c (.helper helper couldReinit ids)) :
    (c.next env (.helper helper couldReinit ids) s').Clean ∧
      (c.next env (.helper helper couldReinit ids) s').Live := by
  have henv : TableDeclared env := instrDeclared_of_plain hacc.plain
  obtain ⟨_, s₁, hflags, hcall⟩ := hacc.succ
  have hs₁ : Tame slices [] c.state s₁ := flagClosed_tame.helperFlags hflags
  by_cases hmem : helper ∈ withoutEffects
  · refine ⟨?_, live_of_shrinks hlive (not_kills_withoutEffects hmem c.state)
      (shrinks_withoutEffects hmem henv hacc.succ)⟩
    by_cases hp : helperInvalidatesPackets helper = true
    · exact packet_clean hclean hk hp hacc.succ
    · have hp := Bool.eq_false_of_not_eq_true hp
      have htame := hs₁.trans (tame_withoutEffects hmem hp hcall)
      exact clean_of_kept hp (htame.tagged hclean (List.forall_mem_nil _))
        (tagged_of_none (not_kills_withoutEffects hmem c.state) _)
  · have hp : helperInvalidatesPackets helper = false :=
      Bool.eq_false_of_not_eq_true fun h => hmem (packets_mem h)
    have hnormal : s' = normalCall env c.state.types s₁ helper ids := by
      unfold transferCall at hcall
      rw [if_neg, if_neg, if_neg] at hcall
      · exact (Option.some_inj.1 hcall).symm
      · intro hcb
        have hcb := of_decide_eq_true hcb
        simp only [List.mem_cons, List.not_mem_nil, or_false] at hcb
        rcases hcb with rfl | rfl | rfl | rfl | rfl <;> exact hmem (by decide)
      · rintro rfl
        exact hmem (by decide)
      · rintro rfl
        exact hmem (by decide)
    subst hnormal
    have hset : Tame slices [] s₁ (setType s₁ .r0 .scalarValue) := .setPlain s₁ .r0 rfl
    have hsame : SameDynptrs c.state (setType s₁ .r0 .scalarValue) :=
      SameDynptrs.trans (sameDynptrs_of_objects (sameObjects_helperFlags hflags))
        ⟨fun _ _ => rfl, resolveStackArg_setR0 s₁ _⟩
    have hshrinks : Shrinks (helperEffects env c.state.types ids s₁ helper)
        (normalCall env c.state.types s₁ helper ids) :=
      shrinks_normalCall c.state.types s₁ ids helper
    have htame := tame_normalCall s₁ (helperGrants_slices s₁ env c.state.types ids helper)
    cases hproto : getHelperProto env helper with
    | none =>
      have hno : ∀ tag, ¬ Kills env c.state tag (.helper helper couldReinit ids) := by
        rintro tag ⟨eff, ⟨proto, hproto', _⟩, _⟩
        rw [hproto] at hproto'
        cases hproto'
      unfold helperSlices at htame
      unfold helperEffects at htame hshrinks
      rw [hproto] at htame hshrinks
      refine ⟨clean_of_kept hp ?_ (tagged_of_none hno _), live_of_shrinks hlive hno ?_⟩
      · exact ((hs₁.trans hset).trans htame).tagged hclean (List.forall_mem_nil _)
      · intro l q
        have hold : Shrinks c.state (setType s₁ .r0 .scalarValue) :=
          (Shrinks.of_core (sameObjects_helperFlags hflags).core).trans (.of_same (.of_frames rfl))
        exact (hold.trans hshrinks) l q
    | some proto =>
      have hplain := plain_getHelperProto hacc.plain hproto
      have hcalls := callsWith_helper c.state couldReinit ids hproto
      unfold helperSlices at htame
      unfold helperEffects at htame hshrinks
      rw [hproto] at htame hshrinks
      exact ⟨call_clean hcalls hclean hlive hk hplain hp (hs₁.trans hset) hsame htame,
        call_live hcalls hlive hk hplain.declared hacc.fresh rfl hsame hshrinks⟩

end Helpers

section Run
variable {env : CallEnv} {c c' : Config} {s' : State}

theorem kfunc_step {btfId : Nat} {call : KfuncCall} {ids : Nat → Nat} (hclean : c.Clean)
    (hlive : c.Live) (hacc : Accepts env c (.kfunc btfId call ids) s')
    (hk : Kept env c (.kfunc btfId call ids)) :
    (c.next env (.kfunc btfId call ids) s').Clean ∧ (c.next env (.kfunc btfId call ids) s').Live := by
  have hplain : PlainProto call.proto := hacc.plain
  have hcalls : CallsWith env c.state (.kfunc btfId call ids) call.proto :=
    ⟨fun _ => .rfl, fun _ => .rfl, fun _ => .rfl, fun _ _ => .rfl, fun _ h => h⟩
  obtain ⟨_, s₁, hflags, hmem⟩ := hacc.succ
  have hobj := sameObjects_lockFlags hflags
  have hs₁ : Tame slices [] c.state s₁ := flagClosed_tame.lockFlags hflags
  rcases tame_transferKfunc (grants_slices [] (ids 0))
    (fun t => kfuncGrants_slices t env c.state.types ids call.proto) hmem with
    ⟨hskips, hcore, htame⟩ | ⟨t, hframes, hdom, htypes, heff, htame⟩
  · have hno : ∀ tag, ¬ Kills env c.state tag (.kfunc btfId call ids) := by
      rintro tag ⟨eff, hdecl, hkl⟩
      have hquiet := hplain.skips hskips eff hdecl
      cases eff <;> first | exact hkl | cases hquiet
    exact ⟨clean_of_kept rfl ((hs₁.trans htame).tagged hclean (List.forall_mem_nil _))
      (tagged_of_none hno _), live_of_shrinks hlive hno (.of_core (hobj.core.trans hcore))⟩
  · have ht : Tame slices [] c.state t := hs₁.trans (.of_same htypes hframes)
    have hsame : SameDynptrs c.state t := by
      refine SameDynptrs.trans (sameDynptrs_of_objects hobj) ⟨fun l q => ?_, fun arg => ?_⟩
      · exact congrArg Annots.dynptr (annotsAt_of_frames hframes l q)
      · exact resolveStackArg_eq (.of_types hdom htypes) (argReg arg)
    exact ⟨call_clean hcalls hclean hlive hk hplain rfl ht hsame htame,
      call_live hcalls hlive hk hplain.declared hacc.fresh rfl hsame (.of_same (.of_frames heff))⟩

theorem tagged_moves {Q : Tag → Prop} {s : State} (h : Tagged slices Q s) (hframes : s'.frames = s.frames)
    (hmoves : Moves s s') : Tagged slices Q s' := by
  refine ⟨fun i tag (ht : tag ∈ tags _) => ?_, fun f hf => h.frames f (hframes ▸ hf)⟩
  rcases hmoves i with hnil | ⟨j, heq⟩ | ⟨f, hf, q, sp, hsp, heq⟩
  · rw [hnil] at ht
    cases ht
  · exact h.regs j tag (show tag ∈ tags _ from heq ▸ ht)
  · exact (h.frames f hf).stack q sp hsp tag (show tag ∈ tags _ from heq ▸ ht)

theorem move_step {instr : Instr} (hlive : c.Live) (hacc : Accepts env c instr s')
    (hdecl : ∀ eff, ¬ Declares env eff instr) (hp : changesPacket instr = false)
    (hkills : ∀ tag, Kills env c.state tag instr → ∃ eff, Declares env eff instr)
    (htagged : Tagged slices (fun tag => ¬ c.dead tag ∧ ¬ c.stale tag) s') :
    (c.next env instr s').Clean ∧ (c.next env instr s').Live := by
  have hno : ∀ tag, ¬ Kills env c.state tag instr := fun tag h =>
    (hkills tag h).elim fun eff => hdecl eff
  refine ⟨clean_of_kept hp htagged (tagged_of_none hno _), live_of_shrinks hlive hno ?_⟩
  rcases evolves_succ (instrDeclared_of_plain hacc.plain) hacc.succ with
    hs | ⟨eff, _, _, _, hd, _⟩
  · exact hs
  · exact absurd hd (hdecl eff)

theorem clean_step (hclean : c.Clean) (hlive : c.Live) (h : Step env c c') :
    c'.Clean ∧ c'.Live := by
  obtain ⟨instr, s', hacc, hk, rfl⟩ := h
  have hp := neutral_carries fun tag => ¬ c.dead tag ∧ ¬ c.stale tag
  have hnone : ∀ tag {instr : Instr}, (∃ eff, Declares env eff instr ∧ EffectKills c.state tag eff) →
      ∃ eff, Declares env eff instr := fun _ _ ⟨eff, hd, _⟩ => ⟨eff, hd⟩
  cases instr with
  | regs =>
    exact move_step hlive hacc (fun _ => id) rfl (fun tag => hnone tag)
      (tagged_moves hclean hacc.succ (hacc.moves rfl))
  | store level size base off src fresh =>
    refine ⟨store_clean hclean hk hacc.succ, fun l q d hd => ?_⟩
    obtain ⟨hold, hno⟩ := store_dynptr hacc.succ hd
    exact live_of_old hlive hk hold hno
  | atomic op fetch size base off src =>
    obtain ⟨_, rfl⟩ := hacc.succ
    exact move_step hlive hacc (fun _ => id) rfl (fun tag => hnone tag)
      (tagged_transferAtomic hclean op fetch size base off src)
  | callRel target global ids =>
    cases hacc.succ
    exact move_step hlive hacc (fun _ => id) rfl (fun tag => hnone tag)
      (StateAll.transferCallRel hp hclean target global ids)
  | exit =>
    exact move_step hlive hacc (fun _ => id) rfl (fun tag => hnone tag)
      (StateAll.transferExit hp.toPlain hclean hacc.succ)
  | branch width left op right target =>
    exact move_step hlive hacc (fun _ => id) rfl (fun tag => hnone tag)
      ((closed_transferIf branchClosed_tame hacc.succ).tagged hclean (List.forall_mem_nil _))
  | mayGoto target prev precisePcs force =>
    have htame : Tame slices [] c.state s' := closed_transferMayGoto branchClosed_tame
      (fun p t => tame_widenImpreciseScalars precisePcs force false p t) hacc.succ
    exact move_step hlive hacc (fun _ => id) rfl (fun tag => hnone tag)
      (htame.tagged hclean (List.forall_mem_nil _))
  | helper helper couldReinit ids => exact helper_step hclean hlive hacc hk
  | kfunc btfId call ids => exact kfunc_step hclean hlive hacc hk
  | callback helper entry offsets ids =>
    cases hacc.succ
    exact move_step hlive hacc (fun _ => id) rfl (fun tag => hnone tag)
      (tagged_enterCallback hclean helper entry offsets ids)
  | callbackExit prev precisePcs force id =>
    exact move_step hlive hacc (fun _ => fun h => h) rfl (fun tag => hnone tag)
      (tagged_callbackExit hclean hacc.succ)

/-- In every run whose sweeps cover the slices of the dynptrs that end, no slice
of an ended dynptr is left anywhere, and none is stale. -/
theorem slices_die (c₀ : Config) (hclean : c₀.Clean) (hlive : c₀.Live)
    (hrun : Relation.ReflTransGen (Step env) c₀ c) : c.Clean := by
  have hinv : c.Clean ∧ c.Live := by
    induction hrun with
    | refl => exact ⟨hclean, hlive⟩
    | tail _ hstep ih => exact clean_step ih.1 ih.2 hstep
  exact hinv.1

end Run

section Example

def entry : State :=
  { State.new (.interval .new) 0 with types := TypeState.newNotInit.set .r10 (.ptrToStack 0) }

/-- The program sets up the arguments of a call: `r` points at the pair at `-16`,
the sizes are 8. -/
def setUp (r : Reg) (s : State) : State :=
  { s with
    domain := .interval <| ((Interval.IntervalState.new.set .r2 (.constant 8)).set .r3
      (.constant 8)).set r (.withPtrOffset Bounds.ScalarBounds.unknown
        { Interval.PtrOffset.atAnchor .r10 with off := -16 })
    types := (((s.types.set .r1 (.ptrToMapObject 0)).set .r2 .scalarValue).set .r3
      .scalarValue).set r (.ptrToStack 0) }

def reserveCall : Instr := .helper Helper.ringbufReserveDynptr false fun _ => 1
def dataCall : Instr := .helper Helper.dynptrData false fun _ => 2
def submitCall : Instr := .helper Helper.ringbufSubmitDynptr false fun _ => 4

def afterHelper (helper id : Nat) (s : State) : State :=
  normalCall noTable s.types s helper fun _ => id

def reserved : State := afterHelper Helper.ringbufReserveDynptr 1 (setUp .r4 entry)
def sliced : State := afterHelper Helper.dynptrData 2 (setUp .r1 reserved)

def keptSlice : State :=
  { setUp .r1 sliced with
    types := (setUp .r1 sliced).types.set .r6 (.ptrToAllocMem 2 8 (some 1) (some 1) false) }

def inCallee : State := transferCallRel keptSlice 7 none fun _ => 3
def submitted : State := afterHelper Helper.ringbufSubmitDynptr 4 inCallee

theorem succ_afterHelper {helper id : Nat} {s : State}
    (hargs : helperArgsAccepted noTable s helper = true)
    (hcall : helper ∈ [Helper.ringbufReserveDynptr, Helper.dynptrData,
      Helper.ringbufSubmitDynptr]) :
    Succ noTable s (afterHelper helper id s) (.helper helper false fun _ => id) := by
  simp only [List.mem_cons, List.not_mem_nil, or_false] at hcall
  rcases hcall with rfl | rfl | rfl <;> exact ⟨hargs, s, rfl, rfl⟩

/-- The callee submits the dynptr of its caller; after its return `R6` is a slice
of it. -/
theorem submitted_slice_returns :
    Succ noTable (setUp .r4 entry) reserved reserveCall ∧
      Succ noTable reserved (setUp .r1 reserved) .regs ∧
      Succ noTable (setUp .r1 reserved) sliced dataCall ∧
      Succ noTable sliced keptSlice .regs ∧ Moves sliced keptSlice ∧
      Succ noTable keptSlice inCallee (.callRel 7 none fun _ => 3) ∧
      Succ noTable inCallee submitted submitCall ∧
      Kills noTable inCallee (.id 1) submitCall ∧
      ∃ s', Succ noTable submitted s' .exit ∧
        s'.types.get .r6 = .ptrToAllocMem 2 8 (some 1) (some 1) false ∧
        ∀ c : Config, c.state = inCallee →
          ¬ ((c.next noTable submitCall submitted).next noTable .exit s').Clean := by
  have hmoves : Moves sliced keptSlice := by
    have hfrom : ∀ i, tags (keptSlice.types.regs i) = [] ∨
        tags (keptSlice.types.regs i) = tags (sliced.types.regs 0) := by decide +kernel
    exact fun i => (hfrom i).imp_right fun h => Or.inl ⟨0, h⟩
  have hkills : Kills noTable inCallee (.id 1) submitCall := by
    refine ⟨.dynptrReleaseFromArg 0, ⟨_, rfl, List.mem_singleton_self _⟩, 0, -16,
      ⟨.ringbuf, 1, false, true, 1⟩, by decide +kernel, by decide +kernel, Or.inl rfl⟩
  have hexit : (transferExit submitted).map (fun s => s.types.get .r6) =
      some (.ptrToAllocMem 2 8 (some 1) (some 1) false) := by decide +kernel
  obtain ⟨s', hs', hr6⟩ := Option.map_eq_some_iff.1 hexit
  refine ⟨succ_afterHelper (by decide +kernel) (by decide), rfl,
    succ_afterHelper (by decide +kernel) (by decide), rfl, hmoves, rfl,
    succ_afterHelper (by decide +kernel) (by decide), hkills, s', hs', hr6, ?_⟩
  intro c hc hclean
  have hcarries : Carries slices _ (s'.types.get .r6) := hclean.regs.get (plain_carries slices _) .r6
  rw [hr6] at hcarries
  exact (hcarries (.id 1) (by decide)).1 (Or.inl (Or.inr (hc ▸ hkills)))

def holding : Config :=
  { state := keptSlice, dead := fun _ => False, stale := fun _ => False
    packets := fun _ => False }

theorem dynptr_keptSlice {l : Nat} {q : Int} {d : DynptrSlot}
    (hd : dynptrAt keptSlice l q = some d) : d.dynptrId = 1 ∧ d.refId = 1 := by
  by_contra hne
  have hany := anyDynptr_of keptSlice (p := fun d => decide ¬ (d.dynptrId = 1 ∧ d.refId = 1)) hd
    (decide_eq_true hne)
  have hnone : anyDynptr keptSlice (fun d => decide ¬ (d.dynptrId = 1 ∧ d.refId = 1)) = false := by
    decide +kernel
  cases hany

theorem kept_submitCall : Kept noTable holding submitCall := by
  have hdecl : Declares noTable (.dynptrReleaseFromArg 0) submitCall :=
    ⟨_, rfl, List.mem_singleton_self _⟩
  have harg : resolveStackArg keptSlice (argReg 0) = some (0, -16) := by decide +kernel
  have hpair : dynptrAt keptSlice 0 (-16) = some ⟨.ringbuf, 1, false, true, 1⟩ := by decide +kernel
  have hswept : Swept noTable keptSlice (.id 1) submitCall :=
    ⟨_, hdecl, 0, -16, _, harg, hpair, by decide, Or.inl rfl⟩
  have hregs : ∀ i, tags (keptSlice.types.regs i) = [] ∨
      Tag.id 1 ∈ tags (keptSlice.types.regs i) := by decide +kernel
  have hframes : ∀ f ∈ keptSlice.frames.toList,
      (f.stack.slots.All fun _ sp => tags sp.regType = []) ∧
        ∀ i, tags (f.callerTypes.regs i) = [] := by decide +kernel
  have hcovered : Covered (Kills noTable keptSlice · submitCall) (Swept noTable keptSlice · submitCall)
      keptSlice := by
    refine ⟨fun i tag ht _ => ?_, fun l f hf q sp hq tag ht => ?_, fun l f hf i tag ht => ?_⟩
    · rcases hregs i with hnil | hmem
      · exact absurd ht (hnil ▸ List.not_mem_nil)
      · exact ⟨_, hmem, hswept⟩
    · have hnil := (hframes f (mem_of_get hf)).1 q sp hq
      exact absurd ht (hnil ▸ List.not_mem_nil)
    · have hnil := (hframes f (mem_of_get hf)).2 i
      exact absurd ht (hnil ▸ List.not_mem_nil)
  have hpacket : changesPacket submitCall = false := by decide
  refine ⟨hcovered, fun h => absurd (hpacket.symm.trans h) (by decide), ?_, fun l q d hd _ => ?_⟩
  · intro level size base off src fresh h
    cases h
  · exact ⟨_, hdecl, 0, -16, harg, Or.inr ⟨_, d, hpair, by decide, hd, (dynptr_keptSlice hd).2⟩⟩

/-- A release in the frame of the dynptr takes the slice. -/
theorem submitted_slice_dies :
    (holding.next noTable submitCall (afterHelper Helper.ringbufSubmitDynptr 4 keptSlice)).Clean := by
  have hclean : holding.Clean := Tagged.mono (fun _ h => ⟨h, h⟩) (tagged_of_none (fun _ => id) _)
  have hlive : holding.Live := fun _ _ _ _ _ _ => id
  have hacc : Accepts noTable holding submitCall (afterHelper Helper.ringbufSubmitDynptr 4 keptSlice) :=
    { plain := nofun
      succ := succ_afterHelper (by decide +kernel) (by decide)
      moves := nofun
      fresh := fun _ _ => ⟨id, id, fun l q d hd => by
        rw [(dynptr_keptSlice hd).1]
        decide⟩ }
  exact slices_die holding hclean hlive (.single ⟨submitCall, _, hacc, kept_submitCall, rfl⟩)

end Example

end ZoneVerifier.SliceRun
