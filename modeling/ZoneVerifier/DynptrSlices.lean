import ZoneVerifier.SliceSweeps
import ZoneVerifier.PacketSweep

/-!
# Slices die with their dynptr

A run with the tags of all ended dynptrs on the side. A dynptr ends when it is
released, overwritten or initialised anew; a helper that changes the packet
makes the slices of packet dynptrs stale. The sweeps miss saved registers,
stores at a variable offset, releases without a reference and packet dynptrs of
popped frames.
-/

set_option autoImplicit false

namespace ZoneVerifier.DynptrSlices
open RegTypes Stack Machine MemTransfer Signatures CallTypes Annotations
open AnnotationFlow EffectAnnotations StackInstr CallObjects StackObjects ObjectSteps TypeInvariant
open Marks MarkEffects MarkCalls MarkMoves SliceTags SliceSweeps
open Ast hiding Instr

variable {helper l : Nat} {proto : CallProto}

section Prototypes

/-- What holds of every prototype: a call that returns a slice has no effect, and
one that may skip its effects has none on dynptrs. -/
@[mk_iff]
structure PlainProto (proto : CallProto) : Prop where
  declared : Declared proto
  slices : slicesArg proto.ret = true → proto.sideEffects = []
  skips : skipsEffects proto = true → ∀ eff ∈ proto.sideEffects, isDynptrEffect eff = false

instance (proto : CallProto) : Decidable (PlainProto proto) :=
  decidable_of_iff' _ (plainProto_iff proto)

theorem plain_knownProtos : ∀ e ∈ knownProtos, PlainProto e.2 := by decide +kernel

def InstrPlain (env : CallEnv) : Instr → Prop
  | .helper .. => ∀ helper proto, env.otherProtos helper = some proto → PlainProto proto
  | .kfunc _ call _ => PlainProto call.proto
  | _ => True

theorem mem_of_lookup {l : List (Nat × CallProto)}
    (h : l.lookup helper = some proto) : (helper, proto) ∈ l := by
  induction l with
  | nil => cases h
  | cons e l ih =>
    rw [List.lookup_cons] at h
    split at h
    · next heq =>
      cases h
      rw [eq_of_beq heq]
      exact List.mem_cons_self
    · exact List.mem_cons_of_mem _ (ih h)

theorem plain_getHelperProto {env : CallEnv}
    (henv : ∀ helper proto, env.otherProtos helper = some proto → PlainProto proto)
    (h : getHelperProto env helper = some proto) : PlainProto proto := by
  rcases Option.or_eq_some_iff.1 h with hk | ⟨_, ho⟩
  · exact plain_knownProtos _ (mem_of_lookup hk)
  · exact henv helper proto ho

theorem instrDeclared_of_plain {env : CallEnv} {instr : Instr} (h : InstrPlain env instr) :
    InstrDeclared env instr := by
  cases instr with
  | helper helper couldReinit ids => exact fun helper proto hp => (h helper proto hp).declared
  | kfunc btfId call ids => exact h.declared
  | _ => trivial

end Prototypes

section Ghost

/-- The bytes a store may write: the first one and their number. -/
def storeRange (s : State) (size : MemSize) (base : Reg) (off : Int) : Int × Int :=
  match s.domain.getDistanceFixed base .r10 with
  | some o => (o + off, size.bytes)
  | none =>
    let (lo, hi) := s.domain.getDistanceInterval base .r10
    (lo + off, hi - lo + size.bytes)

/-- The tags of the dynptrs a store may overwrite. -/
def Overwrites (s : State) (level : Nat) (size : MemSize) (base : Reg) (off : Int) (tag : Tag) :
    Prop :=
  ∃ d, Hit s level (storeRange s size base off).1 (storeRange s size base off).2 d ∧
    tag = .id d.dynptrId

/-- The tags of the dynptrs an instruction ends. -/
def Kills (env : CallEnv) (s : State) (tag : Tag) : Instr → Prop
  | .store level size base off _ _ => Overwrites s level size base off tag
  | instr => ∃ eff, Declares env eff instr ∧ EffectKills s tag eff

/-- The tags an instruction sweeps. -/
def Swept (env : CallEnv) (s : State) (tag : Tag) : Instr → Prop
  | .store level size base off _ _ =>
    (s.domain.getDistanceFixed base .r10).isSome = true ∧ Overwrites s level size base off tag
  | instr => ∃ eff, Declares env eff instr ∧ EffectSweeps s tag eff

def StoreClears (s : State) (level : Nat) (q : Int) (size : MemSize) (base : Reg) (off : Int) :
    Prop :=
  match s.domain.getDistanceFixed base .r10 with
  | some o => (dynptrPairTouched (stackAt s level) (o + off) size.bytes q ||
      dynptrPairTouched (stackAt s level) (o + off) size.bytes (q - 8)) = true
  | none => VariableDrops s size base off q

/-- The slots from which an instruction takes the dynptr. -/
def Clears (env : CallEnv) (s : State) (l : Nat) (q : Int) : Instr → Prop
  | .store level size base off _ _ => l = level ∧ StoreClears s l q size base off
  | instr => ∃ eff, Declares env eff instr ∧ EffectClears s l q eff

/-- The dynptr of which an instruction takes a slice. -/
def Slices (env : CallEnv) (s : State) (tag : Tag) : Instr → Prop
  | .helper helper _ _ => ∃ proto, getHelperProto env helper = some proto ∧ tag ∈ sliceTags s proto
  | .kfunc _ call _ => tag ∈ sliceTags s call.proto
  | _ => False

def changesPacket : Instr → Bool
  | .helper helper _ _ => helperInvalidatesPackets helper
  | _ => false

def isPacketKind (kind : DynptrKind) : Bool := decide (kind = .skb ∨ kind = .xdp)

/-- The identities of the packet dynptrs on the stack. -/
def PacketTag (s : State) (tag : Tag) : Prop :=
  ∃ l q d, dynptrAt s l q = some d ∧ isPacketKind d.kind = true ∧ tag = .id d.dynptrId

/-- Those of them that are swept when the packet changes. -/
def SweptPacket (s : State) (tag : Tag) : Prop :=
  ∃ l q d, dynptrAt s l q = some d ∧ isPacketKind d.kind = true ∧ d.firstSlot = true ∧
    tag = .id d.dynptrId

/-- A state with the tags of all ended dynptrs, those that are stale since the
packet changed, and those of all packet dynptrs so far. -/
structure Config where
  state : State
  dead : Tag → Prop
  stale : Tag → Prop
  packets : Tag → Prop

namespace Config

/-- The configuration behind an instruction. A new slice of a live packet dynptr
is no longer stale. -/
def next (env : CallEnv) (c : Config) (instr : Instr) (s' : State) : Config where
  state := s'
  dead tag := c.dead tag ∨ Kills env c.state tag instr
  stale tag := (c.stale tag ∨ (changesPacket instr = true ∧ c.packets tag)) ∧
    ¬ Slices env c.state tag instr
  packets tag := c.packets tag ∨ PacketTag s' tag

/-- No register, no stack slot and no saved register holds a slice of an ended
dynptr or a stale one. -/
def Clean (c : Config) : Prop := Tagged slices (fun tag => ¬ c.dead tag ∧ ¬ c.stale tag) c.state

def Live (c : Config) : Prop :=
  ∀ l q d, dynptrAt c.state l q = some d → ∀ tag ∈ dynptrTags d, ¬ c.dead tag

/-- An identity that no dynptr has had. -/
structure Fresh (c : Config) (n : Nat) : Prop where
  id : ¬ c.dead (.id n)
  ref : ¬ c.dead (.ref n)
  live : ∀ l q d, dynptrAt c.state l q = some d → d.dynptrId ≠ n

end Config

/-- The slices an instruction on registers leaves were there before: moves,
fills and pointer arithmetic keep the tags of a type. -/
def Moves (s s' : State) : Prop :=
  ∀ i, tags (s'.types.regs i) = [] ∨ (∃ j, tags (s'.types.regs i) = tags (s.types.regs j)) ∨
    ∃ f ∈ s.frames.toList, ∃ q sp, f.stack.slots.find q = some sp ∧
      tags (s'.types.regs i) = tags sp.regType

structure Accepts (env : CallEnv) (c : Config) (instr : Instr) (s' : State) : Prop where
  plain : InstrPlain env instr
  succ : Succ env c.state s' instr
  moves : instr = .regs → Moves c.state s'
  fresh : ∀ eff, Declares env eff instr → c.Fresh (freshId instr)

/-- What the sweeps need: they cover the slices of the dynptrs an instruction
ends, the stored operand is none of them, and the slots of these dynptrs are
cleared. -/
structure Kept (env : CallEnv) (c : Config) (instr : Instr) : Prop where
  covered : Covered (Kills env c.state · instr) (Swept env c.state · instr) c.state
  packets : changesPacket instr = true → Covered c.packets (SweptPacket c.state) c.state
  operand : ∀ level size base off src fresh, instr = .store level size base off src fresh →
    Carries slices (fun tag => ¬ Kills env c.state tag instr) (operandType c.state src)
  slots : ∀ l q d, dynptrAt c.state l q = some d →
    (∃ tag ∈ dynptrTags d, Kills env c.state tag instr) → Clears env c.state l q instr

def Step (env : CallEnv) (c c' : Config) : Prop :=
  ∃ instr s', Accepts env c instr s' ∧ Kept env c instr ∧ c' = c.next env instr s'

end Ghost

variable {d : DynptrSlot}

section Next
variable {env : CallEnv} {c : Config} {instr : Instr} {s' : State}

theorem clean_next
    (hd : Tagged slices (fun tag => ¬ c.dead tag ∧ ¬ Kills env c.state tag instr) s')
    (hs : Tagged slices (fun tag => (c.stale tag ∨ (changesPacket instr = true ∧ c.packets tag)) →
      Slices env c.state tag instr) s') : (c.next env instr s').Clean :=
  Tagged.mono (fun _ ⟨⟨hdead, hkills⟩, hstale⟩ =>
    ⟨fun h => h.elim hdead hkills, fun h => h.2 (hstale h.1)⟩) (Tagged.and hd hs)

theorem clean_of_kept (hp : changesPacket instr = false)
    (h : Tagged slices (fun tag => ¬ c.dead tag ∧ ¬ c.stale tag) s')
    (hk : Tagged slices (fun tag => ¬ Kills env c.state tag instr) s') : (c.next env instr s').Clean := by
  refine clean_next (Tagged.mono (fun _ ht => ⟨ht.1.1, ht.2⟩) (Tagged.and h hk))
    (Tagged.mono (fun tag ht hst => ?_) h)
  rw [hp] at hst
  exact absurd (hst.resolve_right fun h => nomatch h.1) ht.2

theorem tagged_of_none {killed : Tag → Prop} (h : ∀ tag, ¬ killed tag) (s : State) :
    Tagged slices (fun tag => ¬ killed tag) s :=
  Covered.tagged (Covered.of_none h : Covered killed (fun _ => False) s) fun _ => not_false

theorem live_of_old (hlive : c.Live) (hk : Kept env c instr) {q : Int}
    (hd : dynptrAt c.state l q = some d) (hno : ¬ Clears env c.state l q instr) :
    ∀ tag ∈ dynptrTags d, ¬ (c.next env instr s').dead tag := by
  rintro tag ht (hdead | hkills)
  · exact hlive l q d hd tag ht hdead
  · exact hno (hk.slots l q d hd ⟨tag, ht, hkills⟩)

theorem live_of_shrinks (hlive : c.Live) (hk : ∀ tag, ¬ Kills env c.state tag instr)
    (hs : Shrinks c.state s') : (c.next env instr s').Live := by
  rintro l q d hd tag ht (hdead | hkills)
  · exact hlive l q d ((hs l q).dynptr d hd) tag ht hdead
  · exact hk tag hkills

end Next

section Stores
variable {env : CallEnv} {c : Config} {s' : State} {level : Nat} {size : MemSize} {base : Reg}
  {off : Int} {src : Operand} {fresh : Nat}

theorem touched_of_hit {s : State} {lo n : Int} (h : Hit s level lo n d) :
    dynptrIdTouched (stackAt s level) lo n d.dynptrId = true := by
  obtain ⟨q, hd, hover⟩ := h
  rw [dynptrAt_eq] at hd
  obtain ⟨sp, hsp, hdyn⟩ := Option.bind_eq_some_iff.1 hd
  exact decide_eq_true fun hall => hall q sp hsp d hdyn hover rfl

theorem tame_destroyDynptrs {new : List Tag} (s : State) (level : Nat) (stack : StackState)
    (o n : Int) : Tame slices new s (destroyDynptrs s level stack o n) :=
  (Tame.modifyStackAt (fun stack => stackTame_clearTouched stack o n) s level).trans
    (tame_invalidateDynptrSlices _ _)

theorem carries_operand {Q : Tag → Prop} {s : State} (h : Tagged slices Q s) (src : Operand) :
    Carries slices Q (operandType s src) := by
  cases src with
  | reg r => exact h.regs.get (plain_carries slices Q) r
  | imm k => exact carries_of_nil rfl

theorem store_clean (h : c.Clean) (hk : Kept env c (.store level size base off src fresh))
    (hsucc : Succ env c.state s' (.store level size base off src fresh)) :
    (c.next env (.store level size base off src fresh) s').Clean := by
  obtain ⟨_, _, hstep⟩ := hsucc
  rcases transferStoreStack_ok hstep with ⟨o, s₁, hdist, hfix, rfl⟩ | ⟨hdist, rfl⟩
  · obtain ⟨_, _, hs₁⟩ := storeFixed_ok hfix
    -- the sweep takes every slice of a touched dynptr
    have hrange : storeRange c.state size base off = (o + off, (size.bytes : Int)) := by
      rw [storeRange, hdist]
    have hcleared := hk.covered.tame (Tame.modifyStackAt
      (fun stack => stackTame_clearTouched stack (o + off) size.bytes) c.state level)
    have hswept : Covered (Kills env c.state · (.store level size base off src fresh))
        (fun _ => False) (destroyDynptrs c.state level (stackAt c.state level) (o + off)
          size.bytes) := by
      refine hcleared.sweep (sweeps_ids _ _) fun tag htag => Or.inr ?_
      obtain ⟨_, d, hhit, rfl⟩ := htag
      rw [hrange] at hhit
      exact ⟨d.dynptrId, rfl, touched_of_hit hhit⟩
    have hold := (tame_destroyDynptrs c.state level (stackAt c.state level) (o + off)
      size.bytes).tagged h (List.forall_mem_nil _)
    have hboth := Tagged.and hold (hswept.tagged fun _ => not_false)
    have hoperand : Carries slices (fun tag => (¬ c.dead tag ∧ ¬ c.stale tag) ∧
        ¬ Kills env c.state tag (.store level size base off src fresh))
        (operandType c.state src) := fun tag ht =>
      ⟨carries_operand h src tag ht, hk.operand level size base off src fresh rfl tag ht⟩
    have hstore := tagged_storeBehind hboth level src (toI16 (o + off)) off size fresh hoperand
    rw [← hs₁] at hstore
    have hs' : Tagged slices _ { s₁ with pc := s₁.pc + 1 } := StateAll.of_same hstore rfl rfl
    exact clean_of_kept rfl (Tagged.mono (fun _ ht => ht.1) hs') (Tagged.mono (fun _ ht => ht.2) hs')
  · -- nothing is swept, so no slice may be there
    have hnone : Tagged slices (fun tag => ¬ Kills env c.state tag (.store level size base off src fresh))
        c.state := by
      refine hk.covered.tagged fun tag htag => ?_
      have hsome : (c.state.domain.getDistanceFixed base .r10).isSome = true := htag.1
      rw [hdist] at hsome
      cases hsome
    have htame : Tame slices [] c.state { storeVariable c.state level size base off with
        pc := (storeVariable c.state level size base off).pc + 1 } :=
      (tame_storeVariable c.state level size base off).trans (.of_same rfl rfl)
    exact clean_of_kept rfl (htame.tagged h (List.forall_mem_nil _))
      (htame.tagged hnone (List.forall_mem_nil _))

theorem store_dynptr {s : State} {q : Int}
    (hsucc : Succ env s s' (.store level size base off src fresh))
    (hd : dynptrAt s' l q = some d) :
    dynptrAt s l q = some d ∧ ¬ Clears env s l q (.store level size base off src fresh) := by
  refine ⟨((shrinks_store hsucc) l q).dynptr d hd, ?_⟩
  rintro ⟨rfl, hclear⟩
  obtain ⟨_, hlevel, hstep⟩ := hsucc
  unfold StoreClears at hclear
  rcases transferStoreStack_ok hstep with ⟨o, s₁, hdist, hfix, rfl⟩ | ⟨hdist, rfl⟩
  · have hd₁ : (annotsAt s₁ l q).dynptr = some d := hd
    rw [annotsAt_storeFixed hfix] at hd₁
    rw [hdist] at hclear
    split_ifs at hd₁ with hdrop hl
    · cases hd₁
    · unfold clearTouched at hd₁
      rw [if_pos hclear] at hd₁
      cases hd₁
    · exact hl rfl
  · have hd₁ : (annotsAt (storeVariable s l size base off) l q).dynptr = some d := hd
    rw [hdist] at hclear
    rw [annotsAt_storeVariable s hlevel, if_pos ⟨rfl, hclear⟩] at hd₁
    cases hd₁

end Stores

section Calls
variable {env : CallEnv} {c : Config} {s s' t : State}

theorem SameDynptrs.trans {u : State} (h : SameDynptrs s t) (h' : SameDynptrs t u) :
    SameDynptrs s u :=
  ⟨fun l q => (h'.slots l q).trans (h.slots l q), fun arg => (h'.args arg).trans (h.args arg)⟩

theorem sliceTags_eq (h : SameDynptrs s t) (proto : CallProto) :
    sliceTags t proto = sliceTags s proto := by
  unfold sliceTags argDynptr
  simp only [← dynptrAt_eq, h.slots, h.args]

theorem not_dead_of_slice (hlive : c.Live) {tag : Tag}
    (h : tag ∈ sliceTags c.state proto) : ¬ c.dead tag := by
  unfold sliceTags at h
  split_ifs at h
  · cases harg : argDynptr c.state with
    | none =>
      rw [harg] at h
      cases h
    | some d =>
      rw [harg] at h
      obtain ⟨p, _, hd⟩ := Option.bind_eq_some_iff.1 harg
      exact hlive p.1 p.2 d ((dynptrAt_eq ..).trans hd) tag h
  · cases h

theorem slicesArg_of_mem {tag : Tag} (h : tag ∈ sliceTags s proto) :
    slicesArg proto.ret = true := by
  unfold sliceTags at h
  split_ifs at h with hs
  · exact hs
  · cases h

theorem not_dead_of_fresh (hlive : c.Live) {n : Nat} (hn : c.Fresh n) {instr : Instr}
    (hd : FreshDynptr c.state n d)
    (hid : Kills env c.state (.id n) instr → ∃ l q d', dynptrAt c.state l q = some d' ∧
      d'.dynptrId = n)
    (href : ∀ r, ¬ Kills env c.state (.ref r) instr) :
    ∀ tag ∈ dynptrTags d, ¬ (c.next env instr s').dead tag := by
  obtain ⟨hdid, hdref⟩ := hd
  rintro tag ht hdead
  rcases List.mem_cons.1 ht with rfl | ht
  · rw [hdid] at hdead
    rcases hdead with hdead | hkills
    · exact hn.id hdead
    · obtain ⟨l, q, d', hd', heq⟩ := hid hkills
      exact hn.live l q d' hd' heq
  · split_ifs at ht with hzero
    · cases ht
    · rw [List.mem_singleton.1 ht] at hdead
      have hold : c.dead (.ref d.refId) := hdead.resolve_right (href d.refId)
      rcases hdref with hr | hr | ⟨l, q, d₀, hd₀, hr⟩
      · rw [hr] at hold
        exact hn.ref hold
      · exact hzero hr
      · refine hlive l q d₀ hd₀ (.ref d.refId) ?_ hold
        rw [hr] at hzero ⊢
        exact List.mem_cons_of_mem _ (by rw [if_neg hzero]; exact List.mem_singleton_self _)

theorem kills_of_constructs {eff : SideEffect} (hc : constructsDynptr eff = true) {tag : Tag}
    (h : EffectKills s tag eff) :
    ∃ l q d, dynptrAt s l q = some d ∧ tag = .id d.dynptrId := by
  cases eff with
  | dynptrInitOnArg arg kind rdonly | dynptrCloneOnArg srcArg dstArg =>
    obtain ⟨l, _, d, _, ⟨q, hd, _⟩, rfl⟩ := h
    exact ⟨l, q, d, hd, rfl⟩
  | _ => cases hc

structure CallsWith (env : CallEnv) (s : State) (instr : Instr) (proto : CallProto) : Prop where
  decl : ∀ eff, Declares env eff instr ↔ eff ∈ proto.sideEffects
  kills : ∀ tag, Kills env s tag instr ↔ ∃ eff ∈ proto.sideEffects, EffectKills s tag eff
  swept : ∀ tag, Swept env s tag instr ↔ ∃ eff ∈ proto.sideEffects, EffectSweeps s tag eff
  clears : ∀ l q, Clears env s l q instr ↔ ∃ eff ∈ proto.sideEffects, EffectClears s l q eff
  slices : ∀ tag ∈ sliceTags s proto, Slices env s tag instr

theorem callsWith_helper (s : State) (couldReinit : Bool) (ids : Nat → Nat)
    (h : getHelperProto env helper = some proto) :
    CallsWith env s (.helper helper couldReinit ids) proto := by
  have hdecl : ∀ eff, Declares env eff (.helper helper couldReinit ids) ↔
      eff ∈ proto.sideEffects := by
    intro eff
    refine ⟨fun ⟨proto', hproto', hmem⟩ => ?_, fun hmem => ⟨proto, h, hmem⟩⟩
    rw [h] at hproto'
    cases hproto'
    exact hmem
  have hexists : ∀ P : SideEffect → Prop,
      (∃ eff, Declares env eff (.helper helper couldReinit ids) ∧ P eff) ↔
        ∃ eff ∈ proto.sideEffects, P eff := by
    simp only [hdecl, implies_true]
  exact ⟨hdecl, fun _ => hexists _, fun _ => hexists _, fun _ _ => hexists _,
    fun _ hmem => ⟨proto, h, hmem⟩⟩

variable {instr : Instr} {proto : CallProto} {inTypes : TypeState} {ids : Nat → Nat}

theorem CallsWith.not_kills (h : CallsWith env s instr proto) (hnil : proto.sideEffects = [])
    (tag : Tag) : ¬ Kills env s tag instr := by
  rw [h.kills, hnil]
  rintro ⟨_, hmem, _⟩
  cases hmem

theorem call_live (hcall : CallsWith env c.state instr proto) (hlive : c.Live)
    (hk : Kept env c instr) (hproto : Declared proto)
    (hfresh : ∀ eff, Declares env eff instr → c.Fresh (freshId instr))
    (hids : ids 0 = freshId instr) (hsame : SameDynptrs c.state t)
    (hs : Shrinks (effectsOf env inTypes ids proto t) s') : (c.next env instr s').Live := by
  intro l q d hd
  have heff := (hs l q).dynptr d hd
  rcases dynptr_effectsOf env inTypes ids hproto hsame heff with
    ⟨hold, hno⟩ | ⟨eff, hone, hc, hnew⟩
  · exact live_of_old hlive hk hold fun hclear => hno ((hcall.clears l q).1 hclear)
  · have hmem : eff ∈ proto.sideEffects := by rw [hone]; exact List.mem_singleton_self eff
    have honly : ∀ tag, Kills env c.state tag instr → EffectKills c.state tag eff := by
      intro tag htag
      obtain ⟨eff', hmem', hkl⟩ := (hcall.kills tag).1 htag
      rw [hone, List.mem_singleton] at hmem'
      exact hmem' ▸ hkl
    rw [hids] at hnew
    refine not_dead_of_fresh hlive (hfresh eff ((hcall.decl eff).2 hmem)) hnew (fun hid => ?_) ?_
    · obtain ⟨l', q', d', hd', heq⟩ := kills_of_constructs hc (honly _ hid)
      exact ⟨l', q', d', hd', (Tag.id.inj heq).symm⟩
    · intro r href
      obtain ⟨_, _, _, _, heq⟩ := kills_of_constructs hc (honly _ href)
      cases heq

theorem call_clean (hcall : CallsWith env c.state instr proto) (hclean : c.Clean) (hlive : c.Live)
    (hk : Kept env c instr) (hproto : PlainProto proto) (hpacket : changesPacket instr = false)
    (ht : Tame slices [] c.state t) (hsame : SameDynptrs c.state t)
    (hs : Tame slices (sliceTags (effectsOf env inTypes ids proto t) proto)
      (effectsOf env inTypes ids proto t) s') : (c.next env instr s').Clean := by
  have hcov := hk.covered
  simp only [hcall.kills, hcall.swept] at hcov
  have hends := ends_effectsOf env inTypes ids hproto.declared ht hsame hcov
  have hold := (ht.trans (tame_effectsOf env inTypes t ids proto)).tagged hclean
    (List.forall_mem_nil _)
  -- a call that takes a slice has no effect, so the dynptr is still there
  have hnew : ∀ tag ∈ sliceTags (effectsOf env inTypes ids proto t) proto,
      tag ∈ sliceTags c.state proto ∧ ¬ Kills env c.state tag instr := by
    intro tag htag
    have hnil := hproto.slices (slicesArg_of_mem htag)
    have heq : effectsOf env inTypes ids proto t = t := by
      unfold effectsOf
      rw [hnil]
      rfl
    rw [heq, sliceTags_eq hsame] at htag
    exact ⟨htag, hcall.not_kills hnil tag⟩
  refine clean_next ?_ ?_
  · refine hs.tagged (Tagged.mono (fun tag h => ⟨h.1.1, ?_⟩) (Tagged.and hold hends))
      fun tag htag => ?_
    · rw [hcall.kills]
      exact h.2
    · obtain ⟨hmem, hno⟩ := hnew tag htag
      exact ⟨not_dead_of_slice hlive hmem, hno⟩
  · refine hs.tagged (Tagged.mono (fun tag h hst => ?_) hold) fun tag htag _ =>
      hcall.slices tag (hnew tag htag).1
    rw [hpacket] at hst
    exact absurd (hst.resolve_right fun h => nomatch h.1) h.2

end Calls

end ZoneVerifier.DynptrSlices
