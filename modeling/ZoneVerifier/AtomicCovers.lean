import ZoneVerifier.AtomicSound

/-!
# The transfer of atomic operations

The registers after the reload, the entries of the rewritten stack, and from
both that the transfer covers the concrete operation. A pointer derived from
`r10` shows that it does not without the condition: the entry of the modified
slot keeps its constant.
-/

set_option autoImplicit false

namespace ZoneVerifier.AtomicSound
open Ast RegTypes Tristate Stack Machine Numeric Concrete ByteMemory StackOps MemTransfer SpillSound
open VariableStore Constraints

section Transfer
variable {s : State} {ρ : Valuation} {mem : FrameMemory} {op : AtomicOp} {fetch : Bool}
  {size : MemSize} {base src : Reg} {off : Int} {loc : Location}

def afterReload (s : State) (size : MemSize) (off : Int) (target : Option Reg) : State :=
  (atomicReload s size off target).getD (forgetTarget s target)

/-- The parts of the resulting state: the registers are those after the reload,
and the stack of the current frame is rewritten. -/
theorem transferAtomic_parts (s : State) (op : AtomicOp) (fetch : Bool) (size : MemSize)
    (base : Reg) (off : Int) (src : Reg) : ∃ slot : Option Int,
      let s' := transferAtomic s op fetch size base off src
      let r := afterReload s size off (atomicTarget op fetch src)
      s'.domain = r.domain ∧ s'.tnums = r.tnums ∧ s'.types = r.types ∧
        s'.frames = r.frames.modifyCurrent fun c =>
          { c with stack := atomicWrite c.stack base size off slot } := by
  have hdepth : ∀ s : State, (if base = .r10 then updateFrameDepth s off else s).domain = s.domain ∧
      (if base = .r10 then updateFrameDepth s off else s).tnums = s.tnums ∧
      (if base = .r10 then updateFrameDepth s off else s).types = s.types ∧
      (if base = .r10 then updateFrameDepth s off else s).frames = s.frames := by
    intro s
    unfold updateFrameDepth
    split_ifs <;> exact ⟨rfl, rfl, rfl, rfl⟩
  -- forgetting the target does not touch the stack
  have hforget : ∀ (f : StackState → StackState) (t : Option Reg),
      (forgetTarget (s.modifyStack f) t).domain = (forgetTarget s t).domain ∧
      (forgetTarget (s.modifyStack f) t).tnums = (forgetTarget s t).tnums ∧
      (forgetTarget (s.modifyStack f) t).types = (forgetTarget s t).types ∧
      (forgetTarget (s.modifyStack f) t).frames = (forgetTarget s t).frames.modifyCurrent fun c =>
        { c with stack := f c.stack } := by
    intro f t
    cases t with
    | none => exact ⟨rfl, rfl, rfl, rfl⟩
    | some dst => cases dst <;> exact ⟨rfl, rfl, rfl, rfl⟩
  unfold transferAtomic afterReload
  dsimp only
  cases atomicReload s size off (atomicTarget op fetch src) with
  | none =>
    refine ⟨atomicSlot s (s.types.get base) base off, ?_⟩
    obtain ⟨h1, h2, h3, h4⟩ := hforget
      (fun stack => atomicWrite stack base size off (atomicSlot s (s.types.get base) base off))
      (atomicTarget op fetch src)
    obtain ⟨d1, d2, d3, d4⟩ := hdepth (forgetTarget (s.modifyStack fun stack =>
      atomicWrite stack base size off (atomicSlot s (s.types.get base) base off))
      (atomicTarget op fetch src))
    exact ⟨d1.trans h1, d2.trans h2, d3.trans h3, d4.trans h4⟩
  | some r =>
    refine ⟨atomicSlot r (s.types.get base) base off, ?_⟩
    exact hdepth (r.modifyStack fun stack =>
      atomicWrite stack base size off (atomicSlot r (s.types.get base) base off))

structure Reloaded (s r : State) (ρ : Valuation) (old : BitVec 64) (dst : Reg) : Prop where
  represents : r.Represents (Function.update ρ dst old)
  frames : r.frames = s.frames
  isInterval : r.domain.isInterval = s.domain.isInterval

theorem reloaded_of_absent {dst : Reg} (h : s.Represents ρ) (hr : s.InRange)
    (hd : dst.isProgram = true) (old : BitVec 64) :
    Reloaded s (forgetTarget s (some dst)) ρ old dst := by
  have hd' := not_or.1 (Reg.isProgram_iff.1 hd)
  have heq : forgetTarget s (some dst) = { s with
      domain := s.domain.forget dst
      tnums := fun q => if q = dst then some Tnum.unknown else s.tnums q } := if_pos hd'.1
  rw [heq]
  have hready : Ready s.domain ρ := ⟨h.domain, hr, h.zero⟩
  have hfilled : Filled s { s with
      types := s.types.set dst .scalarValue
      domain := s.domain.forget dst
      tnums := fun q => if q = dst then some Tnum.unknown else s.tnums q } ρ dst old .scalarValue :=
    ⟨rfl, NumericDomain.represents_forget hready hd, Tnum.unknown, Tnum.has_unknown old, rfl⟩
  have hrep := hfilled.represents hd h
  exact ⟨⟨hrep.domain, hrep.tnum⟩, rfl, isInterval_forget s.domain dst⟩

theorem oldValue_of_pointsHere (hloc : Addresses s base off loc) (hp : PointsHere s base) :
    loc = .stack s.frames.currentLevel off := by
  cases loc with
  | stack level o =>
    obtain ⟨hty, ho⟩ := hloc
    rw [hp.1] at hty
    rw [hp.2] at ho
    have hlevel : s.frames.currentLevel = level := RegType.ptrToStack.inj hty
    have ho' : o = 0 + off := ho
    rw [hlevel, ho', Int.zero_add]
  | other v =>
    have : isStackPtr (s.types.get base) = false := hloc
    rw [hp.1] at this
    cases this

def TypeFrom (s : State) (loc : Location) (size : MemSize) (ty : RegType) : Prop :=
  ty = .scalarValue ∨ ∃ level o frame sp, loc = .stack level o ∧ s.frames.get level = some frame ∧
    frame.stack.slots.find o = some sp ∧ sp.regType = ty ∧ sp.size = size

theorem reloaded_target {dst : Reg} (h : Covers s ρ mem) (hr : s.InRange)
    (hd : dst.isProgram = true) (hoff : off % size.bytes = 0) (hloc : Addresses s base off loc)
    (hk : AtomicKept s ρ mem op fetch size base off src) (ht : atomicTarget op fetch src = some dst) :
    Reloaded s (afterReload s size off (some dst)) ρ (oldValue mem size loc) dst ∧
      TypeFrom s loc size ((afterReload s size off (some dst)).types.get dst) := by
  by_cases hp : Present s off size
  · obtain ⟨hhere, hfk⟩ := hk.reload dst ht hp
    have hloc' := oldValue_of_pointsHere hloc hhere
    obtain ⟨sp, hsp, hfill⟩ := fillAt_of_present hp dst
    obtain ⟨ty, hfilled, hty⟩ := filled_fillEntry (sound_of_covers h hr) hd hoff hsp hfk
    have hafter : afterReload s size off (some dst) = fillEntry s s.stack dst off size sp := by
      unfold afterReload atomicReload
      dsimp only
      rw [hfill]
      rfl
    obtain ⟨hframes, hivl⟩ := fillEntry_frame s s.stack dst off size sp
    rw [hafter, hloc']
    refine ⟨⟨hfilled.represents hd h.represents, hframes, hivl⟩, ?_⟩
    have hget : (fillEntry s s.stack dst off size sp).types.get dst = ty := by
      have htypes : (fillEntry s s.stack dst off size sp).types = s.types.set dst ty := hfilled.types
      rw [htypes, TypeState.get_set, if_pos ⟨rfl, Reg.toIndex_ne_none hd⟩]
    rw [hget]
    by_cases hs : ty = .scalarValue
    · exact Or.inl hs
    · obtain ⟨rfl, hsize⟩ := hty hs
      exact Or.inr ⟨_, _, _, sp, rfl, FrameStack.get_currentLevel s.frames, hsp, rfl, hsize⟩
  · have hafter : afterReload s size off (some dst) = forgetTarget s (some dst) := by
      unfold afterReload atomicReload
      dsimp only
      rw [fillAt_of_absent hp]
      rfl
    rw [hafter]
    refine ⟨reloaded_of_absent h.represents hr hd _, Or.inl ?_⟩
    have htypes : (forgetTarget s (some dst)).types = s.types := by cases dst <;> rfl
    rw [htypes]
    exact hk.scalar dst ht hp

theorem afterReload_covers (h : Covers s ρ mem) (hr : s.InRange) (hs : src.isProgram = true)
    (hoff : off % size.bytes = 0) (hloc : Addresses s base off loc)
    (hk : AtomicKept s ρ mem op fetch size base off src) :
    let r := afterReload s size off (atomicTarget op fetch src)
    r.Represents (atomicRegs op fetch src (oldValue mem size loc) ρ) ∧ r.frames = s.frames ∧
      r.domain.isInterval = s.domain.isInterval ∧
      (∀ a : Reg, a.isAnchor = true →
        atomicRegs op fetch src (oldValue mem size loc) ρ a = ρ a) ∧
      ∀ dst, atomicTarget op fetch src = some dst → TypeFrom s loc size (r.types.get dst) := by
  unfold atomicRegs
  cases ht : atomicTarget op fetch src with
  | none =>
    refine ⟨h.represents, rfl, rfl, fun _ _ => rfl, fun dst hd => ?_⟩
    cases hd
  | some dst =>
    have hd : dst.isProgram = true := by
      unfold atomicTarget at ht
      split_ifs at ht
      · rw [← Option.some_inj.1 ht]
        rfl
      · rw [← Option.some_inj.1 ht]
        exact hs
    obtain ⟨hrel, hty⟩ := reloaded_target h hr hd hoff hloc hk ht
    refine ⟨hrel.represents, hrel.frames, hrel.isInterval, fun a ha => ?_, fun dst' hd' => ?_⟩
    · have hne : a ≠ dst := by
        intro he
        exact (not_or.1 (Reg.isProgram_iff.1 hd)).2 (he ▸ ha)
      exact Function.update_of_ne hne _ _
    · rw [← Option.some_inj.1 hd']
      exact hty

/-- An entry after the write is a plain one, or an old one that is not
invalidated and has at most lost its type. -/
theorem find_atomicWrite {stack : StackState} {b : Int} {slot : Option Int} {sp : SpilledReg}
    (hf : (atomicWrite stack base size off slot).slots.find b = some sp) :
    (∃ sz k, sp = plainEntry sz k) ∨ ¬ (base = .r10 ∧ b = off) ∧
      ∃ sp', stack.slots.find b = some sp' ∧
        (sp = sp' ∨ sp = { sp' with regType := .scalarValue }) := by
  unfold atomicWrite at hf
  by_cases hinv : base = .r10 ∧ b = off
  · rw [if_pos hinv.1, find_invalidateSlot, if_pos hinv.2] at hf
    exact Or.inl ⟨.u64, .misc, (Option.some_inj.1 hf).symm⟩
  · have hf' : (updateStoreTypes stack .scalarValue size slot).slots.find b = some sp := by
      by_cases hb : base = .r10
      · rwa [if_pos hb, find_invalidateSlot, if_neg fun h => hinv ⟨hb, h⟩] at hf
      · rwa [if_neg hb] at hf
    rcases retyped_updateStoreTypes stack size slot b with h | ⟨sp', hsp', h⟩ | ⟨_, h⟩
    · exact Or.inr ⟨hinv, sp, h ▸ hf', Or.inl rfl⟩
    · rw [hf', Option.some_inj] at h
      exact Or.inr ⟨hinv, sp', hsp', Or.inr h⟩
    · rw [hf', Option.some_inj] at h
      exact Or.inl ⟨_, _, h⟩

/-- An entry that is not invalidated stays sound when the location is written. -/
theorem slotOk_writeLocation {ρ' : Valuation} {level : Nat} {frame : CallFrame} {b : Int}
    {sp : SpilledReg} {v : BitVec 64} (hloc : Addresses s base off loc)
    (hk : AtomicKept s ρ mem op fetch size base off src)
    (hframe : s.frames.get level = some frame) (hsp : frame.stack.slots.find b = some sp)
    (hok : SlotOk s.domain.isInterval ρ' (mem level) [] b sp)
    (hnot : ¬ (base = .r10 ∧ level = s.frames.currentLevel ∧ b = off)) :
    SlotOk s.domain.isInterval ρ' (writeLocation mem size v loc level) [] b sp := by
  cases loc with
  | other v => exact hok
  | stack l o =>
    unfold writeLocation
    dsimp only
    by_cases hl : level = l
    · rw [if_pos hl]
      by_cases hover : Overlaps b sp.size.bytes o size.bytes
      · rcases hk.stale l o frame hloc (hl ▸ hframe) b sp hsp hover with hi | hinv
        · exact slotOk_of_not_informative hok hi
        · exact absurd ⟨hinv.1, hl.trans hinv.2.1, hinv.2.2⟩ hnot
      · refine slotOk_congr_mem hok fun q h1 h2 => (writeLe_of_notMem ?_).symm
        unfold Overlaps at hover
        omega
    · rw [if_neg hl]
      exact hok

/-- A spilled pointer under the written bytes is the entry that is invalidated. -/
theorem scalar_of_stale {level : Nat} {o b : Int} {frame : CallFrame} {sp : SpilledReg}
    (h : Covers s ρ mem) (hk : AtomicKept s ρ mem op fetch size base off src)
    (hloc : Addresses s base off (.stack level o)) (hframe : s.frames.get level = some frame)
    (hsp : frame.stack.slots.find b = some sp) (hover : Overlaps b sp.size.bytes o size.bytes)
    (hnot : ¬ (base = .r10 ∧ level = s.frames.currentLevel ∧ b = off)) :
    sp.regType = .scalarValue := by
  rcases hk.stale level o frame hloc hframe b sp hsp hover with hi | hinv
  · exact (h.frames level frame hframe b sp hsp).scalar_of_none
      (Option.not_isSome_iff_eq_none.1 (not_or.1 hi).1)
  · exact absurd hinv hnot

/-- The transfer of an atomic operation covers every concrete execution of it
that `AtomicKept` allows: the old value in the target, the new contents of the
addressed location in every frame, and no spilled pointer over a written byte. -/
theorem transferAtomic_covers (h : Covers s ρ mem) (hr : s.InRange) (hs : src.isProgram = true)
    (hoff : off % size.bytes = 0) (hloc : Addresses s base off loc)
    (hk : AtomicKept s ρ mem op fetch size base off src) :
    let old := oldValue mem size loc
    let s' := transferAtomic s op fetch size base off src
    Covers s' (atomicRegs op fetch src old ρ)
      (writeLocation mem size (newValue op size old (ρ src) (ρ .r0)) loc) ∧
      (∀ dst, atomicTarget op fetch src = some dst → TypeFrom s loc size (s'.types.get dst)) ∧
      ∀ level o, loc = .stack level o → ∀ frame, s'.frames.get level = some frame →
        ∀ b sp, frame.stack.slots.find b = some sp → Overlaps b sp.size.bytes o size.bytes →
          sp.regType = .scalarValue := by
  obtain ⟨slot, hdom, htn, htypes, hframes⟩ :=
    transferAtomic_parts s op fetch size base off src
  obtain ⟨hrep, hrf, hivl, hanchors, hty⟩ := afterReload_covers h hr hs hoff hloc hk
  rw [hrf] at hframes
  -- an entry of a frame after the operation, in terms of the entries before it
  have hentry : ∀ level frame, (transferAtomic s op fetch size base off src).frames.get level =
      some frame → ∀ b sp, frame.stack.slots.find b = some sp →
      (∃ sz k, sp = plainEntry sz k) ∨
        ¬ (base = .r10 ∧ level = s.frames.currentLevel ∧ b = off) ∧
        ∃ fr sp', s.frames.get level = some fr ∧ fr.stack.slots.find b = some sp' ∧
          (sp = sp' ∨ sp = { sp' with regType := .scalarValue }) := by
    intro level frame hget b sp hf
    have hcur : (s.frames.modifyCurrent fun c =>
        { c with stack := atomicWrite c.stack base size off slot }).currentLevel =
        s.frames.currentLevel := rfl
    rw [hframes, FrameStack.get_eq, hcur] at hget
    by_cases hlevel : level = s.frames.currentLevel
    · rw [if_pos hlevel, Option.some_inj] at hget
      rw [← hget] at hf
      rcases find_atomicWrite hf with hplain | ⟨hnot, sp', hsp', hsp⟩
      · exact Or.inl hplain
      · exact Or.inr ⟨fun hn => hnot ⟨hn.1, hn.2.2⟩, _, sp',
          hlevel ▸ FrameStack.get_currentLevel _, hsp', hsp⟩
    · rw [if_neg hlevel] at hget
      refine Or.inr ⟨fun hn => hlevel hn.2.1, frame, sp, ?_, hf, Or.inl rfl⟩
      rw [FrameStack.get_eq, if_neg hlevel]
      exact hget
  refine ⟨⟨represents_of_same hdom htn hrep, fun level frame hget b sp hf => ?_⟩,
    fun dst hd => htypes ▸ hty dst hd, fun level o he frame hget b sp hf hover => ?_⟩
  · rw [hdom, hivl]
    rcases hentry level frame hget b sp hf with ⟨_, _, rfl⟩ | ⟨hnot, fr, sp', hl, hsp', hsp⟩
    · exact slotOk_plain _ _
    · have hold := (h.frames level fr hl b sp' hsp').congr_regs hanchors
      rcases hsp with rfl | rfl
      · exact slotOk_writeLocation hloc hk hl hsp' hold hnot
      · exact slotOk_scalar (slotOk_writeLocation hloc hk hl hsp' hold hnot)
  · rcases hentry level frame hget b sp hf with ⟨_, _, rfl⟩ | ⟨hnot, fr, sp', hl, hsp', hsp⟩
    · rfl
    · rcases hsp with rfl | rfl
      · exact scalar_of_stale h hk (he ▸ hloc) hl hsp' hover hnot
      · rfl

end Transfer

/-- `r2` is `r10 - 8` and `r3` is one. -/
def derivedFrame : Config :=
  { state :=
      { State.new (.interval (Interval.assignImm (Interval.IntervalState.new.update .r2
          { bounds := Bounds.ScalarBounds.unknown
            ptrOffset := some { Interval.PtrOffset.atAnchor .r10 with off := -8 } }) .r3 1)) 0 with
        types := ((TypeState.newNotInit.set .r2 (.ptrToStack 0)).set .r3 .scalarValue).set .r10
          (.ptrToStack 0) }
    regs := fun r => if r = .r3 then 1 else 0
    mem := fun _ => 0
    log := [] }

theorem derivedFrame_sound : derivedFrame.Sound where
  represents := .of_unlinked rfl (by decide) (by decide) (by decide)
  range := by
    intro r
    cases r <;> decide
  slots := by
    intro b sp h
    cases h
  written := by
    intro w h
    cases h

def storedFive : Config := (Op.storeImm 5 (-8) .u64).exec derivedFrame

theorem storedFive_covers : Covers storedFive.state storedFive.regs (fun _ => storedFive.mem) := by
  have hsound : storedFive.Sound := by
    refine sound_storeImm derivedFrame_sound ⟨by decide, by decide, by decide, by decide⟩ ?_
    intro q sp hf
    cases hf
  refine ⟨hsound.represents, fun level frame hl b sp hsp => ?_⟩
  have hframe : frame = storedFive.state.frames.current := by
    match level with
    | 0 => exact (Option.some_inj.1 hl).symm
    | _ + 1 => cases hl
  rw [hframe] at hsp
  have hok := hsound.slots b sp hsp
  refine ⟨hok.tnum, hok.plain, hok.spilled, fun hp => ?_⟩
  obtain ⟨h1, h2, -⟩ := hok.pointer hp
  refine ⟨h1, h2, fun w hw => ?_⟩
  cases hw

/-- `lock *(u64 *)(r2 + 0) += r3` makes the word 6; a load of the slot is still
known to give 5. -/
theorem transferAtomic_keeps_five :
    Covers storedFive.state storedFive.regs (fun _ => storedFive.mem) ∧
      Addresses storedFive.state .r2 0 (.stack 0 (-8)) ∧
      (let s' := transferAtomic storedFive.state .add false .u64 .r2 0 .r3
      let mem' := writeLocation (fun _ => storedFive.mem) .u64
        (newValue .add .u64 5 (storedFive.regs .r3) (storedFive.regs .r0)) (.stack 0 (-8))
      oldValue (fun _ => storedFive.mem) .u64 (.stack 0 (-8)) = 5 ∧
        loadWord (mem' 0) (-8) 8 = 6 ∧
        (fillAt s' 0 .r4 (-8) .u64).map (fun s => s.getTnum .r4) = some (Tnum.constant 5) ∧
        ¬ Covers s' storedFive.regs mem') := by
  refine ⟨storedFive_covers, ⟨by decide, show (-8 : Int) = -8 + 0 from rfl⟩, by decide, by decide,
    by decide, fun h => ?_⟩
  have hslot := h.frames 0 _ rfl (-8) _ rfl
  have htnum := hslot.tnum (Or.inl (by decide))
  revert htnum
  decide

/-- The same operation through `r10` invalidates the slot. -/
theorem transferAtomic_covers_storedFive :
    Covers (transferAtomic storedFive.state .add false .u64 .r10 (-8) .r3) storedFive.regs
      (writeLocation (fun _ => storedFive.mem) .u64
        (newValue .add .u64 5 (storedFive.regs .r3) (storedFive.regs .r0)) (.stack 0 (-8))) := by
  have hrange : storedFive.state.InRange := by
    intro r
    cases r <;> decide
  have hloc : Addresses storedFive.state .r10 (-8) (.stack 0 (-8)) :=
    ⟨by decide, show (-8 : Int) = 0 + -8 from rfl⟩
  have hentries : storedFive.state.frames.current.stack.slots.All
      fun b sp => ¬ Informative sp ∨ b = -8 := by decide
  have hkept : AtomicKept storedFive.state storedFive.regs (fun _ => storedFive.mem) .add false .u64
      .r10 (-8) .r3 := by
    refine ⟨fun dst hd => ?_, fun dst hd => ?_, fun level o frame _ hframe b sp hsp _ => ?_⟩
    · cases hd
    · cases hd
    · match level with
      | 0 =>
        have hframe' : storedFive.state.frames.current = frame := Option.some_inj.1 hframe
        rw [← hframe'] at hsp
        rcases hentries b sp hsp with hi | hb
        · exact Or.inl hi
        · exact Or.inr ⟨rfl, rfl, hb⟩
      | _ + 1 => cases hframe
  exact (transferAtomic_covers storedFive_covers hrange rfl (by decide) hloc hkept).1

end ZoneVerifier.AtomicSound
