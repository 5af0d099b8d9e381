import ZoneVerifier.AtomicSound
import ZoneVerifier.CallReturn

/-!
# Properties of every type in a state

A type can sit in a register, in a stack entry of any frame, or in the
registers a frame has saved for its caller. `StateAll P` says that every one of
them satisfies `P`; calls, spills, fills and returns only move types between
these places or write scalars and plain pointers.
Moves, spills, fills, calls of subprograms and returns carry types around, so
what holds of every type in a state holds over every sequence of them.
-/

set_option autoImplicit false

namespace ZoneVerifier.TypeInvariant
open Ast RegTypes Stack Machine StackOps CallReturn SpillSound

def RegsAll (P : RegType → Prop) (t : TypeState) : Prop := ∀ i, P (t.regs i)

def StackAll (P : RegType → Prop) (s : StackState) : Prop := s.slots.All fun _ sp => P sp.regType

structure FrameAll (P : RegType → Prop) (f : CallFrame) : Prop where
  stack : StackAll P f.stack
  saved : RegsAll P f.callerTypes

structure StateAll (P : RegType → Prop) (s : State) : Prop where
  regs : RegsAll P s.types
  frames : ∀ f ∈ s.frames.toList, FrameAll P f

/-- The types every transfer may introduce by itself. -/
structure Plain (P : RegType → Prop) : Prop where
  scalar : P .scalarValue
  notInit : P .notInit
  stack : ∀ level, P (.ptrToStack level)

/-- With the types of the arguments of a global function. -/
structure Neutral (P : RegType → Prop) : Prop extends Plain P where
  arg : ∀ id arg ty, globalArgType id arg = some ty → P ty

variable {P : RegType → Prop}

theorem RegsAll.get {t : TypeState} (h : RegsAll P t) (hp : Plain P) (r : Reg) : P (t.get r) := by
  unfold TypeState.get
  cases r.toIndex with
  | none => exact hp.notInit
  | some i => exact h i

theorem RegsAll.set {t : TypeState} {ty : RegType} (h : RegsAll P t) (r : Reg) (hty : P ty) :
    RegsAll P (t.set r ty) := by
  unfold TypeState.set
  cases r.toIndex with
  | none => exact h
  | some i =>
    intro j
    dsimp only
    split_ifs
    · exact hty
    · exact h j

variable {level : Nat} {s s' : State}

section Frames

theorem mem_modifyAt {f : CallFrame} {fs : FrameStack} {g : CallFrame → CallFrame}
    (h : f ∈ (fs.modifyAt level g).toList) :
    f ∈ fs.toList ∨ ∃ f₀ ∈ fs.toList, f = g f₀ := by
  unfold FrameStack.modifyAt at h
  split_ifs at h
  · rcases List.mem_cons.1 h with rfl | hmem
    · exact Or.inr ⟨fs.current, List.mem_cons_self, rfl⟩
    · exact Or.inl (List.mem_cons_of_mem _ hmem)
  · rcases List.mem_cons.1 h with rfl | hmem
    · exact Or.inl List.mem_cons_self
    · rw [List.mem_reverse] at hmem
      obtain ⟨i, hi⟩ := List.mem_iff_getElem?.1 hmem
      rw [List.getElem?_modify] at hi
      cases hi' : fs.callers.reverse[i]? with
      | none =>
        rw [hi'] at hi
        cases hi
      | some f₀ =>
        rw [hi'] at hi
        have hf₀ : f₀ ∈ fs.toList := by
          refine List.mem_cons_of_mem _ (List.mem_reverse.1 ?_)
          exact List.mem_iff_getElem?.2 ⟨i, hi'⟩
        rw [Option.map_eq_map, Option.map_some, Option.some_inj] at hi
        split_ifs at hi
        · exact Or.inr ⟨f₀, hf₀, hi.symm⟩
        · exact Or.inl (hi ▸ hf₀)

theorem StateAll.modifyStackAt {f : StackState → StackState}
    (h : StateAll P s) (hf : ∀ stack, StackAll P stack → StackAll P (f stack)) :
    StateAll P (modifyStackAt s level f) := by
  refine ⟨h.regs, fun c hc => ?_⟩
  rcases mem_modifyAt hc with hmem | ⟨c₀, hmem, rfl⟩
  · exact h.frames c hmem
  · have hc₀ := h.frames c₀ hmem
    exact ⟨hf _ hc₀.stack, hc₀.saved⟩

theorem StateAll.of_same (h : StateAll P s) (ht : s'.types = s.types)
    (hf : s'.frames = s.frames) : StateAll P s' := ⟨ht ▸ h.regs, hf ▸ h.frames⟩

theorem StateAll.setType {r : Reg} {ty : RegType} (h : StateAll P s) (hty : P ty) :
    StateAll P { s with types := s.types.set r ty } := ⟨h.regs.set r hty, h.frames⟩

end Frames

section Spill
variable {s : State} {level : Nat} {reg : Reg} {o : Int} {size : MemSize} {fresh : Nat}

theorem stackAll_of_stored {stack stack' : StackState} {n : Nat} {entry : Nat → SpilledReg}
    (hp : Plain P) (h : StackAll P stack) (hst : Stored stack stack' o n entry)
    (hentry : ∀ i, P (entry i).regType) : StackAll P stack' := by
  intro q sp hq
  by_cases hin : o ≤ q ∧ q < o + n
  · rw [hst.inside q hin.1 hin.2, Option.some_inj] at hq
    rw [← hq]
    exact hentry _
  · rcases hst.outside q hin with hsame | ⟨_, size, hplain⟩
    · exact h q sp (hsame ▸ hq)
    · rw [hplain, Option.some_inj] at hq
      rw [← hq]
      exact hp.scalar

theorem regType_spillEntries (hp : Plain P) (h : StateAll P s) (i : Nat) :
    P (spillEntries s reg size fresh i).regType := by
  have hsame := sameRegs_linkedSource s reg size fresh
  unfold spillEntries
  split_ifs
  · show P (if size = .u64 then (linkedSource s reg size fresh).1.types.get reg else .scalarValue)
    rw [hsame.types]
    split_ifs
    · exact h.regs.get hp reg
    · exact hp.scalar
  · exact hp.scalar

theorem StateAll.spillAt (hp : Plain P) (h : StateAll P s) :
    StateAll P (spillAt s level reg o size fresh) := by
  cases hs : isSpill s reg o size with
  | true =>
    have ho : o % 8 = 0 := by
      unfold isSpill at hs
      rw [Bool.and_eq_true] at hs
      exact of_decide_eq_true hs.1
    have hsame := sameRegs_linkedSource s reg size fresh
    rw [spillAt_of_isSpill _ hs]
    refine StateAll.modifyStackAt (h.of_same hsame.types hsame.frames) fun stack hstack => ?_
    exact stackAll_of_stored hp hstack (stored_aligned stack o size ho _ _)
      (regType_spillEntries hp h)
  | false =>
    rw [spillAt_of_not_isSpill _ hs]
    have hsame : StateAll P (if isNullScalar s reg then putPrecise s reg true else s) := by
      split_ifs
      · exact h.of_same rfl rfl
      · exact h
    refine hsame.modifyStackAt fun stack hstack => ?_
    refine stackAll_of_stored hp hstack (stored_clobber stack o size.bytes (size_le size).1 _)
      fun _ => ?_
    unfold clobberEntry
    split_ifs <;> exact hp.scalar

end Spill

section Calls
variable {s : State}

theorem StateAll.markNotInit (hp : Plain P) (h : StateAll P s) (r : Reg) :
    StateAll P (markNotInit s r) := by
  have hset : StateAll P { s with types := s.types.set r .notInit } := h.setType hp.notInit
  refine hset.of_same ?_ ?_
  · cases r <;> rfl
  · cases r <;> rfl

theorem StateAll.foldl {α : Type} {f : State → α → State} (hf : ∀ s a, StateAll P s →
    StateAll P (f s a)) (l : List α) (h : StateAll P s) : StateAll P (l.foldl f s) := by
  induction l generalizing s with
  | nil => exact h
  | cons a l ih => exact ih (hf s a h)

theorem StateAll.enterFrame {frame : CallFrame} (h : StateAll P s) (hf : FrameAll P frame) :
    StateAll P (enterFrame s frame) := by
  refine ⟨h.regs, fun f hmem => ?_⟩
  rcases List.mem_cons.1 hmem with rfl | hmem
  · exact hf
  · exact h.frames f hmem

theorem frameAll_newFrame (h : StateAll P s) (pc : Nat) (helper : Option Nat) :
    FrameAll P (newFrame s pc helper) := by
  refine ⟨?_, h.regs⟩
  intro q sp hq
  cases hq

theorem StateAll.transferCallRel_of (hp : Plain P) (h : StateAll P s) (target : Nat)
    (global : Option (List GlobalFuncArg)) (ids : Nat → Nat)
    (hnew : ∀ i arg ty, globalArgType (ids i) arg = some ty → P ty) :
    StateAll P (transferCallRel s target global ids) := by
  have htypes : ∀ s, StateAll P s → StateAll P (updateCallRelTypes s) := by
    intro s h
    have hregs : RegsAll P (s.types.set .r0 .notInit) := h.regs.set .r0 hp.notInit
    exact ⟨hregs.set .r10 (hp.stack s.frames.currentLevel), h.frames⟩
  have hmark : ∀ s, StateAll P s → StateAll P (markCalleeEntryRegs s) := fun s h =>
    StateAll.foldl (fun s r h => h.markNotInit hp r) _ h
  have harg : ∀ (s : State) (reg : Reg) (i : Nat) (arg : GlobalFuncArg), StateAll P s →
      StateAll P (overrideArg s reg (ids i) arg) := by
    intro s reg i arg h
    unfold overrideArg
    cases hty : globalArgType (ids i) arg with
    | none => exact h
    | some ty => exact (h.setType (hnew i arg ty hty)).of_same rfl rfl
  cases global with
  | none =>
    have hpush : StateAll P (pushFrame s (s.pc + 1)) :=
      hmark _ (h.enterFrame (frameAll_newFrame h _ none))
    exact (htypes _ hpush).of_same rfl rfl
  | some args =>
    have hframe := frameAll_newFrame h (s.pc + 1) none
    have hpush : StateAll P (pushGlobalSubprogFrame s (s.pc + 1)) :=
      hmark _ (h.enterFrame ⟨hframe.stack, hframe.saved⟩)
    refine StateAll.of_same (s := overrideArgs (updateCallRelTypes
      (pushGlobalSubprogFrame s (s.pc + 1))) ids args) ?_ rfl rfl
    exact StateAll.foldl (fun s a h => harg s a.1 a.2.2 a.2.1 h) _ (htypes _ hpush)

theorem StateAll.transferCallRel (hp : Neutral P) (h : StateAll P s) (target : Nat)
    (global : Option (List GlobalFuncArg)) (ids : Nat → Nat) :
    StateAll P (transferCallRel s target global ids) :=
  h.transferCallRel_of hp.toPlain target global ids fun i => hp.arg (ids i)

theorem StateAll.transferExit (hp : Plain P) (h : StateAll P s)
    (hexit : transferExit s = some s') : StateAll P s' := by
  obtain ⟨caller, callers, _, hcallers, rfl⟩ := transferExit_some hexit
  have hcur := h.frames s.frames.current List.mem_cons_self
  have hregs : RegsAll P (s.frames.current.callerTypes.set .r0 (s.types.get .r0)) :=
    hcur.saved.set .r0 (h.regs.get hp .r0)
  refine ⟨hregs.set .r10 (hp.stack callers.length), fun f hmem => h.frames f ?_⟩
  unfold FrameStack.toList
  rw [hcallers]
  exact List.mem_cons_of_mem _ hmem

end Calls

theorem types_fillEntry (s : State) (stack : StackState) (dst : Reg) (o : Int) (size : MemSize)
    (sp : SpilledReg) : ∃ ty, (fillEntry s stack dst o size sp).types = s.types.set dst ty ∧
      (ty = .scalarValue ∨ ty = sp.regType) := by
  unfold fillEntry
  dsimp only
  split_ifs
  · exact ⟨_, rfl, Or.inl rfl⟩
  · exact ⟨_, rfl, Or.inr rfl⟩
  · exact ⟨_, rfl, Or.inr rfl⟩
  all_goals
    split <;> exact ⟨_, rfl, Or.inl rfl⟩

theorem mem_of_get {fs : FrameStack} {frame : CallFrame}
    (h : fs.get level = some frame) : frame ∈ fs.toList := by
  rw [FrameStack.get_eq] at h
  split_ifs at h
  · rw [← Option.some_inj.1 h]
    exact List.mem_cons_self
  · exact List.mem_cons_of_mem _ (List.mem_reverse.1 (List.mem_iff_getElem?.2 ⟨level, h⟩))

theorem StateAll.fillAt {dst : Reg} {o : Int} {size : MemSize}
    (hp : Plain P) (h : StateAll P s) (hfill : fillAt s level dst o size = some s') :
    StateAll P s' := by
  cases hframe : s.frames.get level with
  | none =>
    unfold StackOps.fillAt at hfill
    rw [hframe] at hfill
    cases hfill
  | some frame =>
    obtain ⟨sp, hsp, rfl⟩ := VariableStore.fillAt_some hframe hfill
    obtain ⟨ty, htypes, hty⟩ := types_fillEntry s frame.stack dst o size sp
    have hframes := (AtomicSound.fillEntry_frame s frame.stack dst o size sp).1
    have hset : P ty := by
      rcases hty with rfl | rfl
      · exact hp.scalar
      · exact (h.frames frame (mem_of_get hframe)).stack o sp hsp
    exact StateAll.of_same (h.setType hset) htypes hframes

end ZoneVerifier.TypeInvariant

namespace ZoneVerifier.TypeFlow
open Ast RegTypes Machine StackOps CallReturn TypeInvariant

inductive FlowOp where
  | mov (dst src : Reg)
  | spill (level : Nat) (reg : Reg) (offset : Int) (size : MemSize) (fresh : Nat)
  | fill (level : Nat) (dst : Reg) (offset : Int) (size : MemSize)
  | call (target : Nat) (global : Option (List GlobalFuncArg)) (ids : Nat → Nat)
  | exit

def FlowOp.exec (s : State) : FlowOp → Option State
  | mov dst src => some { s with types := s.types.set dst (s.types.get src) }
  | spill level reg o size fresh => some (spillAt s level reg o size fresh)
  | fill level dst o size => fillAt s level dst o size
  | call target global ids => some (transferCallRel s target global ids)
  | exit => transferExit s

theorem stateAll_flow {P : RegType → Prop} (hp : Neutral P) {s s' : State} {op : FlowOp}
    (h : StateAll P s) (hexec : op.exec s = some s') : StateAll P s' := by
  cases op with
  | mov dst src =>
    cases hexec
    exact h.setType (h.regs.get hp.toPlain src)
  | spill level reg o size fresh =>
    cases hexec
    exact h.spillAt hp.toPlain
  | fill level dst o size => exact h.fillAt hp.toPlain hexec
  | call target global ids =>
    cases hexec
    exact h.transferCallRel hp target global ids
  | exit => exact h.transferExit hp.toPlain hexec

end ZoneVerifier.TypeFlow
