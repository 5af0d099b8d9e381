import ZoneVerifier.Machine

/-!
# Cleaning a cached state

When all paths through a cached state are explored, `clean_verifier_state`
(`analysis/flow/pruning/cache.rs`) forgets what is dead in it. The registers of
a frame that waits for a call are saved in the frame it called, and they are
cleaned there with the registers that are live in the called frame.
-/

set_option autoImplicit false

namespace ZoneVerifier.CacheClean
open Ast RegTypes Stack Machine FiniteMap

/-- The slots live before an instruction, by call chain, frame and instruction
(`analysis/flow/live_stack.rs`). -/
structure LiveStack where
  enabled : Bool
  instances : List Nat → Option (Nat → Nat → Option (BitVec 64))

def callchainOf (s : State) : List Nat := (s.frames.toList.reverse.drop 1).map (·.returnPc - 1)

def isLiveBefore (ls : LiveStack) (key : List Nat) (insn frameno spi : Nat) : Bool :=
  ((ls.instances key).bind fun inst => inst frameno insn).any (·.getLsbD spi)

/-- Bit `spi` of `frame_alive_mask`. -/
def frameAlive (ls : LiveStack) (key : List Nat) (insn frameno spi : Nat) : Bool :=
  !ls.enabled || isLiveBefore ls key insn frameno spi ||
    (List.range' frameno (key.length - frameno)).any fun i =>
      isLiveBefore ls (key.take i) (key.getD i 0) frameno spi ||
        isLiveBefore ls (key.take i) (key.getD i 0 + 1) frameno spi

def spiOf (off : Int) : Option Nat :=
  if 0 ≤ off ∨ off < -512 then none else some ((-off - 1) / 8).toNat

def carriesObject (sp : SpilledReg) : Bool :=
  sp.iterator.isSome || sp.dynptr.isSome || sp.irqFlag.isSome

/-- Where a frame goes on: at the point of the state, or behind its call. -/
def frameIp (s : State) (i : Nat) : Nat := ((s.frames.get (i + 1)).map CallFrame.returnPc).getD s.pc

def isCleaned (live : Reg → Bool) (r : Reg) : Bool :=
  Reg.all.contains r && r != .r10 && r != .zero && !live r

def cleanTypes (live : Reg → Bool) (t : TypeState) : TypeState :=
  (Reg.all.filter (isCleaned live)).foldl (fun t r => t.set r .notInit) t

def mapLevels (f : FrameStack) (g : Nat → CallFrame → CallFrame) : FrameStack :=
  { current := g f.currentLevel f.current, callers := (f.callers.reverse.mapIdx g).reverse }

section Clean
variable (liveRegs : Nat → Reg → Bool) (ls : LiveStack) (s : State)

def slotAlive (i : Nat) (off : Int) : Bool :=
  (spiOf off).all (frameAlive ls (callchainOf s) s.pc i)

def cleanStack (i : Nat) (stack : StackState) : StackState :=
  { stack with slots := stack.slots.filterEntries fun off sp =>
      slotAlive ls s i off || carriesObject sp }

def cleanFrame (i : Nat) (f : CallFrame) : CallFrame :=
  { f with
    stack := cleanStack ls s i f.stack
    callerTypes :=
      if i + 1 < s.frames.depth then cleanTypes (liveRegs (frameIp s i)) f.callerTypes
      else f.callerTypes }

def cleanState : State :=
  { s with
    frames := mapLevels s.frames (cleanFrame liveRegs ls s)
    types := cleanTypes (liveRegs s.pc) s.types
    tnums := fun r => if isCleaned (liveRegs s.pc) r then none else s.tnums r
    scalarIds := fun r => if isCleaned (liveRegs s.pc) r then none else s.scalarIds r
    preciseRegs := fun r => !isCleaned (liveRegs s.pc) r && s.preciseRegs r }

structure Cached where
  state : State
  cleaned : Bool

/-- Read marks that are still incomplete put the cleaning off. -/
def cleanVerifierState (incompleteReadMarks : State → Bool) (c : Cached) : Cached :=
  if c.cleaned || incompleteReadMarks c.state then c
  else { state := cleanState liveRegs ls c.state, cleaned := true }

end Clean

section Live
variable {liveRegs : Nat → Reg → Bool} {ls : LiveStack} {s : State}

/-- The registers of a frame: those of the state, or those saved at its call. -/
def typesOf (s : State) (k : Nat) : Option TypeState :=
  if k = s.frames.currentLevel then some s.types
  else (s.frames.get (k + 1)).map CallFrame.callerTypes

structure KeepsLive (liveRegs : Nat → Reg → Bool) (ls : LiveStack) (s s' : State) : Prop where
  regs : ∀ k t, typesOf s k = some t → ∃ t', typesOf s' k = some t' ∧
    ∀ r, liveRegs (frameIp s k) r = true → t'.get r = t.get r
  slots : ∀ k f, s.frames.get k = some f → ∃ f', s'.frames.get k = some f' ∧
    ∀ off sp, f.stack.slots.find off = some sp →
      slotAlive ls s k off = true ∨ carriesObject sp = true → f'.stack.slots.find off = some sp

/-- A register that a frame needs behind its call is live in the frame it called
as well, unless that one is the current frame. -/
def SavedLive (liveRegs : Nat → Reg → Bool) (s : State) : Prop :=
  ∀ k f, k + 1 < s.frames.currentLevel → s.frames.get (k + 1) = some f →
    ∀ r, liveRegs (frameIp s k) r = true → isCleaned (liveRegs (frameIp s (k + 1))) r = true →
      f.callerTypes.get r = .notInit

theorem get_foldl_notInit (rs : List Reg) (t : TypeState) (q : Reg) :
    (rs.foldl (fun t r => t.set r .notInit) t).get q = if q ∈ rs then .notInit else t.get q := by
  induction rs generalizing t with
  | nil => simp
  | cons r rs ih =>
    rw [List.foldl_cons, ih, TypeState.get_set]
    by_cases hq : q = r
    · subst hq
      cases hi : q.toIndex <;> simp [TypeState.get, hi]
    · simp [hq]

theorem get_cleanTypes (live : Reg → Bool) (t : TypeState) (q : Reg) :
    (cleanTypes live t).get q = if isCleaned live q = true then .notInit else t.get q := by
  rw [cleanTypes, get_foldl_notInit]
  simp [isCleaned, and_assoc]

theorem get_mapLevels (f : FrameStack) (g : Nat → CallFrame → CallFrame) (l : Nat) :
    (mapLevels f g).get l = (f.get l).map (g l) := by
  have hlevel : (mapLevels f g).currentLevel = f.currentLevel := by
    simp [mapLevels, FrameStack.currentLevel]
  rw [FrameStack.get_eq, FrameStack.get_eq, hlevel]
  split_ifs with h
  · rw [mapLevels, h]
    rfl
  · rw [mapLevels, List.reverse_reverse, List.getElem?_mapIdx]

theorem typesOf_cleanState (k : Nat) : typesOf (cleanState liveRegs ls s) k =
    if k = s.frames.currentLevel then some (cleanTypes (liveRegs s.pc) s.types)
    else (s.frames.get (k + 1)).map fun f =>
      (cleanFrame liveRegs ls s (k + 1) f).callerTypes := by
  have hlevel : (cleanState liveRegs ls s).frames.currentLevel = s.frames.currentLevel := by
    simp [cleanState, mapLevels, FrameStack.currentLevel]
  rw [typesOf, hlevel]
  split_ifs
  · rfl
  · rw [cleanState, get_mapLevels, Option.map_map]
    rfl

variable (liveRegs ls) in
theorem typesOf_caller {k : Nat} {f : CallFrame} (hk : k ≠ s.frames.currentLevel)
    (hf : s.frames.get (k + 1) = some f) : typesOf s k = some f.callerTypes ∧
      typesOf (cleanState liveRegs ls s) k =
        some (cleanFrame liveRegs ls s (k + 1) f).callerTypes := by
  rw [typesOf_cleanState, typesOf, if_neg hk, if_neg hk, hf]
  exact ⟨rfl, rfl⟩

variable (ls) in
theorem regs_cleanState_iff : (∀ k t, typesOf s k = some t →
      ∃ t', typesOf (cleanState liveRegs ls s) k = some t' ∧
        ∀ r, liveRegs (frameIp s k) r = true → t'.get r = t.get r) ↔ SavedLive liveRegs s := by
  constructor
  · intro h k f hk hf r hlive hclean
    obtain ⟨hold, hnew⟩ := typesOf_caller liveRegs ls (by omega) hf
    obtain ⟨t', ht', hget⟩ := h k _ hold
    have hr := hget r hlive
    have hlt : k + 1 + 1 < s.frames.depth := Nat.succ_lt_succ hk
    rw [hnew, Option.some.injEq] at ht'
    rw [← ht', cleanFrame, if_pos hlt, get_cleanTypes, if_pos hclean] at hr
    exact hr.symm
  · intro h k t ht
    by_cases hk : k = s.frames.currentLevel
    · have hip : frameIp s k = s.pc := by
        rw [frameIp, FrameStack.get_eq, if_neg (by omega), List.getElem?_eq_none]
        · rfl
        · simp [hk, FrameStack.currentLevel]
      rw [typesOf, if_pos hk] at ht
      cases ht
      refine ⟨_, by rw [typesOf_cleanState, if_pos hk], fun r hlive => ?_⟩
      rw [hip] at hlive
      rw [get_cleanTypes, if_neg (by simp [isCleaned, hlive])]
    · cases hf : s.frames.get (k + 1) with
      | none =>
        rw [typesOf, if_neg hk, hf] at ht
        cases ht
      | some f =>
        obtain ⟨hold, hnew⟩ := typesOf_caller liveRegs ls hk hf
        rw [hold] at ht
        cases ht
        refine ⟨_, hnew, fun r hlive => ?_⟩
        rw [cleanFrame]
        split_ifs with hlt
        · rw [get_cleanTypes]
          split_ifs with hclean
          · exact (h k f (Nat.lt_of_succ_lt_succ hlt) hf r hlive hclean).symm
          · rfl
        · rfl

/-- Cleaning keeps what is live exactly if it has nothing to do or no register
that waits in a saved frame is dead in the frame it is saved in. -/
theorem cleaning_keeps_live_iff (liveRegs : Nat → Reg → Bool) (ls : LiveStack)
    (incompleteReadMarks : State → Bool) (c : Cached) :
    KeepsLive liveRegs ls c.state
        (cleanVerifierState liveRegs ls incompleteReadMarks c).state ↔
      (c.cleaned || incompleteReadMarks c.state) = true ∨ SavedLive liveRegs c.state := by
  rw [cleanVerifierState]
  split_ifs with hskip
  · refine iff_of_true ⟨fun k t ht => ⟨t, ht, fun _ _ => rfl⟩, fun k f hf => ⟨f, hf, ?_⟩⟩ (Or.inl hskip)
    exact fun _ _ hsp _ => hsp
  · rw [or_iff_right hskip, ← regs_cleanState_iff ls]
    refine ⟨KeepsLive.regs, fun h => ⟨h, fun k f hf => ?_⟩⟩
    refine ⟨_, by rw [cleanState, get_mapLevels, hf]; rfl, fun off sp hsp hkeep => ?_⟩
    simpa [cleanFrame, cleanStack, FinMap.filterEntries, hsp] using hkeep

/-- Main waits for a helper whose callback has called a function; `r6` is live
behind the call of the helper. -/
def inCallback : State :=
  let main := State.new (.zone Zone.Dbm.new) 30
  let saved := TypeState.newNotInit.set .r6 .scalarValue
  { main with frames :=
    { current := { CallFrame.main with returnPc := 20 }
      callers := [{ CallFrame.main with
        returnPc := 5, callerTypes := saved, isCallback := true, callbackHelper := some 181 },
        CallFrame.main] } }

/-- The callback does not use `r6`, so main loses it. -/
theorem waiting_register_lost :
    ¬ KeepsLive (fun pc r => pc == 5 && r == .r6) ⟨false, fun _ => none⟩ inCallback
      (cleanVerifierState (fun pc r => pc == 5 && r == .r6) ⟨false, fun _ => none⟩ (fun _ => false)
        ⟨inCallback, false⟩).state := by
  intro h
  obtain ⟨t', ht', hget⟩ := h.regs 0 _ rfl
  cases ht'
  exact absurd (hget .r6 rfl) (by decide)

end Live
end ZoneVerifier.CacheClean
