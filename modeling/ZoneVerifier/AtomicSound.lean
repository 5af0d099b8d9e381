import ZoneVerifier.FillSound
import ZoneVerifier.VariableStore

/-!
# Atomic read-modify-write operations

The concrete operation reads the addressed location, stores the combined value
and hands the old one to its target. The transfer reloads the target from the
current frame at the offset of the instruction, whatever the base points to,
and invalidates one byte when the base is `r10`. `AtomicKept` names the cases
in which that covers the concrete step.
-/

set_option autoImplicit false

namespace ZoneVerifier.AtomicSound
open Ast Stack Machine Numeric Concrete ByteMemory StackOps MemTransfer SpillSound VariableStore

/-- Where a base points to: a byte of a frame, or an object with some contents. -/
inductive Location where
  | stack (level : Nat) (offset : Int)
  | other (contents : BitVec 64)

def Addresses (s : State) (base : Reg) (off : Int) : Location → Prop
  | .stack level o => s.types.get base = .ptrToStack level ∧
      match s.domain.getDistanceFixed base .r10 with
      | some d => o = d + off
      | none => (s.domain.getDistanceInterval base .r10).1 + off ≤ o ∧
          o ≤ (s.domain.getDistanceInterval base .r10).2 + off
  | .other _ => isStackPtr (s.types.get base) = false

abbrev FrameMemory := Nat → Memory

def oldValue (mem : FrameMemory) (size : MemSize) : Location → BitVec 64
  | .stack level o => loadWord (mem level) o size.bytes
  | .other v => BitVec.ofNat 64 (v.toNat % 256^size.bytes)

/-- The value stored back; only the bytes of the access are written. -/
def newValue (op : AtomicOp) (size : MemSize) (old src r0 : BitVec 64) : BitVec 64 :=
  match op with
  | .add => old + src
  | .or => old ||| src
  | .and => old &&& src
  | .xor => old ^^^ src
  | .xchg => src
  | .cmpXchg => if old = BitVec.ofNat 64 (r0.toNat % 256^size.bytes) then src else old

def writeLocation (mem : FrameMemory) (size : MemSize) (v : BitVec 64) : Location → FrameMemory
  | .stack level o => fun k => if k = level then writeLe (mem k) o size.bytes v.toNat else mem k
  | .other _ => mem

def atomicRegs (op : AtomicOp) (fetch : Bool) (src : Reg) (old : BitVec 64) (ρ : Valuation) :
    Valuation :=
  match atomicTarget op fetch src with
  | some dst => Function.update ρ dst old
  | none => ρ

def FramesSound (s : State) (ρ : Valuation) (mem : FrameMemory) : Prop :=
  ∀ level frame, s.frames.get level = some frame → ∀ b sp, frame.stack.slots.find b = some sp →
    SlotOk s.domain.isInterval ρ (mem level) [] b sp

/-- The state represents the registers and the stacks of all frames. -/
structure Covers (s : State) (ρ : Valuation) (mem : FrameMemory) : Prop where
  represents : s.Represents ρ
  frames : FramesSound s ρ mem

section Entries
variable {ivl : Bool} {ρ : Valuation} {m m' : Memory} {b : Int} {sp : SpilledReg}

theorem slotOk_congr_mem (h : SlotOk ivl ρ m [] b sp)
    (hm : ∀ q, b ≤ q → q < b + sp.size.bytes → m q = m' q) : SlotOk ivl ρ m' [] b sp := by
  have hload := loadWord_congr hm
  exact ⟨fun hu => hload ▸ h.tnum hu, h.plain, fun hs => hload ▸ h.spilled hs, h.pointer⟩

theorem slotOk_scalar (h : SlotOk ivl ρ m [] b sp) :
    SlotOk ivl ρ m [] b { sp with regType := .scalarValue } := by
  refine ⟨h.tnum, h.plain, fun hs => ?_, fun hp => absurd rfl hp⟩
  obtain ⟨hb, hr⟩ := h.spilled hs
  exact ⟨hb, hr.kind, hr.min_le, hr.le_max, hr.range, hr.related⟩

theorem slotOk_of_not_informative (h : SlotOk ivl ρ m [] b sp) (hi : ¬ Informative sp) :
    SlotOk ivl ρ m' [] b sp := by
  obtain ⟨hs, ht⟩ := not_or.1 hi
  have hs' : sp.sourceReg = none := Option.not_isSome_iff_eq_none.1 hs
  exact SlotOk.of_unknown (not_not.1 ht) hs' (h.scalar_of_none hs')

end Entries

/-- Entries keep what they record except for a type; new ones record nothing. -/
def Retyped (stack stack' : StackState) : Prop :=
  ∀ q, stack'.slots.find q = stack.slots.find q ∨
    (∃ sp, stack.slots.find q = some sp ∧
      stack'.slots.find q = some { sp with regType := .scalarValue }) ∨
    (stack.slots.find q = none ∧ stack'.slots.find q = some (plainEntry .u64 .spill))

theorem Retyped.refl (stack : StackState) : Retyped stack stack := fun _ => Or.inl rfl

theorem Retyped.trans {s₁ s₂ s₃ : StackState} (h₁ : Retyped s₁ s₂) (h₂ : Retyped s₂ s₃) :
    Retyped s₁ s₃ := by
  intro q
  rcases h₂ q with h | ⟨sp, hsp, h⟩ | ⟨hnone, h⟩
  · rw [h]
    exact h₁ q
  · rcases h₁ q with h' | ⟨sp', hsp', h'⟩ | ⟨hnone, h'⟩
    · exact Or.inr (Or.inl ⟨sp, h' ▸ hsp, h⟩)
    · rw [hsp, Option.some_inj] at h'
      subst h'
      exact Or.inr (Or.inl ⟨sp', hsp', h⟩)
    · rw [hsp, Option.some_inj] at h'
      subst h'
      exact Or.inr (Or.inr ⟨hnone, h⟩)
  · rcases h₁ q with h' | ⟨sp', _, h'⟩ | ⟨_, h'⟩
    · exact Or.inr (Or.inr ⟨h' ▸ hnone, h⟩)
    · rw [hnone] at h'
      cases h'
    · rw [hnone] at h'
      cases h'

theorem retyped_setSlotType (stack : StackState) (o : Int) :
    Retyped stack (stack.setSlotType o .scalarValue none) := by
  intro q
  unfold StackState.setSlotType
  cases ho : stack.slots.find o with
  | none =>
    by_cases hq : q = o
    · refine Or.inr (Or.inr ⟨hq ▸ ho, ?_⟩)
      rw [hq]
      exact FiniteMap.FinMap.find_insert_self _ _ _
    · exact Or.inl (FiniteMap.FinMap.find_insert_of_ne _ _ hq)
  | some sp =>
    by_cases hq : q = o
    · refine Or.inr (Or.inl ⟨sp, hq ▸ ho, ?_⟩)
      show (if q = o then (stack.slots.find q).map _ else _) = _
      rw [if_pos hq, hq, ho]
      rfl
    · left
      show (if q = o then (stack.slots.find q).map _ else _) = _
      rw [if_neg hq]

theorem retyped_updateStoreTypes (stack : StackState) (size : MemSize) (slot : Option Int) :
    Retyped stack (updateStoreTypes stack .scalarValue size slot) := by
  cases slot with
  | none => exact Retyped.refl stack
  | some o =>
    have hfold : ∀ (is : List Nat) (stack : StackState), Retyped stack
        (is.foldl (fun stack (i : Nat) => stack.setSlotType (o + (i : Int))
          (if size = .u64 ∧ i = 0 then .scalarValue else .scalarValue) none) stack) := by
      intro is
      induction is with
      | nil => exact Retyped.refl
      | cons i is ih =>
        intro stack
        rw [List.foldl_cons, ite_self]
        exact (retyped_setSlotType stack _).trans (ih _)
    exact hfold _ stack

/-- The base points to the start of the current frame, so the slot at the
offset of the instruction is the addressed one. -/
def PointsHere (s : State) (base : Reg) : Prop :=
  s.types.get base = .ptrToStack s.frames.currentLevel ∧ s.domain.getDistanceFixed base .r10 = some 0

/-- The transfer covers the concrete operation: what is reloaded comes from the
addressed slot, a target that is not reloaded is a scalar already, and no entry
over a written byte records anything except the one that is invalidated. -/
structure AtomicKept (s : State) (ρ : Valuation) (mem : FrameMemory) (op : AtomicOp) (fetch : Bool)
    (size : MemSize) (base : Reg) (off : Int) (src : Reg) : Prop where
  reload : ∀ dst, atomicTarget op fetch src = some dst → Present s off size → PointsHere s base ∧
    FillKept ⟨s, ρ, mem s.frames.currentLevel, []⟩ off size
  scalar : ∀ dst, atomicTarget op fetch src = some dst → ¬ Present s off size →
    s.types.get dst = .scalarValue
  stale : ∀ level o frame, Addresses s base off (.stack level o) →
    s.frames.get level = some frame → ∀ b sp, frame.stack.slots.find b = some sp →
    Overlaps b sp.size.bytes o size.bytes →
    ¬ Informative sp ∨ (base = .r10 ∧ level = s.frames.currentLevel ∧ b = off)

section Reload
variable {s : State} {ρ : Valuation} {mem : FrameMemory} {size : MemSize} {off : Int} {dst : Reg}
variable (d : NumericDomain) (x : Reg)

theorem isInterval_forget : (d.forget x).isInterval = d.isInterval := by
  cases d <;> simp only [NumericDomain.forget, NumericDomain.isInterval]

theorem isInterval_assignInterval (lo hi : Int) :
    (d.assignInterval x lo hi).isInterval = d.isInterval := by
  cases d <;> simp only [NumericDomain.assignInterval, NumericDomain.isInterval]

theorem isInterval_close : d.close.isInterval = d.isInterval := by
  cases d <;> simp only [NumericDomain.close, NumericDomain.isInterval]

theorem isInterval_addConstraint (i j : Reg) (c : Int) :
    (d.addConstraint i j c).isInterval = d.isInterval := by
  cases d with
  | zone z => simp only [NumericDomain.addConstraint, NumericDomain.isInterval]
  | interval ivl =>
    simp only [NumericDomain.addConstraint]
    split_ifs <;> simp only [NumericDomain.isInterval]

theorem isInterval_addRelation (a : Option Reg) (lo hi : Option Int) :
    (addRelation d x a lo hi).isInterval = d.isInterval := by
  cases a with
  | none => rfl
  | some a => cases lo <;> cases hi <;> simp only [addRelation, isInterval_addConstraint]

theorem isInterval_setPtrOffset (p : Interval.PtrOffset) :
    (setPtrOffset d x p).isInterval = d.isInterval := by
  cases d <;> simp only [setPtrOffset, NumericDomain.isInterval]

theorem isInterval_restoreAnchorInfo (sp : SpilledReg) :
    (restoreAnchorInfo d x sp).isInterval = d.isInterval := by
  have hinit : (if isMapValueType sp.regType = true then d.initMapValuePtr x else d).isInterval =
      d.isInterval := by
    split_ifs
    · cases d <;> simp only [NumericDomain.initMapValuePtr, NumericDomain.isInterval]
    · rfl
  unfold restoreAnchorInfo
  cases sp.ptrBounds with
  | none => exact hinit
  | some pb =>
    cases pb with
    | zone a lo hi ea elo ehi =>
      dsimp only
      by_cases ha : a.isSome = true ∨ ea.isSome = true
      · rw [if_pos ha, isInterval_close, isInterval_addRelation, isInterval_addRelation, hinit]
      · rw [if_neg ha, isInterval_addRelation, isInterval_addRelation, hinit]
    | interval o v r i =>
      dsimp only
      split
      · rw [isInterval_setPtrOffset, hinit]
      · exact hinit

theorem fillEntry_frame (s : State) (stack : StackState) (dst : Reg) (o : Int) (size : MemSize)
    (sp : SpilledReg) : (fillEntry s stack dst o size sp).frames = s.frames ∧
      (fillEntry s stack dst o size sp).domain.isInterval = s.domain.isInterval := by
  have hassign : ∀ lo hi, ((s.domain.forget dst).assignInterval dst lo hi).isInterval =
      s.domain.isInterval := by
    intro lo hi
    rw [isInterval_assignInterval, isInterval_forget]
  unfold fillEntry
  dsimp only
  split_ifs
  · exact ⟨rfl, hassign _ _⟩
  · refine ⟨rfl, ?_⟩
    rw [isInterval_restoreAnchorInfo]
    exact hassign _ _
  · exact ⟨rfl, hassign _ _⟩
  · exact ⟨rfl, hassign _ _⟩
  · split <;> exact ⟨rfl, hassign _ _⟩

theorem sound_of_covers (h : Covers s ρ mem) (hr : s.InRange) :
    (Config.mk s ρ (mem s.frames.currentLevel) []).Sound where
  represents := h.represents
  range := hr
  slots := h.frames s.frames.currentLevel s.frames.current (FrameStack.get_currentLevel s.frames)
  written := by
    intro w hw
    cases hw

end Reload

end ZoneVerifier.AtomicSound
