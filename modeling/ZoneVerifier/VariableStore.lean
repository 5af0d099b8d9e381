import ZoneVerifier.FillSound
import ZoneVerifier.StackOps

/-!
# Stores at a variable offset

A store whose offset lies in an interval invalidates every byte it may write.
An entry recorded below that range is not touched, although its value may
reach into it. Loads over a byte that may have been written are unknown if no
such entry records anything; a spill that reaches in is still restored.
-/

set_option autoImplicit false

namespace ZoneVerifier.VariableStore
open Ast RegTypes Tristate Stack Machine StackOps MemTransfer SpillSound

section Range
variable {stack : StackState} {lo hi : Int}

theorem toI16_of_range {i : Int} (h1 : -2^15 ≤ i) (h2 : i < 2^15) : toI16 i = i := by
  unfold toI16
  omega

theorem find_invalidateSlot (stack : StackState) (o q : Int) :
    (stack.invalidateSlot o).slots.find q =
      if q = o then some SpilledReg.misc else stack.slots.find q := rfl

theorem find_invalidateRange (h1 : -2^15 ≤ lo) (h2 : hi ≤ 2^15) (q : Int) :
    (invalidateRange stack lo hi).slots.find q =
      if lo ≤ q ∧ q < hi then some SpilledReg.misc else stack.slots.find q := by
  have hgen : ∀ n : Nat, lo + n ≤ 2^15 →
      ((List.range n).foldl (fun stack (i : Nat) =>
        stack.invalidateSlot (toI16 (lo + (i : Int)))) stack).slots.find q =
      if lo ≤ q ∧ q < lo + n then some SpilledReg.misc else stack.slots.find q := by
    intro n
    induction n with
    | zero =>
      intro _
      rw [if_neg (by push_cast; omega)]
      rfl
    | succ n ih =>
      intro hn
      rw [List.range_succ, List.foldl_append, List.foldl_cons, List.foldl_nil,
        toI16_of_range (by omega) (by push_cast at hn; omega)]
      rw [find_invalidateSlot, ih (by push_cast at hn; omega)]
      by_cases hq : q = lo + n
      · rw [if_pos hq, if_pos (by push_cast; omega)]
      · rw [if_neg hq]
        by_cases hin : lo ≤ q ∧ q < lo + n
        · rw [if_pos hin, if_pos (by push_cast; omega)]
        · rw [if_neg hin, if_neg (by push_cast; omega)]
  unfold invalidateRange
  by_cases hlt : lo ≤ hi
  · rw [hgen _ (by omega), show lo + ((hi - lo).toNat : Int) = hi by omega]
  · rw [show (hi - lo).toNat = 0 by omega, if_neg (by omega)]
    rfl

end Range

def unknownFill (s : State) (dst : Reg) (size : MemSize) : State :=
  dropLink (assignFilled (putPtrConstOff { s with domain := s.domain.forget dst } dst none) dst
    .scalarValue Tnum.unknown size.unboundedScalarBounds.1 size.unboundedScalarBounds.2) dst

/-- An entry a load can take something from. -/
def Informative (sp : SpilledReg) : Prop := sp.sourceReg.isSome = true ∨ sp.tnum ≠ Tnum.unknown

instance (sp : SpilledReg) : Decidable (Informative sp) := inferInstanceAs (Decidable (_ ∨ _))

theorem unknown_of_mask {back : Nat} {size wide : MemSize}
    (h : back + size.bytes ≤ wide.bytes) :
    (Tnum.unknown.mask >>> (8 * back)) &&& sizeMask size = sizeMask size := by
  have hw := size_le wide
  have hmask : (sizeMask size).toNat < 2^(64 - 8 * back) := by
    rw [toNat_sizeMask, show (256 : Nat) = 2^8 by rfl, ← Nat.pow_mul]
    have : 2^(8 * size.bytes) ≤ 2^(64 - 8 * back) := Nat.pow_le_pow_right (by decide) (by omega)
    have := Nat.pow_pos (n := 8 * size.bytes) (show 0 < 2 by decide)
    omega
  apply BitVec.eq_of_getLsbD_eq
  intro i hi
  have hones : Tnum.unknown.mask = BitVec.allOnes 64 := by decide
  rw [BitVec.getLsbD_and, BitVec.getLsbD_ushiftRight, hones, BitVec.getLsbD_allOnes]
  by_cases hb : 8 * back + i < 64
  · simp [hb]
  · have : (sizeMask size).getLsbD i = false :=
      Nat.testBit_lt_two_pow (lt_of_lt_of_le hmask (Nat.pow_le_pow_right (by decide) (by omega)))
    simp [this]

/-- A load uses an informative entry at or below its offset, which reaches to
its end, or it is unknown. -/
theorem fillEntry_cases (s : State) (stack : StackState) (dst : Reg) (f : Int) (size : MemSize)
    (sp : SpilledReg) (hf : stack.slots.find f = some sp) :
    fillEntry s stack dst f size sp = unknownFill s dst size ∨
      ∃ (b : Int) (e : SpilledReg), stack.slots.find b = some e ∧ b ≤ f ∧
        f + size.bytes ≤ b + e.size.bytes ∧ Informative e := by
  by_cases hm : sp.sourceReg.isSome = true ∧ sp.size = size
  · exact Or.inr ⟨f, sp, hf, Int.le_refl f, by rw [hm.2], Or.inl hm.1⟩
  by_cases hlow : isLowHalf sp f size = true
  · obtain ⟨rfl, hwide, -, hs, -⟩ := of_decide_eq_true hlow
    refine Or.inr ⟨f, sp, hf, Int.le_refl f, ?_, Or.inl hs⟩
    rw [hwide]
    exact Int.add_le_add_left (by decide) f
  cases hn : narrowedTnum stack f size with
  | some t =>
    obtain ⟨back, e, he, hle, -, hmask, -⟩ := narrowedTnum_cases hn
    refine Or.inr ⟨f - back, e, he, by omega, by omega, Or.inr fun hu => hmask ?_⟩
    rw [hu]
    exact unknown_of_mask hle
  | none =>
    have hmatch : (sp.sourceReg.isSome && decide (sp.size = size)) = false := by
      rw [Bool.eq_false_iff, Ne, Bool.and_eq_true, decide_eq_true_eq]
      exact hm
    left
    unfold fillEntry
    simp only [hmatch, Bool.not_false, Bool.true_and, Bool.false_and, Bool.false_eq_true, if_false,
      hlow, hn]
    rfl

def totalStackDepth (s : State) : Nat := (s.frames.toList.map (·.frameDepth)).sum

/-- `check_stack_access` of a store at a variable offset. -/
def checkStackAccess (s : State) (base : Reg) (off : Int) (size : MemSize) : Bool :=
  let (lo, hi) := s.domain.getDistanceInterval base .r10
  decide (lo ≠ -2^63 ∧ hi ≠ 2^63 - 1 ∧ -512 ≤ Word.wrapI64 (lo + off) ∧
    Word.wrapI64 (-(totalStackDepth s : Int) + hi + off + size.bytes) ≤ 0)

/-- The store is accepted, and its offset is known to lie in `[lo, hi]` only.
The sums of the check do not wrap. -/
structure VariableAccess (s : State) (base : Reg) (off : Int) (size : MemSize) (lo hi : Int) : Prop where
  notFixed : s.domain.getDistanceFixed base .r10 = none
  interval : s.domain.getDistanceInterval base .r10 = (lo, hi)
  accepted : checkStackAccess s base off size = true
  offset : -2^15 ≤ off ∧ off < 2^15
  far : -2^62 ≤ lo ∧ hi ≤ 2^62
  depth : totalStackDepth s ≤ 2^15

theorem VariableAccess.inside {s : State} {base : Reg} {off lo hi : Int} {size : MemSize}
    (h : VariableAccess s base off size lo hi) (hle : lo ≤ hi) : (lo ≠ -2^63 ∧ hi ≠ 2^63 - 1) ∧
      -512 ≤ lo + off ∧ hi + off + size.bytes ≤ 2^15 := by
  have hacc := h.accepted
  rw [checkStackAccess, h.interval] at hacc
  obtain ⟨hlo, hhi, hlow, hup⟩ := of_decide_eq_true hacc
  have hsize : size.bytes ≤ 8 := by cases size <;> decide
  have ⟨hoff, hfar, hdepth⟩ := And.intro h.offset (And.intro h.far h.depth)
  rw [Word.wrapI64_of_range (by omega) (by omega)] at hlow hup
  exact ⟨⟨hlo, hhi⟩, hlow, by omega⟩

/-- Every load over a byte the store may have written is unknown. -/
def Forgets (s : State) (level : Nat) (off : Int) (size : MemSize) (lo hi : Int) : Prop :=
  ∀ o, lo ≤ o → o ≤ hi → ∀ (dst : Reg) (f : Int) (width : MemSize) (s' : State),
    Overlaps f width.bytes (o + off) size.bytes → fillAt s level dst f width = some s' →
      s' = unknownFill s dst width

/-- No entry below the range that records something reaches into it. -/
def NoneReachesIn (stack : StackState) (start : Int) : Prop :=
  stack.slots.All fun b sp => b < start → Informative sp → b + sp.size.bytes ≤ start

instance (stack : StackState) (start : Int) : Decidable (NoneReachesIn stack start) :=
  inferInstanceAs (Decidable (FiniteMap.FinMap.All _ _))

/-- The spills that reach into the range from below hold unknown scalars. -/
def ReachingUnknown (stack : StackState) (start stop : Int) : Prop :=
  ∀ b sp, stack.slots.find b = some sp → sp.sourceReg.isSome = true → b % 8 = 0 → b < start →
    start < b + sp.size.bytes →
    (∀ q, b ≤ q → q < b + sp.size.bytes → (start ≤ q ∧ q < stop) ∨ (stack.slots.find q).isSome = true) →
    sp.regType = .scalarValue ∧ sp.tnum = Tnum.unknown

section Store
variable {s s₁ : State} {level : Nat} {frame : CallFrame} {base : Reg} {off lo hi : Int}
  {size : MemSize} {src : Operand} {fresh : Nat}

theorem frame_after_store (hframe : s.frames.get level = some frame)
    (ha : VariableAccess s base off size lo hi) (hle : lo ≤ hi)
    (hstep : transferStoreStack s level size base off src fresh = .ok s₁) :
    ∃ frame₁, s₁.frames.get level = some frame₁ ∧ ∀ q, frame₁.stack.slots.find q =
      if lo + off ≤ q ∧ q < hi + off + size.bytes then some SpilledReg.misc
      else frame.stack.slots.find q := by
  obtain ⟨hbounded, hlow, hup⟩ := ha.inside hle
  unfold transferStoreStack at hstep
  rw [ha.notFixed] at hstep
  have hs₁ : { storeVariable s level size base off with
      pc := (storeVariable s level size base off).pc + 1 } = s₁ := Except.ok.inj hstep
  have hframes : s₁.frames = s.frames.modifyAt level fun c =>
      { c with stack := invalidateRange c.stack (lo + off) (hi + off + size.bytes) } := by
    rw [← hs₁]
    show (storeVariable s level size base off).frames = _
    unfold storeVariable updateFrameDepth
    rw [ha.interval]
    dsimp only
    rw [if_pos hbounded]
    split_ifs <;> rfl
  refine ⟨{ frame with stack := invalidateRange frame.stack (lo + off) (hi + off + size.bytes) },
    ?_, fun q => ?_⟩
  · rw [hframes, FrameStack.get_modifyAt, hframe]
    rfl
  · exact find_invalidateRange (by omega) (by omega) q

theorem fillAt_some {dst : Reg} {f : Int} {width : MemSize} {s' : State}
    (hframe : s.frames.get level = some frame) (h : fillAt s level dst f width = some s') :
    ∃ sp, frame.stack.slots.find f = some sp ∧ s' = fillEntry s frame.stack dst f width sp := by
  unfold fillAt at h
  rw [hframe] at h
  dsimp only at h
  split_ifs at h
  obtain ⟨sp, hsp, rfl⟩ := Option.map_eq_some_iff.1 h
  exact ⟨sp, hsp, rfl⟩

theorem fillEntry_spilled (s : State) (stack : StackState) {b : Int} {width : MemSize}
    {sp : SpilledReg} (hs : sp.sourceReg.isSome = true) (hw : sp.size = width) (hb : b % 8 = 0) :
    (fillEntry s stack .r0 b width sp).types.get .r0 = sp.regType ∧
      rawTnum (fillEntry s stack .r0 b width sp) .r0 = sp.tnum := by
  have hmatch : (sp.sourceReg.isSome && decide (sp.size = width)) = true := by
    rw [hs, decide_eq_true hw]
    rfl
  unfold fillEntry
  simp only [hmatch, Bool.not_true, Bool.false_and, Bool.false_eq_true, if_false,
    decide_eq_true hb, Bool.and_self, if_true]
  split_ifs <;> exact ⟨rfl, rfl⟩

/-- After a store at a variable offset the loads over its bytes are unknown if
nothing recorded below reaches in, and only if the spills that do are unknown
scalars themselves. -/
theorem transferStoreStack_forgets (hframe : s.frames.get level = some frame)
    (ha : VariableAccess s base off size lo hi) (hle : lo ≤ hi)
    (hstep : transferStoreStack s level size base off src fresh = .ok s₁) :
    (NoneReachesIn frame.stack (lo + off) → Forgets s₁ level off size lo hi) ∧
      (Forgets s₁ level off size lo hi →
        ReachingUnknown frame.stack (lo + off) (hi + off + size.bytes)) := by
  obtain ⟨frame₁, hframe₁, hfind⟩ := frame_after_store hframe ha hle hstep
  constructor
  · intro hnone o h1 h2 dst f width s' hover hfill
    unfold Overlaps at hover
    obtain ⟨sp, hsp, rfl⟩ := fillAt_some hframe₁ hfill
    rcases fillEntry_cases s₁ frame₁.stack dst f width sp hsp with h | ⟨b, e, he, hb, hreach, hinf⟩
    · exact h
    · exfalso
      rw [hfind] at he
      split_ifs at he with hin
      · rw [← Option.some_inj.1 he] at hinf
        exact absurd hinf (by decide)
      · have := hnone b e he (by omega) hinf
        omega
  · intro hforget b sp hsp hs hmod hb hreach hpresent
    have hslot : frame₁.stack.slots.find b = some sp := by
      rw [hfind, if_neg (by omega)]
      exact hsp
    have hall : ((List.range sp.size.bytes).all fun i : Nat =>
        (frame₁.stack.getSlot (b + (i : Int))).isSome) = true := by
      rw [List.all_eq_true]
      intro i hi
      rw [List.mem_range] at hi
      show (frame₁.stack.slots.find (b + i)).isSome = true
      rw [hfind]
      split_ifs with hin
      · rfl
      · exact (hpresent (b + i) (by omega) (by omega)).resolve_left hin
    have hfill : fillAt s₁ level .r0 b sp.size = some (fillEntry s₁ frame₁.stack .r0 b sp.size sp) := by
      unfold fillAt
      rw [hframe₁]
      dsimp only
      rw [if_pos hall]
      show (frame₁.stack.slots.find b).map _ = _
      rw [hslot]
      rfl
    have hover : Overlaps b sp.size.bytes (lo + off) size.bytes := by
      unfold Overlaps
      omega
    have heq := hforget lo (Int.le_refl lo) hle .r0 b sp.size _ hover hfill
    have hty := fillEntry_spilled s₁ frame₁.stack hs rfl hmod
    rw [heq] at hty
    exact ⟨hty.1.symm, hty.2.symm⟩

end Store

/-- `r1` is the context, `r2` points to `r10 - 4 .. r10 - 1`. -/
def pointerFrame : State :=
  { State.new (.interval (Interval.IntervalState.new.update .r2
      { bounds := Bounds.ScalarBounds.unknown
        ptrOffset := some { Interval.PtrOffset.atAnchor .r10 with off := -4, varOff := 3 } })) 0 with
    types := (TypeState.newNotInit.set .r1 .ptrToCtx).set .r2 (.ptrToStack 0) }

def spilledAt (offset : Int) : State := spillAt pointerFrame 0 .r1 offset .u64 0

theorem variableAccess_spilledAt {offset : Int} (hdepth : totalStackDepth (spilledAt offset) = 0) :
    VariableAccess (spilledAt offset) .r2 0 .u8 (-4) (-1) := by
  have hdom : (spilledAt offset).domain = pointerFrame.domain :=
    (domain_spillAt pointerFrame 0 .r1 offset .u64 0).1
  refine ⟨?_, ?_, ?_, by decide, by decide, ?_⟩
  · rw [hdom]
    decide
  · rw [hdom]
    decide
  · rw [checkStackAccess, hdom, hdepth]
    decide
  · rw [hdepth]
    decide

/-- The context pointer is spilled to `r10 - 8` and a byte of it is
overwritten; the load of the 8 bytes still gives the context pointer. -/
theorem transferStoreStack_keeps_pointer :
    VariableAccess (spilledAt (-8)) .r2 0 .u8 (-4) (-1) ∧
      ∃ s₁, transferStoreStack (spilledAt (-8)) 0 .u8 .r2 0 (.imm 5) 0 = .ok s₁ ∧
        (fillAt s₁ 0 .r3 (-8) .u64).map (fun s => s.types.get .r3) = some .ptrToCtx ∧
        ¬ Forgets s₁ 0 0 .u8 (-4) (-1) := by
  refine ⟨variableAccess_spilledAt (by decide), _, rfl, by decide, fun h => ?_⟩
  have hfill := h (-4) (by decide) (by decide) .r3 (-8) .u64 _ (by decide) rfl
  have hty := congrArg (fun s => s.types.get .r3) hfill
  revert hty
  decide

/-- Spilled one slot lower, the context pointer does not reach into the store. -/
theorem transferStoreStack_forgets_spilledAt :
    NoneReachesIn (spilledAt (-16)).frames.current.stack (-4) ∧
      ∃ s₁, transferStoreStack (spilledAt (-16)) 0 .u8 .r2 0 (.imm 5) 0 = .ok s₁ ∧
        Forgets s₁ 0 0 .u8 (-4) (-1) := by
  have hnone : NoneReachesIn (spilledAt (-16)).frames.current.stack (-4) := by decide
  have hframe : (spilledAt (-16)).frames.get 0 = some (spilledAt (-16)).frames.current := rfl
  obtain ⟨s₁, hstep⟩ : ∃ s₁, transferStoreStack (spilledAt (-16)) 0 .u8 .r2 0 (.imm 5) 0 = .ok s₁ :=
    ⟨_, rfl⟩
  have hiff := transferStoreStack_forgets hframe (variableAccess_spilledAt (by decide)) (by decide) hstep
  exact ⟨hnone, s₁, hstep, hiff.1 hnone⟩

end ZoneVerifier.VariableStore
