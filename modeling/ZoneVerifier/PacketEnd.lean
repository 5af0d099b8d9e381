import ZoneVerifier.PacketRegion
import ZoneVerifier.RegExec
import ZoneVerifier.ShiftTransfer

/-!
# Packet comparisons decided from a mark

A packet pointer found at or beyond the packet end keeps the mark until it is
moved, and a later 64-bit comparison with the packet end is decided from it. A
mark speaks of unsigned 64-bit addresses, but comparisons of low halves and
signed ones leave it as well; and the packet end added to a constant is another
packet end. Scalar identities, precision and pruning are left out.
-/

set_option autoImplicit false

open Function (update update_self update_of_ne)

namespace ZoneVerifier.Numeric.NumericDomain
open Ast Tristate
open ZoneVerifier.Interval (IntervalState PtrOffset)

def applyAddImm : NumericDomain → Reg → Int → NumericDomain
  | zone d, dst, imm => zone (Zone.applyAddImm d dst imm)
  | interval s, dst, imm => interval (Interval.applyAddImm s dst imm)

theorem getPtrOffset_update (ivl : IntervalState) (x : Reg) (v : Interval.RegInterval) (r : Reg) :
    (ivl.update x v).getPtrOffset r = if r = x then v.ptrOffset else ivl.getPtrOffset r := by
  simp only [IntervalState.getPtrOffset, IntervalState.update]
  split_ifs <;> rfl

section Offsets
variable (d : NumericDomain) {dst : Reg} (hd : dst.isProgram = true) (src r : Reg)
include hd

theorem ptrOffset_forget :
    (d.forget dst).ptrOffset r = if r = dst then none else d.ptrOffset r := by
  cases d with
  | zone d => simp [forget, ptrOffset]
  | interval ivl =>
    show (ivl.forget dst).getPtrOffset r = _
    rw [IntervalState.forget, if_pos (not_or.1 (Reg.isProgram_iff.1 hd)), getPtrOffset_update]
    rfl

theorem ptrOffset_applyAddImm (c : Int) :
    (d.applyAddImm dst c).ptrOffset r =
      if r = dst then (d.ptrOffset dst).map (·.shift c) else d.ptrOffset r := by
  cases d with
  | zone d => simp [applyAddImm, ptrOffset]
  | interval ivl =>
    show (Interval.applyAddImm ivl dst c).getPtrOffset r = _
    have hdst := getPtrOffset_modifyBounds ivl dst (Interval.addImmBounds · c) dst
    rw [Interval.applyAddImm, if_neg (Reg.isProgram_iff.1 hd), IntervalState.modifyPtrOffset,
      getPtrOffset_update, getPtrOffset_modifyBounds]
    exact if_congr Iff.rfl (congrArg (Option.map (·.shift c)) hdst) rfl

theorem ptrOffset_assignReg :
    (d.assignReg dst src).ptrOffset r = if r = dst then d.ptrOffset src else d.ptrOffset r := by
  cases d with
  | zone d => simp [assignReg, ptrOffset]
  | interval ivl =>
    have hg := not_or.1 (Reg.isProgram_iff.1 hd)
    show (Interval.assignReg ivl dst src).getPtrOffset r = _
    rw [Interval.assignReg, if_pos hg, IntervalState.set, if_pos hg.1, getPtrOffset_update]
    rfl

theorem ptrOffset_assignRegOffset (c : Int) :
    (d.assignRegOffset dst src c).ptrOffset r =
      if r = dst then (d.ptrOffset src).map (·.shift c) else d.ptrOffset r := by
  cases d with
  | zone d => simp [assignRegOffset, ptrOffset]
  | interval ivl =>
    show (Interval.assignRegOffset ivl dst src c).getPtrOffset r = _
    rw [Interval.assignRegOffset, if_neg (Reg.isProgram_iff.1 hd)]
    rw [IntervalState.set, if_pos (not_or.1 (Reg.isProgram_iff.1 hd)).1, getPtrOffset_update]
    rfl

end Offsets

theorem sameOffsets_tnumBounds (d : NumericDomain) (reg : Reg) (t : Tnum) :
    SameOffsets d (ShiftTransfer.tnumBounds d reg t) := by
  unfold ShiftTransfer.tnumBounds
  dsimp only
  split_ifs
  · exact (sameOffsets_assumeGeImm d reg _).trans (sameOffsets_assumeLeImm _ reg _)
  · exact sameOffsets_assumeLeImm d reg _
  · exact sameOffsets_assumeGeImm d reg _
  · exact .refl d
  · exact .refl d

end ZoneVerifier.Numeric.NumericDomain

namespace ZoneVerifier.PacketEnd
open Word Ast RegTypes Tristate Machine Concrete Outcome PacketRegion
open Numeric (NumericDomain)
open ZoneVerifier.Interval (PtrOffset PktEndRel IntervalState)
open ShiftTransfer (overwrite)
variable (s : State)

def maxPacketOff : Int := 0xFFFF

def maxVarOff : Int := 2^29

def addAmount : Operand → Option Int
  | .imm c => some c
  | .reg r =>
    let (lo, hi) := s.domain.getInterval r
    if (s.types.get r).isScalar ∧ lo = hi ∧ lo ≠ -2^63 ∧ lo ≠ 2^63 - 1 then some lo else none

def subAmount : Operand → Option Int
  | .imm c => some c
  | .reg r => if (s.types.get r).isScalar then s.domain.getFixedValue r else none

def getOperandFixedValue (d : NumericDomain) : Operand → Option Int
  | .imm k => some k
  | .reg r => d.getFixedValue r

def checkPtrBounds (reg : Reg) : State :=
  let ty := s.types.get reg
  if ty = .ptrToPacket ∨ ty = .ptrToPacketMeta then
    match Reg.all.find? fun r => s.types.get r = ty with
    | some packetStart =>
      let (_, hi) := s.domain.getDistanceInterval reg packetStart
      if hi ≠ 2^63 - 1 ∧ maxPacketOff < hi then { s with domain := s.domain.forget reg } else s
    | none => s
  else s

/-- The type of a packet pointer after it was moved. -/
def updatePtrArithmeticType (dst : Reg) (src : Operand) (isAdd : Bool) : RegType :=
  let reaches (anchor : Reg) : Bool :=
    decide ((s.domain.getDistanceInterval dst anchor).2 ≤ maxPacketOff)
  match s.types.get dst with
  | .ptrToPacket =>
    if isAdd then
      match getOperandFixedValue s.domain src with
      | some delta => if maxPacketOff ≤ delta then .scalarValue else .ptrToPacket
      | none => .ptrToPacket
    else if reaches .anchorData then .ptrToPacket
    else .scalarValue
  | .ptrToPacketMeta => if reaches .anchorDataMeta then .ptrToPacketMeta else .scalarValue
  | _ => .scalarValue

def shiftPointer (dst : Reg) (c : Int) : State :=
  let constOff := wrapI64 ((s.ptrConstOff dst).getD 0 + c)
  checkPtrBounds
    (State.setTnum
      { s with
        domain := s.domain.applyAddImm dst c
        ptrConstOff := update s.ptrConstOff dst (some constOff) } dst Tnum.unknown) dst

def movePointer (dst : Reg) (src : Operand) (isAdd : Bool) (amount : Int) :
    Option State :=
  if amount < -maxVarOff ∨ maxVarOff < amount then none
  else
    let s := shiftPointer s dst (if isAdd then amount else wrapI64 (-amount))
    some { s with types := s.types.set dst (updatePtrArithmeticType s dst src isAdd) }

def addPointer (dst src : Reg) : Option State :=
  let (lo, hi) := s.domain.getInterval dst
  if lo = hi ∧ -maxPacketOff ≤ lo ∧ hi ≤ maxPacketOff then
    let s' := overwrite s dst (s.domain.assignRegOffset dst src lo)
      ((s.getTnum dst).add (s.getTnum src))
    some { s' with
           types := s.types.set dst (s.types.get src)
           ptrConstOff := update s.ptrConstOff dst none }
  else none

def copyRegister (dst src : Reg) : State :=
  let constOff :=
    if (s.types.get src).isPointer ∧ dst ≠ src then some ((s.ptrConstOff src).getD 0) else none
  { s.setTnum dst (s.getTnum src) with
    domain := if dst = src then s.domain else s.domain.assignReg dst src
    types := s.types.set dst (s.types.get src)
    ptrConstOff := update s.ptrConstOff dst constOff }

/-- The instructions that packet pointers go through; arithmetic has 64 bits. -/
inductive PacketInstr where
  | compare (w : Width) (left : Reg) (op : CmpOp) (right : Reg)
  | add (dst : Reg) (src : Operand)
  | sub (dst : Reg) (src : Operand)
  | mov (dst src : Reg)
  deriving DecidableEq, Repr

def writable (dst : Reg) : Bool := dst.isProgram && decide (dst ≠ .r10)

def handleAdd (dst : Reg) (src : Operand) : Option State :=
  if (s.types.get dst).isPacketPtr then (addAmount s src).bind (movePointer s dst src true)
  else
    match src with
    | .reg r =>
      if (s.types.get dst).isScalar ∧ (s.types.get r).isPacketPtr then addPointer s dst r else none
    | .imm _ => none

def handleSub (dst : Reg) (src : Operand) : Option State :=
  if (s.types.get dst).isPacketPtr then (subAmount s src).bind (movePointer s dst src false)
  else none

def step (ρ : Valuation) : PacketInstr → Option State
  | .compare w left op right =>
    some (compareSide s w left op right (decide (CmpHolds w op (ρ left) (ρ right))))
  | .add dst src => if writable dst then handleAdd s dst src else none
  | .sub dst src => if writable dst then handleSub s dst src else none
  | .mov dst src => if writable dst then some (copyRegister s dst src) else none

def exec (ρ : Valuation) : PacketInstr → Valuation
  | .compare _ _ _ _ => ρ
  | .add dst src => update ρ dst (ρ dst + operandValue ρ src)
  | .sub dst src => update ρ dst (ρ dst - operandValue ρ src)
  | .mov dst src => update ρ dst (ρ src)

def run : List PacketInstr → State → Valuation → Option (State × Valuation)
  | [], s, ρ => some (s, ρ)
  | i :: is, s, ρ => (step s ρ i).bind fun s' => run is s' (exec ρ i)

def RelHolds : PktEndRel → BitVec 64 → BitVec 64 → Prop
  | .beyond, p, e => e.toNat < p.toNat
  | .at, p, e => e.toNat ≤ p.toNat

/-- The registers that count as the packet end hold it, and the marks are true. -/
structure EndsHold (e : BitVec 64) (s : State) (ρ : Valuation) : Prop where
  ends : ∀ r, s.types.get r = .ptrToPacketEnd → ρ r = e
  marks : ∀ r rel, endRel s r = some rel → RelHolds rel (ρ r) e

/-- The unsigned comparison that a comparison of packet pointers is taken for. -/
def unsignedCmp : CmpOp → CmpOp
  | .slt => .ult
  | .sle => .ule
  | .sgt => .ugt
  | .sge => .uge
  | op => op

/-- If the comparison leaves a mark, it comes out as the unsigned 64-bit one does. -/
def MarksFaithfully (ρ : Valuation) (w : Width) (left : Reg) (op : CmpOp)
    (right : Reg) : Prop :=
  (∃ r, newMark s left right op (decide (CmpHolds w op (ρ left) (ρ right))) r ≠ none) →
    (CmpHolds .w64 (unsignedCmp op) (ρ left) (ρ right) ↔ CmpHolds w op (ρ left) (ρ right))

/-- The marks are faithful, and the packet end is added to nothing but zero. -/
def Faithful (ρ : Valuation) : PacketInstr → Prop
  | .compare w left op right => MarksFaithfully s ρ w left op right
  | .add dst (.reg r) => s.types.get r = .ptrToPacketEnd → ρ dst = 0
  | _ => True

def FaithfulRun : List PacketInstr → State → Valuation → Prop
  | [], _, _ => True
  | i :: is, s, ρ => Faithful s ρ i ∧ ∀ s', step s ρ i = some s' → FaithfulRun is s' (exec ρ i)

section Verdicts
variable {e : BitVec 64} {s : State} {ρ : Valuation} {left right : Reg} {op : CmpOp} {b : Bool}

theorem pktEndVerdict_sound {rel : Option PktEndRel} {p e : BitVec 64}
    (hrel : ∀ k, rel = some k → RelHolds k p e) (h : pktEndVerdict rel op = some b) :
    b = true ↔ CmpHolds .w64 op p e := by
  cases rel with
  | none => simp [pktEndVerdict] at h
  | some k =>
    have hk := hrel k rfl
    cases k <;> cases op <;> simp only [pktEndVerdict, reduceCtorEq, Option.some.injEq] at h <;>
      subst h <;> simp only [RelHolds] at hk <;>
      simp only [CmpHolds, readU, Bool.false_eq_true, true_iff, false_iff] <;> omega

theorem endRel_interval {ivl : IntervalState} (hd : s.domain = .interval ivl) {pkt : Reg}
    (ht : s.types.get pkt = .ptrToPacket) :
    endRel s pkt = (ivl.getPtrOffset pkt).bind (·.pktEndRel) := by
  rw [endRel, if_pos ht, hd]
  rfl

theorem pktPtrBranchTaken_cases (h : pktPtrBranchTaken s left op right = some b) :
    (s.types.get right = .ptrToPacketEnd ∧ pktEndVerdict (endRel s left) op = some b) ∨
      (s.types.get left = .ptrToPacketEnd ∧
        pktEndVerdict (endRel s right) (flipCmpOp op) = some b) := by
  unfold pktPtrBranchTaken at h
  cases hd : s.domain with
  | zone d =>
    simp only [hd] at h
    split_ifs at h
  | interval ivl =>
    simp only [hd] at h
    split_ifs at h with h1 h2
    · rw [endRel_interval hd h1.2]
      exact .inl ⟨h1.1, h⟩
    · rw [endRel_interval hd h2.2]
      exact .inr ⟨h2.1, h⟩

theorem EndsHold.decided (h : EndsHold e s ρ) (hb : pktPtrBranchTaken s left op right = some b) :
    b = true ↔ CmpHolds .w64 op (ρ left) (ρ right) := by
  rcases pktPtrBranchTaken_cases hb with ⟨hend, hv⟩ | ⟨hend, hv⟩
  · rw [h.ends right hend]
    exact pktEndVerdict_sound (h.marks left) hv
  · rw [h.ends left hend, ← cmpHolds_flip]
    exact pktEndVerdict_sound (h.marks right) hv

end Verdicts

section Steps
variable {e : BitVec 64} {s s' : State} {ρ : Valuation} {dst : Reg}
variable {taken : Bool} {op : CmpOp} {amount : Int} {src : Operand} {rel : Option PktEndRel}
  {k : PktEndRel} {ty : RegType}

structure Rewrites (s s' : State) (dst : Reg) (ty : RegType) (rel : Option PktEndRel) : Prop where
  types : s'.types = s.types.set dst ty
  marks : ∀ r, (s'.domain.ptrOffset r).bind (·.pktEndRel) =
    if r = dst then rel else (s.domain.ptrOffset r).bind (·.pktEndRel)

section
variable (h : Rewrites s s' dst ty rel) (hd : dst.isProgram = true) (r : Reg)
include h hd

theorem Rewrites.type_eq :
    s'.types.get r = if r = dst then ty else s.types.get r := by
  rw [h.types, TypeState.get_set]
  exact if_congr (and_iff_left (Reg.toIndex_ne_none hd)) rfl rfl

theorem Rewrites.endRel_eq :
    endRel s' r = if r = dst then (if ty = .ptrToPacket then rel else none) else endRel s r := by
  unfold endRel
  rw [h.type_eq hd, h.marks]
  split_ifs <;> rfl

end

theorem Rewrites.endsHold_iff (hw : Rewrites s s' dst ty rel) (hd : dst.isProgram = true)
    (h : EndsHold e s ρ) (x : BitVec 64) :
    EndsHold e s' (update ρ dst x) ↔
      (ty = .ptrToPacketEnd → x = e) ∧
        (ty = .ptrToPacket → ∀ k, rel = some k → RelHolds k x e) := by
  constructor
  · intro h'
    constructor
    · intro hty
      have hx := h'.ends dst (by rw [hw.type_eq hd, if_pos rfl, hty])
      rwa [update_self] at hx
    · intro hty k hk
      have hx := h'.marks dst k (by rw [hw.endRel_eq hd, if_pos rfl, if_pos hty, hk])
      rwa [update_self] at hx
  · rintro ⟨hend, hmark⟩
    constructor
    · intro r hr
      rw [hw.type_eq hd] at hr
      split_ifs at hr with hrd
      · rw [hrd, update_self]
        exact hend hr
      · rw [update_of_ne hrd]
        exact h.ends r hr
    · intro r k hr
      rw [hw.endRel_eq hd] at hr
      split_ifs at hr with hrd hty
      · rw [hrd, update_self]
        exact hmark hty k hr
      · rw [update_of_ne hrd]
        exact h.marks r k hr

theorem bind_map_shift (po : Option PtrOffset) (c : Int) :
    (po.map (·.shift c)).bind (·.pktEndRel) = none := by
  cases po <;> rfl

theorem types_checkPtrBounds (s : State) (reg : Reg) : (checkPtrBounds s reg).types = s.types := by
  unfold checkPtrBounds
  dsimp only
  split_ifs
  · split
    · split_ifs <;> rfl
    · rfl
  · rfl

theorem domain_checkPtrBounds (s : State) (reg : Reg) :
    (checkPtrBounds s reg).domain = s.domain ∨
      (checkPtrBounds s reg).domain = s.domain.forget reg := by
  unfold checkPtrBounds
  dsimp only
  split_ifs
  · split
    · split_ifs
      · exact .inr rfl
      · exact .inl rfl
    · exact .inl rfl
  · exact .inl rfl

theorem updatePtrArithmeticType_ne (s : State) (dst : Reg) (src : Operand) (isAdd : Bool) :
    updatePtrArithmeticType s dst src isAdd ≠ .ptrToPacketEnd := by
  unfold updatePtrArithmeticType
  dsimp only
  split
  · split_ifs
    · split
      · split_ifs <;> simp
      · simp
    · simp
    · simp
  · split_ifs <;> simp
  · simp

theorem types_shiftPointer (s : State) (dst : Reg) (c : Int) :
    (shiftPointer s dst c).types = s.types := by
  unfold shiftPointer
  rw [types_checkPtrBounds]
  exact (Kept.setTnum _ dst _).types

theorem marks_shiftPointer (s : State) (hd : dst.isProgram = true) (c : Int) (r : Reg) :
    ((shiftPointer s dst c).domain.ptrOffset r).bind (·.pktEndRel) =
      if r = dst then none else (s.domain.ptrOffset r).bind (·.pktEndRel) := by
  unfold shiftPointer
  dsimp only
  generalize hm : State.setTnum _ dst Tnum.unknown = moved
  -- the tristate number is no part of the domain
  have hoff : ∀ r, moved.domain.ptrOffset r = (s.domain.applyAddImm dst c).ptrOffset r := by
    intro r
    rw [← hm]
    exact (Kept.setTnum _ dst _).offsets.offset r
  rcases domain_checkPtrBounds moved dst with h | h
  · rw [h, hoff, NumericDomain.ptrOffset_applyAddImm _ hd]
    split_ifs
    · exact bind_map_shift _ c
    · rfl
  · rw [h, NumericDomain.ptrOffset_forget _ hd, hoff, NumericDomain.ptrOffset_applyAddImm _ hd]
    split_ifs <;> rfl

theorem rewrites_movePointer {isAdd : Bool} (hd : dst.isProgram = true)
    (h : movePointer s dst src isAdd amount = some s') :
    ∃ ty, ty ≠ .ptrToPacketEnd ∧ Rewrites s s' dst ty none := by
  unfold movePointer at h
  generalize (if isAdd then amount else wrapI64 (-amount)) = c at h
  split_ifs at h
  cases h
  refine ⟨updatePtrArithmeticType (shiftPointer s dst c) dst src isAdd,
    updatePtrArithmeticType_ne _ dst src isAdd, ?_, marks_shiftPointer s hd c⟩
  rw [types_shiftPointer]

theorem rewrites_addPointer {src : Reg} (hd : dst.isProgram = true)
    (h : addPointer s dst src = some s') : Rewrites s s' dst (s.types.get src) none := by
  unfold addPointer at h
  dsimp only at h
  split_ifs at h
  cases h
  refine ⟨rfl, fun r => ?_⟩
  dsimp only [overwrite, ShiftTransfer.syncTnumToBounds]
  rw [(NumericDomain.sameOffsets_tnumBounds _ dst _).offset, (Kept.setTnum _ dst _).offsets.offset,
    NumericDomain.ptrOffset_assignRegOffset _ hd]
  split_ifs
  · exact bind_map_shift _ _
  · rfl

theorem rewrites_copyRegister (s : State) (hd : dst.isProgram = true) (src : Reg) :
    Rewrites s (copyRegister s dst src) dst (s.types.get src)
      ((s.domain.ptrOffset src).bind (·.pktEndRel)) := by
  refine ⟨rfl, fun r => ?_⟩
  show ((if dst = src then s.domain else s.domain.assignReg dst src).ptrOffset r).bind _ = _
  by_cases hs : dst = src
  · rw [if_pos hs]
    split_ifs with hr
    · rw [hr, hs]
    · rfl
  · rw [if_neg hs, NumericDomain.ptrOffset_assignReg _ hd]
    split_ifs <;> rfl

/-- On the side that leaves a mark, the mark says what the unsigned comparison
of the addresses says. -/
theorem relHolds_of_markOf (p e : BitVec 64) {left : Bool}
    (h : markOf (regionFact left op taken) = some k) :
    RelHolds k p e ↔ (CmpHolds .w64 (unsignedCmp op) (if left then p else e)
      (if left then e else p) ↔ taken = true) := by
  cases left <;> cases op <;> cases taken <;> simp only [regionFact, markOf, reduceCtorEq, if_true,
      if_false, Bool.false_eq_true, Option.some.injEq] at h <;> subst h <;>
    simp only [RelHolds, unsignedCmp, CmpHolds, readU, iff_true, iff_false, if_true, if_false,
      Bool.false_eq_true] <;>
    omega

theorem relHolds_newMark (h : EndsHold e s ρ) {left right r : Reg}
    (hm : newMark s left right op taken r = some k) :
    RelHolds k (ρ r) e ↔ (CmpHolds .w64 (unsignedCmp op) (ρ left) (ρ right) ↔ taken = true) := by
  obtain ⟨check, hc, hk⟩ := Option.bind_eq_some_iff.1 hm
  split_ifs at hk with hr
  subst hr
  unfold dataCheck at hc
  split_ifs at hc with h1 h2 h3
  · cases hc
    rw [h.ends right (by simpa [isPacketEnd] using h2)]
    exact relHolds_of_markOf _ _ hk
  · cases hc
    rw [h.ends left (by simpa [isPacketEnd] using h3.2)]
    exact relHolds_of_markOf _ _ hk

theorem endsHold_compare_iff (h : EndsHold e s ρ) (w : Width) (left : Reg) (op : CmpOp)
    (right : Reg) :
    EndsHold e (compareSide s w left op right (decide (CmpHolds w op (ρ left) (ρ right)))) ρ ↔
      MarksFaithfully s ρ w left op right := by
  unfold MarksFaithfully
  generalize htaken : decide (CmpHolds w op (ρ left) (ρ right)) = taken
  have hiff : CmpHolds w op (ρ left) (ρ right) ↔ taken = true := by
    rw [← htaken, decide_eq_true_iff]
  rw [hiff]
  constructor
  · rintro h' ⟨r, hr⟩
    obtain ⟨k, hk⟩ := Option.ne_none_iff_exists'.1 hr
    refine (relHolds_newMark h hk).1 (h'.marks r k ?_)
    rw [endRel_compareSide, hk, Option.some_or]
  · intro hf
    constructor
    · intro r hr
      rw [types_compareSide] at hr
      exact h.ends r hr
    · intro r k hr
      rw [endRel_compareSide] at hr
      rcases Option.or_eq_some_iff.1 hr with hk | ⟨-, hk⟩
      · exact (relHolds_newMark h hk).2 (hf ⟨r, by rw [hk]; exact Option.some_ne_none k⟩)
      · exact h.marks r k hk

theorem isProgram_of_writable (h : writable dst = true) : dst.isProgram = true := by
  simp only [writable, Bool.and_eq_true] at h
  exact h.1

theorem endsHold_movePointer {isAdd : Bool} (hd : dst.isProgram = true)
    (hm : movePointer s dst src isAdd amount = some s') (h : EndsHold e s ρ) (x : BitVec 64) :
    EndsHold e s' (update ρ dst x) := by
  obtain ⟨ty, hty, hw⟩ := rewrites_movePointer hd hm
  refine (hw.endsHold_iff hd h x).2 ⟨fun heq => absurd heq hty, fun _ k hk => ?_⟩
  cases hk

theorem isScalar_of_addAmount {r : Reg} (h : addAmount s (.reg r) = some amount) :
    (s.types.get r).isScalar = true := by
  unfold addAmount at h
  dsimp only at h
  split_ifs at h with hc
  exact hc.1

theorem endsHold_add_iff (hd : dst.isProgram = true) (hs : handleAdd s dst src = some s')
    (h : EndsHold e s ρ) :
    EndsHold e s' (exec ρ (.add dst src)) ↔ Faithful s ρ (.add dst src) := by
  unfold handleAdd at hs
  split_ifs at hs with hp
  · obtain ⟨amount, ha, hm⟩ := Option.bind_eq_some_iff.1 hs
    refine iff_of_true (endsHold_movePointer hd hm h _) ?_
    cases src with
    | imm c => trivial
    | reg r =>
      -- the added register is a scalar
      intro hend
      have hr := isScalar_of_addAmount ha
      rw [hend] at hr
      cases hr
  · cases src with
    | imm c => cases hs
    | reg r =>
      dsimp only at hs
      split_ifs at hs with hc
      rw [exec, (rewrites_addPointer hd hs).endsHold_iff hd h]
      constructor
      · rintro ⟨hend, -⟩ hr
        have hsum : ρ dst + ρ r = ρ r := (hend hr).trans (h.ends r hr).symm
        exact add_eq_right.1 hsum
      · intro hf
        refine ⟨fun hr => ?_, fun _ k hk => by cases hk⟩
        rw [hf hr, operandValue, h.ends r hr, zero_add]

theorem endsHold_copyRegister (h : EndsHold e s ρ) (hd : dst.isProgram = true) (src : Reg) :
    EndsHold e (copyRegister s dst src) (exec ρ (.mov dst src)) := by
  refine ((rewrites_copyRegister s hd src).endsHold_iff hd h _).2 ⟨h.ends src, fun hty k hk => ?_⟩
  exact h.marks src k (by rw [endRel, if_pos hty, hk])

theorem endsHold_step_iff {i : PacketInstr} (h : EndsHold e s ρ) (hs : step s ρ i = some s') :
    EndsHold e s' (exec ρ i) ↔ Faithful s ρ i := by
  cases i with
  | compare w left op right =>
    cases hs
    exact endsHold_compare_iff h w left op right
  | add dst src =>
    simp only [step] at hs
    split_ifs at hs with hw
    exact endsHold_add_iff (isProgram_of_writable hw) hs h
  | sub dst src =>
    simp only [step, handleSub] at hs
    split_ifs at hs with hw hp
    obtain ⟨amount, -, hm⟩ := Option.bind_eq_some_iff.1 hs
    exact iff_of_true (endsHold_movePointer (isProgram_of_writable hw) hm h _) trivial
  | mov dst src =>
    simp only [step] at hs
    split_ifs at hs with hw
    cases hs
    exact iff_of_true (endsHold_copyRegister h (isProgram_of_writable hw) src) trivial

theorem endsHold_run {is : List PacketInstr} {ρ' : Valuation} (h : EndsHold e s ρ)
    (hf : FaithfulRun is s ρ) (hr : run is s ρ = some (s', ρ')) : EndsHold e s' ρ' := by
  induction is generalizing s ρ with
  | nil =>
    cases hr
    exact h
  | cons i is ih =>
    obtain ⟨next, hn, hr⟩ := Option.bind_eq_some_iff.1 hr
    exact ih ((endsHold_step_iff h hn).2 hf.1) (hf.2 next hn) hr

end Steps

/-- After any faithful run from a state with true marks, a comparison of a
packet pointer with the packet end comes out as it is decided. -/
theorem packet_comparison_sound {e : BitVec 64} {s s' : State} {ρ ρ' : Valuation}
    {is : List PacketInstr} (h : EndsHold e s ρ) (hf : FaithfulRun is s ρ)
    (hr : run is s ρ = some (s', ρ')) {left right : Reg} {op : CmpOp} {b : Bool}
    (hb : pktPtrBranchTaken s' left op right = some b) :
    b = true ↔ CmpHolds .w64 op (ρ' left) (ρ' right) :=
  (endsHold_run h hf hr).decided hb

/-- A packet pointer in `r1`, the packet end in `r2` and the constant 32 in `r3`. -/
def checking : State :=
  { State.new (.interval
      (Interval.assignImm (Interval.bindToAnchor (Interval.bindToAnchor IntervalState.new .r1
        .anchorData) .r2 .anchorDataEnd) .r3 32)) 0 with
    types := ((TypeState.newNotInit.set .r1 .ptrToPacket).set .r2 .ptrToPacketEnd).set .r3
      .scalarValue }

def straddling : Valuation :=
  fun r => if r = .r1 then 0xFFFFFFF0 else if r = .r2 then 0x100000010 else 32

def behind : Valuation :=
  fun r => if r = .r1 then 0x1010 else if r = .r2 then 0x1000 else 32

theorem endsHold_checking (ρ : Valuation) : EndsHold (ρ .r2) checking ρ where
  ends r hr := by cases r <;> first | rfl | exact absurd hr (by decide)
  marks r rel hr := by cases r <;> cases hr

/-- A comparison of low halves leaves a false mark, and a packet end behind the
packet end is compared by a true one. -/
theorem packet_end_misjudged :
    (∃ s', run [.compare .w32 .r1 .ugt .r2] checking straddling = some (s', straddling) ∧
      EndsHold 0x100000010 checking straddling ∧
      pktPtrBranchTaken s' .r1 .ugt .r2 = some true ∧
      ¬ CmpHolds .w64 .ugt (straddling .r1) (straddling .r2)) ∧
    (∃ s' ρ', run [.compare .w64 .r1 .ugt .r2, .add .r3 (.reg .r2)] checking behind =
        some (s', ρ') ∧
      EndsHold 0x1000 checking behind ∧
      pktPtrBranchTaken s' .r1 .ugt .r3 = some true ∧
      ¬ CmpHolds .w64 .ugt (ρ' .r1) (ρ' .r3)) := by
  constructor
  · exact ⟨_, rfl, endsHold_checking straddling, by decide, by decide⟩
  · exact ⟨_, _, rfl, endsHold_checking behind, by decide, by decide⟩

/-- A copy of the pointer keeps the mark, and the comparison is decided rightly. -/
theorem copy_judged_behind :
    ∃ s' ρ', run [.compare .w64 .r1 .ugt .r2, .mov .r4 .r1] checking behind = some (s', ρ') ∧
      pktPtrBranchTaken s' .r4 .ugt .r2 = some true ∧
      (true = true ↔ CmpHolds .w64 .ugt (ρ' .r4) (ρ' .r2)) := by
  have hr : run [.compare .w64 .r1 .ugt .r2, .mov .r4 .r1] checking behind =
      some (copyRegister (compareSide checking .w64 .r1 .ugt .r2 true) .r4 .r1,
        exec behind (.mov .r4 .r1)) := rfl
  have hb : pktPtrBranchTaken (copyRegister (compareSide checking .w64 .r1 .ugt .r2 true) .r4 .r1)
      .r4 .ugt .r2 = some true := by decide
  refine ⟨_, _, hr, hb, packet_comparison_sound (endsHold_checking behind) ?_ hr hb⟩
  exact ⟨fun _ => Iff.rfl, fun s' _ => ⟨trivial, fun _ _ => trivial⟩⟩

end ZoneVerifier.PacketEnd
