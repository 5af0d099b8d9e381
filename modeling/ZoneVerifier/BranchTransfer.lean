import ZoneVerifier.CallAnnotations
import ZoneVerifier.Outcome
import ZoneVerifier.PacketRegion
import ZoneVerifier.TristateArith

/-!
# Branches

The successors of a conditional jump and of `may_goto`
(`analysis/transfer/branch/mod.rs`, `analysis/transfer/mod.rs`) behind the checks
of their operands. Each side of a comparison is refined by its outcome, passes
the new bounds to every register and slot that shares the id of the left
operand, and settles null pointers in the registers and in the slots of all
frames. A closed relation says at once what all of this leaves alone. The order
of the linked registers, that of a hash map, is the order of the registers here;
the path conditions and the test for unexplored backward jumps are left out.
-/

set_option autoImplicit false

namespace ZoneVerifier.BranchTransfer
open Word RegTypes Tristate Stack Machine Constraints NullCheck PacketRegion CallTransfer Widen
open Ast hiding Instr

section Transfer

def scalarIdOff (s : State) (r : Reg) : Option Int :=
  if r = .zero ∨ s.scalarIds r = none then none else s.scalarIdOffs r

/-- The bounds of the compared register, for a scalar at another offset from the same base. -/
def shiftedBounds (off leftOff lo hi : Int) (tnum : Tnum) : Int × Int × Tnum :=
  let delta := satI64 (off - leftOff)
  if delta = 0 then (lo, hi, tnum)
  else (satI64 (lo + delta), satI64 (hi + delta), tnum.add (Tnum.constant (BitVec.ofInt 64 delta)))

def fanoutReg (leftOff lo hi : Int) (tnum : Tnum) (s : State) (r : Reg) : State :=
  if s.types.get r ≠ .scalarValue then s
  else
    let (lo, hi, tnum) := shiftedBounds ((scalarIdOff s r).getD 0) leftOff lo hi tnum
    let (rLo, rHi) := s.domain.getInterval r
    if rHi < lo ∨ hi < rLo then s
    else
      let d := if rLo < lo then s.domain.assumeGeImm r lo else s.domain
      let s := { s with domain := if hi < rHi then d.assumeLeImm r hi else d }
      match (s.getTnum r).intersect tnum with
      | some t => s.setTnum r t
      | none => s

def fanoutSlot (id : Nat) (leftOff lo hi : Int) (tnum : Tnum) (slot : SpilledReg) : SpilledReg :=
  if slot.scalarId ≠ some id ∨ slot.regType ≠ .scalarValue then slot
  else
    let (lo, hi, tnum) := shiftedBounds (slot.scalarIdOff.getD 0) leftOff lo hi tnum
    let newMin := if slot.bounds.min < lo then lo else slot.bounds.min
    let newMax := if hi < slot.bounds.max then hi else slot.bounds.max
    if slot.bounds.max < lo ∨ hi < slot.bounds.min ∨ newMax < newMin then slot
    else
      { slot with
        bounds := { min := newMin, max := newMax }
        tnum := (slot.tnum.intersect tnum).getD slot.tnum }

def fanoutScalarBounds (s : State) (left : Reg) : State :=
  match s.scalarId left with
  | none => s
  | some id =>
    let linked := Reg.all.filter fun r => decide (s.scalarIds r = some id ∧ r ≠ left ∧ r ≠ .zero)
    let (lo, hi) := s.domain.getInterval left
    let leftOff := (scalarIdOff s left).getD 0
    let tnum := s.getTnum left
    mapStacks (linked.foldl (fanoutReg leftOff lo hi tnum) s) (fanoutSlot id leftOff lo hi tnum)

def constrainedSide (s : State) (w : Width) (left : Reg) (op : CmpOp) (taken : Bool) :
    Operand → State
  | .imm imm =>
    let sides := applyJmpConstraints s s left op w (.imm imm)
    if taken then sides.1 else sides.2
  | .reg right => compareSide s w left op right taken

def branchSide (s : State) (w : Width) (left : Reg) (op : CmpOp) (right : Operand) (target : Nat)
    (taken : Bool) : State :=
  { refineBranch (fanoutScalarBounds (constrainedSide s w left op taken right) left)
      (.ifCmp w left op right target) taken with
    pc := if taken then target else s.pc + 1 }

/-- A decided comparison has one successor; otherwise the consistent sides are kept. -/
def transferIf (s : State) (w : Width) (left : Reg) (op : CmpOp) (right : Operand)
    (target : Nat) : List State :=
  match Outcome.conditionOutcome s w left op right with
  | some outcome => [branchSide s w left op right target outcome]
  | none => ([false, true].map (branchSide s w left op right target)).filter fun t =>
      !t.domain.isInconsistent

/-- The side of `may_goto` that stays in the loop; `prev` is the visit before this one. -/
def stateFall (s : State) (prev : Option State) (precisePcs : Nat → Reg → Bool) (force : Bool) :
    State :=
  match prev with
  | some p => widenImpreciseScalars precisePcs force false p (nextPc s)
  | none => nextPc s

def transferMayGoto (s : State) (target : Nat) (prev : Option State)
    (precisePcs : Nat → Reg → Bool) (force : Bool) : List State :=
  if s.gotoBudget = 0 then [stateFall s prev precisePcs force]
  else
    let s := { s with gotoBudget := s.gotoBudget - 1 }
    [{ s with pc := target }, stateFall s prev precisePcs force]

end Transfer

section Closed
open Marks Annotations

/-- What a branch makes of a type: the type itself, one that is no pointer to allocated memory, or
the pointer that was null or not. -/
inductive Refined (ty : RegType) : RegType → Prop where
  | same : Refined ty ty
  | plain {ty' : RegType} (h : isAllocMem ty' = false) : Refined ty ty'
  | nonNull {id memSize : Nat} {refId dynptrId : Option Nat} {rdonly : Bool}
      (h : ty = .ptrToAllocMemOrNull id memSize refId dynptrId rdonly) :
      Refined ty (.ptrToAllocMem id memSize refId dynptrId rdonly)

/-- A relation that holds as long as types and frames stay, and over the refinements of types. -/
structure BranchClosed (R : State → State → Prop) : Prop where
  trans : ∀ {s t u}, R s t → R t u → R s u
  same : ∀ {s s' : State}, s'.types = s.types → s'.frames = s.frames → R s s'
  sets : ∀ s r ty, Refined (s.types.get r) ty → R s { s with types := s.types.set r ty }
  slots : ∀ s f, (∀ sp : SpilledReg, Annots.ofEntry (f sp) = Annots.ofEntry sp ∧
    Refined sp.regType (f sp).regType) → R s (mapStacks s f)

variable {R : State → State → Prop} (hR : BranchClosed R) (s : State)
include hR

theorem BranchClosed.refl : R s s := hR.same rfl rfl

theorem BranchClosed.foldl {f : State → Reg → State} (hf : ∀ s r, R s (f s r)) (rs : List Reg) :
    R s (rs.foldl f s) := by
  induction rs generalizing s with
  | nil => exact hR.refl s
  | cons r rs ih => exact hR.trans (hf s r) (ih _)

theorem BranchClosed.region : RegionClosed R where
  trans := hR.trans
  domain _ _ := hR.same rfl rfl
  slots s ty checkedId size := by
    refine hR.slots s _ fun sp => ?_
    unfold PacketRegion.widenSlot
    split
    · split_ifs <;> exact ⟨rfl, .same⟩
    · exact ⟨rfl, .same⟩

theorem closed_setTnum (r : Reg) (t : Tnum) : R s (s.setTnum r t) := by
  unfold State.setTnum
  split_ifs
  · exact hR.same rfl rfl
  · exact hR.refl s

section NullChecks
variable {f : Reg → RegType → Option RegType} {effect : Reg → State → State}
  {family : RegType → Option RegType}

theorem closed_retypeAll (hf : ∀ r ty ty', f r ty = some ty' → Refined ty ty')
    (he : ∀ r s, R s (effect r s)) : R s (retypeAll f effect s) := by
  refine hR.foldl s (fun s r => ?_) Reg.all
  unfold retypeAt
  split
  · next ty h => exact hR.trans (hR.sets s r ty (hf r _ ty h)) (he r _)
  · exact hR.refl s

theorem closed_retypeSlots (hf : ∀ ty ty', family ty = some ty' → Refined ty ty') :
    R s (retypeSlots family s) := by
  refine hR.slots s _ fun sp => ?_
  unfold retypeSlot
  split
  · next ty h => exact ⟨rfl, hf _ ty h⟩
  · exact ⟨rfl, .same⟩

theorem closed_assignNull (r : Reg) : R s (assignNull r s) :=
  hR.trans (t := { s with domain := s.domain.assignImm r 0 }) (hR.same rfl rfl)
    (closed_setTnum hR _ r _)

theorem closed_promoteById (hf : ∀ ty ty', family ty = some ty' → Refined ty ty')
    (he : ∀ r s, R s (effect r s)) (reg : Reg) : R s (promoteById family effect s reg) := by
  have hpick : ∀ id ty ty', pickId family id ty = some ty' → Refined ty ty' := by
    intro id ty ty' h
    unfold pickId at h
    split_ifs at h
    exact hf ty ty' h
  unfold promoteById
  split
  · exact hR.trans (closed_retypeAll hR s (fun _ => hpick _) he) (closed_retypeSlots hR _ (hpick _))
  · exact hR.refl s

theorem closed_maybePromoteMapVal (reg : Reg) : R s (maybePromoteMapVal s reg) := by
  have he : ∀ r s, R s (initMapValue r s) := fun _ _ => hR.same rfl rfl
  refine closed_promoteById hR s (fun ty ty' h => ?_) he reg
  cases ty with
  | ptrToMapValueOrNull id mapIdx mapUid =>
    cases h
    exact .plain rfl
  | _ => cases h

theorem closed_promotePass (left : Reg) : R s (promotePass s left) := by
  have hid : ∀ (_ : Reg) s, R s s := fun _ => hR.refl
  refine hR.trans (closed_maybePromoteMapVal hR s left) (hR.trans
    (closed_promoteById hR _ (fun ty ty' h => ?_) hid left)
    (closed_promoteById hR _ (fun ty ty' h => ?_) hid left))
  · cases ty with
    | ptrToBtfIdOrNull id typeName flags refId =>
      cases h
      exact .plain rfl
    | _ => cases h
  · cases ty with
    | ptrToAllocMemOrNull id memSize refId dynptrId rdonly =>
      cases h
      exact .nonNull rfl
    | _ => cases h

theorem closed_maybeDemoteOrNullToScalar (reg : Reg) :
    R s (maybeDemoteOrNullToScalar s reg) := by
  unfold maybeDemoteOrNullToScalar
  split
  · refine closed_retypeAll hR s (fun _ ty ty' h => ?_) (fun r s => closed_assignNull hR s r)
    unfold demote at h
    split_ifs at h
    cases h
    exact .plain rfl
  · exact hR.refl s

omit hR in
theorem plain_toNonNull {ty ty' : RegType} (h : toNonNull ty = some ty') : isAllocMem ty' = false := by
  cases ty <;> cases h <;> rfl

theorem closed_promoteAcquiredRef (reg : Reg) : R s (promoteAcquiredRef s reg) := by
  refine hR.trans (hR.trans ?_ (closed_retypeAll hR _ (fun r ty ty' h => ?_) fun _ => hR.refl))
    (closed_retypeSlots hR _ fun ty ty' h => ?_)
  · split
    · next ty h => exact hR.sets s reg ty (.plain (plain_toNonNull h))
    · exact hR.refl s
  · unfold promoteAcquired at h
    split_ifs at h
    exact .plain (plain_toNonNull h)
  · split_ifs at h
    cases h
    cases hn : toNonNull ty with
    | none => exact .plain rfl
    | some ty' => exact .plain (plain_toNonNull hn)

theorem closed_demoteAcquiredRef (reg : Reg) (refId : Option Nat) :
    R s (demoteAcquiredRef s reg refId) := by
  refine hR.trans (hR.trans (hR.trans ?_ (hR.sets _ reg .scalarValue (.plain rfl)))
    (closed_retypeAll hR _ (fun r ty ty' h => ?_) fun r s => closed_assignNull hR s r))
    (hR.slots _ _ fun sp => ?_)
  · split
    · exact hR.same rfl rfl
    · exact hR.refl s
  · unfold demoteAcquired at h
    split_ifs at h
    cases h
    exact .plain rfl
  · unfold nullSlot
    split_ifs
    · exact ⟨rfl, .plain rfl⟩
    · exact ⟨rfl, .same⟩

theorem closed_refineNull (left : Reg) (nonNull : Bool) : R s (refineNull s left nonNull) := by
  have hacquired : ∀ t, R t (maybeRefineAcquiredRef t left nonNull) := by
    intro t
    unfold maybeRefineAcquiredRef
    split
    · split_ifs
      · exact closed_promoteAcquiredRef hR t left
      · exact closed_demoteAcquiredRef hR t left _
    · exact hR.refl t
  unfold refineNull
  split_ifs
  · exact hR.trans (closed_promotePass hR s left) (hacquired _)
  · exact hR.trans (closed_maybeDemoteOrNullToScalar hR s left) (hacquired _)

theorem closed_jeqInferNotNull (left right : Reg) (eqBranch : Bool) :
    R s (jeqInferNotNull s left right eqBranch) := by
  have hnullable : ∀ reg ty, R s (promoteNullable s reg ty) := by
    intro reg ty
    unfold promoteNullable
    split
    · next ty' h => exact hR.sets s reg ty' (.plain (plain_toNonNull h))
    · exact hR.refl s
  unfold jeqInferNotNull
  dsimp only
  split_ifs
  · exact hR.refl s
  · exact closed_maybePromoteMapVal hR s right
  · exact closed_maybePromoteMapVal hR s left
  · exact hnullable right _
  · exact hnullable left _
  · exact hR.refl s

theorem closed_refineBranch (instr : Ast.Instr) (taken : Bool) : R s (refineBranch s instr taken) := by
  unfold refineBranch
  split
  · split
    · exact closed_jeqInferNotNull hR s _ _ _
    · exact closed_jeqInferNotNull hR s _ _ _
    · exact hR.refl s
  · split_ifs
    · exact closed_refineNull hR s _ _
    · exact hR.refl s
  · exact hR.refl s

end NullChecks

theorem closed_fanoutScalarBounds (left : Reg) : R s (fanoutScalarBounds s left) := by
  have hmeet : ∀ (t : State) d r tnum,
      R t (match (State.getTnum { t with domain := d } r).intersect tnum with
      | some u => State.setTnum { t with domain := d } r u
      | none => { t with domain := d }) := by
    intro t d r tnum
    have hd : R t { t with domain := d } := hR.same rfl rfl
    split
    · exact hR.trans hd (closed_setTnum hR _ r _)
    · exact hd
  unfold fanoutScalarBounds
  split
  · exact hR.refl s
  · refine hR.trans (hR.foldl s (fun t r => ?_) _) (hR.slots _ _ fun sp => ?_)
    · unfold fanoutReg
      dsimp only
      split_ifs
      iterate 2 exact hR.refl t
      all_goals exact hmeet t _ r _
    · unfold fanoutSlot
      dsimp only
      split_ifs <;> exact ⟨rfl, .same⟩

theorem closed_transferIf {s s' : State} {w : Width} {left : Reg} {op : CmpOp} {right : Operand}
    {target : Nat} (h : s' ∈ transferIf s w left op right target) : R s s' := by
  have hkept : ∀ (taken : Bool) (right : Operand),
      R s (if taken then (applyJmpConstraints s s left op w right).1
        else (applyJmpConstraints s s left op w right).2) := by
    intro taken right
    have hk := kept_side s w left op right taken
    exact hR.same hk.types hk.frames
  have hside : ∀ taken, R s (branchSide s w left op right target taken) := by
    intro taken
    have hconstrained : R s (constrainedSide s w left op taken right) := by
      cases right with
      | imm imm => exact hkept taken (.imm imm)
      | reg r => exact hR.trans (hkept taken (.reg r)) (closed_refinePacketBounds hR.region _ ..)
    refine hR.trans (hR.trans (hR.trans hconstrained (closed_fanoutScalarBounds hR _ left))
      (closed_refineBranch hR _ (.ifCmp w left op right target) taken)) ?_
    exact hR.same rfl rfl
  unfold transferIf at h
  split at h
  · rw [List.mem_singleton.1 h]
    exact hside _
  · obtain ⟨taken, _, rfl⟩ := List.mem_map.1 (List.mem_filter.1 h).1
    exact hside taken

theorem closed_transferMayGoto {s s' : State} {target : Nat} {prev : Option State}
    {precisePcs : Nat → Reg → Bool} {force : Bool}
    (hwiden : ∀ p t, R t (widenImpreciseScalars precisePcs force false p t))
    (h : s' ∈ transferMayGoto s target prev precisePcs force) : R s s' := by
  have hfall : ∀ t : State, t.types = s.types → t.frames = s.frames →
      R s (stateFall t prev precisePcs force) := by
    intro t ht hf
    unfold stateFall
    split
    · exact hR.trans (t := nextPc t) (hR.same ht hf) (hwiden _ _)
    · exact hR.same ht hf
  unfold transferMayGoto at h
  split_ifs at h
  · rw [List.mem_singleton.1 h]
    exact hfall s rfl rfl
  · rcases List.mem_cons.1 h with rfl | h
    · exact hR.same rfl rfl
    · rw [List.mem_singleton.1 h]
      exact hfall _ rfl rfl

end Closed

end ZoneVerifier.BranchTransfer
