import ZoneVerifier.Concrete
import ZoneVerifier.Machine

/-!
# Null checks

`refine_branch` (`analysis/transfer/branch/refinement.rs`) turns an or-null
pointer compared with zero into the pointer on one side of the branch and a
scalar on the other, with every register and slot that shares its id. It looks
at the operator only: `>=` counts as a null check whose taken side is not null.
A comparison of two registers promotes the or-null one on the equal side. The
symbolic anchor of a promoted map value is left out.
-/

set_option autoImplicit false

namespace ZoneVerifier.NullCheck
open Ast RegTypes Tristate Stack Machine Concrete

def toNonNull : RegType → Option RegType
  | .ptrToMapValueOrNull id mapIdx mapUid => some (.ptrToMapValue id (some 0) mapIdx mapUid false)
  | .ptrToSocketOrNull refId => some (.ptrToSocket refId)
  | .ptrToSockCommonOrNull refId => some (.ptrToSockCommon refId)
  | .ptrToTcpSockOrNull id => some (.ptrToTcpSock id)
  | .ptrToCpumaskOrNull refId => some (.ptrToCpumask refId)
  | .ptrToArenaOrNull refId memSize => some (.ptrToArena refId memSize)
  | .ptrToCgroupOrNull refId => some (.ptrToCgroup refId)
  | .ptrToTaskOrNull refId => some (.ptrToTask refId)
  | .ptrToOwnedKptrOrNull refId pointeeBtfId offset =>
    some (.ptrToOwnedKptr refId offset false pointeeBtfId)
  | .ptrToMapKptrOrNull pointeeBtfId refId flags offset =>
    some (.ptrToMapKptr pointeeBtfId refId flags offset)
  | .ptrToBtfIdOrNull _ typeName flags refId => some (.ptrToBtfId typeName flags refId)
  | _ => none

section Passes

def retypeAt (f : Reg → RegType → Option RegType) (effect : Reg → State → State) (s : State)
    (r : Reg) : State :=
  match f r (s.types.get r) with
  | some ty => effect r { s with types := s.types.set r ty }
  | none => s

/-- A loop over the registers that replaces the types `f` has a new type for. -/
def retypeAll (f : Reg → RegType → Option RegType) (effect : Reg → State → State) (s : State) :
    State :=
  Reg.all.foldl (retypeAt f effect) s

def retypeSlot (f : RegType → Option RegType) (slot : SpilledReg) : SpilledReg :=
  match f slot.regType with
  | some ty => { slot with regType := ty }
  | none => slot

def retypeSlots (f : RegType → Option RegType) (s : State) : State := mapStacks s (retypeSlot f)

def assignNull (r : Reg) (s : State) : State :=
  State.setTnum { s with domain := s.domain.assignImm r 0 } r (Tnum.constant 0)

def initMapValue (r : Reg) (s : State) : State :=
  { s with domain := s.domain.initMapValuePtr r }

def nullId : RegType → Option Nat
  | .ptrToMapValueOrNull id _ _ => some id
  | .ptrToBtfIdOrNull id _ _ _ => some id
  | .ptrToAllocMemOrNull id _ _ _ _ => some id
  | _ => none

def pickId (family : RegType → Option RegType) (targetId : Nat) (ty : RegType) : Option RegType :=
  if nullId ty = some targetId then family ty else none

/-- Promotes the or-null pointers of one family that share the id of `reg`. -/
def promoteById (family : RegType → Option RegType) (effect : Reg → State → State) (s : State)
    (reg : Reg) : State :=
  match nullId (s.types.get reg), family (s.types.get reg) with
  | some targetId, some _ =>
    retypeSlots (pickId family targetId) (retypeAll (fun _ => pickId family targetId) effect s)
  | _, _ => s

def mapValueOf : RegType → Option RegType
  | .ptrToMapValueOrNull id mapIdx mapUid => some (.ptrToMapValue id (some 0) mapIdx mapUid false)
  | _ => none

def maybePromoteMapVal (s : State) (reg : Reg) : State := promoteById mapValueOf initMapValue s reg

def btfIdOf : RegType → Option RegType
  | .ptrToBtfIdOrNull _ typeName flags refId => some (.ptrToBtfId typeName flags refId)
  | _ => none

def maybePromoteBtfId (s : State) (reg : Reg) : State := promoteById btfIdOf (fun _ s => s) s reg

def allocMemOf : RegType → Option RegType
  | .ptrToAllocMemOrNull id memSize refId dynptrId rdonly =>
    some (.ptrToAllocMem id memSize refId dynptrId rdonly)
  | _ => none

def maybePromoteMem (s : State) (reg : Reg) : State := promoteById allocMemOf (fun _ s => s) s reg

/-- The id of an or-null pointer that the demotion below looks at. -/
def demotedId : RegType → Option Nat
  | .ptrToMapValueOrNull id _ _ => some id
  | .ptrToBtfIdOrNull id _ _ none => some id
  | _ => none

def demote (targetId : Nat) (ty : RegType) : Option RegType :=
  if demotedId ty = some targetId then some .scalarValue else none

def maybeDemoteOrNullToScalar (s : State) (reg : Reg) : State :=
  match demotedId (s.types.get reg) with
  | some targetId => retypeAll (fun _ => demote targetId) assignNull s
  | none => s

def linked (id1 id2 : Option Nat) : Bool := id1.isSome && id1 == id2

def sameAcquiredPointer : RegType → RegType → Bool
  | .ptrToSocketOrNull id1, .ptrToSocketOrNull id2 => linked id1 id2
  | .ptrToSockCommonOrNull id1, .ptrToSockCommonOrNull id2 => linked id1 id2
  | .ptrToTcpSockOrNull id1, .ptrToTcpSockOrNull id2 => linked id1 id2
  | .ptrToCpumaskOrNull id1, .ptrToCpumaskOrNull id2 => linked id1 id2
  | .ptrToArenaOrNull id1 _, .ptrToArenaOrNull id2 _ => linked id1 id2
  | .ptrToCgroupOrNull id1, .ptrToCgroupOrNull id2 => linked id1 id2
  | .ptrToOwnedKptrOrNull id1 _ _, .ptrToOwnedKptrOrNull id2 _ _ => linked id1 id2
  | .ptrToTaskOrNull id1, .ptrToTaskOrNull id2 => linked id1 id2
  | .ptrToBtfIdOrNull _ _ _ id1, .ptrToBtfIdOrNull _ _ _ id2 => linked id1 id2
  | _, _ => false

/-- The reference of an or-null pointer that was acquired, or may have been. -/
def targetRefId : RegType → Option (Option Nat)
  | .ptrToSocketOrNull refId | .ptrToSockCommonOrNull refId | .ptrToTcpSockOrNull refId
  | .ptrToCpumaskOrNull refId | .ptrToArenaOrNull refId _ | .ptrToCgroupOrNull refId
  | .ptrToOwnedKptrOrNull refId _ _ | .ptrToTaskOrNull refId
  | .ptrToMapKptrOrNull _ refId _ _ => some refId
  | .ptrToBtfIdOrNull _ _ _ (some rid) => some (some rid)
  | _ => none

def promoteAcquired (reg : Reg) (regType : RegType) (r : Reg) (ty : RegType) : Option RegType :=
  if r ≠ reg ∧ sameAcquiredPointer regType ty = true then toNonNull ty else none

def demoteAcquired (reg : Reg) (regType : RegType) (r : Reg) (ty : RegType) : Option RegType :=
  if r ≠ reg ∧ sameAcquiredPointer regType ty = true then some .scalarValue else none

def nullSlot (regType : RegType) (slot : SpilledReg) : SpilledReg :=
  if sameAcquiredPointer regType slot.regType = true then
    { slot with regType := .scalarValue, bounds := { min := 0, max := 0 }, tnum := Tnum.constant 0 }
  else slot

def nullSlots (regType : RegType) (s : State) : State := mapStacks s (nullSlot regType)

def promoteAcquiredRef (s : State) (reg : Reg) : State :=
  let regType := s.types.get reg
  let s := match toNonNull regType with
    | some promoted => { s with types := s.types.set reg promoted }
    | none => s
  retypeSlots (fun ty => if sameAcquiredPointer regType ty then
      some ((toNonNull ty).getD .scalarValue) else none)
    (retypeAll (promoteAcquired reg regType) (fun _ s => s) s)

/-- The reference of a null pointer needs no release. -/
def demoteAcquiredRef (s : State) (reg : Reg) (refId : Option Nat) : State :=
  let regType := s.types.get reg
  let s := match refId with
    | some id => s.releaseRef id
    | none => s
  nullSlots regType
    (retypeAll (demoteAcquired reg regType) assignNull
      { s with types := s.types.set reg .scalarValue })

def maybeRefineAcquiredRef (s : State) (reg : Reg) (isNonNull : Bool) : State :=
  match targetRefId (s.types.get reg) with
  | some refId => if isNonNull then promoteAcquiredRef s reg else demoteAcquiredRef s reg refId
  | none => s

end Passes

section Branch

def isNonNull (op : CmpOp) (branchTaken : Bool) : Bool :=
  match op with
  | .ne => branchTaken
  | .eq => !branchTaken
  | .sge | .uge | .sgt | .ugt => branchTaken
  | .sle | .ule | .slt | .ult => !branchTaken
  | .test => branchTaken

def promotePass (s : State) (left : Reg) : State :=
  maybePromoteMem (maybePromoteBtfId (maybePromoteMapVal s left) left) left

def refineNull (s : State) (left : Reg) (nonNull : Bool) : State :=
  let s := if nonNull then promotePass s left else maybeDemoteOrNullToScalar s left
  maybeRefineAcquiredRef s left nonNull

def isNonNullAcquired : RegType → Bool
  | .ptrToSocket _ | .ptrToSockCommon _ | .ptrToTcpSock _ | .ptrToCpumask _ | .ptrToArena _ _
  | .ptrToCgroup _ | .ptrToOwnedKptr .. => true
  | _ => false

def isNullableMatching : RegType → RegType → Bool
  | .ptrToSocket _, .ptrToSocketOrNull _ => true
  | .ptrToSockCommon _, .ptrToSockCommonOrNull _ => true
  | .ptrToTcpSock _, .ptrToTcpSockOrNull _ => true
  | .ptrToCpumask _, .ptrToCpumaskOrNull _ => true
  | .ptrToArena _ _, .ptrToArenaOrNull _ _ => true
  | .ptrToCgroup _, .ptrToCgroupOrNull _ => true
  | .ptrToOwnedKptr .., .ptrToOwnedKptrOrNull .. => true
  | _, _ => false

def promoteNullable (s : State) (reg : Reg) (ty : RegType) : State :=
  match toNonNull ty with
  | some nonNull => { s with types := s.types.set reg nonNull }
  | none => s

def isMapValue : RegType → Bool
  | .ptrToMapValue .. => true
  | _ => false

def isMapValueOrNull : RegType → Bool
  | .ptrToMapValueOrNull .. => true
  | _ => false

def jeqInferNotNull (s : State) (left right : Reg) (eqBranch : Bool) : State :=
  let lty := s.types.get left
  let rty := s.types.get right
  if eqBranch = false then s
  else if isMapValue lty = true ∧ isMapValueOrNull rty = true then maybePromoteMapVal s right
  else if isMapValue rty = true ∧ isMapValueOrNull lty = true then maybePromoteMapVal s left
  else if isNonNullAcquired lty = true ∧ isNullableMatching lty rty = true then
    promoteNullable s right rty
  else if isNonNullAcquired rty = true ∧ isNullableMatching rty lty = true then
    promoteNullable s left lty
  else s

def refineBranch (s : State) (instr : Instr) (branchTaken : Bool) : State :=
  match instr with
  | .ifCmp _ left op (.reg right) _ =>
    match op with
    | .eq => jeqInferNotNull s left right branchTaken
    | .ne => jeqInferNotNull s left right (!branchTaken)
    | _ => s
  | .ifCmp _ left op (.imm imm) _ => if imm = 0 then refineNull s left (isNonNull op branchTaken) else s
  | _ => s

end Branch

def isOrNull : RegType → Bool
  | .ptrToAllocMemOrNull .. => true
  | ty => (toNonNull ty).isSome

def samePointer (a b : RegType) : Bool := linked (nullId a) (nullId b) || sameAcquiredPointer a b

/-- Registers that share the id of a pointer are null together. -/
def SharedNull (t : TypeState) (ρ : Valuation) : Prop :=
  ∀ r q, samePointer (t.get r) (t.get q) = true → (ρ r = 0 ↔ ρ q = 0)

def Promoted (t t' : TypeState) (r : Reg) : Prop :=
  isOrNull (t.get r) = true ∧ isOrNull (t'.get r) = false ∧ t'.get r ≠ .scalarValue

def Demoted (t t' : TypeState) (r : Reg) : Prop :=
  isOrNull (t.get r) = true ∧ t'.get r = .scalarValue

section Types
variable {f : Reg → RegType → Option RegType} {effect : Reg → State → State} {s : State}
variable {nonNull : Bool} {id : Nat} {left : Reg} {ty a b : RegType}

theorem get_of_toIndex {r : Reg} (t : TypeState) (h : r.toIndex = none) : t.get r = .notInit := by
  unfold TypeState.get
  rw [h]

section
variable (he : ∀ r s, (effect r s).types = s.types)
include he

theorem get_retypeAt (s : State) (q r : Reg) :
    (retypeAt f effect s q).types.get r =
      if r = q ∧ q.toIndex ≠ none then (f q (s.types.get q)).getD (s.types.get q)
      else s.types.get r := by
  unfold retypeAt
  cases hf : f q (s.types.get q) with
  | none =>
    split_ifs with hr
    · rw [hr.1]
      rfl
    · rfl
  | some ty =>
    rw [he, TypeState.get_set]
    rfl

/-- Every register is visited once, with the type it had before the loop. -/
theorem get_foldl_retypeAt {rs : List Reg}
    (hrs : rs.Nodup) (s : State) (r : Reg) :
    (rs.foldl (retypeAt f effect) s).types.get r =
      if r ∈ rs ∧ r.toIndex ≠ none then (f r (s.types.get r)).getD (s.types.get r)
      else s.types.get r := by
  induction rs generalizing s with
  | nil => rw [if_neg (by simp)]; rfl
  | cons q qs ih =>
    obtain ⟨hq, hqs⟩ := List.nodup_cons.1 hrs
    rw [List.foldl_cons, ih hqs]
    by_cases hr : r = q
    · subst hr
      rw [if_neg (by tauto), get_retypeAt he]
      simp
    · have hkeep : (retypeAt f effect s q).types.get r = s.types.get r := by
        rw [get_retypeAt he, if_neg (by tauto)]
      rw [hkeep]
      simp [hr]

theorem get_retypeAll (hf : ∀ r, f r .notInit = none)
    (s : State) (r : Reg) : (retypeAll f effect s).types.get r =
      (f r (s.types.get r)).getD (s.types.get r) := by
  rw [retypeAll, get_foldl_retypeAt he (by decide)]
  by_cases hr : r.toIndex = none
  · rw [if_neg (by tauto), get_of_toIndex _ hr, hf]
    rfl
  · rw [if_pos ⟨by cases r <;> first | decide | exact absurd rfl hr, hr⟩]

end

theorem types_assignNull (r : Reg) (s : State) : (assignNull r s).types = s.types := by
  unfold assignNull State.setTnum
  split_ifs <;> rfl

/-- What a side of the branch makes of an or-null pointer. -/
def Outcome (nonNull : Bool) (ty : RegType) : Prop :=
  if nonNull then isOrNull ty = false ∧ ty ≠ .scalarValue else ty = .scalarValue

/-- A pass that found the compared register: the register is no or-null pointer
any more, and whatever else changed was the same pointer. -/
structure Changes (nonNull : Bool) (left : Reg) (t t' : TypeState) : Prop where
  done : isOrNull (t'.get left) = false
  each : ∀ r, t'.get r = t.get r ∨
    (r = left ∨ samePointer (t.get left) (t.get r) = true) ∧ isOrNull (t.get r) = true ∧
      Outcome nonNull (t'.get r)

/-- What every pass does to the types: nothing, or its own kind of change. -/
def Refines (nonNull : Bool) (left : Reg) (t t' : TypeState) : Prop :=
  t' = t ∨ isOrNull (t.get left) = true ∧ Changes nonNull left t t'

theorem Outcome.done (h : Outcome nonNull ty) : isOrNull ty = false := by
  cases nonNull with
  | true => exact h.1
  | false =>
    have hs : ty = .scalarValue := h
    rw [hs]
    rfl

theorem Refines.trans {t t' t'' : TypeState} (h : Refines nonNull left t t')
    (h' : Refines nonNull left t' t'') :
    Refines nonNull left t t'' := by
  rcases h with rfl | ⟨hor, hc⟩
  · exact h'
  · rcases h' with rfl | ⟨hor', -⟩
    · exact Or.inr ⟨hor, hc⟩
    · rw [hc.done] at hor'
      cases hor'

theorem changes_retypeAll (he : ∀ r s, (effect r s).types = s.types)
    (hnone : ∀ r, f r .notInit = none)
    (hf : ∀ r ty ty', f r ty = some ty' → isOrNull ty = true ∧ Outcome nonNull ty' ∧
      samePointer (s.types.get left) ty = true)
    (hleft : (f left (s.types.get left)).isSome = true) :
    Changes nonNull left s.types (retypeAll f effect s).types := by
  obtain ⟨ty, hty⟩ := Option.isSome_iff_exists.1 hleft
  constructor
  · rw [get_retypeAll he hnone, hty]
    exact (hf _ _ _ hty).2.1.done
  · intro r
    rw [get_retypeAll he hnone]
    cases hr : f r (s.types.get r) with
    | none => exact Or.inl rfl
    | some ty =>
      obtain ⟨hor, hout, hsame⟩ := hf _ _ _ hr
      exact Or.inr ⟨Or.inr hsame, hor, hout⟩

theorem changes_of_pick {pick : RegType → Option RegType} (he : ∀ r s, (effect r s).types = s.types)
    (hpick : ∀ ty ty', pick ty = some ty' → nullId ty = some id ∧ isOrNull ty = true ∧ Outcome nonNull ty')
    (hid : nullId (s.types.get left) = some id) (hleft : (pick (s.types.get left)).isSome = true) :
    Changes nonNull left s.types (retypeAll (fun _ => pick) effect s).types := by
  refine changes_retypeAll he (fun r => ?_) (fun r ty ty' hty => ?_) hleft
  · by_contra hne
    obtain ⟨ty', hty'⟩ := Option.ne_none_iff_exists'.1 hne
    exact absurd (hpick _ _ hty').2.1 (by decide)
  · obtain ⟨hty, hor, hout⟩ := hpick _ _ hty
    exact ⟨hor, hout, by simp [samePointer, linked, hid, hty]⟩

theorem refines_promoteById {family : RegType → Option RegType}
    (he : ∀ r s, (effect r s).types = s.types)
    (hf : ∀ ty ty', family ty = some ty' → isOrNull ty = true ∧ Outcome true ty') (s : State)
    (left : Reg) : Refines true left s.types (promoteById family effect s left).types := by
  unfold promoteById
  split
  case h_1 id ty hid hty =>
    refine Or.inr ⟨(hf _ _ hty).1, changes_of_pick he (fun ty ty' hpick => ?_) hid ?_⟩
    · unfold pickId at hpick
      split_ifs at hpick with hn
      exact ⟨hn, hf _ _ hpick⟩
    · rw [pickId, if_pos hid, hty]
      rfl
  case h_2 => exact Or.inl rfl

theorem demotedId_spec (h : demotedId ty = some id) : nullId ty = some id ∧ isOrNull ty = true := by
  unfold demotedId at h
  split at h
  case h_1 => exact ⟨h, rfl⟩
  case h_2 => exact ⟨h, rfl⟩
  case h_3 => cases h

theorem demote_spec {ty' : RegType} (h : demote id ty = some ty') :
    nullId ty = some id ∧ isOrNull ty = true ∧ Outcome false ty' := by
  unfold demote at h
  split_ifs at h with hid
  obtain ⟨hn, hor⟩ := demotedId_spec hid
  exact ⟨hn, hor, (Option.some.inj h).symm⟩

theorem refines_maybeDemoteOrNullToScalar (s : State) (left : Reg) :
    Refines false left s.types (maybeDemoteOrNullToScalar s left).types := by
  unfold maybeDemoteOrNullToScalar
  split
  case h_1 id hid =>
    obtain ⟨hn, hor⟩ := demotedId_spec hid
    have hleft : (demote id (s.types.get left)).isSome = true := by simp [demote, hid]
    exact Or.inr ⟨hor, changes_of_pick types_assignNull (fun _ _ => demote_spec) hn hleft⟩
  case h_2 => exact Or.inl rfl

theorem toNonNull_spec {ty' : RegType} (h : toNonNull ty = some ty') :
    isOrNull ty = true ∧ Outcome true ty' := by
  cases ty <;> cases h <;> exact ⟨rfl, rfl, by simp⟩

theorem sameAcquired_isOrNull (h : sameAcquiredPointer a b = true) : isOrNull b = true := by
  unfold sameAcquiredPointer at h
  split at h <;> first | rfl | cases h

theorem targetRefId_isOrNull {refId : Option Nat} (h : targetRefId ty = some refId) :
    (toNonNull ty).isSome = true ∧ isOrNull ty = true := by
  unfold targetRefId at h
  split at h <;> first | exact ⟨rfl, rfl⟩ | cases h

theorem changes_acquired {t : TypeState} (ty : RegType) (he : ∀ r s, (effect r s).types = s.types)
    (hs : s.types = t.set left ty) (hor : isOrNull (t.get left) = true) (hout : Outcome nonNull ty)
    (hleft : ∀ ty', f left ty' = none)
    (hf : ∀ r ty ty', f r ty = some ty' → isOrNull ty = true ∧ Outcome nonNull ty' ∧
      samePointer (t.get left) ty = true) :
    Changes nonNull left t (retypeAll f effect s).types := by
  have hindex : left.toIndex ≠ none := by
    intro hi
    rw [get_of_toIndex _ hi] at hor
    cases hor
  have hnone (r : Reg) : f r .notInit = none := by
    by_contra hne
    obtain ⟨ty', hty'⟩ := Option.ne_none_iff_exists'.1 hne
    exact absurd (hf _ _ _ hty').1 (by decide)
  have hget (r : Reg) : s.types.get r = if r = left then ty else t.get r := by
    rw [hs, TypeState.get_set]
    simp only [hindex, ne_eq, not_false_eq_true, and_true]
  constructor
  · rw [get_retypeAll he hnone, hleft, hget, if_pos rfl]
    exact hout.done
  · intro r
    rw [get_retypeAll he hnone, hget]
    by_cases hr : r = left
    · rw [if_pos hr, hr, hleft]
      exact Or.inr ⟨Or.inl rfl, hor, hout⟩
    · rw [if_neg hr]
      cases hfr : f r (t.get r) with
      | none => exact Or.inl rfl
      | some ty' =>
        obtain ⟨hor', hout', hsame⟩ := hf _ _ _ hfr
        exact Or.inr ⟨Or.inr hsame, hor', hout'⟩

theorem samePointer_of_acquired (h : sameAcquiredPointer a b = true) : samePointer a b = true := by
  rw [samePointer, h, Bool.or_true]

theorem refines_maybeRefineAcquiredRef (s : State) (left : Reg) (nonNull : Bool) :
    Refines nonNull left s.types (maybeRefineAcquiredRef s left nonNull).types := by
  unfold maybeRefineAcquiredRef
  split
  case h_2 => exact Or.inl rfl
  case h_1 refId href =>
    obtain ⟨hsome, hor⟩ := targetRefId_isOrNull href
    refine Or.inr ⟨hor, ?_⟩
    cases nonNull with
    | true =>
      obtain ⟨ty, hty⟩ := Option.isSome_iff_exists.1 hsome
      rw [if_pos rfl, promoteAcquiredRef, hty]
      refine changes_acquired ty (fun _ _ => rfl) rfl hor (toNonNull_spec hty).2
        (fun ty' => if_neg fun h => h.1 rfl) fun r ty ty' hf => ?_
      unfold promoteAcquired at hf
      split_ifs at hf with hc
      obtain ⟨hor', hout⟩ := toNonNull_spec hf
      exact ⟨hor', hout, samePointer_of_acquired hc.2⟩
    | false =>
      rw [if_neg (by decide)]
      refine changes_acquired .scalarValue types_assignNull ?_ hor rfl
        (fun ty' => if_neg fun h => h.1 rfl) fun r ty ty' hf => ?_
      · cases refId <;> rfl
      · unfold demoteAcquired at hf
        split_ifs at hf with hc
        exact ⟨sameAcquired_isOrNull hc.2, (Option.some.inj hf).symm, samePointer_of_acquired hc.2⟩

theorem refines_refineNull (s : State) (left : Reg) (nonNull : Bool) :
    Refines nonNull left s.types (refineNull s left nonNull).types := by
  refine Refines.trans ?_ (refines_maybeRefineAcquiredRef _ left nonNull)
  cases nonNull with
  | true =>
    have he (r : Reg) (s : State) : (initMapValue r s).types = s.types := rfl
    refine Refines.trans (Refines.trans (refines_promoteById he (fun ty ty' h => ?_) s left)
      (refines_promoteById (fun _ _ => rfl) (fun ty ty' h => ?_) _ left))
      (refines_promoteById (fun _ _ => rfl) (fun ty ty' h => ?_) _ left)
    all_goals
      cases ty <;> cases h
      exact ⟨rfl, rfl, by simp⟩
  | false => exact refines_maybeDemoteOrNullToScalar s left

end Types

section Sides
variable {w : Width} {op : CmpOp} {branchTaken : Bool}

/-- The sides of a comparison with zero that tell whether the word is zero in the
way the refinement reads them, or that no word takes. -/
def decides (w : Width) (op : CmpOp) (branchTaken : Bool) : Bool :=
  match op, branchTaken with
  | .eq, true | .ne, false | .ugt, false | .ule, true => w = .w64
  | .eq, false | .ne, true | .ugt, true | .ule, false => true
  | .sgt, true | .sle, false => true
  | .uge, false | .ult, true | .test, true => true
  | _, _ => false

theorem ne_zero_of_decides (h : decides w op branchTaken = true)
    (hn : isNonNull op branchTaken = true) : ¬ (CmpHolds w op 0 0 ↔ branchTaken = true) := by
  cases w <;> cases op <;> cases branchTaken <;>
    first | (cases h; done) | (cases hn; done) | decide

theorem eq_zero_of_decides {v : BitVec 64} (h : decides w op branchTaken = true)
    (hn : isNonNull op branchTaken = false) (hv : CmpHolds w op v 0 ↔ branchTaken = true) :
    v = 0 := by
  have hzero : readU w 0 = 0 := by cases w <;> rfl
  have hle : readU w v = 0 := by
    cases op <;> cases branchTaken <;> first | (cases hn; done) | (cases h; done) | skip
    all_goals
      simp only [CmpHolds, hzero, iff_true, Bool.false_eq_true, iff_false] at hv
      omega
  cases w with
  | w64 => exact BitVec.eq_of_toNat_eq hle
  | w32 =>
    -- The sides that a 32-bit comparison decides here are never taken.
    cases op <;> cases branchTaken <;> first | (cases hn; done) | (cases h; done) | skip
    all_goals
      simp only [CmpHolds, hzero, iff_true, Bool.false_eq_true, iff_false] at hv
      omega

theorem decides_iff : decides w op branchTaken = true ↔
    ∀ v, (CmpHolds w op v 0 ↔ branchTaken = true) → (isNonNull op branchTaken = true ↔ v ≠ 0) := by
  constructor
  · intro h v hv
    constructor
    · rintro hn rfl
      exact ne_zero_of_decides h hn hv
    · intro hne
      by_contra hn
      exact hne (eq_zero_of_decides h (Bool.eq_false_iff.2 hn) hv)
  · intro h
    have h0 := h 0
    have hhigh := h (2^32)
    have hneg := h (-1)
    revert h0 hhigh hneg
    cases w <;> cases op <;> cases branchTaken <;> decide

end Sides

section Soundness
variable {s : State} {ρ : Valuation} {t t' : TypeState} {nonNull : Bool} {left r : Reg}

theorem Refines.null_iff (h : Refines nonNull left t t') (hshare : SharedNull t ρ)
    (hr : t'.get r ≠ t.get r) :
    (ρ r = 0 ↔ ρ left = 0) ∧ Outcome nonNull (t'.get r) := by
  rcases h with rfl | ⟨-, hc⟩
  · exact absurd rfl hr
  · rcases hc.each r with heq | ⟨rfl | hsame, -, hout⟩
    · exact absurd heq hr
    · exact ⟨Iff.rfl, hout⟩
    · exact ⟨(hshare left r hsame).symm, hout⟩

theorem Promoted.changed (h : Promoted t t' r) : t'.get r ≠ t.get r := by
  intro heq
  have hor := h.1
  rw [← heq, h.2.1] at hor
  cases hor

theorem Demoted.changed (h : Demoted t t' r) : t'.get r ≠ t.get r := by
  intro heq
  have hor := h.1
  rw [← heq, h.2] at hor
  cases hor

theorem refineNull_sound (hshare : SharedNull s.types ρ) (hside : nonNull = true ↔ ρ left ≠ 0) :
    (Promoted s.types (refineNull s left nonNull).types r → ρ r ≠ 0) ∧
      (Demoted s.types (refineNull s left nonNull).types r → ρ r = 0) := by
  have href := refines_refineNull s left nonNull
  constructor
  · intro hp h0
    obtain ⟨hiff, hout⟩ := href.null_iff hshare hp.changed
    cases nonNull with
    | true => exact hside.1 rfl (hiff.1 h0)
    | false => exact hp.2.2 hout
  · intro hd
    obtain ⟨hiff, hout⟩ := href.null_iff hshare hd.changed
    cases nonNull with
    | true => exact absurd hd.2 hout.2
    | false => exact hiff.2 (not_not.1 fun hne => absurd (hside.2 hne) (by decide))

def lookedUp : State :=
  { State.new (.interval Interval.IntervalState.new) 0 with
    types := TypeState.newNotInit.set .r0 (.ptrToMapValueOrNull 1 0 none) }

def inR0 (v : BitVec 64) : Valuation := fun r => if r = .r0 then v else 0

theorem sharedNull_lookedUp (v : BitVec 64) : SharedNull lookedUp.types (inR0 v) := by
  intro r q h
  have hr : r = .r0 := by
    cases r <;> first | rfl | (cases q <;> cases h)
  have hq : q = .r0 := by
    subst hr
    cases q <;> first | rfl | cases h
  rw [hr, hq]

theorem promoted_lookedUp :
    Promoted lookedUp.types (refineNull lookedUp .r0 true).types .r0 := by
  have hty : (refineNull lookedUp .r0 true).types.get .r0 =
      .ptrToMapValue 1 (some 0) 0 none false := rfl
  exact ⟨rfl, by rw [hty]; rfl, by rw [hty]; simp⟩

theorem demoted_lookedUp : Demoted lookedUp.types (refineNull lookedUp .r0 false).types .r0 :=
  ⟨rfl, rfl⟩

/-- A comparison with zero is refined soundly in every state exactly on the sides
that decide it. -/
theorem refineBranch_zero_sound_iff (w : Width) (op : CmpOp) (branchTaken : Bool) :
    (∀ (s : State) (ρ : Valuation) (left : Reg) (target : Nat), SharedNull s.types ρ →
      (CmpHolds w op (ρ left) 0 ↔ branchTaken = true) → ∀ r,
        (Promoted s.types
          (refineBranch s (.ifCmp w left op (.imm 0) target) branchTaken).types r → ρ r ≠ 0) ∧
        (Demoted s.types
          (refineBranch s (.ifCmp w left op (.imm 0) target) branchTaken).types r → ρ r = 0)) ↔
      decides w op branchTaken = true := by
  rw [decides_iff]
  constructor
  · intro h v hv
    obtain ⟨hp, hd⟩ := h lookedUp (inR0 v) .r0 0 (sharedNull_lookedUp v) hv .r0
    change Promoted _ (refineNull lookedUp .r0 (isNonNull op branchTaken)).types .r0 → v ≠ 0 at hp
    change Demoted _ (refineNull lookedUp .r0 (isNonNull op branchTaken)).types .r0 → v = 0 at hd
    cases hn : isNonNull op branchTaken with
    | true =>
      rw [hn] at hp
      exact iff_of_true rfl (hp promoted_lookedUp)
    | false =>
      rw [hn] at hd
      exact iff_of_false (by decide) (not_not.2 (hd demoted_lookedUp))
  · intro h s ρ left target hshare hside r
    exact refineNull_sound hshare (h (ρ left) hside)

/-- `if r0 >= 0` is taken by a null pointer, which is then dereferenced as a map
value; `if r0 s< 0` is taken by a kernel address, which is then the scalar
zero. -/
theorem unchecked_pointers_refined :
    (SharedNull lookedUp.types (inR0 0) ∧ CmpHolds .w64 .uge (inR0 0 .r0) 0 ∧
      Promoted lookedUp.types
        (refineBranch lookedUp (.ifCmp .w64 .r0 .uge (.imm 0) 5) true).types .r0) ∧
    (SharedNull lookedUp.types (inR0 0xFFFF888000000000) ∧
      CmpHolds .w64 .slt (inR0 0xFFFF888000000000 .r0) 0 ∧
      Demoted lookedUp.types
        (refineBranch lookedUp (.ifCmp .w64 .r0 .slt (.imm 0) 5) true).types .r0) :=
  ⟨⟨sharedNull_lookedUp _, by decide, promoted_lookedUp⟩,
    sharedNull_lookedUp _, by decide, demoted_lookedUp⟩

end Soundness

end ZoneVerifier.NullCheck
