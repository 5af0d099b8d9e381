import ZoneVerifier.BtfLayout

/-!
# Which special fields the search finds

The search never finds more special structs than the layout has, and it finds
all of them exactly where the layout is regular. A lock in a nested struct and
the locks of an array of arrays are the ones it misses.
-/

set_option autoImplicit false

namespace ZoneVerifier.Btf

variable {id : UInt32} {ty var : BtfType}

section Count
variable {btf : BtfContext}

/-- No more was found than there is, and all of it only if `P` holds. -/
def Found {α β : Type} (found : List α) (all : List β) (P : Prop) : Prop :=
  found.length ≤ all.length ∧ (found.length = all.length → P)

section Found
variable {α β γ : Type} {P Q : Prop} {found : List β} {all : List γ}

theorem Found.imp (h : Found found all P) (hpq : P → Q) : Found found all Q :=
  ⟨h.1, fun hlen => hpq (h.2 hlen)⟩

theorem found_nil (h : all = [] → P) : Found ([] : List β) all P :=
  ⟨Nat.zero_le _, fun hlen => h (List.length_eq_zero_iff.1 hlen.symm)⟩

theorem found_flatMap {l : List α} {f : α → List β} {g : α → List γ} {P : α → Prop}
    (h : ∀ x ∈ l, Found (f x) (g x) (P x)) : Found (l.flatMap f) (l.flatMap g) (∀ x ∈ l, P x) := by
  induction l with
  | nil => exact ⟨le_rfl, fun _ => nofun⟩
  | cons x l ih =>
    obtain ⟨hle, heq⟩ := ih fun y hy => h y (List.mem_cons_of_mem x hy)
    obtain ⟨hx, hpx⟩ := h x List.mem_cons_self
    rw [Found, List.flatMap_cons, List.flatMap_cons, List.length_append, List.length_append]
    exact ⟨by omega, fun hsum => List.forall_mem_cons.2 ⟨hpx (by omega), heq (by omega)⟩⟩

theorem forall_of_zipIdx {l : List α} {P : α → Prop} (h : ∀ x ∈ l.zipIdx, P x.1) :
    ∀ x ∈ l, P x := by
  rw [← List.zipIdx_map_fst 0 l]
  exact List.forall_mem_map.2 h

theorem found_occFrom {n base : Nat} :
    Found found (occFrom btf 16 n id base) P ↔ Found found (occFrom btf 16 n id 0) P := by
  rw [Found, Found, length_occFrom]

theorem forall_get {p : BtfType → Prop} (h : btf.get id = some ty) :
    (∀ ty', btf.get id = some ty' → p ty') ↔ p ty := by
  rw [h]
  exact ⟨fun hall => hall ty rfl, fun hty _ heq => Option.some.inj heq ▸ hty⟩

theorem forall_get_none {p : BtfType → Prop} (h : btf.get id = none) :
    ∀ ty, btf.get id = some ty → p ty := by
  rw [h]
  exact nofun

end Found

variable (hchains : ShortChains btf) (hnamed : Named btf)
include hchains hnamed

omit hchains in
theorem regularAt_of_nil {n : Nat} (h : occFrom btf 16 n id 0 = []) :
    RegularAt btf n id := by
  induction n generalizing id with
  | zero => trivial
  | succ n ih =>
    intro ty hget
    rw [occFrom_of_get hget, List.append_eq_nil_iff] at h
    obtain ⟨hself, hparts⟩ := h
    rw [RegularType]
    by_cases hk : (specialKind btf ty).isSome = true
    · rw [if_pos hk]
      exact ⟨hnamed.struct _ ty hget hk, hparts⟩
    · rw [if_neg hk]
      rw [partsWith] at hparts
      by_cases harr : ty.kind = btfKindArray
      · rw [if_pos harr] at hparts ⊢
        intro arr hhead
        by_cases hzero : arr.offset = 0
        · exact Or.inl hzero
        · have hpos : 0 < arr.offset.toNat := by
            have hne : arr.offset.toNat ≠ 0 := fun he => hzero (UInt32.toNat_inj.1 he)
            omega
          rw [hhead] at hparts
          have hnil := List.flatMap_eq_nil_iff.1 hparts 0 (List.mem_range.2 hpos)
          rw [occFrom_nil_iff] at hnil
          exact Or.inr ⟨ih hnil, Or.inl hnil⟩
      · rw [if_neg harr] at hparts ⊢
        intro c hc
        rw [children, if_neg harr] at hc
        by_cases hstruct : ty.kind = btfKindStruct ∨ ty.kind = btfKindUnion
        · rw [if_pos hstruct] at hparts hc
          obtain ⟨m, hm, rfl⟩ := List.mem_map.1 hc
          have hnil := List.flatMap_eq_nil_iff.1 hparts m hm
          rw [occFrom_nil_iff] at hnil
          exact ih hnil
        · rw [if_neg hstruct] at hc
          cases hc

section Parts
variable {n : Nat} (ih : ∀ id base inherited, Found (collectSpecialFieldsAt btf n id base inherited)
  (occFrom btf 16 n id 0) (RegularAt btf n id))
include ih

omit hchains ih in
theorem stride_of_ne_zero {elemTy : BtfType}
    (h : btf.get (peelModifiers btf id) = some elemTy) (hne : elemTy.sizeOrType ≠ 0) :
    occFrom btf 16 n id 0 = [] ∨ elemTy.sizeOrType.toNat = sizeFrom btf 16 n id := by
  cases n with
  | zero => exact Or.inl rfl
  | succ n =>
    right
    have harr : elemTy.kind ≠ btfKindArray := fun harr => hne (hnamed.array _ elemTy h harr)
    rw [sizeFrom, show btf.get (peel btf 16 id) = some elemTy from h]
    simp only [sizeWith, if_neg harr]

theorem found_elementFields (arr : BtfMember) (base : UInt32) (inherited : Option ContainsInfo)
    (d : Nat) :
    Found (elementFields btf (fun id b => collectSpecialFieldsAt btf n id b inherited) arr base)
      ((List.range arr.offset.toNat).flatMap fun i =>
        occFrom btf 16 n arr.typeId (d + i * sizeFrom btf 16 n arr.typeId))
      (arr.offset = 0 ∨ RegularAt btf n arr.typeId ∧ (occFrom btf 16 n arr.typeId 0 = [] ∨
        ∃ elemTy, btf.get (peelModifiers btf arr.typeId) = some elemTy ∧
          elemTy.sizeOrType ≠ 0 ∧ elemTy.sizeOrType.toNat = sizeFrom btf 16 n arr.typeId)) := by
  rw [elementFields]
  by_cases hzero : arr.offset = 0
  · cases btf.get (peelModifiers btf arr.typeId) <;> simp only [hzero, or_true, if_true] <;>
      exact found_nil fun _ => Or.inl trivial
  have hfirst : 0 ∈ List.range arr.offset.toNat :=
    List.mem_range.2 (Nat.pos_of_ne_zero fun he => hzero (UInt32.toNat_inj.1 he))
  -- an array that is not walked must have nothing in its elements
  have hskipped : Found ([] : List SpecialField) ((List.range arr.offset.toNat).flatMap fun i =>
      occFrom btf 16 n arr.typeId (d + i * sizeFrom btf 16 n arr.typeId))
      (RegularAt btf n arr.typeId ∧ occFrom btf 16 n arr.typeId 0 = []) := by
    refine found_nil fun hnil => ?_
    have hnil := (occFrom_nil_iff n _ _).1 (List.flatMap_eq_nil_iff.1 hnil 0 hfirst)
    exact ⟨regularAt_of_nil hnamed hnil, hnil⟩
  cases helem : btf.get (peelModifiers btf arr.typeId) with
  | none => exact hskipped.imp fun h => Or.inr ⟨h.1, Or.inl h.2⟩
  | some elemTy =>
    by_cases hsize : elemTy.sizeOrType = 0
    · simp only [hsize, true_or, if_true]
      exact hskipped.imp fun h => Or.inr ⟨h.1, Or.inl h.2⟩
    · simp only [hsize, hzero, or_self, if_false]
      refine (found_flatMap (P := fun _ => RegularAt btf n arr.typeId) fun i _ => ?_).imp
        fun hall => Or.inr ⟨hall 0 hfirst, ?_⟩
      · rw [found_occFrom, ← occFrom_peel hchains, ← regularAt_peel hchains]
        exact ih _ _ _
      · rcases stride_of_ne_zero hnamed helem hsize with hnil | hstride
        · exact Or.inl hnil
        · exact Or.inr ⟨elemTy, rfl, hsize, hstride⟩

theorem found_partFields (hk : specialKind btf ty = none) (resolvedId : UInt32)
    (base : UInt32) (inherited : Option ContainsInfo) :
    Found (partFields btf (collectSpecialFieldsAt btf n) resolvedId ty base inherited)
      (partsWith (occFrom btf 16 n) (sizeFrom btf 16 n) ty 0)
      (RegularType btf n (RegularAt btf n) ty) := by
  have hplain : ¬ (specialKind btf ty).isSome = true := by simp [hk]
  rw [partFields, partsWith, RegularType, if_neg hplain]
  by_cases harr : ty.kind = btfKindArray
  · rw [if_pos harr, if_pos harr, if_pos harr]
    cases hhead : ty.members.head? with
    | none => exact found_nil fun _ => by simp
    | some arr =>
      refine (found_elementFields hchains hnamed ih arr base inherited 0).imp fun h arr' harr' => ?_
      cases harr'
      exact h
  · rw [if_neg harr, if_neg harr, if_neg harr, children, if_neg harr]
    by_cases hstruct : ty.kind = btfKindStruct ∨ ty.kind = btfKindUnion
    · rw [if_pos hstruct, if_pos hstruct, if_pos hstruct, ← flatMap_zipIdx fun m : BtfMember =>
        occFrom btf 16 n m.typeId (0 + m.offset.toNat / 8)]
      refine Found.imp (P := ∀ m ∈ ty.members.zipIdx, RegularAt btf n m.1.typeId) ?_ fun hall =>
        List.forall_mem_map.2 (forall_of_zipIdx hall)
      exact found_flatMap fun m _ => found_occFrom.2 (ih _ _ _)
    · rw [if_neg hstruct, if_neg hstruct, if_neg hstruct]
      exact found_nil fun _ => by simp

end Parts

/-- The walk never finds more than there is, and all of it on regular types only. -/
theorem found_collect (n : Nat) (id base : UInt32) (inherited : Option ContainsInfo) :
    Found (collectSpecialFieldsAt btf n id base inherited) (occFrom btf 16 n id 0)
      (RegularAt btf n id) := by
  induction n generalizing id base inherited with
  | zero => exact found_nil fun _ => trivial
  | succ n ih =>
    rw [RegularAt]
    cases hget : btf.get (peelModifiers btf id) with
    | none =>
      rw [collect_of_get_none hget]
      exact found_nil fun _ => by simp
    | some ty =>
      rw [occFrom_of_get hget, ← hget, forall_get hget]
      cases hk : specialKind btf ty with
      | some kind =>
        have hs := hnamed.struct _ ty hget (by rw [hk]; rfl)
        rw [collect_of_special hget hk, selfOccurrence_of_some hk hs, RegularType,
          if_pos (by rw [hk]; rfl)]
        exact ⟨by simp, fun hlen => ⟨hs, by simpa using hlen⟩⟩
      | none =>
        rw [collect_of_plain hget hk, selfOccurrence_of_none hk, List.nil_append]
        exact found_partFields hchains hnamed ih hk _ base inherited

end Count

section Search
variable {btf : BtfContext} {m : BtfMember} {ty : BtfType} {t : UInt32}

def memberFields (btf : BtfContext) (t : UInt32) (ty : BtfType) (m : BtfMember × Nat) :
    List SpecialField :=
  if ty.kind = btfKindDatasec then variableFields btf m.1 else (memberField btf t m).toList

theorem findSpecialFieldsUncached_eq (h : btf.get t = some ty) :
    findSpecialFieldsUncached btf t = ty.members.zipIdx.flatMap (memberFields btf t ty) := by
  have hfields : memberFields btf t ty = fun m =>
      if ty.kind = btfKindDatasec then variableFields btf m.1
      else (memberField btf t m).toList := rfl
  simp only [findSpecialFieldsUncached, h, hfields]
  by_cases hd : ty.kind = btfKindDatasec
  · simp only [if_pos hd, flatMap_zipIdx]
  · simp only [if_neg hd, List.filterMap_eq_flatMap_toList]

def memberOcc (btf : BtfContext) (ty : BtfType) (m : BtfMember) : List Occurrence :=
  (rootsOf btf ty m).flatMap fun r => occFrom btf 16 9 r.1 r.2

theorem flatMap_roots (ty : BtfType) :
    ((roots btf ty).flatMap fun r => occFrom btf 16 9 r.1 r.2) =
      ty.members.zipIdx.flatMap fun m => memberOcc btf ty m.1 := by
  rw [flatMap_zipIdx, roots, List.flatMap_assoc]
  rfl

def RegularIn (btf : BtfContext) (ty : BtfType) (m : BtfMember) : Prop :=
  if ty.kind = btfKindDatasec then RegularVariable btf m else RegularMember btf m

theorem peelModifiers_of_get (h : btf.get id = some ty) (hs : ty.kind = btfKindStruct) :
    peelModifiers btf id = id := by
  refine peel_of_not_modifier fun ty' hty' => ?_
  rw [h, Option.some.injEq] at hty'
  rw [← hty', hs]
  rfl

theorem peelModifiers_of_get_none (h : btf.get id = none) :
    peelModifiers btf id = id :=
  peel_of_not_modifier fun ty hty => by rw [h] at hty; cases hty

theorem memberOcc_of_struct (hd : ty.kind ≠ btfKindDatasec) (m : BtfMember) :
    memberOcc btf ty m = occFrom btf 16 9 m.typeId (m.offset.toNat / 8) := by
  rw [memberOcc, rootsOf, if_neg hd, List.flatMap_singleton]

theorem memberField_of_get_none {m : BtfMember × Nat} (h : btf.get m.1.typeId = none) :
    memberField btf t m = none := by
  rw [memberField, h]
  rfl

theorem memberField_of_plain {m : BtfMember × Nat} (h : btf.get m.1.typeId = some ty)
    (hk : specialKind btf ty = none) :
    memberField btf t m = none := by
  rw [memberField, h]
  show (specialKind btf ty).bind _ = none
  rw [hk, Option.bind_none]

theorem memberField_of_special {m : BtfMember × Nat} {kind : SpecialFieldKind}
    (h : btf.get m.1.typeId = some ty) (hk : specialKind btf ty = some kind) :
    memberField btf t m = some { kind := kind, offset := m.1.offset / 8, size := ty.sizeOrType
                                 contains := memberContains btf t m.2 } := by
  rw [memberField, h]
  show (specialKind btf ty).bind _ = _
  rw [hk]
  rfl

theorem occFrom_of_special {kind : SpecialFieldKind} (h : btf.get m.typeId = some ty)
    (hk : specialKind btf ty = some kind) (hs : ty.kind = btfKindStruct) (base : Nat) :
    occFrom btf 16 9 m.typeId base =
      { kind := kind, offset := base, size := ty.sizeOrType.toNat } ::
        partsWith (occFrom btf 16 8) (sizeFrom btf 16 8) ty base := by
  have hpeel : btf.get (peelModifiers btf m.typeId) = some ty := by
    rw [peelModifiers_of_get h hs, h]
  rw [occFrom_of_get hpeel, selfOccurrence_of_some hk hs, List.singleton_append]

theorem toNat_div_eight (off : UInt32) : (off / 8).toNat = off.toNat / 8 := by simp

theorem map_memberField {m : BtfMember × Nat} (h : RegularMember btf m.1) :
    (memberField btf t m).toList.map SpecialField.occurrence =
      (occFrom btf 16 9 m.1.typeId (m.1.offset.toNat / 8)).map Occurrence.wrap := by
  cases hget : btf.get m.1.typeId with
  | none =>
    rw [memberField_of_get_none hget, occFrom_eq_nil]
    · rfl
    · rw [peelModifiers_of_get_none hget, hget]
  | some ty =>
    have hreg := h ty hget
    cases hk : specialKind btf ty with
    | none =>
      rw [if_neg (by simp [hk])] at hreg
      rw [memberField_of_plain hget hk, (occFrom_nil_iff _ _ _).2 hreg]
      rfl
    | some kind =>
      rw [if_pos (by rw [hk]; rfl)] at hreg
      have hlt := m.1.offset.toNat_lt
      have hmod : m.1.offset.toNat / 8 % 2^32 = m.1.offset.toNat / 8 := Nat.mod_eq_of_lt (by omega)
      rw [memberField_of_special hget hk, occFrom_of_special hget hk hreg.1,
        (partsWith_nil_iff 8 ty _).2 hreg.2]
      simp only [Option.toList_some, List.map_cons, List.map_nil, SpecialField.occurrence,
        Occurrence.wrap, hmod, toNat_div_eight]

theorem variableFields_of_var {name : String} (h : btf.get m.typeId = some var)
    (hv : var.kind = btfKindVar) (hname : btf.strings var.nameOff = some name) :
    ∃ contains, variableFields btf m =
      collectSpecialFieldsAt btf 9 var.sizeOrType m.offset contains := by
  have hinfo : varInfo btf m.typeId = some (name, var.sizeOrType) := by
    rw [varInfo, h]
    show (if _ then _ else _) = _
    rw [if_neg (not_not.2 hv), hname]
    rfl
  rw [variableFields, hinfo]
  exact ⟨_, rfl⟩

theorem variableFields_eq_nil
    (h : ∀ var, btf.get m.typeId = some var → var.kind = btfKindVar → btf.strings var.nameOff = none) :
    variableFields btf m = [] := by
  have hinfo : varInfo btf m.typeId = none := by
    rw [varInfo]
    cases hget : btf.get m.typeId with
    | none => rfl
    | some var =>
      show (if _ then _ else _) = none
      by_cases hv : var.kind = btfKindVar
      · rw [if_neg (not_not.2 hv), h var hget hv]
        rfl
      · rw [if_pos hv]
  rw [variableFields, hinfo]

theorem memberOcc_of_var (hd : ty.kind = btfKindDatasec)
    (h : btf.get m.typeId = some var) (hv : var.kind = btfKindVar) :
    memberOcc btf ty m = occFrom btf 16 9 var.sizeOrType m.offset.toNat := by
  simp only [memberOcc, rootsOf, if_pos hd, h, if_pos hv, List.flatMap_singleton]

theorem memberOcc_eq_nil (hd : ty.kind = btfKindDatasec)
    (h : ∀ var, btf.get m.typeId = some var → var.kind ≠ btfKindVar) :
    memberOcc btf ty m = [] := by
  rw [memberOcc, rootsOf, if_pos hd]
  cases hget : btf.get m.typeId with
  | none => rfl
  | some var =>
    simp only [if_neg (h var hget)]
    rfl

variable (hchains : ShortChains btf)
include hchains

theorem map_variableFields (hd : ty.kind = btfKindDatasec) (h : RegularVariable btf m) :
    (variableFields btf m).map SpecialField.occurrence =
      (memberOcc btf ty m).map Occurrence.wrap := by
  by_cases hvar : ∃ var, btf.get m.typeId = some var ∧ var.kind = btfKindVar
  · obtain ⟨var, hget, hv⟩ := hvar
    have hreg := h var hget hv
    rw [memberOcc_of_var hd hget hv]
    cases hname : btf.strings var.nameOff with
    | some name =>
      rw [if_pos (by rw [hname]; rfl)] at hreg
      obtain ⟨contains, hfields⟩ := variableFields_of_var hget hv hname
      have hmap := map_collect hchains hreg m.offset.toNat contains
      rw [UInt32.ofNat_toNat] at hmap
      rw [hfields, hmap]
    | none =>
      rw [if_neg (by simp [hname])] at hreg
      rw [variableFields_eq_nil, (occFrom_nil_iff _ _ _).2 hreg]
      · rfl
      · intro var' hvar' _
        rw [hget, Option.some.injEq] at hvar'
        rw [← hvar', hname]
  · have hnone : ∀ var, btf.get m.typeId = some var → var.kind ≠ btfKindVar :=
      fun var hget hv => hvar ⟨var, hget, hv⟩
    rw [memberOcc_eq_nil hd hnone, variableFields_eq_nil fun var hget hv => absurd hv (hnone var hget)]
    rfl

theorem map_memberFields {m : BtfMember × Nat} (h : RegularIn btf ty m.1) :
    (memberFields btf t ty m).map SpecialField.occurrence =
      (memberOcc btf ty m.1).map Occurrence.wrap := by
  rw [RegularIn] at h
  rw [memberFields]
  by_cases hd : ty.kind = btfKindDatasec
  · rw [if_pos hd] at h ⊢
    exact map_variableFields hchains hd h
  · rw [if_neg hd] at h ⊢
    rw [memberOcc_of_struct hd]
    exact map_memberField h

variable (hnamed : Named btf)
include hnamed

omit hchains in
theorem found_memberField (m : BtfMember × Nat) (base : Nat) :
    Found (memberField btf t m).toList (occFrom btf 16 9 m.1.typeId base) (RegularMember btf m.1) := by
  cases hget : btf.get m.1.typeId with
  | none =>
    rw [memberField_of_get_none hget]
    exact found_nil fun _ => forall_get_none hget
  | some ty =>
    rw [RegularMember, forall_get hget]
    cases hk : specialKind btf ty with
    | none =>
      rw [memberField_of_plain hget hk, if_neg (by simp)]
      exact found_nil (occFrom_nil_iff _ _ _).1
    | some kind =>
      have hs := hnamed.struct _ ty hget (by rw [hk]; rfl)
      rw [memberField_of_special hget hk, occFrom_of_special hget hk hs, if_pos Option.isSome_some,
        ← partsWith_nil_iff 8 ty base]
      exact ⟨by simp, fun hlen => ⟨hs, by simpa using hlen⟩⟩

theorem found_variableFields (hd : ty.kind = btfKindDatasec) (m : BtfMember) :
    Found (variableFields btf m) (memberOcc btf ty m) (RegularVariable btf m) := by
  by_cases hvar : ∃ var, btf.get m.typeId = some var ∧ var.kind = btfKindVar
  · obtain ⟨var, hget, hv⟩ := hvar
    rw [memberOcc_of_var hd hget hv, RegularVariable, forall_get hget, found_occFrom]
    cases hname : btf.strings var.nameOff with
    | some name =>
      obtain ⟨contains, hfields⟩ := variableFields_of_var hget hv hname
      rw [hfields]
      exact (found_collect hchains hnamed 9 _ m.offset contains).imp fun h _ => h
    | none =>
      rw [variableFields_eq_nil ((forall_get hget).2 fun _ => hname)]
      exact found_nil fun h _ => h
  · have hnone : ∀ var, btf.get m.typeId = some var → var.kind ≠ btfKindVar :=
      fun var hget hv => hvar ⟨var, hget, hv⟩
    rw [variableFields_eq_nil fun var hget hv => absurd hv (hnone var hget)]
    exact found_nil fun _ var hget hv => absurd hv (hnone var hget)

theorem found_memberFields (t : UInt32) (ty : BtfType) (m : BtfMember × Nat) :
    Found (memberFields btf t ty m) (memberOcc btf ty m.1) (RegularIn btf ty m.1) := by
  rw [memberFields, RegularIn]
  by_cases hd : ty.kind = btfKindDatasec
  · rw [if_pos hd, if_pos hd]
    exact found_variableFields hchains hnamed hd m.1
  · rw [if_neg hd, if_neg hd, memberOcc_of_struct hd]
    exact found_memberField hnamed m _

end Search

theorem map_wrap_eq {os : List Occurrence} (h : ∀ o ∈ os, o.offset < 2^32) :
    os.map Occurrence.wrap = os := by
  refine (List.map_congr_left fun o ho => ?_).trans (List.map_id os)
  simp only [Occurrence.wrap, Nat.mod_eq_of_lt (h o ho), id]

/-- In a struct or a data section nested at most eight levels deep, the search
finds exactly the special structs of the layout where the layout is regular.
Where the recognised names are struct names, it does so nowhere else. -/
theorem complete_iff_regular {btf : BtfContext} {t : UInt32} (hchains : ShortChains btf)
    (hdepth : ∀ ty, btf.get t = some ty → ∀ r ∈ roots btf ty, Shallow btf 8 r.1) :
    (Regular btf t → Complete btf t) ∧ (Named btf → (Complete btf t ↔ Regular btf t)) := by
  have hlayout : ∀ ty, btf.get t = some ty → ∀ hops n, 16 ≤ hops → 9 ≤ n →
      ((roots btf ty).flatMap fun r => occFrom btf hops n r.1 r.2) =
        (roots btf ty).flatMap fun r => occFrom btf 16 9 r.1 r.2 := by
    intro ty hget hops n hhops hn
    refine List.flatMap_congr fun r hr => ?_
    rw [(layout_hops hchains hhops n).2,
      (layout_levels (hdepth ty hget r hr) (Nat.lt_of_succ_le hn) (by decide : 8 < 9)).2]
  have hcomplete : Regular btf t → Complete btf t := by
    intro hreg ty ids hops n hget hhops hn
    obtain ⟨hmem, hoff⟩ := hreg ty hget
    rw [hlayout ty hget hops n hhops hn, findSpecialFields_cacheAfter,
      findSpecialFieldsUncached_eq hget]
    have hwrap : ((roots btf ty).flatMap fun r => occFrom btf 16 9 r.1 r.2).map Occurrence.wrap =
        (roots btf ty).flatMap fun r => occFrom btf 16 9 r.1 r.2 := by
      refine map_wrap_eq fun o ho => ?_
      obtain ⟨r, hr, ho⟩ := List.mem_flatMap.1 ho
      exact hoff r hr o ho
    refine List.Perm.of_eq ?_
    rw [← hwrap, flatMap_roots, List.map_flatMap, List.map_flatMap]
    exact List.flatMap_congr fun m hm =>
      map_memberFields hchains (hmem m.1 (List.fst_mem_of_mem_zipIdx hm))
  refine ⟨hcomplete, fun hnamed => ⟨fun h ty hget => ?_, hcomplete⟩⟩
  have hperm := h ty [] 16 9 hget le_rfl le_rfl
  rw [findSpecialFields_cacheAfter, findSpecialFieldsUncached_eq hget] at hperm
  constructor
  · have hlen := hperm.length_eq
    rw [List.length_map, flatMap_roots] at hlen
    have hall := (found_flatMap fun m _ => found_memberFields hchains hnamed t ty m).2 hlen
    exact forall_of_zipIdx hall
  · intro r hr o ho
    have hmem := hperm.mem_iff.2 (List.mem_flatMap.2 ⟨r, hr, ho⟩)
    obtain ⟨f, -, rfl⟩ := List.mem_map.1 hmem
    exact f.offset.toNat_lt

/-- A lock, a struct with a lock at offset 4, a struct with that struct at offset
8, an array of two locks, an array of two such arrays, a variable of that type
and its data section. -/
def lockTypes : BtfContext where
  types :=
    [{ id := 1, nameOff := 1, info := 0x04000000, sizeOrType := 4, members := [] },
      { id := 2, nameOff := 0, info := 0x04000000, sizeOrType := 8, members := [⟨0, 1, 32⟩] },
      { id := 3, nameOff := 0, info := 0x04000000, sizeOrType := 16, members := [⟨0, 2, 64⟩] },
      { id := 4, nameOff := 0, info := 0x03000000, sizeOrType := 0, members := [⟨0, 1, 2⟩] },
      { id := 5, nameOff := 0, info := 0x03000000, sizeOrType := 0, members := [⟨0, 4, 2⟩] },
      { id := 6, nameOff := 2, info := 0x0e000000, sizeOrType := 5, members := [] },
      { id := 7, nameOff := 3, info := 0x0f000000, sizeOrType := 16, members := [⟨16, 6, 0⟩] }]
  strings := fun off => if off = 1 then some "bpf_spin_lock" else if off = 2 then some "locks"
    else if off = 3 then some ".bss" else none
  declTags := []

theorem get_mem {btf : BtfContext} (h : btf.get id = some ty) :
    ty ∈ btf.types := List.mem_of_find?_eq_some h

theorem shortChains_lockTypes : ShortChains lockTypes := by
  have hplain : ∀ ty ∈ lockTypes.types, isModifier ty.kind = false := by decide
  exact fun id ty h => hplain ty (get_mem h)

theorem named_lockTypes : Named lockTypes where
  struct := by
    have hall : ∀ ty ∈ lockTypes.types, (specialKind lockTypes ty).isSome = true →
        ty.kind = btfKindStruct := by decide
    exact fun id ty h => hall ty (get_mem h)
  array := by
    have hall : ∀ ty ∈ lockTypes.types, ty.kind = btfKindArray → ty.sizeOrType = 0 := by decide
    exact fun id ty h => hall ty (get_mem h)

theorem shallow_succ {btf : BtfContext} {n : Nat}
    (h : btf.get (peelModifiers btf id) = some ty) (hc : ∀ c ∈ children ty, Shallow btf n c) :
    Shallow btf (n + 1) id := by
  intro ty' hty'
  rw [h, Option.some.injEq] at hty'
  exact hty' ▸ hc

theorem shallow_lock (n : Nat) : Shallow lockTypes (n + 1) 1 :=
  shallow_succ (rfl : lockTypes.get (peelModifiers lockTypes 1) = some _) fun _ hc => nomatch hc

theorem shallow_struct (n : Nat) : Shallow lockTypes (n + 2) 2 := by
  refine shallow_succ (rfl : lockTypes.get (peelModifiers lockTypes 2) = some _) fun c hc => ?_
  rw [List.mem_singleton.1 hc]
  exact shallow_lock n

theorem shallow_array (n : Nat) : Shallow lockTypes (n + 3) 5 := by
  refine shallow_succ (rfl : lockTypes.get (peelModifiers lockTypes 5) = some _) fun c hc => ?_
  rw [List.mem_singleton.1 hc]
  refine shallow_succ (rfl : lockTypes.get (peelModifiers lockTypes 4) = some _) fun c hc => ?_
  rw [List.mem_singleton.1 hc]
  exact shallow_lock n

/-- A lock in a nested struct and the locks in an array of arrays are not found. -/
theorem nested_locks_missed : ShortChains lockTypes ∧ Shallow lockTypes 8 2 ∧
    Shallow lockTypes 8 5 ∧ (findSpecialFields lockTypes (cacheAfter lockTypes []) 3).1 = [] ∧
    (findSpecialFields lockTypes (cacheAfter lockTypes []) 7).1 = [] ∧
    ¬ Complete lockTypes 3 ∧ ¬ Complete lockTypes 7 := by
  have hthree : (findSpecialFields lockTypes (cacheAfter lockTypes []) 3).1 = [] := by decide
  have hseven : (findSpecialFields lockTypes (cacheAfter lockTypes []) 7).1 = [] := by decide
  refine ⟨shortChains_lockTypes, shallow_struct 6, shallow_array 5, hthree, hseven, fun h => ?_,
    fun h => ?_⟩
  · have hperm := h _ [] 16 9 (rfl : lockTypes.get 3 = some _) le_rfl le_rfl
    exact absurd hperm.length_eq (by decide)
  · have hperm := h _ [] 16 9 (rfl : lockTypes.get 7 = some _) le_rfl le_rfl
    exact absurd hperm.length_eq (by decide)

theorem regular_direct_lock : Regular lockTypes 2 := by
  intro ty hget
  cases hget
  refine ⟨fun m hm => ?_, by decide⟩
  rw [List.mem_singleton.1 hm, if_neg (by decide)]
  intro ty hty
  cases hty
  rw [if_pos (by decide)]
  decide

/-- A lock that is a direct member is found. -/
theorem direct_lock_found :
    Complete lockTypes 2 ∧ (Complete lockTypes 2 ↔ Regular lockTypes 2) := by
  have hdepth : ∀ ty, lockTypes.get 2 = some ty → ∀ r ∈ roots lockTypes ty,
      Shallow lockTypes 8 r.1 := by
    intro ty hget r hr
    cases hget
    rw [List.mem_singleton.1 hr]
    exact shallow_lock 7
  obtain ⟨hsound, hiff⟩ := complete_iff_regular shortChains_lockTypes hdepth
  exact ⟨hsound regular_direct_lock, hiff named_lockTypes⟩

end ZoneVerifier.Btf
