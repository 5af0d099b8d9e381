import Mathlib.Algebra.Order.Ring.Int
import Mathlib.Data.List.Perm.Basic
import ZoneVerifier.Btf

/-!
# Special fields and the memory layout

The memory layout of a type says which special structs it contains and where:
in the members of a struct or union, in the elements of an array, behind
typedefs and qualifiers. The search for special fields finds them all where the
layout is `Regular` for it: in a struct only direct members, in a data section
everything but the elements of arrays of arrays.
-/

set_option autoImplicit false

namespace ZoneVerifier.Btf

structure Occurrence where
  kind : SpecialFieldKind
  offset : Nat
  size : Nat
  deriving DecidableEq, Repr

def Occurrence.shift (d : Nat) (o : Occurrence) : Occurrence := { o with offset := d + o.offset }

def Occurrence.wrap (o : Occurrence) : Occurrence := { o with offset := o.offset % 2^32 }

def SpecialField.occurrence (f : SpecialField) : Occurrence :=
  { kind := f.kind, offset := f.offset.toNat, size := f.size.toNat }

section Layout
variable (btf : BtfContext) (hops : Nat)

/-- The size of a type, given the size of its elements; the kinds without special
structs inside do not matter. -/
def sizeWith (size : UInt32 → Nat) (ty : BtfType) : Nat :=
  if ty.kind = btfKindArray then
    match ty.members.head? with
    | none => 0
    | some arr => arr.offset.toNat * size arr.typeId
  else ty.sizeOrType.toNat

def sizeFrom : Nat → UInt32 → Nat
  | 0, _ => 0
  | n + 1, id =>
    match btf.get (peel btf hops id) with
    | none => 0
    | some ty => sizeWith (sizeFrom n) ty

/-- The occurrences below a type, given those in each of its parts and the size
of a type. -/
def partsWith (occ : UInt32 → Nat → List Occurrence) (size : UInt32 → Nat) (ty : BtfType)
    (base : Nat) : List Occurrence :=
  if ty.kind = btfKindArray then
    match ty.members.head? with
    | none => []
    | some arr =>
      (List.range arr.offset.toNat).flatMap fun i => occ arr.typeId (base + i * size arr.typeId)
  else if ty.kind = btfKindStruct ∨ ty.kind = btfKindUnion then
    ty.members.flatMap fun m => occ m.typeId (base + m.offset.toNat / 8)
  else []

def selfOccurrence (ty : BtfType) (base : Nat) : List Occurrence :=
  if ty.kind = btfKindStruct then
    (specialKind btf ty).toList.map fun kind =>
      { kind := kind, offset := base, size := ty.sizeOrType.toNat }
  else []

/-- The special structs in the layout of a type at `base`, down to `n` levels. -/
def occFrom : Nat → UInt32 → Nat → List Occurrence
  | 0, _, _ => []
  | n + 1, id, base =>
    match btf.get (peel btf hops id) with
    | none => []
    | some ty =>
      selfOccurrence btf ty base ++ partsWith (occFrom n) (sizeFrom btf hops n) ty base

/-- What one member of a struct or a data section is: a type at a byte offset. -/
def rootsOf (ty : BtfType) (m : BtfMember) : List (UInt32 × Nat) :=
  if ty.kind = btfKindDatasec then
    match btf.get m.typeId with
    | none => []
    | some var => if var.kind = btfKindVar then [(var.sizeOrType, m.offset.toNat)] else []
  else [(m.typeId, m.offset.toNat / 8)]

def roots (ty : BtfType) : List (UInt32 × Nat) := ty.members.flatMap (rootsOf btf ty)

def children (ty : BtfType) : List UInt32 :=
  if ty.kind = btfKindArray then (ty.members.head?.map BtfMember.typeId).toList
  else if ty.kind = btfKindStruct ∨ ty.kind = btfKindUnion then ty.members.map BtfMember.typeId
  else []

/-- The nesting through members and array elements is at most `n` deep. -/
def Shallow : Nat → UInt32 → Prop
  | n, id => ∀ ty, btf.get (peelModifiers btf id) = some ty →
    match n with
    | 0 => children ty = []
    | n + 1 => ∀ c ∈ children ty, Shallow n c

/-- Modifier chains end within the hops of `peel_modifiers`. -/
def ShortChains : Prop :=
  ∀ id ty, btf.get (peelModifiers btf id) = some ty → isModifier ty.kind = false

/-- The search finds every special struct in the layout once, and nothing else. -/
def Complete (t : UInt32) : Prop :=
  ∀ ty ids hops n, btf.get t = some ty → 16 ≤ hops → 9 ≤ n →
    ((findSpecialFields btf (cacheAfter btf ids) t).1.map SpecialField.occurrence).Perm
      ((roots btf ty).flatMap fun r => occFrom btf hops n r.1 r.2)

end Layout

section Stable
variable {btf : BtfContext} {ty : BtfType} {hops : Nat} {id : UInt32}

theorem peel_of_not_modifier (h : ∀ ty, btf.get id = some ty → isModifier ty.kind = false) :
    peel btf hops id = id := by
  cases hops with
  | zero => rfl
  | succ hops =>
    rw [peel]
    cases hget : btf.get id with
    | none => rfl
    | some ty => simp [h ty hget]

theorem peel_add (a b : Nat) (id : UInt32) : peel btf (a + b) id = peel btf b (peel btf a id) := by
  induction a generalizing id with
  | zero => rw [Nat.zero_add, peel]
  | succ a ih =>
    rw [Nat.succ_add, peel, peel]
    cases hget : btf.get id with
    | none =>
      exact (peel_of_not_modifier fun ty hty => by rw [hget] at hty; cases hty).symm
    | some ty =>
      by_cases hmod : isModifier ty.kind = true
      · simp only [hmod, if_true]
        exact ih ty.sizeOrType
      · simp only [hmod, Bool.false_eq_true, if_false]
        refine (peel_of_not_modifier fun ty' hty' => ?_).symm
        rw [hget] at hty'
        cases hty'
        simpa using hmod

variable (hchains : ShortChains btf)
include hchains

theorem peel_eq_peelModifiers (h : 16 ≤ hops) : peel btf hops = peelModifiers btf := by
  funext id
  obtain ⟨k, rfl⟩ := Nat.exists_eq_add_of_le h
  rw [peel_add]
  exact peel_of_not_modifier (hchains id)

theorem peelModifiers_idem (id : UInt32) :
    peelModifiers btf (peelModifiers btf id) = peelModifiers btf id :=
  peel_of_not_modifier (hchains id)

omit hchains in
theorem partsWith_congr {occ occ' : UInt32 → Nat → List Occurrence} {size size' : UInt32 → Nat}
    (h : ∀ c ∈ children ty, size c = size' c ∧ ∀ base, occ c base = occ' c base) (base : Nat) :
    partsWith occ size ty base = partsWith occ' size' ty base := by
  rw [partsWith, partsWith]
  by_cases harr : ty.kind = btfKindArray
  · rw [if_pos harr, if_pos harr]
    cases hhead : ty.members.head? with
    | none => rfl
    | some arr =>
      obtain ⟨hsize, hocc⟩ := h arr.typeId (by simp [children, harr, hhead])
      simp only [hsize, hocc]
  · rw [if_neg harr, if_neg harr]
    by_cases hstruct : ty.kind = btfKindStruct ∨ ty.kind = btfKindUnion
    · rw [if_pos hstruct, if_pos hstruct]
      refine List.flatMap_congr fun m hm => ?_
      exact (h m.typeId (by
        rw [children, if_neg harr, if_pos hstruct]
        exact List.mem_map_of_mem hm)).2 _
    · rw [if_neg hstruct, if_neg hstruct]

omit hchains in
theorem sizeWith_congr {size size' : UInt32 → Nat} (h : ∀ c ∈ children ty, size c = size' c) :
    sizeWith size ty = sizeWith size' ty := by
  rw [sizeWith, sizeWith]
  by_cases harr : ty.kind = btfKindArray
  · rw [if_pos harr, if_pos harr]
    cases hhead : ty.members.head? with
    | none => rfl
    | some arr => simp only [h arr.typeId (by simp [children, harr, hhead])]
  · rw [if_neg harr, if_neg harr]

theorem layout_hops (hhops : 16 ≤ hops) (n : Nat) :
    sizeFrom btf hops n = sizeFrom btf 16 n ∧ occFrom btf hops n = occFrom btf 16 n := by
  induction n with
  | zero => exact ⟨rfl, rfl⟩
  | succ n ih =>
    obtain ⟨hsize, hocc⟩ := ih
    constructor
    · funext id
      rw [sizeFrom, sizeFrom, peel_eq_peelModifiers hchains hhops, hsize]
      rfl
    · funext id base
      rw [occFrom, occFrom, peel_eq_peelModifiers hchains hhops, hsize, hocc]
      rfl

omit hchains in
theorem Shallow.child {n : Nat} {c : UInt32} (h : Shallow btf n id)
    (hty : btf.get (peelModifiers btf id) = some ty) (hc : c ∈ children ty) :
    ∃ k, n = k + 1 ∧ Shallow btf k c := by
  cases n with
  | zero =>
    have hnil : children ty = [] := h ty hty
    rw [hnil] at hc
    cases hc
  | succ k => exact ⟨k, rfl, h ty hty c hc⟩

omit hchains in
theorem layout_levels {n m m' : Nat} (h : Shallow btf n id) (hm : n < m) (hm' : n < m') :
    sizeFrom btf 16 m id = sizeFrom btf 16 m' id ∧
      ∀ base, occFrom btf 16 m id base = occFrom btf 16 m' id base := by
  induction n using Nat.strongRecOn generalizing m m' id with
  | ind n ih =>
    obtain ⟨m, rfl⟩ := Nat.exists_eq_add_of_lt hm
    obtain ⟨m', rfl⟩ := Nat.exists_eq_add_of_lt hm'
    simp only [sizeFrom, occFrom]
    cases hty : btf.get (peel btf 16 id) with
    | none => exact ⟨rfl, fun _ => rfl⟩
    | some ty =>
      have hchild : ∀ c ∈ children ty, sizeFrom btf 16 (n + m) c = sizeFrom btf 16 (n + m') c ∧
          ∀ base, occFrom btf 16 (n + m) c base = occFrom btf 16 (n + m') c base := by
        intro c hc
        obtain ⟨k, rfl, hk⟩ := h.child hty hc
        exact ih k (by omega) hk (by omega) (by omega)
      refine ⟨sizeWith_congr fun c hc => (hchild c hc).1, fun base => ?_⟩
      simp only [partsWith_congr hchild base]

end Stable

section Shift
variable {btf : BtfContext}

theorem partsWith_shift {occ : UInt32 → Nat → List Occurrence}
    (h : ∀ id base, occ id base = (occ id 0).map (Occurrence.shift base)) (size : UInt32 → Nat)
    (ty : BtfType) (base : Nat) :
    partsWith occ size ty base = (partsWith occ size ty 0).map (Occurrence.shift base) := by
  have hstep : ∀ id d, occ id (base + d) = (occ id (0 + d)).map (Occurrence.shift base) := by
    intro id d
    rw [h id (base + d), h id (0 + d), List.map_map]
    refine List.map_congr_left fun o _ => ?_
    simp [Occurrence.shift, Nat.add_assoc]
  rw [partsWith, partsWith]
  split_ifs
  · cases ty.members.head? with
    | none => rfl
    | some arr => simp only [List.map_flatMap, hstep]
  · simp only [List.map_flatMap, hstep]
  · rfl

theorem occFrom_shift (hops n : Nat) (id : UInt32) (base : Nat) :
    occFrom btf hops n id base = (occFrom btf hops n id 0).map (Occurrence.shift base) := by
  induction n generalizing id base with
  | zero => rfl
  | succ n ih =>
    simp only [occFrom]
    cases btf.get (peel btf hops id) with
    | none => rfl
    | some ty =>
      simp only [partsWith_shift ih _ ty base, List.map_append, selfOccurrence]
      split_ifs
      · simp [Occurrence.shift]
      · rfl

theorem length_occFrom (hops n : Nat) (id : UInt32) (base : Nat) :
    (occFrom btf hops n id base).length = (occFrom btf hops n id 0).length := by
  rw [occFrom_shift, List.length_map]

end Shift

/-- What the walk needs of a type it meets, given what it needs of the parts. -/
def RegularType (btf : BtfContext) (n : Nat) (part : UInt32 → Prop) (ty : BtfType) : Prop :=
  if (specialKind btf ty).isSome = true then
    -- the walk stops at a recognised name
    ty.kind = btfKindStruct ∧ partsWith (occFrom btf 16 n) (sizeFrom btf 16 n) ty 0 = []
  else if ty.kind = btfKindArray then
    ∀ arr, ty.members.head? = some arr → arr.offset = 0 ∨ part arr.typeId ∧
      -- the stride is the size word of the element type
      (occFrom btf 16 n arr.typeId 0 = [] ∨
        ∃ elemTy, btf.get (peelModifiers btf arr.typeId) = some elemTy ∧
          elemTy.sizeOrType ≠ 0 ∧ elemTy.sizeOrType.toNat = sizeFrom btf 16 n arr.typeId)
  else ∀ c ∈ children ty, part c

/-- A nested type whose special fields the walk over a data section finds. -/
def RegularAt (btf : BtfContext) : Nat → UInt32 → Prop
  | 0, _ => True
  | n + 1, id => ∀ ty, btf.get (peelModifiers btf id) = some ty →
    RegularType btf n (RegularAt btf n) ty

/-- A member of a struct the flat scan gets right: a special struct by its own
name, or nothing special at all. -/
def RegularMember (btf : BtfContext) (m : BtfMember) : Prop :=
  ∀ ty, btf.get m.typeId = some ty →
    if (specialKind btf ty).isSome = true then
      ty.kind = btfKindStruct ∧ partsWith (occFrom btf 16 8) (sizeFrom btf 16 8) ty 0 = []
    else occFrom btf 16 9 m.typeId 0 = []

def RegularVariable (btf : BtfContext) (m : BtfMember) : Prop :=
  ∀ var, btf.get m.typeId = some var → var.kind = btfKindVar →
    if (btf.strings var.nameOff).isSome = true then RegularAt btf 9 var.sizeOrType
    else occFrom btf 16 9 var.sizeOrType 0 = []

/-- Where the search finds the special fields of a struct or a data section. -/
def Regular (btf : BtfContext) (t : UInt32) : Prop :=
  ∀ ty, btf.get t = some ty →
    (∀ m ∈ ty.members, if ty.kind = btfKindDatasec then RegularVariable btf m
      else RegularMember btf m) ∧
    ∀ r ∈ roots btf ty, ∀ o ∈ occFrom btf 16 9 r.1 r.2, o.offset < 2^32

/-- The recognised names are names of structs, and the size word of an ARRAY is
unused. -/
structure Named (btf : BtfContext) : Prop where
  struct : ∀ id ty, btf.get id = some ty → (specialKind btf ty).isSome = true →
    ty.kind = btfKindStruct
  array : ∀ id ty, btf.get id = some ty → ty.kind = btfKindArray → ty.sizeOrType = 0

section Walk
variable {btf : BtfContext} {ty : BtfType} {n : Nat} {id : UInt32}

theorem flatMap_zipIdx {α β : Type} (f : α → List β) (l : List α) :
    l.zipIdx.flatMap (fun m => f m.1) = l.flatMap f := by
  rw [← List.flatMap_map Prod.fst f, List.zipIdx_map_fst]

theorem collect_of_get_none (h : btf.get (peelModifiers btf id) = none) (base : UInt32)
    (inherited : Option ContainsInfo) :
    collectSpecialFieldsAt btf n id base inherited = [] := by
  cases n with
  | zero => rfl
  | succ n => simp only [collectSpecialFieldsAt, h]

theorem collect_of_special {kind : SpecialFieldKind} (h : btf.get (peelModifiers btf id) = some ty)
    (hk : specialKind btf ty = some kind) (base : UInt32) (inherited : Option ContainsInfo) :
    collectSpecialFieldsAt btf (n + 1) id base inherited =
      [{ kind := kind, offset := base, size := ty.sizeOrType, contains := inherited }] := by
  simp only [collectSpecialFieldsAt, h, hk]

theorem collect_of_plain (h : btf.get (peelModifiers btf id) = some ty)
    (hk : specialKind btf ty = none) (base : UInt32) (inherited : Option ContainsInfo) :
    collectSpecialFieldsAt btf (n + 1) id base inherited =
      partFields btf (collectSpecialFieldsAt btf n) (peelModifiers btf id) ty base inherited := by
  simp only [collectSpecialFieldsAt, h, hk]

theorem occFrom_of_get (h : btf.get (peelModifiers btf id) = some ty) (base : Nat) :
    occFrom btf 16 (n + 1) id base = selfOccurrence btf ty base ++
      partsWith (occFrom btf 16 n) (sizeFrom btf 16 n) ty base := by
  rw [occFrom, show btf.get (peel btf 16 id) = some ty from h]

theorem occFrom_eq_nil (h : btf.get (peelModifiers btf id) = none) (n base : Nat) :
    occFrom btf 16 n id base = [] := by
  cases n with
  | zero => rfl
  | succ n => rw [occFrom, show btf.get (peel btf 16 id) = none from h]

theorem occFrom_nil_iff (n : Nat) (id : UInt32) (base : Nat) :
    occFrom btf 16 n id base = [] ↔ occFrom btf 16 n id 0 = [] := by
  rw [occFrom_shift, List.map_eq_nil_iff]

theorem partsWith_nil_iff (n : Nat) (ty : BtfType) (base : Nat) :
    partsWith (occFrom btf 16 n) (sizeFrom btf 16 n) ty base = [] ↔
      partsWith (occFrom btf 16 n) (sizeFrom btf 16 n) ty 0 = [] := by
  rw [partsWith_shift (occFrom_shift 16 n), List.map_eq_nil_iff]

theorem selfOccurrence_of_none (h : specialKind btf ty = none) (base : Nat) :
    selfOccurrence btf ty base = [] := by
  simp [selfOccurrence, h]

theorem selfOccurrence_of_some {kind : SpecialFieldKind} (h : specialKind btf ty = some kind)
    (hs : ty.kind = btfKindStruct) (base : Nat) :
    selfOccurrence btf ty base =
      [{ kind := kind, offset := base, size := ty.sizeOrType.toNat }] := by
  simp [selfOccurrence, h, hs]

theorem ofNat_add_mul (base i : Nat) (size : UInt32) :
    UInt32.ofNat base + UInt32.ofNat i * size = UInt32.ofNat (base + i * size.toNat) := by
  apply UInt32.toNat_inj.1
  simp

theorem ofNat_add_div (base : Nat) (off : UInt32) :
    UInt32.ofNat base + off / 8 = UInt32.ofNat (base + off.toNat / 8) := by
  apply UInt32.toNat_inj.1
  simp

section Chains
variable (hchains : ShortChains btf)
include hchains

theorem occFrom_peel (n : Nat) (id : UInt32) (base : Nat) :
    occFrom btf 16 n (peelModifiers btf id) base = occFrom btf 16 n id base := by
  cases n with
  | zero => rfl
  | succ n =>
    have hidem : peel btf 16 (peelModifiers btf id) = peel btf 16 id := peelModifiers_idem hchains id
    rw [occFrom, occFrom, hidem]

theorem regularAt_peel (n : Nat) (id : UInt32) :
    RegularAt btf n (peelModifiers btf id) ↔ RegularAt btf n id := by
  cases n with
  | zero => exact Iff.rfl
  | succ n => rw [RegularAt, RegularAt, peelModifiers_idem hchains]

section Parts
variable {n : Nat} (ih : ∀ {id : UInt32}, RegularAt btf n id → ∀ base inherited,
  (collectSpecialFieldsAt btf n id (UInt32.ofNat base) inherited).map SpecialField.occurrence =
    (occFrom btf 16 n id base).map Occurrence.wrap)
include ih

theorem map_elementFields {arr : BtfMember} (hreg : RegularAt btf n arr.typeId)
    (hstride : occFrom btf 16 n arr.typeId 0 = [] ∨
      ∃ elemTy, btf.get (peelModifiers btf arr.typeId) = some elemTy ∧
        elemTy.sizeOrType ≠ 0 ∧ elemTy.sizeOrType.toNat = sizeFrom btf 16 n arr.typeId)
    (base : Nat) (inherited : Option ContainsInfo) :
    (elementFields btf (fun id b => collectSpecialFieldsAt btf n id b inherited) arr
        (UInt32.ofNat base)).map SpecialField.occurrence =
      ((List.range arr.offset.toNat).flatMap fun i =>
        occFrom btf 16 n arr.typeId (base + i * sizeFrom btf 16 n arr.typeId)).map
          Occurrence.wrap := by
  have hwalk : ∀ b, (collectSpecialFieldsAt btf n (peelModifiers btf arr.typeId) (UInt32.ofNat b)
      inherited).map SpecialField.occurrence =
      (occFrom btf 16 n arr.typeId b).map Occurrence.wrap := by
    intro b
    rw [ih ((regularAt_peel hchains n arr.typeId).2 hreg), occFrom_peel hchains]
  rcases hstride with hnil | ⟨elemTy, helem, hne, hsize⟩
  · have hnone : ∀ b, occFrom btf 16 n arr.typeId b = [] :=
      fun b => (occFrom_nil_iff n arr.typeId b).2 hnil
    have hcollect : ∀ b, collectSpecialFieldsAt btf n (peelModifiers btf arr.typeId) b
        inherited = [] := by
      intro b
      have hmap := hwalk b.toNat
      rwa [hnone, List.map_nil, List.map_eq_nil_iff, UInt32.ofNat_toNat] at hmap
    have hleft : elementFields btf (fun id b => collectSpecialFieldsAt btf n id b inherited) arr
        (UInt32.ofNat base) = [] := by
      rw [elementFields]
      cases btf.get (peelModifiers btf arr.typeId) with
      | none => rfl
      | some elemTy =>
        simp only
        split_ifs
        · rfl
        · exact List.flatMap_eq_nil_iff.2 fun i _ => hcollect _
    rw [hleft, List.flatMap_eq_nil_iff.2 fun i _ => hnone _]
    rfl
  · rw [elementFields, helem]
    by_cases hzero : arr.offset = 0
    · simp [hzero]
    · simp only [hne, hzero, or_self, if_false, List.map_flatMap, ofNat_add_mul, hsize, hwalk]

theorem map_partFields {ty : BtfType} (hk : specialKind btf ty = none)
    (hreg : RegularType btf n (RegularAt btf n) ty)
    (resolvedId : UInt32) (base : Nat) (inherited : Option ContainsInfo) :
    (partFields btf (collectSpecialFieldsAt btf n) resolvedId ty (UInt32.ofNat base)
        inherited).map SpecialField.occurrence =
      (partsWith (occFrom btf 16 n) (sizeFrom btf 16 n) ty base).map Occurrence.wrap := by
  rw [RegularType, if_neg (by simp [hk])] at hreg
  rw [partFields, partsWith]
  by_cases harr : ty.kind = btfKindArray
  · rw [if_pos harr] at hreg
    rw [if_pos harr, if_pos harr]
    cases hhead : ty.members.head? with
    | none => rfl
    | some arr =>
      rcases hreg arr hhead with hzero | ⟨hregE, hstride⟩
      · have hnone : elementFields btf (fun id b => collectSpecialFieldsAt btf n id b inherited) arr
            (UInt32.ofNat base) = [] := by
          rw [elementFields]
          cases btf.get (peelModifiers btf arr.typeId) <;> simp [hzero]
        simp [hnone, hzero]
      · exact map_elementFields hchains ih hregE hstride base inherited
  · rw [if_neg harr] at hreg
    rw [if_neg harr, if_neg harr]
    by_cases hstruct : ty.kind = btfKindStruct ∨ ty.kind = btfKindUnion
    · have hmem : ∀ m ∈ ty.members, RegularAt btf n m.typeId := by
        intro m hm
        refine hreg m.typeId ?_
        rw [children, if_neg harr, if_pos hstruct]
        exact List.mem_map_of_mem hm
      have hzip := flatMap_zipIdx (fun m : BtfMember =>
        (occFrom btf 16 n m.typeId (base + m.offset.toNat / 8)).map Occurrence.wrap) ty.members
      rw [if_pos hstruct, if_pos hstruct, List.map_flatMap, List.map_flatMap, ← hzip]
      refine List.flatMap_congr fun m hm => ?_
      rw [ofNat_add_div, ih (hmem m.1 (List.fst_mem_of_mem_zipIdx hm))]
    · rw [if_neg hstruct, if_neg hstruct]
      rfl

end Parts

theorem map_collect {n : Nat} {id : UInt32} (h : RegularAt btf n id) (base : Nat)
    (inherited : Option ContainsInfo) :
    (collectSpecialFieldsAt btf n id (UInt32.ofNat base) inherited).map SpecialField.occurrence =
      (occFrom btf 16 n id base).map Occurrence.wrap := by
  induction n generalizing id base inherited with
  | zero => rfl
  | succ n ih =>
    cases hget : btf.get (peelModifiers btf id) with
    | none =>
      rw [occFrom_eq_nil hget, collect_of_get_none hget]
      rfl
    | some ty =>
      have hreg := h ty hget
      rw [occFrom_of_get hget]
      cases hk : specialKind btf ty with
      | some kind =>
        rw [RegularType, if_pos (by rw [hk]; rfl)] at hreg
        rw [collect_of_special hget hk, selfOccurrence_of_some hk hreg.1,
          (partsWith_nil_iff n ty base).2 hreg.2]
        simp [SpecialField.occurrence, Occurrence.wrap]
      | none =>
        rw [collect_of_plain hget hk, selfOccurrence_of_none hk, List.nil_append]
        exact map_partFields hchains (fun h => ih h) hk hreg _ base inherited

end Chains
end Walk

end ZoneVerifier.Btf
