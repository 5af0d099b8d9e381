import Mathlib.Data.List.Basic
import ZoneVerifier.FiniteMap

/-!
# Special fields of BTF types

The parsed BTF section and the search for the fields a program may not access
directly (`parsing/btf/types.rs`, `context/fields.rs`, `context/lookup.rs`,
`context/datasec.rs`). A struct is scanned member by member; a data section is
walked into its variables, through modifiers, arrays and nested structs. Results
are kept in a cache under the type id.
-/

set_option autoImplicit false

namespace ZoneVerifier.Btf
open FiniteMap

def btfKindArray : UInt8 := 3
def btfKindStruct : UInt8 := 4
def btfKindUnion : UInt8 := 5
def btfKindTypedef : UInt8 := 8
def btfKindVolatile : UInt8 := 9
def btfKindConst : UInt8 := 10
def btfKindRestrict : UInt8 := 11
def btfKindVar : UInt8 := 14
def btfKindDatasec : UInt8 := 15

inductive SpecialFieldKind where
  | spinLock | timer | listHead | listNode | rbRoot | rbNode | refcount | resSpinLock | wq
  deriving DecidableEq, Repr

def SpecialFieldKind.fromTypeName (name : String) : Option SpecialFieldKind :=
  if name = "bpf_spin_lock" then some .spinLock
  else if name = "bpf_res_spin_lock" then some .resSpinLock
  else if name = "bpf_timer" then some .timer
  else if name = "bpf_list_head" then some .listHead
  else if name = "bpf_list_node" then some .listNode
  else if name = "bpf_rb_root" then some .rbRoot
  else if name = "bpf_rb_node" then some .rbNode
  else if name = "bpf_refcount" then some .refcount
  else if name = "bpf_wq" then some .wq
  else none

structure ContainsInfo where
  structName : String
  nodeOffset : Option UInt32
  deriving DecidableEq, Repr

structure SpecialField where
  kind : SpecialFieldKind
  offset : UInt32
  size : UInt32
  contains : Option ContainsInfo
  deriving DecidableEq, Repr

/-- The offset is in bits; in an ARRAY it is the number of elements, in a DATASEC
it is in bytes. -/
structure BtfMember where
  nameOff : UInt32
  typeId : UInt32
  offset : UInt32
  deriving DecidableEq, Repr

structure BtfType where
  id : UInt32
  nameOff : UInt32
  info : UInt32
  sizeOrType : UInt32
  members : List BtfMember
  deriving DecidableEq, Repr

def BtfType.kind (ty : BtfType) : UInt8 := ((ty.info >>> 24) &&& 0x1f).toUInt8

structure DeclTag where
  name : String
  targetTypeId : UInt32
  componentIdx : Int
  deriving DecidableEq, Repr

/-- `types` are the values of the type map in the order of its iterator;
`strings` is what `get_string` reads at an offset. -/
structure BtfContext where
  types : List BtfType
  strings : UInt32 → Option String
  declTags : List DeclTag

section Lookup
variable (btf : BtfContext)

def BtfContext.get (id : UInt32) : Option BtfType := btf.types.find? fun ty => ty.id = id

def isModifier (kind : UInt8) : Bool :=
  kind = btfKindTypedef || kind = btfKindConst || kind = btfKindVolatile || kind = btfKindRestrict

/-- The loop of `peel_modifiers` with the hops that are left. -/
def peel : Nat → UInt32 → UInt32
  | 0, typeId => typeId
  | hops + 1, typeId =>
    match btf.get typeId with
    | none => typeId
    | some ty => if isModifier ty.kind then peel hops ty.sizeOrType else typeId

def peelModifiers (typeId : UInt32) : UInt32 := peel btf 16 typeId

def findStructByName (name : String) : Option UInt32 :=
  (btf.types.find? fun ty => (ty.kind = btfKindStruct ∨ ty.kind = btfKindUnion) ∧
    btf.strings ty.nameOff = some name).map BtfType.id

def declTagsFor (typeId : UInt32) : List DeclTag :=
  btf.declTags.filter fun t => t.targetTypeId = typeId

/-- `split_once(':')`. -/
def splitOnce (s : List Char) : Option (List Char × List Char) :=
  match s.span (· ≠ ':') with
  | (_, []) => none
  | (a, _ :: b) => some (a, b)

def parseContainsTag (tag : String) : Option ContainsInfo := do
  let body ← "contains:".toList.isPrefixOf? tag.toList
  let (structName, memberName) ← splitOnce body
  let nodeOffset := do
    let sid ← findStructByName btf (String.ofList structName)
    let ty ← btf.get sid
    let m ← ty.members.find? fun m => btf.strings m.nameOff = some (String.ofList memberName)
    some (m.offset / 8)
  some { structName := String.ofList structName, nodeOffset := nodeOffset }

def memberContains (typeId : UInt32) (memberIdx : Nat) : Option ContainsInfo :=
  ((declTagsFor btf typeId).filter fun t => t.componentIdx = (memberIdx : Int)).findSome?
    fun t => parseContainsTag btf t.name

def specialKind (ty : BtfType) : Option SpecialFieldKind :=
  (btf.strings ty.nameOff).bind SpecialFieldKind.fromTypeName

def varInfo (varId : UInt32) : Option (String × UInt32) := do
  let ty ← btf.get varId
  if ty.kind ≠ btfKindVar then none
  else do
    let name ← btf.strings ty.nameOff
    some (name, ty.sizeOrType)

end Lookup

section Search
variable (btf : BtfContext)

/-- The elements of an array, each walked by `collect`. An ARRAY has no size of its
own, so the elements of an array of arrays have size zero here. -/
def elementFields (collect : UInt32 → UInt32 → List SpecialField) (arr : BtfMember)
    (baseOffset : UInt32) : List SpecialField :=
  let elemId := peelModifiers btf arr.typeId
  let nelems := arr.offset
  match btf.get elemId with
  | none => []
  | some elemTy =>
    if elemTy.sizeOrType = 0 ∨ nelems = 0 then []
    else (List.range nelems.toNat).flatMap fun i =>
      collect elemId (baseOffset + UInt32.ofNat i * elemTy.sizeOrType)

def partFields (collect : UInt32 → UInt32 → Option ContainsInfo → List SpecialField)
    (resolvedId : UInt32) (ty : BtfType) (baseOffset : UInt32) (inherited : Option ContainsInfo) :
    List SpecialField :=
  if ty.kind = btfKindArray then
    match ty.members.head? with
    | none => []
    | some arr => elementFields btf (fun id base => collect id base inherited) arr baseOffset
  else if ty.kind = btfKindStruct ∨ ty.kind = btfKindUnion then
    ty.members.zipIdx.flatMap fun m =>
      collect m.1.typeId (baseOffset + m.1.offset / 8)
        ((memberContains btf resolvedId m.2).or inherited)
  else []

/-- The walk with the levels that are left of the nine the depth cap allows. -/
def collectSpecialFieldsAt : Nat → UInt32 → UInt32 → Option ContainsInfo → List SpecialField
  | 0, _, _, _ => []
  | levels + 1, typeId, baseOffset, inherited =>
    let resolvedId := peelModifiers btf typeId
    match btf.get resolvedId with
    | none => []
    | some ty =>
      match specialKind btf ty with
      | some kind =>
        [{ kind := kind, offset := baseOffset, size := ty.sizeOrType, contains := inherited }]
      | none => partFields btf (collectSpecialFieldsAt levels) resolvedId ty baseOffset inherited

def variableFields (entry : BtfMember) : List SpecialField :=
  match varInfo btf entry.typeId with
  | none => []
  | some (_, targetId) =>
    let contains := (declTagsFor btf entry.typeId).findSome? fun t => parseContainsTag btf t.name
    collectSpecialFieldsAt btf 9 targetId entry.offset contains

def memberField (typeId : UInt32) (m : BtfMember × Nat) : Option SpecialField := do
  let memberType ← btf.get m.1.typeId
  let kind ← specialKind btf memberType
  some { kind := kind, offset := m.1.offset / 8, size := memberType.sizeOrType
         contains := memberContains btf typeId m.2 }

def findSpecialFieldsUncached (typeId : UInt32) : List SpecialField :=
  match btf.get typeId with
  | none => []
  | some ty =>
    if ty.kind = btfKindDatasec then ty.members.flatMap (variableFields btf)
    else ty.members.zipIdx.filterMap (memberField btf typeId)

abbrev Cache := FinMap UInt32 (List SpecialField)

def findSpecialFields (cache : Cache) (typeId : UInt32) : List SpecialField × Cache :=
  match cache.find typeId with
  | some cached => (cached, cache)
  | none =>
    let fields := findSpecialFieldsUncached btf typeId
    (fields, cache.insert typeId fields)

def cacheAfter (ids : List UInt32) : Cache :=
  ids.foldl (fun cache id => (findSpecialFields btf cache id).2) FinMap.empty

/-- What the cache holds is what a search without it would find. -/
def Coherent (cache : Cache) : Prop :=
  cache.All fun id fields => fields = findSpecialFieldsUncached btf id

variable {btf}

theorem Coherent.find {cache : Cache} (h : Coherent btf cache) (id : UInt32) :
    (findSpecialFields btf cache id).1 = findSpecialFieldsUncached btf id ∧
      Coherent btf (findSpecialFields btf cache id).2 := by
  rw [findSpecialFields]
  cases hfind : cache.find id with
  | some cached => exact ⟨h id cached hfind, h⟩
  | none =>
    refine ⟨rfl, fun k fields hk => ?_⟩
    by_cases hki : k = id
    · subst hki
      rw [FinMap.find_insert_self] at hk
      exact (Option.some.inj hk).symm
    · rw [FinMap.find_insert_of_ne _ _ hki] at hk
      exact h k fields hk

theorem coherent_foldl {cache : Cache} (h : Coherent btf cache) (ids : List UInt32) :
    Coherent btf (ids.foldl (fun cache id => (findSpecialFields btf cache id).2) cache) := by
  induction ids generalizing cache with
  | nil => exact h
  | cons id ids ih => exact ih (h.find id).2

theorem findSpecialFields_cacheAfter (ids : List UInt32) (id : UInt32) :
    (findSpecialFields btf (cacheAfter btf ids) id).1 = findSpecialFieldsUncached btf id := by
  have hempty : Coherent btf FinMap.empty := fun _ _ h => nomatch h
  exact ((coherent_foldl hempty ids).find id).1

end Search
end ZoneVerifier.Btf
