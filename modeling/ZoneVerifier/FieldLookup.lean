import Mathlib.Data.Fintype.Prod
import ZoneVerifier.Btf
import ZoneVerifier.GraphSearch

/-!
# Looking up a member by its offset

`field_at_offset`, `field_at_offset_descend` and `field_containing_offset`
(`parsing/btf/context/fields.rs`) follow a struct or union into the member at an
offset as long as that is one itself. The types come from a file and may contain
one another, and nothing bounds the number of steps.
-/

set_option autoImplicit false

namespace ZoneVerifier.FieldLookup
open Btf GraphSearch

def btfKindInt : UInt8 := 1
def btfKindPtr : UInt8 := 2
def btfKindEnum : UInt8 := 6
def btfKindFwd : UInt8 := 7
def btfKindFloat : UInt8 := 16
def btfKindTypeTag : UInt8 := 18
def btfKindEnum64 : UInt8 := 19

def isScalar (kind : UInt8) : Bool :=
  decide (kind ∈ [btfKindInt, btfKindEnum, btfKindEnum64, btfKindFloat])

def isAggregate (kind : UInt8) : Bool := kind = btfKindStruct || kind = btfKindUnion

inductive BtfFieldKind where
  | pointer (pointeeName typeTag : Option String)
  | embedded (typeName : Option String)
  | scalar
  | other
  deriving DecidableEq, Repr

structure BtfFieldInfo where
  name : String
  kind : BtfFieldKind
  deriving DecidableEq, Repr

section Lookup
variable (btf : BtfContext)

/-- The levels that are left of the seventeen the depth cap allows. -/
def typeSizeBytesDepth : Nat → UInt32 → UInt32
  | 0, _ => 0
  | levels + 1, typeId =>
    match btf.get typeId with
    | none => 0
    | some t =>
      if isScalar t.kind || isAggregate t.kind || t.kind = btfKindDatasec then t.sizeOrType
      else if t.kind = btfKindPtr then 8
      else if t.kind = btfKindArray then
        match t.members.head? with
        | none => 0
        | some m => UInt32.ofNat
          (min ((typeSizeBytesDepth levels m.typeId).toNat * m.offset.toNat) (2^32 - 1))
      else if isModifier t.kind || t.kind = btfKindVar || t.kind = btfKindTypeTag then
        typeSizeBytesDepth levels t.sizeOrType
      else 0

def typeSizeBytes (typeId : UInt32) : UInt32 := typeSizeBytesDepth btf 17 typeId

/-- The name of the first type that `stops`, past those that `passes`. -/
def peelTo (passes stops : UInt8 → Bool) : Nat → UInt32 → Option String
  | 0, _ => none
  | hops + 1, id => (btf.get id).bind fun t =>
    if stops t.kind then btf.strings t.nameOff
    else if passes t.kind then peelTo passes stops hops t.sizeOrType
    else none

def peelToTypeTag : UInt32 → Option String := peelTo btf isModifier (· = btfKindTypeTag) 16

def peelToNamedStruct : UInt32 → Option String :=
  peelTo btf (fun k => isModifier k || k = btfKindTypeTag)
    (fun k => isAggregate k || k = btfKindFwd) 16

/-- The walk along the type of a member, with the first type tag on it. -/
def fieldKind : Nat → Option String → UInt32 → BtfFieldKind
  | 0, _, _ => .other
  | hops + 1, typeTag, cur =>
    match btf.get cur with
    | none => .other
    | some t =>
      if isModifier t.kind then fieldKind hops typeTag t.sizeOrType
      else if t.kind = btfKindTypeTag then
        fieldKind hops (typeTag.or (btf.strings t.nameOff)) t.sizeOrType
      else if t.kind = btfKindPtr then
        .pointer (peelToNamedStruct btf t.sizeOrType)
          (typeTag.or (peelToTypeTag btf t.sizeOrType))
      else if isAggregate t.kind then .embedded (btf.strings t.nameOff)
      else if isScalar t.kind then .scalar
      else .other

def aggregate (typeId : UInt32) : Option BtfType :=
  (btf.get (peelModifiers btf typeId)).filter fun ty => isAggregate ty.kind

def innerId (m : BtfMember) : Option UInt32 :=
  (aggregate btf m.typeId).map fun _ => peelModifiers btf m.typeId

/-- A struct and a byte offset in it. -/
abbrev Place := UInt32 × UInt32

/-- The first member in the order of the search that fits the offset in bits. -/
def findMember (order : List BtfMember → List BtfMember) (fits : UInt32 → BtfMember → Bool)
    (p : Place) : Option BtfMember :=
  (aggregate btf p.1).bind fun ty =>
    if p.2.toNat * 8 < 2^32 then (order ty.members).find? (fits (p.2 * 8)) else none

def exactMember : Place → Option BtfMember := findMember btf id fun bits m => m.offset = bits

def covers (bitOffset : UInt32) (m : BtfMember) : Bool :=
  if bitOffset < m.offset then false
  else if typeSizeBytes btf m.typeId = 0 then m.offset = bitOffset
  else bitOffset < m.offset + typeSizeBytes btf m.typeId * 8

def coveringMember : Place → Option BtfMember := findMember btf List.reverse (covers btf)

def fieldName (m : BtfMember) : String := (btf.strings m.nameOff).getD ""

def enterAnonymous (p : Place) (_ : Unit) : Option Place :=
  (exactMember btf p).bind fun m =>
    if fieldName btf m = "" then (innerId btf m).map fun id => (id, p.2 - p.2 * 8 / 8) else none

/-- The only nested call is the one for an anonymous member. -/
def fieldAtOffset : Nat → Place → Option (Option BtfFieldInfo) :=
  descend (fun _ _ => some ()) (enterAnonymous btf) fun p _ inner => inner.join.or
    ((exactMember btf p).map fun m => ⟨fieldName btf m, fieldKind btf 16 none m.typeId⟩)

def isLeaf (info : Option BtfFieldInfo) : Bool :=
  info.any fun i => match i.kind with | .embedded _ => false | _ => true

def enterEmbedded (p : Place) (info : Option BtfFieldInfo) : Option Place :=
  if isLeaf info then none
  else (coveringMember btf p).bind fun m =>
    (innerId btf m).map fun id => (id, p.2 - m.offset / 8)

def fieldAtOffsetDescend : Nat → Place → Option (Option BtfFieldInfo) :=
  descend (fieldAtOffset btf) (enterEmbedded btf) fun _ info inner =>
    if isLeaf info then info else inner.join

def sizedMember (p : Place) : Option BtfMember :=
  (coveringMember btf p).filter fun m => typeSizeBytes btf m.typeId ≠ 0

def enterSized (p : Place) (_ : Unit) : Option Place :=
  (sizedMember btf p).bind fun m => (innerId btf m).map fun id => (id, p.2 - m.offset / 8)

def fieldContainingOffset : Nat → Place → Option (Option (UInt32 × UInt32)) :=
  descend (fun _ _ => some ()) (enterSized btf) fun p _ inner =>
    (sizedMember btf p).map fun m => match inner.join with
      | some (innerStart, innerSize) => (m.offset / 8 + innerStart, innerSize)
      | none => (m.offset / 8, typeSizeBytes btf m.typeId)

/-- The innermost member around the byte, with the offset of the byte in its struct. -/
def innermost : Nat → Place → Option (Option (UInt32 × BtfMember)) :=
  descend (fun _ _ => some ()) (enterSized btf) fun p _ inner =>
    (sizedMember btf p).map fun m => inner.join.getD (p.2, m)

end Lookup

section Range
variable {btf : BtfContext} {p : Place} {m : BtfMember} {n : Nat}

theorem fieldContainingOffset_eq (n : Nat) (p : Place) : fieldContainingOffset btf n p =
    (innermost btf n p).map (Option.map fun f =>
      (p.2 - f.1 + f.2.offset / 8, typeSizeBytes btf f.2.typeId)) := by
  induction n generalizing p with
  | zero => rfl
  | succ n ih =>
    simp only [fieldContainingOffset, innermost, descend, Option.bind_some] at ih ⊢
    cases hnext : enterSized btf p () with
    | none => cases sizedMember btf p <;> simp
    | some q =>
      obtain ⟨m, hm, hq⟩ := Option.bind_eq_some_iff.1 hnext
      obtain ⟨id, -, rfl⟩ := Option.map_eq_some_iff.1 hq
      simp only [ih, hm, Option.map_some]
      cases descend (fun _ _ => some ()) (enterSized btf) _ n (id, p.2 - m.offset / 8) with
      | none => rfl
      | some f =>
        cases f with
        | none => simp
        | some f =>
          simp only [Option.map_some, Option.join_some, Option.some.injEq, Prod.mk.injEq]
          grind

/-- The covering test, in bits; a sized member ends where its type does. -/
theorem covered (hm : sizedMember btf p = some m) : m.offset.toNat ≤ 8 * p.2.toNat ∧
    8 * p.2.toNat < (m.offset.toNat + (typeSizeBytes btf m.typeId).toNat * 8 % 2^32) % 2^32 := by
  obtain ⟨hm, hsize⟩ := Option.filter_eq_some_iff.1 hm
  obtain ⟨ty, -, hm⟩ := Option.bind_eq_some_iff.1 hm
  split_ifs at hm with hbits
  have hcov := List.find?_some hm
  have hmul : (p.2 * 8).toNat = p.2.toNat * 8 := (UInt32.toNat_mul ..).trans (Nat.mod_eq_of_lt hbits)
  have hend : (m.offset + typeSizeBytes btf m.typeId * 8).toNat =
      (m.offset.toNat + (typeSizeBytes btf m.typeId).toNat * 8 % 2^32) % 2^32 :=
    (UInt32.toNat_add ..).trans (by rw [UInt32.toNat_mul]; rfl)
  unfold covers at hcov
  split_ifs at hcov with hlt hzero
  · exact absurd hzero (of_decide_eq_true hsize)
  · have hcov := of_decide_eq_true hcov
    rw [UInt32.lt_iff_toNat_lt, hmul] at hlt hcov
    rw [hend] at hcov
    exact ⟨by omega, by omega⟩

theorem innermost_covered {o : UInt32} (h : innermost btf n p = some (some (o, m))) :
    o.toNat ≤ p.2.toNat ∧ m.offset.toNat ≤ 8 * o.toNat ∧
      8 * o.toNat < (m.offset.toNat + (typeSizeBytes btf m.typeId).toNat * 8 % 2^32) % 2^32 := by
  induction n generalizing p with
  | zero => cases h
  | succ n ih =>
    simp only [innermost, descend, Option.bind_some] at h
    cases hnext : enterSized btf p () with
    | none =>
      simp only [hnext, Option.join_none, Option.getD_none, Option.some.injEq] at h
      obtain ⟨m', hm', heq⟩ := Option.map_eq_some_iff.1 h
      cases heq
      exact ⟨le_rfl, covered hm'⟩
    | some q =>
      obtain ⟨m', hm', hq⟩ := Option.bind_eq_some_iff.1 hnext
      obtain ⟨id, -, rfl⟩ := Option.map_eq_some_iff.1 hq
      simp only [hnext, hm', Option.map_some, Option.map_eq_some_iff] at h
      obtain ⟨inner, hinner, heq⟩ := h
      have hcov := covered hm'
      cases inner with
      | none => cases heq; exact ⟨le_rfl, hcov⟩
      | some f =>
        cases heq
        obtain ⟨hlow, hhigh⟩ := ih hinner
        have hdiv : (m'.offset / 8).toNat = m'.offset.toNat / 8 := UInt32.toNat_div ..
        rw [UInt32.toNat_sub_of_le _ _ (UInt32.le_iff_toNat_le.2 (by omega))] at hlow
        exact ⟨hlow.trans (Nat.sub_le _ _), hhigh⟩

/-- The byte is the one after the last whole byte of a member that starts
inside a byte: the member covers its first bits. -/
def Overhangs (btf : BtfContext) (o : UInt32) (m : BtfMember) : Prop :=
  m.offset.toNat % 8 ≠ 0 ∧ o.toNat = m.offset.toNat / 8 + (typeSizeBytes btf m.typeId).toNat

/-- The range holds the byte unless the innermost member overhangs into it. -/
theorem range_iff : (∀ n s z, fieldContainingOffset btf n p = some (some (s, z)) →
      s.toNat ≤ p.2.toNat ∧ p.2.toNat < s.toNat + z.toNat) ↔
    ∀ n o m, innermost btf n p = some (some (o, m)) → ¬ Overhangs btf o m := by
  have hstart {n : Nat} {o : UInt32} {m : BtfMember}
      (h : innermost btf n p = some (some (o, m))) :
      (p.2 - o + m.offset / 8).toNat = p.2.toNat - o.toNat + m.offset.toNat / 8 := by
    obtain ⟨hlow, hhigh⟩ := innermost_covered h
    have hdiv : (m.offset / 8).toNat = m.offset.toNat / 8 := UInt32.toNat_div ..
    rw [UInt32.toNat_add, UInt32.toNat_sub_of_le _ _ (UInt32.le_iff_toNat_le.2 hlow), hdiv]
    have := p.2.toNat_lt
    omega
  constructor
  · intro h n o m hm hover
    have := h n (p.2 - o + m.offset / 8) (typeSizeBytes btf m.typeId)
      (by rw [fieldContainingOffset_eq, hm]; rfl)
    have := hstart hm
    have := innermost_covered hm
    unfold Overhangs at hover
    omega
  · intro h n s z hs
    rw [fieldContainingOffset_eq] at hs
    obtain ⟨f, hf, hs⟩ := Option.map_eq_some_iff.1 hs
    obtain ⟨⟨o, m⟩, rfl, hs⟩ := Option.map_eq_some_iff.1 hs
    cases hs
    have hnot := h n o m hf
    have := hstart hf
    have := innermost_covered hf
    unfold Overhangs at hnot
    dsimp only
    omega

end Range

section Settle
variable (btf : BtfContext) (p : Place)

abbrev Anonymous : Place → Place → Prop := Nested (fun _ _ => some ()) (enterAnonymous btf)
abbrev Embedded : Place → Place → Prop := Nested (fieldAtOffset btf) (enterEmbedded btf)
abbrev Sized : Place → Place → Prop := Nested (fun _ _ => some ()) (enterSized btf)

theorem lookups_settle_iff :
    (∃ n, (fieldAtOffset btf n p).isSome) ∧ (∃ n, (fieldAtOffsetDescend btf n p).isSome) ∧
      (∃ n, (fieldContainingOffset btf n p).isSome) ∧
      (∀ n s z, fieldContainingOffset btf n p = some (some (s, z)) →
        s.toNat ≤ p.2.toNat ∧ p.2.toNat < s.toNat + z.toNat) ↔
    (∀ q, Relation.ReflTransGen (Embedded btf) p q →
        Acyclic (Anonymous btf) q ∧ ¬ Relation.TransGen (Embedded btf) q q) ∧
      Acyclic (Sized btf) p ∧
      ∀ n o m, innermost btf n p = some (some (o, m)) → ¬ Overhangs btf o m := by
  have : Finite UInt32 := Finite.of_injective UInt32.toFin fun _ _ he => UInt32.toFin_inj.1 he
  have hunit : Mono fun _ (_ : Place) => some () := fun _ _ _ _ _ h => h
  have hanon (q : Place) : (∃ n, (fieldAtOffset btf n q).isSome) ↔ Acyclic (Anonymous btf) q :=
    (returns_iff hunit).trans (by simp [Acyclic])
  have hsized : (∃ n, (fieldContainingOffset btf n p).isSome) ↔ Acyclic (Sized btf) p :=
    (returns_iff hunit).trans (by simp [Acyclic])
  have hembedded : (∃ n, (fieldAtOffsetDescend btf n p).isSome) ↔ _ :=
    returns_iff (mono_descend hunit)
  simp only [hanon] at hembedded
  rw [hembedded, hsized, range_iff]
  exact ⟨And.right, fun h => ⟨(hanon p).2 (h.1 p .refl).1, h⟩⟩

end Settle

/-- A struct with an anonymous member of its own type at its start. -/
def ownMember : BtfContext where
  types := [⟨1, 0, 0x04000001, 4, [⟨0, 1, 0⟩]⟩]
  strings := fun off => if off = 0 then some "" else none
  declTags := []

theorem ownMember_never_returns : ¬ ∃ n, (fieldAtOffset ownMember n (1, 0)).isSome := by
  rintro ⟨n, h⟩
  induction n with
  | zero => cases h
  | succ n ih =>
    have hself : enterAnonymous ownMember (1, 0) () = some (1, 0) := by decide
    rw [fieldAtOffset, descend, Option.bind_some, hself, Option.isSome_map] at h
    exact ih h

end ZoneVerifier.FieldLookup
