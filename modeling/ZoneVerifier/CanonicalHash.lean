import Mathlib.Data.Fintype.EquivFin
import Mathlib.Logic.Relation
import ZoneVerifier.ByteCode
import ZoneVerifier.Fallible
import ZoneVerifier.FiniteMap
import ZoneVerifier.RankedTree

/-!
# The canonical encoding of BCF expressions

A table lists expressions that refer to one another by slot offsets
(`refinement/bcf.rs`). `encode` walks the tree below a root in post-order and
writes one record per node, with the variables numbered by first occurrence
(`refinement/canonical_hash.rs`). The walk is stated over a lookup and a renamer.
Fuel bounds the depth; `none` is a panic.
-/

set_option autoImplicit false

namespace ZoneVerifier.CanonicalHash
open ByteCode FiniteMap RankedTree RankedTree.Rose Fallible

structure BcfExpr where
  code : UInt8
  params : UInt16
  args : List UInt32
  deriving DecidableEq, Repr

def bcfBv : UInt8 := 0x00

def bcfVal : UInt8 := 0x08

def bcfVar : UInt8 := 0x18

def bcfOpMask : UInt8 := 0xf8

def tagVar : UInt8 := 0x01

def tagLeafConst : UInt8 := 0x02

def tagInternal : UInt8 := 0x03

def exprArgIsId (code : UInt8) : Bool := code != (bcfBv ||| bcfVal)

def isLeaf (e : BcfExpr) : Bool := e.args.isEmpty || !exprArgIsId e.code

def isVar (code : UInt8) : Bool := (code &&& bcfOpMask) == bcfVar

/-- `args.len() as u8`. -/
def vlen (e : BcfExpr) : UInt8 := UInt8.ofNat e.args.length

section Walk
variable {σ : Type} (lookup : UInt32 → Option BcfExpr) (intern : σ → UInt32 → Option (UInt32 × σ))

/-- `tag(1) + code(1) + vlen(1) + params(2)`. -/
def header (tag code vlen : UInt8) (params : UInt16) : List UInt8 :=
  [tag, code, vlen] ++ leBytes 2 params.toNat

def encode : Nat → UInt32 → σ × List UInt8 → Option (σ × List UInt8)
  | 0, _, _ => none
  | fuel + 1, id, (ren, buf) => do
    let e ← lookup id
    if isLeaf e then
      if isVar e.code then
        let (idx, ren) ← intern ren id
        some (ren, buf ++ (header tagVar e.code (vlen e) e.params ++ leBytes 4 idx.toNat))
      else
        some (ren, buf ++ (header tagLeafConst e.code (vlen e) e.params ++
          e.args.flatMap fun arg => leBytes 4 arg.toNat))
    else do
      let (ren, buf) ← e.args.foldlM (fun st arg => encode fuel arg st) (ren, buf)
      some (ren, buf ++ header tagInternal e.code (vlen e) e.params)

/-- What one node contributes to the encoding; `id` is a variable's expr-id or
its number. -/
inductive Label (ι : Type) where
  | var (id : ι) (code vlen : UInt8) (params : UInt16)
  | const (code vlen : UInt8) (params : UInt16) (args : List UInt32)
  | op (code vlen : UInt8) (params : UInt16)

def Label.map {ι κ : Type} (f : ι → κ) : Label ι → Label κ
  | var id code vlen params => var (f id) code vlen params
  | const code vlen params args => const code vlen params args
  | op code vlen params => op code vlen params

def Label.id? {ι : Type} : Label ι → Option ι
  | var id _ _ _ => some id
  | _ => none

def Label.arity {ι : Type} : Label ι → Nat
  | op _ vlen _ => vlen.toNat
  | _ => 0

def labelOf (id : UInt32) (e : BcfExpr) : Label UInt32 :=
  if isLeaf e then
    if isVar e.code then .var id e.code (vlen e) e.params
    else .const e.code (vlen e) e.params e.args
  else .op e.code (vlen e) e.params

def unfold : Nat → UInt32 → Option (Rose (Label UInt32))
  | 0, _ => none
  | fuel + 1, id => do
    let e ← lookup id
    if isLeaf e then some (node (labelOf id e) [])
    else do
      let children ← e.args.mapM fun arg => unfold fuel arg
      some (node (labelOf id e) children)

def record : Label UInt32 → List UInt8
  | .var idx code vlen params => header tagVar code vlen params ++ leBytes 4 idx.toNat
  | .const code vlen params args =>
    header tagLeafConst code vlen params ++ args.flatMap fun arg => leBytes 4 arg.toNat
  | .op code vlen params => header tagInternal code vlen params

def emit (st : σ × List UInt8) : Label UInt32 → Option (σ × List UInt8)
  | .var id code vlen params => do
    let (idx, ren) ← intern st.1 id
    some (ren, st.2 ++ record (.var idx code vlen params))
  | .const code vlen params args => some (st.1, st.2 ++ record (.const code vlen params args))
  | .op code vlen params => some (st.1, st.2 ++ record (.op code vlen params))

variable {lookup intern}

theorem foldlM_encode {fuel : Nat}
    (ih : ∀ id st, encode lookup intern fuel id st =
      (unfold lookup fuel id).bind fun t => t.postOrder.foldlM (emit intern) st)
    (args : List UInt32) (st : σ × List UInt8) :
    args.foldlM (fun st arg => encode lookup intern fuel arg st) st =
      (args.mapM fun arg => unfold lookup fuel arg).bind fun ts =>
        (postOrders ts).foldlM (emit intern) st := by
  induction args generalizing st with
  | nil => rfl
  | cons arg args iha =>
    rw [List.foldlM_cons, List.mapM_cons, ih]
    cases unfold lookup fuel arg with
    | none => rfl
    | some t =>
      show (t.postOrder.foldlM (emit intern) st).bind _ = _
      cases hts : args.mapM fun arg => unfold lookup fuel arg with
      | none =>
        cases t.postOrder.foldlM (emit intern) st with
        | none => rfl
        | some st' =>
          show args.foldlM _ st' = none
          rw [iha, hts]
          rfl
      | some ts =>
        show _ = (postOrder t ++ postOrders ts).foldlM (emit intern) st
        rw [List.foldlM_append]
        congr 1
        funext st'
        rw [iha, hts]
        rfl

theorem encode_eq (fuel : Nat) (id : UInt32) (st : σ × List UInt8) :
    encode lookup intern fuel id st =
      (unfold lookup fuel id).bind fun t => t.postOrder.foldlM (emit intern) st := by
  induction fuel generalizing id st with
  | zero => rfl
  | succ fuel ih =>
    rw [encode, unfold]
    cases lookup id with
    | none => rfl
    | some e =>
      cases hleaf : isLeaf e with
      | true =>
        cases hvar : isVar e.code with
        | true =>
          simp [hleaf, hvar, labelOf, postOrder, postOrders, emit, record]
        | false => simp [hleaf, hvar, labelOf, postOrder, postOrders, emit, record]
      | false =>
        have hargs := foldlM_encode ih e.args st
        simp only [hleaf, Option.bind_eq_bind, Option.bind_some, Bool.false_eq_true, if_false, hargs]
        cases e.args.mapM fun arg => unfold lookup fuel arg with
        | none => rfl
        | some ts =>
          show _ = (postOrders ts ++ [labelOf id e]).foldlM (emit intern) st
          rw [List.foldlM_append]
          refine congrArg (Option.bind _) (funext fun st' => ?_)
          rw [List.foldlM_cons, labelOf, hleaf]
          rfl

end Walk

/-- The tree of an expression, for every sufficient depth. -/
def Unfolds (lookup : UInt32 → Option BcfExpr) (id : UInt32) (t : Rose (Label UInt32)) : Prop :=
  ∃ n, ∀ m, n ≤ m → unfold lookup m id = some t

section WellFormed
variable {lookup : UInt32 → Option BcfExpr}

def Child (lookup : UInt32 → Option BcfExpr) (a b : UInt32) : Prop :=
  ∃ e, lookup b = some e ∧ isLeaf e = false ∧ a ∈ e.args

/-- References are valid and acyclic, and the argument count fits its byte. -/
structure WellFormed (lookup : UInt32 → Option BcfExpr) : Prop where
  valid : ∀ id a, Child lookup a id → (lookup a).isSome = true
  acyclic : ∀ id, ¬ Relation.TransGen (Child lookup) id id
  short : ∀ id e, lookup id = some e → e.args.length ≤ 255

theorem WellFormed.wellFounded (h : WellFormed lookup) : WellFounded (Child lookup) := by
  have : Finite UInt32 := Finite.of_injective UInt32.toFin fun _ _ he => UInt32.toFin_inj.1 he
  have : Std.Irrefl (Relation.TransGen (Child lookup)) := ⟨h.acyclic⟩
  exact Subrelation.wf Relation.TransGen.single
    (Finite.wellFounded_of_trans_of_irrefl (Relation.TransGen (Child lookup)))

theorem exists_mapM {args : List UInt32} (h : ∀ a ∈ args, ∃ t, Unfolds lookup a t) :
    ∃ n ts, ∀ m, n ≤ m → (args.mapM fun arg => unfold lookup m arg) = some ts := by
  induction args with
  | nil => exact ⟨0, [], fun _ _ => rfl⟩
  | cons a args ih =>
    obtain ⟨t, n, ht⟩ := h a List.mem_cons_self
    obtain ⟨n', ts, hts⟩ := ih fun b hb => h b (List.mem_cons_of_mem a hb)
    refine ⟨max n n', t :: ts, fun m hm => ?_⟩
    rw [List.mapM_cons, ht m (le_of_max_le_left hm), hts m (le_of_max_le_right hm)]
    rfl

theorem WellFormed.exists_unfolds (h : WellFormed lookup) {id : UInt32}
    (hid : (lookup id).isSome = true) : ∃ t, Unfolds lookup id t := by
  induction id using h.wellFounded.induction with
  | _ id ih =>
    obtain ⟨e, he⟩ := Option.isSome_iff_exists.1 hid
    cases hleaf : isLeaf e with
    | true =>
      refine ⟨node (labelOf id e) [], 1, fun m hm => ?_⟩
      obtain ⟨m, rfl⟩ := Nat.exists_eq_add_of_le' hm
      rw [unfold, he]
      simp [hleaf]
    | false =>
      have hchild : ∀ a ∈ e.args, Child lookup a id := fun a ha => ⟨e, he, hleaf, ha⟩
      obtain ⟨n, ts, hts⟩ := exists_mapM fun a ha => ih a (hchild a ha) (h.valid id a (hchild a ha))
      refine ⟨node (labelOf id e) ts, n + 1, fun m hm => ?_⟩
      obtain ⟨m, rfl⟩ := Nat.exists_eq_add_of_le' (Nat.le_trans (Nat.le_add_left 1 n) hm)
      rw [unfold, he]
      simp [hleaf, hts m (Nat.le_of_add_le_add_right hm)]

/-- The bytes of a record say how long it is. -/
def Label.Valid {ι : Type} : Label ι → Prop
  | const _ vlen _ args => vlen.toNat = args.length
  | _ => True

theorem toNat_vlen {e : BcfExpr} (h : e.args.length ≤ 255) : (vlen e).toNat = e.args.length := by
  rw [vlen, UInt8.toNat_ofNat']
  exact Nat.mod_eq_of_lt (by omega)

theorem ranked_of_unfold (h : WellFormed lookup) {fuel : Nat} {id : UInt32}
    {t : Rose (Label UInt32)} (ht : unfold lookup fuel id = some t) :
    Ranked Label.arity t ∧ ∀ l ∈ t.postOrder, l.Valid := by
  induction fuel generalizing id t with
  | zero => cases ht
  | succ fuel ih =>
    obtain ⟨e, he, ht⟩ := Option.bind_eq_some_iff.1 ht
    have hlen := toNat_vlen (h.short id e he)
    cases hleaf : isLeaf e with
    | true =>
      rw [if_pos hleaf, Option.some.injEq] at ht
      subst ht
      rw [labelOf, if_pos hleaf]
      split_ifs
      · exact ⟨.node rfl (by simp), by simp [postOrder, postOrders, Label.Valid]⟩
      · exact ⟨.node rfl (by simp), by simpa [postOrder, postOrders, Label.Valid] using hlen⟩
    | false =>
      rw [if_neg (by rw [hleaf]; exact Bool.false_ne_true)] at ht
      obtain ⟨ts, hts, ht⟩ := Option.bind_eq_some_iff.1 ht
      rw [Option.some.injEq] at ht
      subst ht
      obtain ⟨hlength, hmem⟩ := of_mapM_eq_some hts
      have hchild : ∀ t ∈ ts, Ranked Label.arity t ∧ ∀ l ∈ t.postOrder, l.Valid := by
        intro t ht
        obtain ⟨a, -, ha⟩ := hmem t ht
        exact ih ha
      rw [labelOf, hleaf]
      refine ⟨.node (hlength.trans hlen.symm) fun t ht => (hchild t ht).1, fun l hl => ?_⟩
      rw [postOrder, List.mem_append, postOrders_eq, List.mem_flatMap, List.mem_singleton] at hl
      rcases hl with ⟨t, ht, hl⟩ | rfl
      · exact (hchild t ht).2 l hl
      · trivial

end WellFormed

/-- First-occurrence renamer for variable expr-ids. -/
structure VarRenamer where
  map : FinMap UInt32 UInt32
  next : UInt32

def VarRenamer.new : VarRenamer := { map := FinMap.empty, next := 0 }

def VarRenamer.intern (r : VarRenamer) (exprId : UInt32) : UInt32 × VarRenamer :=
  match r.map.find exprId with
  | some idx => (idx, r)
  | none => (r.next, { map := r.map.insert exprId r.next, next := r.next + 1 })

def slotIndexFrom : List BcfExpr → UInt32 → Nat → FinMap UInt32 Nat → FinMap UInt32 Nat
  | [], _, _, m => m
  | e :: es, slot, i, m =>
    slotIndexFrom es (slot + (1 + UInt32.ofNat e.args.length)) (i + 1) (m.insert slot i)

def slotIndex (exprs : List BcfExpr) : FinMap UInt32 Nat := slotIndexFrom exprs 0 0 FinMap.empty

def exprAt (exprs : List BcfExpr) (id : UInt32) : Option BcfExpr := do
  let i ← (slotIndex exprs).find id
  exprs[i]?

def hashInput (exprs : List BcfExpr) (fuel : Nat) (root : UInt32) : Option (List UInt8) :=
  (encode (exprAt exprs) (fun r id => some (r.intern id)) fuel root (VarRenamer.new, [])).map
    Prod.snd

def hashExpr (sipHash24 : List UInt8 → UInt64) (exprs : List BcfExpr) (fuel : Nat)
    (root : UInt32) : Option UInt64 :=
  (hashInput exprs fuel root).map sipHash24

end ZoneVerifier.CanonicalHash
