import ZoneVerifier.BitTerm
import ZoneVerifier.Fallible
import ZoneVerifier.Symbolic

/-!
# The query for the solver

`encode` turns the path conditions and the refinement condition of a symbolic
state into one assertion (`refinement/smtlib.rs`), a term whose variables are
named by their slots. An expression that cannot be rendered is an error. Fuel
bounds the depth, since a table may refer to itself. `Evaluates` is the meaning
of a slot: its term has that value.
-/

set_option autoImplicit false

namespace ZoneVerifier.Smtlib
open BitTerm Symbolic
open CanonicalHash (BcfExpr bcfBv bcfVal bcfVar bcfOpMask)

def exprType (code : UInt8) : UInt8 := code &&& bcfTypeMask

def exprOp (code : UInt8) : UInt8 := code &&& bcfOpMask

/-- `bv_width`, `extract_end`: the low byte of the parameters. -/
def lowByte (params : UInt16) : Nat := (params &&& 0xff).toNat

/-- `ext_len`, `extract_start`: the high byte of the parameters. -/
def highByte (params : UInt16) : Nat := ((params >>> 8) &&& 0xff).toNat

def bvAluSmtOp (op : UInt8) : Option BinOp :=
  if op = 0x00 then some .add
  else if op = 0x10 then some .sub
  else if op = 0x20 then some .mul
  else if op = 0x30 then some .udiv
  else if op = 0x40 then some .or
  else if op = 0x50 then some .and
  else if op = 0x60 then some .shl
  else if op = 0x70 then some .lshr
  else if op = 0x90 then some .urem
  else if op = 0xa0 then some .xor
  else if op = 0xc0 then some .ashr
  else none

def bvPredSmtOp (op : UInt8) : Option Pred :=
  if op = 0x10 then some .eq
  else if op = 0x50 then some .distinct
  else if op = 0x20 then some .ugt
  else if op = 0x30 then some .uge
  else if op = 0xa0 then some .ult
  else if op = 0xb0 then some .ule
  else if op = 0x60 then some .sgt
  else if op = 0x70 then some .sge
  else if op = 0xc0 then some .slt
  else if op = 0xd0 then some .sle
  else none

section Render
variable (sub : UInt32 → Option (Term UInt32))

def renderUnary (e : BcfExpr) (f : Term UInt32 → Term UInt32) : Option (Term UInt32) :=
  match e.args with
  | [a] => (sub a).map f
  | _ => none

def renderBinary (e : BcfExpr) (f : Term UInt32 → Term UInt32 → Term UInt32) :
    Option (Term UInt32) :=
  match e.args with
  | [a, b] => (sub a).bind fun x => (sub b).map fun y => f x y
  | _ => none

def renderNary (e : BcfExpr) (f : List (Term UInt32) → Term UInt32) : Option (Term UInt32) :=
  if e.args.isEmpty then none else (e.args.mapM sub).map f

def renderVal (e : BcfExpr) : Option (Term UInt32) :=
  let width := lowByte e.params
  if width = 0 ∨ 64 < width then none
  else
    match e.args with
    | [lo] => some (.lit width (lo.toNat % 2^width))
    | [lo, hi] => some (.lit width ((lo.toNat + hi.toNat * 2^32) % 2^width))
    | _ => none

def renderBv (idx : UInt32) (e : BcfExpr) : Option (Term UInt32) :=
  let op := exprOp e.code
  if op = bcfVar then some (.var idx e.params.toNat)
  else if op = bcfVal then renderVal e
  else if op = bcfZeroExtend then renderUnary sub e (.zeroExtend (highByte e.params))
  else if op = bcfSignExtend then renderUnary sub e (.signExtend (highByte e.params))
  else if op = bcfExtract then
    renderUnary sub e (.extract (highByte e.params) (lowByte e.params))
  else if op = 0x78 then renderUnary sub e .bvnot
  else if op = 0x98 then renderNary sub e .concat
  else if op = 0x80 then renderUnary sub e .bvneg
  else (bvAluSmtOp op).bind fun alu => renderBinary sub e (.bin alu)

/-- No variable of boolean type is ever declared, so rendering one fails. -/
def renderBool (e : BcfExpr) : Option (Term UInt32) :=
  let op := exprOp e.code
  if op = bcfVal then some (.truth (e.params &&& 1 == 1))
  else if op = bcfVar then none
  else if op = bcfConj then renderNary sub e .conj
  else if op = bcfDisj then renderNary sub e .disj
  else if op = 0x90 then renderNary sub e .implies
  else if op = 0x80 then renderUnary sub e .not
  else (bvPredSmtOp op).bind fun p => renderBinary sub e (.pred p)

def renderNode (idx : UInt32) (e : BcfExpr) : Option (Term UInt32) :=
  if exprType e.code = bcfBv then renderBv sub idx e
  else if exprType e.code = bcfBool then renderBool sub e
  else none

end Render

def render (lookup : UInt32 → Option BcfExpr) : Nat → UInt32 → Option (Term UInt32)
  | 0, _ => none
  | fuel + 1, idx => (lookup idx).bind fun e => renderNode (render lookup fuel) idx e

/-- The single assertion, nested as the goal expression is. -/
def assertion : List (Term UInt32) → Option (Term UInt32) → Term UInt32
  | [], none => .truth true
  | [], some rc => rc
  | [c], none => c
  | [c], some rc => .conj [c, rc]
  | cs, none => .conj cs
  | cs, some rc => .conj [.conj cs, rc]

def encode (fuel : Nat) (s : SymbolicState) : Option (Term UInt32) :=
  (s.pathConds.mapM fun c => render (exprAt s.exprs) fuel c.expr).bind fun cs =>
    match s.refineCond with
    | none => some (assertion cs none)
    | some rc => (render (exprAt s.exprs) fuel rc).map fun t => assertion cs (some t)

theorem ite_mono {α : Type} {p : Prop} [Decidable p] {a a' b b' : Option α} {t : α}
    (ha : a = some t → a' = some t) (hb : b = some t → b' = some t) :
    (if p then a else b) = some t → (if p then a' else b') = some t := by
  split_ifs
  · exact ha
  · exact hb

section Mono
variable {f g : UInt32 → Option (Term UInt32)} (h : ∀ a t, f a = some t → g a = some t)
variable {e : BcfExpr} {t : Term UInt32}
include h

theorem renderUnary_mono {k : Term UInt32 → Term UInt32} (ht : renderUnary f e k = some t) :
    renderUnary g e k = some t := by
  unfold renderUnary at ht ⊢
  split at ht
  · obtain ⟨x, hx, rfl⟩ := Option.map_eq_some_iff.1 ht
    rw [h _ _ hx, Option.map_some]
  · cases ht

theorem renderBinary_mono {k : Term UInt32 → Term UInt32 → Term UInt32}
    (ht : renderBinary f e k = some t) : renderBinary g e k = some t := by
  unfold renderBinary at ht ⊢
  split at ht
  · obtain ⟨x, hx, ht⟩ := Option.bind_eq_some_iff.1 ht
    obtain ⟨y, hy, rfl⟩ := Option.map_eq_some_iff.1 ht
    rw [h _ _ hx, Option.bind_some, h _ _ hy, Option.map_some]
  · cases ht

theorem mapM_mono {as : List UInt32} {ts : List (Term UInt32)} (ht : as.mapM f = some ts) :
    as.mapM g = some ts := by
  induction as generalizing ts with
  | nil => exact ht
  | cons a as ih =>
    simp only [List.mapM_cons, Option.bind_eq_bind, Option.bind_eq_some_iff] at ht ⊢
    obtain ⟨x, hx, xs, hxs, hts⟩ := ht
    exact ⟨x, h _ _ hx, xs, ih hxs, hts⟩

theorem renderNary_mono {k : List (Term UInt32) → Term UInt32} (ht : renderNary f e k = some t) :
    renderNary g e k = some t := by
  unfold renderNary at ht ⊢
  split_ifs at ht ⊢
  obtain ⟨ts, hts, rfl⟩ := Option.map_eq_some_iff.1 ht
  rw [mapM_mono h hts, Option.map_some]

theorem renderBv_mono {idx : UInt32} : renderBv f idx e = some t → renderBv g idx e = some t := by
  apply ite_mono id
  apply ite_mono id
  iterate 4 apply ite_mono (renderUnary_mono h)
  apply ite_mono (renderNary_mono h)
  apply ite_mono (renderUnary_mono h)
  intro ht
  obtain ⟨op, hop, ht⟩ := Option.bind_eq_some_iff.1 ht
  rw [hop, Option.bind_some]
  exact renderBinary_mono h ht

theorem renderBool_mono : renderBool f e = some t → renderBool g e = some t := by
  apply ite_mono id
  apply ite_mono id
  iterate 3 apply ite_mono (renderNary_mono h)
  apply ite_mono (renderUnary_mono h)
  intro ht
  obtain ⟨op, hop, ht⟩ := Option.bind_eq_some_iff.1 ht
  rw [hop, Option.bind_some]
  exact renderBinary_mono h ht

theorem renderNode_mono {idx : UInt32} :
    renderNode f idx e = some t → renderNode g idx e = some t := by
  apply ite_mono (renderBv_mono h)
  apply ite_mono (renderBool_mono h)
  exact id

end Mono

section Evaluates
variable {lookup lookup' : UInt32 → Option BcfExpr}

theorem render_mono (hl : ∀ i e, lookup i = some e → lookup' i = some e) {m n : Nat} (hmn : m ≤ n)
    {idx : UInt32} {t : Term UInt32} (h : render lookup m idx = some t) :
    render lookup' n idx = some t := by
  induction m generalizing n idx t with
  | zero => cases h
  | succ m ih =>
    obtain ⟨n, rfl⟩ : ∃ k, n = k + 1 := ⟨n - 1, by omega⟩
    rw [render] at h ⊢
    obtain ⟨e, he, ht⟩ := Option.bind_eq_some_iff.1 h
    rw [hl idx e he, Option.bind_some]
    exact renderNode_mono (fun a u hu => ih (by omega) hu) ht

/-- The term below a slot has this value. -/
def Evaluates (lookup : UInt32 → Option BcfExpr) (σ : UInt32 → Nat) (idx : UInt32) (v : Value) :
    Prop := ∃ fuel t, render lookup fuel idx = some t ∧ t.eval σ = some v

variable {σ : UInt32 → Nat} {idx : UInt32} {v : Value}

theorem Evaluates.mono (h : Evaluates lookup σ idx v)
    (hl : ∀ i e, lookup i = some e → lookup' i = some e) : Evaluates lookup' σ idx v := by
  obtain ⟨fuel, t, ht, hv⟩ := h
  exact ⟨fuel, t, render_mono hl le_rfl ht, hv⟩

theorem Evaluates.unique {w : Value} (h : Evaluates lookup σ idx v)
    (h' : Evaluates lookup σ idx w) : v = w := by
  obtain ⟨m, t, ht, hv⟩ := h
  obtain ⟨n, u, hu, hw⟩ := h'
  have ht' := render_mono (fun _ _ => id) (le_max_left m n) ht
  have hu' := render_mono (fun _ _ => id) (le_max_right m n) hu
  rw [ht', Option.some.injEq] at hu'
  rw [hu', hw, Option.some.injEq] at hv
  exact hv.symm

theorem Evaluates.node (h : Evaluates lookup σ idx v) {e : BcfExpr} (he : lookup idx = some e) :
    ∃ fuel t, renderNode (render lookup fuel) idx e = some t ∧ t.eval σ = some v := by
  obtain ⟨fuel, t, ht, hv⟩ := h
  cases fuel with
  | zero => cases ht
  | succ fuel =>
    rw [render, he, Option.bind_some] at ht
    exact ⟨fuel, t, ht, hv⟩

theorem Evaluates.unary {e : BcfExpr} {f : Term UInt32 → Term UInt32}
    (h : Evaluates lookup σ idx v) (he : lookup idx = some e)
    (hf : ∀ sub, renderNode sub idx e = renderUnary sub e f) :
    ∃ a t, e.args = [a] ∧ (f t).eval σ = some v ∧
      ∀ u, t.eval σ = some u → Evaluates lookup σ a u := by
  obtain ⟨fuel, t, ht, hv⟩ := h.node he
  rw [hf, renderUnary] at ht
  split at ht
  · rename_i a ha
    obtain ⟨x, hx, rfl⟩ := Option.map_eq_some_iff.1 ht
    exact ⟨a, x, ha, hv, fun u hu => ⟨fuel, x, hx, hu⟩⟩
  · cases ht

theorem Evaluates.binary {e : BcfExpr} {f : Term UInt32 → Term UInt32 → Term UInt32}
    (h : Evaluates lookup σ idx v) (he : lookup idx = some e) {a b : UInt32}
    (hargs : e.args = [a, b]) (hf : ∀ sub, renderNode sub idx e = renderBinary sub e f) :
    ∃ t u, (f t u).eval σ = some v ∧ (∀ x, t.eval σ = some x → Evaluates lookup σ a x) ∧
      ∀ x, u.eval σ = some x → Evaluates lookup σ b x := by
  obtain ⟨fuel, t, ht, hv⟩ := h.node he
  rw [hf, renderBinary, hargs] at ht
  obtain ⟨x, hx, ht⟩ := Option.bind_eq_some_iff.1 ht
  obtain ⟨y, hy, rfl⟩ := Option.map_eq_some_iff.1 ht
  exact ⟨x, y, hv, fun u hu => ⟨fuel, x, hx, hu⟩, fun u hu => ⟨fuel, y, hy, hu⟩⟩

end Evaluates

section Nodes
variable {lookup : UInt32 → Option BcfExpr} {σ : UInt32 → Nat} {idx a b : UInt32} {v : Value}
variable {e : BcfExpr} {w : Nat}

/-- The width of the comparisons. -/
def bits (bit32 : Bool) : Nat := if bit32 then 32 else 64

theorem renderNode_bv (h : exprType e.code = bcfBv) (sub : UInt32 → Option (Term UInt32)) :
    renderNode sub idx e = renderBv sub idx e :=
  if_pos h

theorem renderNode_bool (h : exprType e.code = bcfBool) (sub : UInt32 → Option (Term UInt32)) :
    renderNode sub idx e = renderBool sub e := by
  rw [renderNode, if_neg (by rw [h]; decide), if_pos h]

theorem renderNode_val (h : e.code = bcfVal ||| bcfBv) (sub : UInt32 → Option (Term UInt32)) :
    renderNode sub idx e = renderVal e := by
  rw [renderNode_bv (by rw [h]; decide), renderBv, h, if_neg (by decide), if_pos (by decide)]

/-- The operators of predicates, apart from the boolean connectives. -/
def IsPred (op : UInt8) (p : Pred) : Prop :=
  exprType (op ||| bcfBool) = bcfBool ∧ exprOp (op ||| bcfBool) = op ∧
    op ∉ [bcfVal, bcfVar, bcfConj, bcfDisj, 0x90, 0x80] ∧ bvPredSmtOp op = some p

instance (op : UInt8) (p : Pred) : Decidable (IsPred op p) := inferInstanceAs (Decidable (_ ∧ _))

theorem renderNode_bvPred {op : UInt8} {p : Pred} (h : IsPred op p)
    (sub : UInt32 → Option (Term UInt32)) :
    renderNode sub idx (bvPred op a b) = renderBinary sub (bvPred op a b) (.pred p) := by
  obtain ⟨htype, hop, hne, hp⟩ := h
  simp only [List.mem_cons, not_or] at hne
  obtain ⟨h1, h2, h3, h4, h5, h6, -⟩ := hne
  rw [renderNode_bool htype, renderBool]
  simp only [bvPred, hop, if_neg h1, if_neg h2, if_neg h3, if_neg h4, if_neg h5, if_neg h6, hp,
    Option.bind_some]

theorem renderVal_bvVal32 (imm : UInt32) :
    renderVal (bvVal32 imm) = some (.lit 32 (imm.toNat % 2^32)) := by
  have hwidth : lowByte 32 = 32 := by decide
  simp [renderVal, bvVal32, hwidth]

theorem renderVal_bvVal64 (imm : Nat) : renderVal (bvVal64 imm) = some (.lit 64
    (((UInt32.ofNat imm).toNat + (UInt32.ofNat (imm / 2^32)).toNat * 2^32) % 2^64)) := by
  have hwidth : lowByte 64 = 64 := by decide
  simp [renderVal, bvVal64, hwidth]

theorem evaluates_bvVal32 {imm : UInt32} (he : lookup idx = some (bvVal32 imm))
    (h : Evaluates lookup σ idx v) : v = .bv (BitVec.ofNat 32 imm.toNat) := by
  obtain ⟨fuel, t, ht, hv⟩ := h.node he
  rw [renderNode_val rfl, renderVal_bvVal32, Option.some.injEq] at ht
  rw [← ht, Term.eval, Option.some.injEq] at hv
  rw [← hv]
  congr 1
  exact BitVec.eq_of_toNat_eq (by simp)

theorem evaluates_bvVal {val : Nat} {bit32 : Bool} (he : lookup idx = some (bvVal val bit32))
    (h : Evaluates lookup σ idx v) : v = .bv (BitVec.ofNat (bits bit32) val) := by
  cases bit32 with
  | true =>
    rw [evaluates_bvVal32 he h]
    show Value.bv _ = Value.bv (BitVec.ofNat 32 val)
    congr 1
    exact BitVec.eq_of_toNat_eq (by simp)
  | false =>
    obtain ⟨fuel, t, ht, hv⟩ := h.node he
    rw [bvVal, if_neg Bool.false_ne_true, renderNode_val rfl, renderVal_bvVal64,
      Option.some.injEq] at ht
    rw [← ht, Term.eval, Option.some.injEq] at hv
    rw [← hv]
    show Value.bv _ = Value.bv (BitVec.ofNat 64 val)
    congr 1
    apply BitVec.eq_of_toNat_eq
    rw [BitVec.toNat_ofNat, BitVec.toNat_ofNat, UInt32.toNat_ofNat', UInt32.toNat_ofNat']
    omega

theorem evaluates_bvPred {op : UInt8} {p : Pred} (hop : IsPred op p)
    (he : lookup idx = some (bvPred op a b)) (h : Evaluates lookup σ idx v) :
    ∃ w, ∃ x y : BitVec w, Evaluates lookup σ a (.bv x) ∧ Evaluates lookup σ b (.bv y) ∧
      v = .bool (p.eval x y) := by
  obtain ⟨t, u, hv, ha, hb⟩ := h.binary he rfl (renderNode_bvPred hop)
  obtain ⟨w, x, y, hx, hy, rfl⟩ := Term.bind_binary hv
  exact ⟨w, x, y, ha _ hx, hb _ hy, rfl⟩

theorem renderNode_add {width : UInt16} (sub : UInt32 → Option (Term UInt32)) :
    renderNode sub idx (bvAlu bpfAdd a b width) =
      renderBinary sub (bvAlu bpfAdd a b width) (.bin .add) := by
  have hcode : (bvAlu bpfAdd a b width).code = bpfAdd ||| bcfBv := rfl
  have halu : bvAluSmtOp (exprOp (bpfAdd ||| bcfBv)) = some .add := by decide
  rw [renderNode_bv (by rw [hcode]; decide), renderBv, hcode, if_neg (by decide),
    if_neg (by decide), if_neg (by decide), if_neg (by decide), if_neg (by decide),
    if_neg (by decide), if_neg (by decide), if_neg (by decide), halu, Option.bind_some]

theorem evaluates_add {width : UInt16} (he : lookup idx = some (bvAlu bpfAdd a b width))
    (h : Evaluates lookup σ idx v) :
    ∃ w, ∃ x y : BitVec w, Evaluates lookup σ a (.bv x) ∧ Evaluates lookup σ b (.bv y) ∧
      v = .bv (x + y) := by
  obtain ⟨t, u, hv, ha, hb⟩ := h.binary he rfl renderNode_add
  obtain ⟨w, x, y, hx, hy, rfl⟩ := Term.bind_binary hv
  exact ⟨w, x, y, ha _ hx, hb _ hy, rfl⟩

theorem evaluates_disj_false (he : lookup idx = some (predDisj [a, b]))
    (h : Evaluates lookup σ idx (.bool false)) :
    Evaluates lookup σ a (.bool false) ∧ Evaluates lookup σ b (.bool false) := by
  obtain ⟨fuel, t, ht, hv⟩ := h.node he
  have hcode : (predDisj [a, b]).code = bcfDisj ||| bcfBool := rfl
  rw [renderNode_bool (by rw [hcode]; decide), renderBool, hcode, if_neg (by decide),
    if_neg (by decide), if_neg (by decide), if_pos (by decide), renderNary,
    if_neg (show ¬ (predDisj [a, b]).args.isEmpty = true from Bool.false_ne_true)] at ht
  obtain ⟨ts, hts, rfl⟩ := Option.map_eq_some_iff.1 ht
  simp only [predDisj, List.mapM_cons, List.mapM_nil, Option.bind_eq_bind,
    Option.bind_eq_some_iff, Option.pure_def, Option.some.injEq] at hts
  obtain ⟨x, hx, _, ⟨y, hy, _, rfl, rfl⟩, rfl⟩ := hts
  obtain ⟨hfa, hfb⟩ := Term.eval_of_disj_false hv
  exact ⟨⟨fuel, x, hx, hfa⟩, ⟨fuel, y, hy, hfb⟩⟩

/-- Whichever conditions hold, a false assertion has a false refinement condition. -/
theorem assertion_false {cs : List (Term UInt32)} {rc : Term UInt32}
    (h : (assertion cs (some rc)).eval σ = some (.bool false))
    (hcs : ∀ t ∈ cs, t.eval σ = some (.bool true)) : rc.eval σ = some (.bool false) := by
  cases cs with
  | nil => exact h
  | cons c cs =>
    cases cs with
    | nil => exact Term.eval_of_conj_false h (hcs c List.mem_cons_self)
    | cons d cs => exact Term.eval_of_conj_false h (Term.eval_conj_true_iff.2 hcs)

/-- `expr32` where the comparisons have 32 bits, and nothing to do otherwise. -/
def Peeled (lookup : UInt32 → Option BcfExpr) (bit32 : Bool) (slot peeled : UInt32) : Prop :=
  match bit32 with
  | false => peeled = slot
  | true => ∃ e, lookup slot = some e ∧
      (isExt32To64 e = true ∧ peeled = e.args.headD 0 ∨
        (e.code = bcfVal ||| bcfBv ∧ e.params = 64) ∧
          lookup peeled = some (bvVal32 (e.args.headD 0)) ∨
        lookup peeled = some (bvExtract 32 slot))

theorem bv_inj {x y : BitVec w} (h : Value.bv x = Value.bv y) : x = y := by
  cases h
  rfl

theorem renderNode_ext (idx : UInt32) (h : isExt32To64 e = true) :
    (∀ sub, renderNode sub idx e = renderUnary sub e (.zeroExtend 32)) ∨
      ∀ sub, renderNode sub idx e = renderUnary sub e (.signExtend 32) := by
  simp only [isExt32To64, Bool.and_eq_true, Bool.or_eq_true, beq_iff_eq] at h
  obtain ⟨⟨htype, hop⟩, hparams⟩ := h
  have hlen : highByte e.params = 32 := by
    rw [hparams]
    decide
  rcases hop with hop | hop
  · refine Or.inl fun sub => ?_
    rw [renderNode_bv htype, renderBv, exprOp, hop, hlen, if_neg (by decide), if_neg (by decide),
      if_pos rfl]
  · refine Or.inr fun sub => ?_
    rw [renderNode_bv htype, renderBv, exprOp, hop, hlen, if_neg (by decide), if_neg (by decide),
      if_neg (by decide), if_pos rfl]

theorem unary_eq_some {w' : Nat → Nat} {f : ∀ w, BitVec w → BitVec (w' w)} {u : Value}
    (h : Value.unary f u = some v) : ∃ w, ∃ x : BitVec w, u = .bv x ∧ v = .bv (f w x) := by
  cases u with
  | bool => cases h
  | @bv w x => exact ⟨w, x, rfl, (Option.some.inj h).symm⟩

theorem evaluates_ext (hext : isExt32To64 e = true) (he : lookup idx = some e) {x : BitVec w}
    (h : Evaluates lookup σ idx (.bv x)) :
    ∃ k, ∃ z : BitVec k, Evaluates lookup σ (e.args.headD 0) (.bv z) ∧ w = k + 32 ∧
      z = x.setWidth k := by
  rcases renderNode_ext idx hext with hf | hf
  all_goals
    obtain ⟨a, t, hargs, hv, ha⟩ := h.unary he hf
    rw [Term.eval, Option.bind_eq_some_iff] at hv
    obtain ⟨u, hu, hv⟩ := hv
    obtain ⟨k, z, rfl, hx⟩ := unary_eq_some hv
    cases hx
    refine ⟨k, z, by rw [hargs]; exact ha _ hu, rfl, ?_⟩
  · simp
  · apply BitVec.eq_of_getLsbD_eq
    intro i hi
    rw [BitVec.getLsbD_setWidth, BitVec.getLsbD_signExtend, if_pos hi]
    simp [hi, Nat.lt_add_right 32 hi]

theorem evaluates_val (hcode : e.code = bcfVal ||| bcfBv) (hparams : e.params = 64)
    (he : lookup idx = some e) (h : Evaluates lookup σ idx v) :
    ∃ x : BitVec 64, v = .bv x ∧ x.setWidth 32 = BitVec.ofNat 32 (e.args.headD 0).toNat := by
  obtain ⟨fuel, t, ht, hv⟩ := h.node he
  have hwidth : lowByte e.params = 64 := by
    rw [hparams]
    decide
  rw [renderNode_val hcode, renderVal, hwidth, if_neg (by decide)] at ht
  have hlit : ∃ n, t = .lit 64 n ∧ n % 2^32 = (e.args.headD 0).toNat % 2^32 := by
    split at ht
    · rename_i lo hargs
      exact ⟨_, (Option.some.inj ht).symm, by rw [hargs, List.headD_cons]; omega⟩
    · rename_i lo hi hargs
      exact ⟨_, (Option.some.inj ht).symm, by rw [hargs, List.headD_cons]; omega⟩
    · cases ht
  obtain ⟨n, rfl, hn⟩ := hlit
  rw [Term.eval, Option.some.injEq] at hv
  refine ⟨_, hv.symm, BitVec.eq_of_toNat_eq ?_⟩
  rw [BitVec.toNat_setWidth, BitVec.toNat_ofNat, BitVec.toNat_ofNat]
  omega

theorem renderNode_extract (sub : UInt32 → Option (Term UInt32)) :
    renderNode sub idx (bvExtract 32 a) = renderUnary sub (bvExtract 32 a) (.extract 31 0) := by
  have hcode : (bvExtract 32 a).code = bcfExtract ||| bcfBv := rfl
  have hhi : highByte (bvExtract 32 a).params = 31 := by
    show highByte (((32 : UInt16) - 1) <<< 8) = 31
    decide
  have hlo : lowByte (bvExtract 32 a).params = 0 := by
    show lowByte (((32 : UInt16) - 1) <<< 8) = 0
    decide
  rw [renderNode_bv (by rw [hcode]; decide), renderBv, hcode, if_neg (by decide),
    if_neg (by decide), if_neg (by decide), if_neg (by decide), if_pos (by decide), hhi, hlo]

theorem evaluates_extract (he : lookup idx = some (bvExtract 32 a))
    (h : Evaluates lookup σ idx v) :
    ∃ w, ∃ x : BitVec w, Evaluates lookup σ a (.bv x) ∧ 32 ≤ w ∧ v = .bv (x.setWidth 32) := by
  obtain ⟨a', t, hargs, hv, ha⟩ := h.unary he renderNode_extract
  cases hargs
  rw [Term.eval, Option.bind_eq_some_iff] at hv
  obtain ⟨u, hu, hv⟩ := hv
  cases u with
  | bool => cases hv
  | @bv w x =>
    rw [Value.slice] at hv
    split_ifs at hv with hw
    refine ⟨w, x, ha _ hu, hw.2, ?_⟩
    rw [← Option.some.inj hv]
    congr 1
    apply BitVec.eq_of_toNat_eq
    simp

theorem Peeled.value {bit32 : Bool} {slot peeled : UInt32} (h : Peeled lookup bit32 slot peeled)
    {x : BitVec w} {y : BitVec (bits bit32)} (hx : Evaluates lookup σ slot (.bv x))
    (hy : Evaluates lookup σ peeled (.bv y)) :
    bits bit32 ≤ w ∧ y = x.setWidth (bits bit32) := by
  cases bit32 with
  | false =>
    cases h
    cases hx.unique hy
    exact ⟨le_rfl, (BitVec.setWidth_eq _).symm⟩
  | true =>
    obtain ⟨e, he, ⟨hext, rfl⟩ | ⟨⟨hcode, hparams⟩, hval⟩ | hextract⟩ := h
    · obtain ⟨k, z, hz, rfl, hzx⟩ := evaluates_ext hext he hx
      cases hz.unique hy
      exact ⟨Nat.le_add_right _ _, hzx⟩
    · obtain ⟨z, hz, hlow⟩ := evaluates_val hcode hparams he hx
      cases hz
      have hv := evaluates_bvVal32 hval hy
      rw [← hlow] at hv
      exact ⟨by decide, bv_inj hv⟩
    · obtain ⟨k, z, hz, hk, hv⟩ := evaluates_extract hextract hy
      cases hx.unique hz
      exact ⟨hk, bv_inj hv⟩

end Nodes
end ZoneVerifier.Smtlib
