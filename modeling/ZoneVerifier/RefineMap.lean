import ZoneVerifier.Numeric
import ZoneVerifier.Smtlib
import ZoneVerifier.Word

/-!
# Refining a rejected map access

`try_refine_map_access` asks the solver to refute that a rejected access is out
of bounds (`refinement/refine_map.rs`). The condition compares the variable part
of pointer and size with a threshold, in 32 bits where the registers fit them
and in 64 bits otherwise. The solver is a parameter.
-/

set_option autoImplicit false

namespace ZoneVerifier.RefineMap
open Word Ast Numeric BitTerm Symbolic Smtlib Truncation
open CanonicalHash (BcfExpr isVar hashExpr)

/-- The fields of the state the refinement reads. -/
structure RefineState where
  domain : NumericDomain
  bcf : Option SymbolicState
  ptrConstOff : Reg → Option Int
  varOffContributor : Reg → Option Reg

structure Request where
  base : Reg
  insnOff : Int
  size : Int
  mapLimit : UInt32
  sizeReg : Option Reg
  basePc : Option Nat
  skipHashes : Option (List UInt64)

structure RegBounds where
  constVal : Option Nat
  smin : Int
  smax : Int
  umin : Nat
  umax : Nat
  s32Min : Int
  s32Max : Int
  u32Min : Nat
  u32Max : Nat

def bcfRegBounds (d : NumericDomain) (reg : Reg) : RegBounds :=
  let smin := (d.getInterval reg).1
  let smax := (d.getInterval reg).2
  let tightS := d.getS32Bounds reg = (-2^31, 2^31 - 1) ∧ -2^31 ≤ smin ∧ smax ≤ 2^31 - 1
  let tightU := d.getU32Bounds reg = (0, 2^32 - 1) ∧ 0 ≤ smin ∧ smax ≤ 2^32 - 1
  { constVal := (d.getFixedValue reg).map toU64
    smin
    smax
    umin := (d.getU64Bounds reg).1
    umax := (d.getU64Bounds reg).2
    s32Min := if tightS then smin else (d.getS32Bounds reg).1
    s32Max := if tightS then smax else (d.getS32Bounds reg).2
    u32Min := if tightU then smin.toNat else (d.getU32Bounds reg).1
    u32Max := if tightU then smax.toNat else (d.getU32Bounds reg).2 }

def RegBounds.fitS32 (b : RegBounds) : Bool :=
  decide (-2^31 ≤ b.smin ∧ b.smax ≤ 2^31 - 1 ∧ b.smin = b.s32Min ∧ b.smax = b.s32Max)

section Code
variable (st : RefineState) (a : Request) (s : SymbolicState)

def bit32 : Bool :=
  match a.sizeReg with
  | some r => (bcfRegBounds st.domain a.base).fitS32 && (bcfRegBounds st.domain r).fitS32
  | none => (bcfRegBounds st.domain a.base).fitS32

def constOff : Int := (st.ptrConstOff a.base).getD 0

def totalOff : Int := wrapI64 (constOff st a + a.insnOff)

def sizeConstVal : Option Int :=
  match a.sizeReg with
  | some r => st.domain.getFixedValue r
  | none => some a.size

def sizeExprCached : Option UInt32 :=
  (a.sizeReg.bind Reg.toIndex).bind s.regExpr

def minOff : Int := satI64 ((st.domain.getInterval a.base).1 + a.insnOff)

def peel (idx : UInt32) : Option (UInt32 × SymbolicState) :=
  if bit32 st a then s.expr32 idx else some (idx, s)

def addThreshold (op : UInt8) (x : UInt32) (thresh : Int) :
    Option (UInt32 × SymbolicState) :=
  (s.pushExpr (bvVal (toU64 thresh) (bit32 st a))).bind fun k => k.2.pushExpr (bvPred op x k.1)

/-- The disjunction with the low side, unless the lower bound is known. -/
def addLowSide (off highPred : UInt32) : Option (UInt32 × SymbolicState) :=
  if minOff st a < 0 then
    (addThreshold st a s bpfJslt off (wrapI64 (0 - totalOff st a))).bind fun low =>
      low.2.pushExpr (predDisj [low.1, highPred])
  else some (highPred, s)

/-- Case (i): the pointer is constant. -/
def refineSize (sizeExpr : UInt32) : Option (UInt32 × SymbolicState) :=
  (peel st a s sizeExpr).bind fun size =>
    addThreshold st a size.2 bpfJgt size.1 (wrapI64 (a.mapLimit.toNat - totalOff st a))

/-- Case (ii): the size is constant. -/
def refineOffset (offExpr : UInt32) (sz : Int) :
    Option (UInt32 × SymbolicState) :=
  (peel st a s offExpr).bind fun off =>
    (addThreshold st a off.2 bpfJsgt off.1
      (wrapI64 (wrapI64 (a.mapLimit.toNat - sz) - totalOff st a))).bind fun high =>
        addLowSide st a high.2 off.1 high.1

/-- Case (iii): both vary. -/
def refineBoth (offExpr sizeExpr : UInt32) :
    Option (UInt32 × SymbolicState) :=
  (peel st a s offExpr).bind fun off =>
    (peel st a off.2 sizeExpr).bind fun size =>
      (size.2.pushExpr (bvAlu bpfAdd off.1 size.1 (if bit32 st a then 32 else 64))).bind fun sum =>
        (addThreshold st a sum.2 bpfJsgt sum.1
          (wrapI64 (a.mapLimit.toNat - totalOff st a))).bind fun high =>
            addLowSide st a high.2 off.1 high.1

def variablePart (varOffExpr : Option UInt32) : Option UInt32 :=
  (st.varOffContributor a.base).bind fun _ => varOffExpr

/-- The condition under which the access is out of bounds; there is none to refine
when both the pointer and the size are constant. -/
def oobCond (varOffExpr : Option UInt32) : Option (UInt32 × SymbolicState) :=
  match variablePart st a varOffExpr, sizeConstVal st a with
  | none, none => (sizeExprCached a s).bind fun size => refineSize st a s size
  | some off, some sz => refineOffset st a s off sz
  | some off, none => (sizeExprCached a s).bind fun size => refineBoth st a s off size
  | none, some _ => none

structure RefineOk where
  proofBytes : List UInt8
  goalRoot : UInt32
  sym : SymbolicState

def keptConds : SymbolicState :=
  match a.basePc with
  | none => s
  | some basePc => s.filterPathCondsFromPc basePc

variable (solve : Term UInt32 → Option (List UInt8)) (sipHash24 : List UInt8 → UInt64) (fuel : Nat)

/-- Whether the goal was already solved; hashing a malformed goal panics. -/
def skipped (goal : UInt32 × SymbolicState) : Option Bool :=
  match a.skipHashes with
  | none => some false
  | some hashes => (hashExpr sipHash24 goal.2.exprs fuel goal.1).map hashes.contains

def discharge (oob : UInt32) (s : SymbolicState) : Option RefineOk :=
  (encode fuel s).bind fun smt =>
    (s.buildGoalRoot oob).bind fun goal =>
      if 128 < goal.2.exprs.countP fun e => isVar e.code then none
      else
        (skipped a sipHash24 fuel goal).bind fun skip =>
          if skip then none
          else (solve smt).map fun bytes =>
            { proofBytes := bytes, goalRoot := goal.1, sym := goal.2 }

def tryRefineMapAccess : Option RefineOk :=
  st.bcf.bind fun bcf =>
    a.base.toIndex.bind fun b =>
      (oobCond st a (keptConds a bcf) (bcf.regExpr b)).bind fun oob =>
        discharge a solve sipHash24 fuel oob.1 (oob.2.setRefineCond oob.1)

end Code

section Meaning
variable (st : RefineState) (a : Request)

def table : List BcfExpr := (st.bcf.map SymbolicState.exprs).getD []

def varExpr : Option UInt32 := st.bcf.bind fun s => a.base.toIndex.bind s.regExpr

def ptrIsVar : Bool := (variablePart st a (varExpr st a)).isSome

/-- The variable part of the pointer: zero without a contributor, and anything
when the contributor's expression is not recorded. -/
def VarPart (σ : UInt32 → Nat) (v : Int) : Prop :=
  match st.varOffContributor a.base, varExpr st a with
  | none, _ => v = 0
  | some _, some idx => ∃ w, ∃ x : BitVec w,
      Evaluates (exprAt (table st)) σ idx (.bv x) ∧ v = x.toInt
  | some _, none => True

def SizePart (σ : UInt32 → Nat) (s : Int) : Prop :=
  match sizeConstVal st a, st.bcf.bind (sizeExprCached a) with
  | some c, _ => s = toU64 c
  | none, some idx => ∃ w, ∃ x : BitVec w,
      Evaluates (exprAt (table st)) σ idx (.bv x) ∧ s = x.toNat
  | none, none => 0 ≤ s

/-- A concrete state in which all recorded path conditions hold. -/
structure Concrete (σ : UInt32 → Nat) (v s : Int) : Prop where
  conds : ∀ bcf, st.bcf = some bcf → ∀ c ∈ bcf.pathConds,
    Evaluates (exprAt bcf.exprs) σ c.expr (.bool true)
  offset : VarPart st a σ v
  size : SizePart st a σ s

def fixedOff : Int := constOff st a + a.insnOff

def InBounds (v s : Int) : Prop :=
  0 ≤ v + fixedOff st a ∧ v + fixedOff st a + s ≤ a.mapLimit.toNat

instance (v s : Int) : Decidable (InBounds st a v s) := inferInstanceAs (Decidable (_ ∧ _))

/-- The words of the comparison, read as signed numbers. -/
def asSigned (x : Int) : Int := x.bmod (2^bits (bit32 st a))

def asUnsigned (x : Int) : Int := x % 2^bits (bit32 st a)

/-- The low side is compared exactly, or not needed. -/
def LowExact (v : Int) : Prop :=
  if minOff st a < 0 then SameTurn (asSigned st a) (-fixedOff st a) v else 0 ≤ v + fixedOff st a

/-- Where the refuted condition is the one that matters: the words that are
compared are on the same turn as the numbers they stand for, and what is not
compared holds. -/
def Exact (v s : Int) : Prop :=
  if ptrIsVar st a then
    LowExact st a v ∧
      match sizeConstVal st a with
      | some _ => SameTurn (asSigned st a) v (a.mapLimit.toNat - s - fixedOff st a)
      | none => SameTurn (asSigned st a) (v + s) (a.mapLimit.toNat - fixedOff st a)
  else
    v = 0 ∧ 0 ≤ fixedOff st a ∧
      SameTurn (asUnsigned st a) s (a.mapLimit.toNat - fixedOff st a)

def Refuted (v s : Int) : Prop :=
  if ptrIsVar st a then
    (minOff st a < 0 → asSigned st a (-fixedOff st a) ≤ asSigned st a v) ∧
      match sizeConstVal st a with
      | some _ => asSigned st a v ≤ asSigned st a (a.mapLimit.toNat - s - fixedOff st a)
      | none => asSigned st a (v + s) ≤ asSigned st a (a.mapLimit.toNat - fixedOff st a)
  else asUnsigned st a s ≤ asUnsigned st a (a.mapLimit.toNat - fixedOff st a)

end Meaning

section Arithmetic
variable {st : RefineState} {a : Request} {v s : Int}

theorem lt_two_pow_bits (b : Bool) : (2:Int)^32 ≤ 2^bits b := by
  cases b <;> decide

theorem residue_asSigned : Residue (2^bits (bit32 st a)) (asSigned st a) := by
  have h := residue_bmod (m := 2^bits (bit32 st a)) (Nat.two_pow_pos _)
  exact h

theorem sameTurn_of_near {r : Int → Int} {x y : Int} (hr : Residue (2^bits (bit32 st a)) r)
    (hle : r x ≤ r y) (hxy : x ≤ y) (hlt : y - x < 2^32) : SameTurn r x y :=
  hr.sameTurn hxy (hlt.trans_le (lt_two_pow_bits _)) hle

theorem lowExact_of_inBounds (hs : 0 ≤ s) (h : InBounds st a v s)
    (hlow : minOff st a < 0 → asSigned st a (-fixedOff st a) ≤ asSigned st a v) :
    LowExact st a v := by
  have hlimit := a.mapLimit.toNat_lt
  obtain ⟨hstart, hstop⟩ := h
  unfold LowExact
  split_ifs with hmin
  · exact sameTurn_of_near residue_asSigned (hlow hmin) (by omega) (by omega)
  · exact hstart

theorem start_of_lowExact (h : LowExact st a v)
    (hlow : minOff st a < 0 → asSigned st a (-fixedOff st a) ≤ asSigned st a v) :
    0 ≤ v + fixedOff st a := by
  unfold LowExact at h
  split_ifs at h with hmin
  · have hle := h.le_iff.1 (hlow hmin)
    omega
  · exact h

theorem inBounds_iff_exact (hs : 0 ≤ s) (h : Refuted st a v s)
    (hv : ptrIsVar st a = false → v = 0) : InBounds st a v s ↔ Exact st a v s := by
  have hlimit := a.mapLimit.toNat_lt
  unfold Refuted at h
  unfold Exact
  cases hptr : ptrIsVar st a with
  | false =>
    have hzero := hv hptr
    simp only [hptr, Bool.false_eq_true, if_false] at h ⊢
    constructor
    · rintro ⟨hstart, hstop⟩
      refine ⟨hzero, by omega, sameTurn_of_near
        (residue_emod (Int.pow_pos (by decide))) h (by omega) (by omega)⟩
    · rintro ⟨-, hstart, hturn⟩
      have hle := hturn.le_iff.1 h
      exact ⟨by omega, by omega⟩
  | true =>
    simp only [hptr, if_true] at h ⊢
    obtain ⟨hlow, hhigh⟩ := h
    cases hsize : sizeConstVal st a with
    | some c | none =>
      simp only [hsize] at hhigh ⊢
      constructor
      · intro hin
        refine ⟨lowExact_of_inBounds hs hin hlow, ?_⟩
        obtain ⟨hstart, hstop⟩ := hin
        exact sameTurn_of_near residue_asSigned hhigh (by omega) (by omega)
      · rintro ⟨hexact, hturn⟩
        have hle := hturn.le_iff.1 hhigh
        exact ⟨start_of_lowExact hexact hlow, by omega⟩

end Arithmetic

variable {idx off sizeExpr offExpr oob : UInt32}

section Build
variable {st : RefineState} {a : Request} {s : SymbolicState} {p : UInt32 × SymbolicState}

structure Extends (s s' : SymbolicState) : Prop where
  exprs : s.exprs <+: s'.exprs
  pathConds : s'.pathConds = s.pathConds

theorem Extends.refl (s : SymbolicState) : Extends s s := ⟨List.prefix_rfl, rfl⟩

theorem Extends.trans {s' s'' : SymbolicState} (h : Extends s s') (h' : Extends s' s'') :
    Extends s s'' := ⟨h.exprs.trans h'.exprs, h'.pathConds.trans h.pathConds⟩

theorem extends_push {e : BcfExpr} (h : s.pushExpr e = some p) :
    Extends s p.2 ∧ ∀ es, p.2.exprs <+: es → exprAt es p.1 = some e := by
  obtain ⟨hat, hexprs, hconds, -⟩ := pushExpr_spec h
  exact ⟨⟨hexprs, hconds⟩, fun es hes => exprAt_of_isPrefix hes hat⟩

theorem extends_peel (h : peel st a s idx = some p) :
    Extends s p.2 ∧ ∀ es, p.2.exprs <+: es → Peeled (exprAt es) (bit32 st a) idx p.1 := by
  unfold peel at h
  cases hb : bit32 st a with
  | false =>
    rw [hb] at h
    cases h
    exact ⟨.refl _, fun es _ => rfl⟩
  | true =>
    rw [hb, if_pos rfl, SymbolicState.expr32, Option.bind_eq_some_iff] at h
    obtain ⟨e, he, h⟩ := h
    split_ifs at h with hext hval
    · cases h
      exact ⟨.refl _, fun es hes => ⟨e, exprAt_of_isPrefix hes he, .inl ⟨hext, rfl⟩⟩⟩
    · obtain ⟨hgrow, hat⟩ := extends_push h
      exact ⟨hgrow, fun es hes =>
        ⟨e, exprAt_of_isPrefix (hgrow.exprs.trans hes) he, .inr (.inl ⟨hval, hat es hes⟩)⟩⟩
    · obtain ⟨hgrow, hat⟩ := extends_push h
      exact ⟨hgrow, fun es hes =>
        ⟨e, exprAt_of_isPrefix (hgrow.exprs.trans hes) he, .inr (.inr (hat es hes))⟩⟩

def Compares (st : RefineState) (a : Request) (es : List BcfExpr) (op : UInt8) (x : UInt32)
    (thresh : Int) (idx : UInt32) : Prop :=
  ∃ k, exprAt es idx = some (bvPred op x k) ∧
    exprAt es k = some (bvVal (toU64 thresh) (bit32 st a))

theorem extends_addThreshold {op : UInt8} {x : UInt32} {thresh : Int}
    (h : addThreshold st a s op x thresh = some p) :
    Extends s p.2 ∧ ∀ es, p.2.exprs <+: es → Compares st a es op x thresh p.1 := by
  obtain ⟨k, hk, h⟩ := Option.bind_eq_some_iff.1 h
  obtain ⟨hgrow, hat⟩ := extends_push hk
  obtain ⟨hgrow', hat'⟩ := extends_push h
  exact ⟨hgrow.trans hgrow', fun es hes => ⟨k.1, hat' es hes, hat es (hgrow'.exprs.trans hes)⟩⟩

theorem extends_addLowSide {high : UInt32} (h : addLowSide st a s off high = some p) :
    Extends s p.2 ∧
      ∀ es, p.2.exprs <+: es → ∀ σ, Evaluates (exprAt es) σ p.1 (.bool false) →
        Evaluates (exprAt es) σ high (.bool false) ∧ (minOff st a < 0 →
          ∃ low, Compares st a es bpfJslt off (wrapI64 (0 - totalOff st a)) low ∧
            Evaluates (exprAt es) σ low (.bool false)) := by
  unfold addLowSide at h
  split_ifs at h with hmin
  · obtain ⟨low, hlow, h⟩ := Option.bind_eq_some_iff.1 h
    obtain ⟨hgrow, hcmp⟩ := extends_addThreshold hlow
    obtain ⟨hgrow', hat⟩ := extends_push h
    refine ⟨hgrow.trans hgrow', fun es hes σ hf => ?_⟩
    obtain ⟨hflow, hfhigh⟩ := evaluates_disj_false (hat es hes) hf
    exact ⟨hfhigh, fun _ => ⟨low.1, hcmp es (hgrow'.exprs.trans hes), hflow⟩⟩
  · cases h
    exact ⟨.refl _, fun es _ σ hf => ⟨hf, fun hneg => absurd hneg hmin⟩⟩

end Build

section Words
variable {st : RefineState} {a : Request}

theorem asSigned_add (x k : Int) : asSigned st a (x + 2^64 * k) = asSigned st a x := by
  unfold asSigned
  cases bit32 st a with
  | false => exact Int.add_mul_bmod_self_left x (2^64) k
  | true =>
    rw [show (2:Int)^64 * k = ((2^32 : Nat) : Int) * (2^32 * k) by push_cast; omega]
    exact Int.add_mul_bmod_self_left x (2^32) _

theorem asUnsigned_add (x k : Int) : asUnsigned st a (x + 2^64 * k) = asUnsigned st a x := by
  unfold asUnsigned
  cases bit32 st a with
  | false => exact Int.add_mul_emod_self_left x (2^64) k
  | true =>
    rw [show (2:Int)^64 * k = 2^32 * (2^32 * k) by omega]
    exact Int.add_mul_emod_self_left x (2^32) _

theorem toInt_ofNat_toU64 (x : Int) :
    (BitVec.ofNat (bits (bit32 st a)) (toU64 x)).toInt = asSigned st a x := by
  obtain ⟨k, hk⟩ := exists_toU64 x
  rw [BitVec.toInt_ofNat', hk]
  exact asSigned_add x k

theorem toNat_ofNat_toU64 (x : Int) :
    ((BitVec.ofNat (bits (bit32 st a)) (toU64 x)).toNat : Int) = asUnsigned st a x := by
  obtain ⟨k, hk⟩ := exists_toU64 x
  rw [BitVec.toNat_ofNat, Int.natCast_emod, hk]
  exact asUnsigned_add x k

section Compares
variable {es : List BcfExpr} {σ : UInt32 → Nat} {x idx : UInt32} {thresh : Int}

theorem Compares.words {op : UInt8} {p : Pred} (hop : IsPred op p) {r : Bool}
    (h : Compares st a es op x thresh idx) (hr : Evaluates (exprAt es) σ idx (.bool r)) :
    ∃ y : BitVec (bits (bit32 st a)), Evaluates (exprAt es) σ x (.bv y) ∧
      r = p.eval y (BitVec.ofNat (bits (bit32 st a)) (toU64 thresh)) := by
  obtain ⟨k, hat, hk⟩ := h
  obtain ⟨w, y, z, hy, hz, heq⟩ := evaluates_bvPred hop hat hr
  cases evaluates_bvVal hk hz
  cases heq
  exact ⟨y, hy, rfl⟩

theorem Compares.jsgt (h : Compares st a es bpfJsgt x thresh idx)
    (hf : Evaluates (exprAt es) σ idx (.bool false)) :
    ∃ y : BitVec (bits (bit32 st a)), Evaluates (exprAt es) σ x (.bv y) ∧
      y.toInt ≤ asSigned st a thresh := by
  obtain ⟨y, hy, hp⟩ := h.words (p := .sgt) (by decide) hf
  refine ⟨y, hy, ?_⟩
  rw [← toInt_ofNat_toU64]
  simpa [Pred.eval, BitVec.slt] using hp.symm

theorem Compares.jslt (h : Compares st a es bpfJslt x thresh idx)
    (hf : Evaluates (exprAt es) σ idx (.bool false)) :
    ∃ y : BitVec (bits (bit32 st a)), Evaluates (exprAt es) σ x (.bv y) ∧
      asSigned st a thresh ≤ y.toInt := by
  obtain ⟨y, hy, hp⟩ := h.words (p := .slt) (by decide) hf
  refine ⟨y, hy, ?_⟩
  rw [← toInt_ofNat_toU64]
  simpa [Pred.eval, BitVec.slt] using hp.symm

theorem Compares.jgt (h : Compares st a es bpfJgt x thresh idx)
    (hf : Evaluates (exprAt es) σ idx (.bool false)) :
    ∃ y : BitVec (bits (bit32 st a)), Evaluates (exprAt es) σ x (.bv y) ∧
      (y.toNat : Int) ≤ asUnsigned st a thresh := by
  obtain ⟨y, hy, hp⟩ := h.words (p := .ugt) (by decide) hf
  refine ⟨y, hy, ?_⟩
  rw [← toNat_ofNat_toU64]
  have hle : y.toNat ≤ (BitVec.ofNat (bits (bit32 st a)) (toU64 thresh)).toNat := by
    simpa only [Pred.eval, BitVec.ult, decide_eq_false_iff_not, not_lt] using hp.symm
  exact_mod_cast hle

end Compares

theorem setWidth_eq_ofInt {w n : Nat} (h : n ≤ w) (x : BitVec w) :
    x.setWidth n = BitVec.ofInt n x.toInt := by
  apply BitVec.eq_of_toInt_eq
  rw [BitVec.toInt_setWidth, BitVec.toInt_ofInt, BitVec.toInt_eq_toNat_bmod,
    Int.bmod_bmod_of_dvd (Nat.pow_dvd_pow 2 h)]

theorem toInt_ofInt_bits (x : Int) :
    (BitVec.ofInt (bits (bit32 st a)) x).toInt = asSigned st a x := BitVec.toInt_ofInt x

theorem toNat_ofInt_bits (x : Int) :
    ((BitVec.ofInt (bits (bit32 st a)) x).toNat : Int) = asUnsigned st a x := by
  have hpow : (0:Int) < 2^bits (bit32 st a) := Int.pow_pos (by decide)
  rw [BitVec.toNat_ofInt, asUnsigned, Nat.cast_pow, Nat.cast_ofNat]
  exact Int.toNat_of_nonneg (Int.emod_nonneg x hpow.ne')

end Words

section Cases
variable {st : RefineState} {a : Request} {s : SymbolicState} {p : UInt32 × SymbolicState}
variable {es : List BcfExpr} {w : Nat} {peeled : UInt32} {σ : UInt32 → Nat}

theorem peeled_signed (hp : Peeled (exprAt es) (bit32 st a) idx peeled)
    {x : BitVec w} {y : BitVec (bits (bit32 st a))} (hx : Evaluates (exprAt es) σ idx (.bv x))
    (hy : Evaluates (exprAt es) σ peeled (.bv y)) : y = BitVec.ofInt _ x.toInt := by
  obtain ⟨hle, rfl⟩ := hp.value hx hy
  exact setWidth_eq_ofInt hle x

theorem peeled_unsigned (hp : Peeled (exprAt es) (bit32 st a) idx peeled)
    {x : BitVec w} {y : BitVec (bits (bit32 st a))} (hx : Evaluates (exprAt es) σ idx (.bv x))
    (hy : Evaluates (exprAt es) σ peeled (.bv y)) : y = BitVec.ofInt _ x.toNat := by
  obtain ⟨-, rfl⟩ := hp.value hx hy
  rw [BitVec.ofInt_natCast, BitVec.ofNat_toNat]

theorem exists_threshold (st : RefineState) (a : Request) (z : Int) :
    ∃ k, wrapI64 (z - totalOff st a) = z - fixedOff st a + 2^64 * k := by
  obtain ⟨k, hk⟩ := exists_wrapI64 (z - totalOff st a)
  obtain ⟨l, hl⟩ := exists_wrapI64 (constOff st a + a.insnOff)
  refine ⟨k - l, ?_⟩
  rw [hk, totalOff, hl, fixedOff]
  omega

theorem low_of_compares {low : UInt32} (hp : Peeled (exprAt es) (bit32 st a) off peeled)
    {x : BitVec w} (hx : Evaluates (exprAt es) σ off (.bv x))
    (hc : Compares st a es bpfJslt peeled (wrapI64 (0 - totalOff st a)) low)
    (hf : Evaluates (exprAt es) σ low (.bool false)) :
    asSigned st a (-fixedOff st a) ≤ asSigned st a x.toInt := by
  obtain ⟨y, hy, hle⟩ := hc.jslt hf
  obtain ⟨k, hk⟩ := exists_threshold st a 0
  rwa [peeled_signed hp hx hy, toInt_ofInt_bits, hk, asSigned_add, zero_sub] at hle

theorem refuted_size (h : refineSize st a s sizeExpr = some p) :
    Extends s p.2 ∧ ∀ es, p.2.exprs <+: es → ∀ σ, Evaluates (exprAt es) σ p.1 (.bool false) →
      ∀ w, ∀ x : BitVec w, Evaluates (exprAt es) σ sizeExpr (.bv x) →
        asUnsigned st a x.toNat ≤ asUnsigned st a (a.mapLimit.toNat - fixedOff st a) := by
  obtain ⟨size, hsize, h⟩ := Option.bind_eq_some_iff.1 h
  obtain ⟨hgrow, hpeel⟩ := extends_peel hsize
  obtain ⟨hgrow', hcmp⟩ := extends_addThreshold h
  refine ⟨hgrow.trans hgrow', fun es hes σ hf w x hx => ?_⟩
  obtain ⟨y, hy, hle⟩ := (hcmp es hes).jgt hf
  obtain ⟨k, hk⟩ := exists_threshold st a a.mapLimit.toNat
  rwa [peeled_unsigned (hpeel es (hgrow'.exprs.trans hes)) hx hy, toNat_ofInt_bits, hk,
    asUnsigned_add] at hle

theorem refuted_offset {sz : Int}
    (h : refineOffset st a s offExpr sz = some p) :
    Extends s p.2 ∧ ∀ es, p.2.exprs <+: es → ∀ σ, Evaluates (exprAt es) σ p.1 (.bool false) →
      ∀ w, ∀ x : BitVec w, Evaluates (exprAt es) σ offExpr (.bv x) →
        (minOff st a < 0 → asSigned st a (-fixedOff st a) ≤ asSigned st a x.toInt) ∧
        asSigned st a x.toInt ≤
          asSigned st a (a.mapLimit.toNat - toU64 sz - fixedOff st a) := by
  obtain ⟨off, hoff, h⟩ := Option.bind_eq_some_iff.1 h
  obtain ⟨high, hhigh, h⟩ := Option.bind_eq_some_iff.1 h
  obtain ⟨hgrow, hpeel⟩ := extends_peel hoff
  obtain ⟨hgrow', hcmp⟩ := extends_addThreshold hhigh
  obtain ⟨hgrow'', hside⟩ := extends_addLowSide h
  refine ⟨(hgrow.trans hgrow').trans hgrow'', fun es hes σ hf w x hx => ?_⟩
  obtain ⟨hfhigh, hflow⟩ := hside es hes σ hf
  have hp := hpeel es ((hgrow'.trans hgrow'').exprs.trans hes)
  refine ⟨fun hmin => ?_, ?_⟩
  · obtain ⟨low, hlow, hf⟩ := hflow hmin
    exact low_of_compares hp hx hlow hf
  · obtain ⟨y, hy, hle⟩ := (hcmp es (hgrow''.exprs.trans hes)).jsgt hfhigh
    obtain ⟨i, hi⟩ := exists_threshold st a (wrapI64 (a.mapLimit.toNat - sz))
    obtain ⟨j, hj⟩ := exists_wrapI64 (a.mapLimit.toNat - sz)
    obtain ⟨m, hm⟩ := exists_toU64 sz
    rwa [peeled_signed hp hx hy, toInt_ofInt_bits, hi, asSigned_add, hj,
      show (a.mapLimit.toNat : Int) - sz + 2^64 * j - fixedOff st a =
        a.mapLimit.toNat - toU64 sz - fixedOff st a + 2^64 * (j + m) by rw [hm]; omega,
      asSigned_add] at hle

theorem refuted_both
    (h : refineBoth st a s offExpr sizeExpr = some p) :
    Extends s p.2 ∧ ∀ es, p.2.exprs <+: es → ∀ σ, Evaluates (exprAt es) σ p.1 (.bool false) →
      ∀ w, ∀ x : BitVec w, Evaluates (exprAt es) σ offExpr (.bv x) →
      ∀ w', ∀ z : BitVec w', Evaluates (exprAt es) σ sizeExpr (.bv z) →
        (minOff st a < 0 → asSigned st a (-fixedOff st a) ≤ asSigned st a x.toInt) ∧
        asSigned st a (x.toInt + z.toNat) ≤
          asSigned st a (a.mapLimit.toNat - fixedOff st a) := by
  obtain ⟨off, hoff, h⟩ := Option.bind_eq_some_iff.1 h
  obtain ⟨size, hsize, h⟩ := Option.bind_eq_some_iff.1 h
  obtain ⟨sum, hsum, h⟩ := Option.bind_eq_some_iff.1 h
  obtain ⟨high, hhigh, h⟩ := Option.bind_eq_some_iff.1 h
  obtain ⟨hgrow1, hpeel⟩ := extends_peel hoff
  obtain ⟨hgrow2, hpeel'⟩ := extends_peel hsize
  obtain ⟨hgrow3, hat⟩ := extends_push hsum
  obtain ⟨hgrow4, hcmp⟩ := extends_addThreshold hhigh
  obtain ⟨hgrow5, hside⟩ := extends_addLowSide h
  have hgrow45 := hgrow4.trans hgrow5
  have hgrow35 := hgrow3.trans hgrow45
  have hgrow25 := hgrow2.trans hgrow35
  refine ⟨hgrow1.trans hgrow25, fun es hes σ hf w x hx w' z hz => ?_⟩
  obtain ⟨hfhigh, hflow⟩ := hside es hes σ hf
  have hp := hpeel es (hgrow25.exprs.trans hes)
  have hp' := hpeel' es (hgrow35.exprs.trans hes)
  refine ⟨fun hmin => ?_, ?_⟩
  · obtain ⟨low, hlow, hf⟩ := hflow hmin
    exact low_of_compares hp hx hlow hf
  · obtain ⟨y, hy, hle⟩ := (hcmp es (hgrow5.exprs.trans hes)).jsgt hfhigh
    obtain ⟨k, u, t, hu, ht, heq⟩ := evaluates_add (hat es (hgrow45.exprs.trans hes)) hy
    cases heq
    obtain ⟨i, hi⟩ := exists_threshold st a a.mapLimit.toNat
    rwa [peeled_signed hp hx hu, peeled_unsigned hp' hz ht, ← BitVec.ofInt_add,
      toInt_ofInt_bits, hi, asSigned_add] at hle

end Cases

variable {sym bcf : SymbolicState}

section Accepted
variable {st : RefineState} {a : Request} {solve : Term UInt32 → Option (List UInt8)}
variable {sipHash24 : List UInt8 → UInt64} {fuel : Nat} {σ : UInt32 → Nat} {v s : Int}
variable {ok : RefineOk}

/-- A solver accepts only formulas that are false under every assignment. -/
def Sound (solve : Term UInt32 → Option (List UInt8)) : Prop :=
  ∀ t bytes, solve t = some bytes → t.Unsatisfiable

theorem encode_eq_some {smt : Term UInt32}
    (h : encode fuel sym = some smt) (hrc : sym.refineCond = some oob) :
    ∃ cs t, sym.pathConds.mapM (fun c => render (exprAt sym.exprs) fuel c.expr) = some cs ∧
      render (exprAt sym.exprs) fuel oob = some t ∧ smt = assertion cs (some t) := by
  obtain ⟨cs, hcs, h⟩ := Option.bind_eq_some_iff.1 h
  rw [hrc] at h
  obtain ⟨t, ht, rfl⟩ := Option.map_eq_some_iff.1 h
  exact ⟨cs, t, hcs, ht, rfl⟩

theorem rendered_true {es : List BcfExpr} {conds : List PathCond} {cs : List (Term UInt32)}
    (h : conds.mapM (fun c => render (exprAt es) fuel c.expr) = some cs)
    (hconds : ∀ c ∈ conds, Evaluates (exprAt es) σ c.expr (.bool true)) :
    ∀ t ∈ cs, t.eval σ = some (.bool true) := by
  intro t ht
  obtain ⟨c, hc, hrender⟩ := (Fallible.of_mapM_eq_some h).2 t ht
  obtain ⟨n, u, hu, htrue⟩ := hconds c hc
  have h1 := render_mono (fun _ _ => id) (le_max_left fuel n) hrender
  have h2 := render_mono (fun _ _ => id) (le_max_right fuel n) hu
  rw [h1, Option.some.injEq] at h2
  rw [h2]
  exact htrue

theorem discharge_false (hsolve : Sound solve)
    (h : discharge a solve sipHash24 fuel oob sym = some ok) (hrc : sym.refineCond = some oob)
    (hconds : ∀ c ∈ sym.pathConds, Evaluates (exprAt sym.exprs) σ c.expr (.bool true)) :
    Evaluates (exprAt sym.exprs) σ oob (.bool false) := by
  obtain ⟨smt, hsmt, h⟩ := Option.bind_eq_some_iff.1 h
  obtain ⟨goal, hgoal, h⟩ := Option.bind_eq_some_iff.1 h
  split_ifs at h with hvars
  obtain ⟨skip, hskip, h⟩ := Option.bind_eq_some_iff.1 h
  split_ifs at h with hs
  obtain ⟨bytes, hbytes, -⟩ := Option.map_eq_some_iff.1 h
  obtain ⟨cs, t, hcs, ht, rfl⟩ := encode_eq_some hsmt hrc
  have hfalse := hsolve _ _ hbytes σ
  exact ⟨fuel, t, ht, assertion_false hfalse (rendered_true hcs hconds)⟩

theorem keptConds_spec (a : Request) (s : SymbolicState) :
    (keptConds a s).exprs = s.exprs ∧ (keptConds a s).regExpr = s.regExpr ∧
      ∀ c ∈ (keptConds a s).pathConds, c ∈ s.pathConds := by
  unfold keptConds
  cases a.basePc with
  | none => exact ⟨rfl, rfl, fun _ => id⟩
  | some pc =>
    exact ⟨exprs_filterPathCondsFromPc s pc, regExpr_filterPathCondsFromPc s pc,
      fun _ => mem_filterPathCondsFromPc⟩

theorem oob_false (hsolve : Sound solve) (hc : Concrete st a σ v s)
    (hbcf : st.bcf = some bcf) {oob : UInt32 × SymbolicState}
    (hgrow : Extends (keptConds a bcf) oob.2)
    (h : discharge a solve sipHash24 fuel oob.1 (oob.2.setRefineCond oob.1) = some ok) :
    Evaluates (exprAt oob.2.exprs) σ oob.1 (.bool false) := by
  obtain ⟨hexprs, -, hmem⟩ := keptConds_spec a bcf
  have hset : (oob.2.setRefineCond oob.1).refineCond = some oob.1 := rfl
  have hconds : ∀ c ∈ oob.2.pathConds, Evaluates (exprAt oob.2.exprs) σ c.expr (.bool true) := by
    intro c hcond
    rw [hgrow.pathConds] at hcond
    have htrue := hc.conds bcf hbcf c (hmem c hcond)
    rw [← hexprs] at htrue
    exact htrue.mono fun _ _ => exprAt_of_isPrefix hgrow.exprs
  have hfalse := discharge_false hsolve h hset hconds
  exact hfalse

theorem evaluates_grown (hbcf : st.bcf = some bcf)
    (hgrow : Extends (keptConds a bcf) sym) {u : Value}
    (h : Evaluates (exprAt (table st)) σ idx u) : Evaluates (exprAt sym.exprs) σ idx u := by
  rw [table, hbcf, Option.map_some, Option.getD_some, ← (keptConds_spec a bcf).1] at h
  exact h.mono fun _ _ => exprAt_of_isPrefix hgrow.exprs

theorem accepted_refuted (hsolve : Sound solve)
    (h : tryRefineMapAccess st a solve sipHash24 fuel = some ok) (hc : Concrete st a σ v s) :
    Refuted st a v s := by
  obtain ⟨bcf, hbcf, h⟩ := Option.bind_eq_some_iff.1 h
  obtain ⟨b, hb, h⟩ := Option.bind_eq_some_iff.1 h
  obtain ⟨oob, hoob, h⟩ := Option.bind_eq_some_iff.1 h
  have hvar : varExpr st a = bcf.regExpr b := by
    rw [varExpr, hbcf, Option.bind_some, hb, Option.bind_some]
  have hcached : st.bcf.bind (sizeExprCached a) = sizeExprCached a bcf := by
    rw [hbcf, Option.bind_some]
  have hsize := hc.size
  rw [SizePart, hcached] at hsize
  rw [oobCond, sizeExprCached, (keptConds_spec a bcf).2.1, ← sizeExprCached, ← hvar] at hoob
  rw [Refuted, ptrIsVar]
  cases hpart : variablePart st a (varExpr st a) with
  | none =>
    rw [if_neg (by simp)]
    cases hconst : sizeConstVal st a with
    | some sz =>
      rw [hpart, hconst] at hoob
      cases hoob
    | none =>
      rw [hpart, hconst] at hoob
      obtain ⟨size, hsz, hoob⟩ := Option.bind_eq_some_iff.1 hoob
      rw [hconst, hsz] at hsize
      obtain ⟨w, x, hx, rfl⟩ := hsize
      obtain ⟨hgrow, hspec⟩ := refuted_size hoob
      exact hspec _ List.prefix_rfl σ (oob_false hsolve hc hbcf hgrow h) w x
        (evaluates_grown hbcf hgrow hx)
  | some off =>
    rw [if_pos (by simp)]
    obtain ⟨r, hr, hoff⟩ := Option.bind_eq_some_iff.1 hpart
    have hv := hc.offset
    rw [VarPart, hr, hoff] at hv
    obtain ⟨w, x, hx, rfl⟩ := hv
    cases hconst : sizeConstVal st a with
    | some sz =>
      rw [hpart, hconst] at hoob
      rw [hconst] at hsize
      cases hsize
      obtain ⟨hgrow, hspec⟩ := refuted_offset hoob
      exact hspec _ List.prefix_rfl σ (oob_false hsolve hc hbcf hgrow h) w x
        (evaluates_grown hbcf hgrow hx)
    | none =>
      rw [hpart, hconst] at hoob
      obtain ⟨size, hsz, hoob⟩ := Option.bind_eq_some_iff.1 hoob
      rw [hconst, hsz] at hsize
      obtain ⟨w', z, hz, rfl⟩ := hsize
      obtain ⟨hgrow, hspec⟩ := refuted_both hoob
      exact hspec _ List.prefix_rfl σ (oob_false hsolve hc hbcf hgrow h) w x
        (evaluates_grown hbcf hgrow hx) w' z (evaluates_grown hbcf hgrow hz)

theorem size_nonneg (hc : Concrete st a σ v s) : 0 ≤ s := by
  have hsize := hc.size
  rw [SizePart] at hsize
  split at hsize
  · omega
  · omega
  · exact hsize

theorem not_inBounds_of_unrecorded (hc : Concrete st a σ v s) {r : Reg}
    (hr : st.varOffContributor a.base = some r) (hvar : varExpr st a = none) :
    ∃ v', Concrete st a σ v' s ∧ ¬ InBounds st a v' s := by
  refine ⟨-fixedOff st a - 1, ⟨hc.conds, ?_, hc.size⟩, fun h => ?_⟩
  · rw [VarPart, hr, hvar]
    trivial
  · have hstart := h.1
    omega

/-- A suppressed rejection is right, in every concrete state with the recorded path
conditions, exactly where the comparisons of the goal are exact. -/
theorem accepted_safe_iff_exact (hsolve : Sound solve)
    (h : tryRefineMapAccess st a solve sipHash24 fuel = some ok) :
    (∀ σ v s, Concrete st a σ v s → InBounds st a v s) ↔
      ∀ σ v s, Concrete st a σ v s → Exact st a v s := by
  constructor
  · intro hin σ v s hc
    refine (inBounds_iff_exact (size_nonneg hc) (accepted_refuted hsolve h hc) fun hptr => ?_).1
      (hin σ v s hc)
    cases hr : st.varOffContributor a.base with
    | none =>
      have hoff := hc.offset
      rw [VarPart, hr] at hoff
      exact hoff
    | some r =>
      have hvar : varExpr st a = none := by
        rw [ptrIsVar, variablePart, hr, Option.bind_some] at hptr
        simpa using hptr
      obtain ⟨v', hc', hout⟩ := not_inBounds_of_unrecorded hc hr hvar
      exact absurd (hin σ v' s hc') hout
  · intro hexact σ v s hc
    have he := hexact σ v s hc
    refine (inBounds_iff_exact (size_nonneg hc) (accepted_refuted hsolve h hc) fun hptr => ?_).2 he
    rw [Exact, hptr, if_neg Bool.false_ne_true] at he
    exact he.1

end Accepted

section Samples

def boundedSize : SymbolicState where
  exprs := [⟨0x18, 64, []⟩, bvVal64 8, bvPred 0xb0 0 1]
  regExpr i := if i.val = 2 then some 0 else none
  pathConds := [{ expr := 4, pc := 0, isBranch := false }]
  refineCond := none

def constPtr (off : Int) : RefineState where
  domain := .interval Interval.IntervalState.new
  bcf := some boundedSize
  ptrConstOff r := if r = .r1 then some off else none
  varOffContributor _ := none

/-- A helper accesses `r2` bytes at `r1` in a value of eight bytes. -/
def helperAccess : Request where
  base := .r1
  insnOff := 0
  size := 8
  mapLimit := 8
  sizeReg := some .r2
  basePc := none
  skipHashes := none

def sizeAtMost8 : Term UInt32 := .pred .ule (.var 0 64) (.lit 64 8)

def sizeAbove (bound : Nat) : Term UInt32 := .pred .ugt (.var 0 64) (.lit 64 bound)

/-- A solver that refutes all it can. -/
noncomputable def refuteAll (t : Term UInt32) : Option (List UInt8) :=
  open Classical in if t.Unsatisfiable then some [] else none

theorem sound_refuteAll : Sound refuteAll := by
  intro t bytes h
  unfold refuteAll at h
  split_ifs at h with hu
  exact hu

theorem unsatisfiable_sizeAbove {bound : Nat} (h : 8 ≤ bound) (hb : bound < 2^64) :
    Term.Unsatisfiable (.conj [sizeAtMost8, sizeAbove bound]) := by
  intro σ
  have hfalse : ((BitVec.ofNat 64 (σ 0)).ule (BitVec.ofNat 64 8) &&
      (BitVec.ofNat 64 bound).ult (BitVec.ofNat 64 (σ 0))) = false := by
    rw [Bool.and_eq_false_iff, BitVec.ule, BitVec.ult, decide_eq_false_iff_not,
      decide_eq_false_iff_not, BitVec.toNat_ofNat, BitVec.toNat_ofNat, BitVec.toNat_ofNat]
    omega
  have heval : Term.eval σ (.conj [sizeAtMost8, sizeAbove bound]) =
      some (.bool ((BitVec.ofNat 64 (σ 0)).ule (BitVec.ofNat 64 8) &&
        ((BitVec.ofNat 64 bound).ult (BitVec.ofNat 64 (σ 0)) && true))) := rfl
  rw [heval, Bool.and_true, hfalse]

section
variable (solve : Term UInt32 → Option (List UInt8)) (sipHash24 : List UInt8 → UInt64)

/-- The goal for a pointer at offset 16, past the end of the value: the threshold
`8 - 16` is an unsigned word above every size. -/
theorem refine_pastEnd :
    ∃ root sym, tryRefineMapAccess (constPtr 16) helperAccess solve sipHash24 3 =
      (solve (.conj [sizeAtMost8, sizeAbove (2^64 - 8)])).map fun bytes => ⟨bytes, root, sym⟩ :=
  ⟨_, _, rfl⟩

theorem refine_atStart :
    ∃ root sym, tryRefineMapAccess (constPtr 0) helperAccess solve sipHash24 3 =
      (solve (.conj [sizeAtMost8, sizeAbove 8])).map fun bytes => ⟨bytes, root, sym⟩ :=
  ⟨_, _, rfl⟩

end

theorem concrete_one (off : Int) : Concrete (constPtr off) helperAccess (fun _ => 1) 0 1 where
  conds := by
    intro bcf hbcf c hc
    cases hbcf
    cases List.mem_singleton.1 hc
    exact ⟨2, sizeAtMost8, rfl, rfl⟩
  offset := rfl
  size := ⟨64, 1, ⟨1, .var 0 64, rfl, rfl⟩, rfl⟩

/-- A sound solver suppresses the rejection of an access at offset 16 of a value of
eight bytes. -/
theorem pastEnd_suppressed : ∃ solve sipHash24 fuel ok, Sound solve ∧
    tryRefineMapAccess (constPtr 16) helperAccess solve sipHash24 fuel = some ok ∧
    ∃ σ v s, Concrete (constPtr 16) helperAccess σ v s ∧
      ¬ InBounds (constPtr 16) helperAccess v s := by
  obtain ⟨root, sym, h⟩ := refine_pastEnd refuteAll fun _ => 0
  rw [refuteAll, if_pos (unsatisfiable_sizeAbove (by decide) (by decide)), Option.map_some] at h
  exact ⟨refuteAll, _, _, _, sound_refuteAll, h, _, _, _, concrete_one 16, by decide⟩

theorem atStart_suppressed : ∃ ok,
    tryRefineMapAccess (constPtr 0) helperAccess refuteAll (fun _ => 0) 3 = some ok ∧
    ((∀ σ v s, Concrete (constPtr 0) helperAccess σ v s → InBounds (constPtr 0) helperAccess v s) ↔
      ∀ σ v s, Concrete (constPtr 0) helperAccess σ v s → Exact (constPtr 0) helperAccess v s) := by
  obtain ⟨root, sym, h⟩ := refine_atStart refuteAll fun _ => 0
  rw [refuteAll, if_pos (unsatisfiable_sizeAbove (by decide) (by decide)), Option.map_some] at h
  exact ⟨_, h, accepted_safe_iff_exact sound_refuteAll h⟩

end Samples
end ZoneVerifier.RefineMap
