import ZoneVerifier.GraphSearch
import ZoneVerifier.Smtlib

/-!
# Variables and slices of the path conditions

`collect_vars` of `refinement/symbolic.rs` and of `refinement/smtlib.rs` walk the
table from a slot. The arguments of an operator are slots and those of a constant
are data; the first walk follows both. A symbolic state keeps its path conditions
in five vectors that are pushed to together; three loops push what they keep to
five new ones, and a loop that keeps nothing leaves the state as it was.
-/

set_option autoImplicit false

namespace ZoneVerifier.VarCollection
open Symbolic Smtlib GraphSearch
open CanonicalHash (BcfExpr isVar bcfBv bcfVal bcfVar)

section Code
variable (fuel : Nat) (exprs : List BcfExpr)

def words (idx : UInt32) : List UInt32 := ((exprAt exprs idx).map BcfExpr.args).getD []

def holdsVar (idx : UInt32) : Bool := (exprAt exprs idx).any fun e => isVar e.code

/-- The last argument pushed is the first to be popped. -/
def collectVars (root : UInt32) : List UInt32 :=
  (search (fun idx => (words exprs idx).reverse) fuel [root] []).filter (holdsVar exprs)

def isConstant (e : BcfExpr) : Bool :=
  exprOp e.code == bcfVal && (exprType e.code == bcfBv || exprType e.code == bcfBool)

def isBvVar (e : BcfExpr) : Bool := exprType e.code == bcfBv && isVar e.code

def arguments (idx : UInt32) : List UInt32 :=
  ((exprAt exprs idx).map fun e => if isBvVar e || isConstant e then [] else e.args).getD []

/-- The variables the encoder declares with their widths, in order; the names are
their positions. A slot without an expression is an error. -/
def declarations (root : UInt32) : Option (List (UInt32 × UInt16)) :=
  let seen := search (arguments exprs) fuel [root] []
  if seen.all fun idx => (exprAt exprs idx).isSome then
    some (seen.filterMap fun idx =>
      ((exprAt exprs idx).filter isBvVar).map fun e => (idx, e.params))
  else none

end Code

section Exact
variable {exprs : List BcfExpr} {root : UInt32}

structure WellFormed (exprs : List BcfExpr) : Prop where
  vars : ∀ e ∈ exprs, isVar e.code = true → exprType e.code = bcfBv ∧ e.args = []
  args : ∀ e ∈ exprs, isConstant e = false → ∀ a ∈ e.args, (exprAt exprs a).isSome

def Occurs (exprs : List BcfExpr) (root v : UInt32) : Prop :=
  Reach (arguments exprs) root v ∧ holdsVar exprs v = true

/-- The variables found from the data of a constant below the root occur there
as well. -/
def DataHarmless (exprs : List BcfExpr) (root : UInt32) : Prop :=
  ∀ c e, Reach (arguments exprs) root c → exprAt exprs c = some e → isConstant e = true →
    ∀ w ∈ e.args, ∀ v, Reach (words exprs) w v → holdsVar exprs v = true → Occurs exprs root v

theorem mem_of_exprAtFrom {idx : UInt32} {cur : Nat} {e : BcfExpr}
    (h : exprAtFrom idx cur exprs = some e) : e ∈ exprs := by
  induction exprs generalizing cur with
  | nil => cases h
  | cons d exprs ih =>
    rw [exprAtFrom] at h
    split_ifs at h
    · cases h
      exact List.mem_cons_self
    · exact List.mem_cons_of_mem d (ih h)

theorem mem_arguments {a b : UInt32} (h : b ∈ arguments exprs a) :
    ∃ e, exprAt exprs a = some e ∧ isConstant e = false ∧ b ∈ e.args := by
  cases he : exprAt exprs a with
  | none => simp [arguments, he] at h
  | some e =>
    simp only [arguments, he, Option.map_some, Option.getD_some] at h
    split_ifs at h with hleaf
    · cases h
    · rw [Bool.or_eq_true, not_or, Bool.not_eq_true, Bool.not_eq_true] at hleaf
      exact ⟨e, rfl, hleaf.2, h⟩

theorem reach_arguments {a b : UInt32} (h : Reach (arguments exprs) a b) :
    Reach (words exprs) a b := by
  refine Relation.ReflTransGen.mono (fun c d hd => ?_) _ _ h
  obtain ⟨e, he, _, hmem⟩ := mem_arguments hd
  simpa [words, he] using hmem

/-- A walk stays on arguments, or it enters the data of a constant. -/
theorem reach_words_cases (h : WellFormed exprs) {v : UInt32} (hv : Reach (words exprs) root v) :
    Reach (arguments exprs) root v ∨ ∃ c e, Reach (arguments exprs) root c ∧
      exprAt exprs c = some e ∧ isConstant e = true ∧ ∃ w ∈ e.args, Reach (words exprs) w v := by
  induction hv with
  | refl => exact Or.inl .refl
  | @tail b v _ hb ih =>
    rcases ih with ih | ⟨c, e, hc, he, hconst, w, hw, hreach⟩
    · obtain ⟨e, he, hmem⟩ : ∃ e, exprAt exprs b = some e ∧ v ∈ e.args := by
        cases he : exprAt exprs b with
        | none => simp [words, he] at hb
        | some e => exact ⟨e, rfl, by simpa [words, he] using hb⟩
      by_cases hconst : isConstant e = true
      · exact Or.inr ⟨b, e, ih, he, hconst, v, hmem, .refl⟩
      · have hnot : isBvVar e = false := by
          by_contra hvar
          rw [isBvVar, Bool.not_eq_false, Bool.and_eq_true] at hvar
          rw [(h.vars e (mem_of_exprAtFrom he) hvar.2).2] at hmem
          cases hmem
        refine Or.inl (ih.tail ?_)
        simpa [arguments, he, hnot, hconst] using hmem
    · exact Or.inr ⟨c, e, hc, he, hconst, w, hw, hreach.tail hb⟩

theorem dataHarmless_iff (h : WellFormed exprs) : DataHarmless exprs root ↔
    ∀ v, Reach (words exprs) root v ∧ holdsVar exprs v = true ↔ Occurs exprs root v := by
  refine ⟨fun hdata v => ⟨fun ⟨hv, hvar⟩ => ?_, fun hv => ⟨reach_arguments hv.1, hv.2⟩⟩, ?_⟩
  · rcases reach_words_cases h hv with hv | ⟨c, e, hc, he, hconst, w, hw, hv⟩
    · exact ⟨hv, hvar⟩
    · exact hdata c e hc he hconst w hw v hv hvar
  · intro hall c e hc he _ w hw v hv hvar
    have hstep : w ∈ words exprs c := by simpa [words, he] using hw
    exact (hall v).1 ⟨((reach_arguments hc).tail hstep).trans hv, hvar⟩

theorem exists_declarations (h : WellFormed exprs) (hroot : (exprAt exprs root).isSome) :
    ∃ n, ∀ fuel, n ≤ fuel → ∃ decls, declarations fuel exprs root = some decls ∧
      ∀ v, v ∈ decls.map Prod.fst ↔ Occurs exprs root v := by
  have : Finite UInt32 := Finite.of_injective UInt32.toFin fun _ _ he => UInt32.toFin_inj.1 he
  obtain ⟨n, hn⟩ := search_spec (arguments exprs) root
  refine ⟨n, fun fuel hfuel => ⟨_, if_pos (List.all_eq_true.2 fun v hv => ?_), fun v => ?_⟩⟩
  · rcases Relation.ReflTransGen.cases_tail ((hn fuel hfuel v).1 hv) with rfl | ⟨b, _, hb⟩
    · exact hroot
    · obtain ⟨e, he, hconst, hmem⟩ := mem_arguments hb
      exact h.args e (mem_of_exprAtFrom he) hconst v hmem
  · rw [Occurs, ← hn fuel hfuel v]
    simp only [List.mem_map, List.mem_filterMap, Option.map_eq_some_iff, Option.filter_eq_some_iff]
    constructor
    · rintro ⟨_, ⟨idx, hidx, e, ⟨he, hvar⟩, rfl⟩, rfl⟩
      rw [isBvVar, Bool.and_eq_true] at hvar
      exact ⟨hidx, by simp [holdsVar, he, hvar.2]⟩
    · rintro ⟨hv, hvar⟩
      obtain ⟨e, he, hvar⟩ := (Option.any_eq_true _ _).1 hvar
      exact ⟨_, ⟨v, hv, e, ⟨he, by simp [isBvVar, h.vars e (mem_of_exprAtFrom he) hvar, hvar]⟩, rfl⟩, rfl⟩

theorem collectVars_exact_iff (h : WellFormed exprs) (hroot : (exprAt exprs root).isSome) :
    ∃ n, ∀ fuel, n ≤ fuel →
      ((∀ v, v ∈ collectVars fuel exprs root ↔ Occurs exprs root v) ∧
        (∃ decls, declarations fuel exprs root = some decls ∧
          ∀ v, v ∈ collectVars fuel exprs root ↔ v ∈ decls.map Prod.fst) ↔
        DataHarmless exprs root) := by
  have : Finite UInt32 := Finite.of_injective UInt32.toFin fun _ _ he => UInt32.toFin_inj.1 he
  obtain ⟨n, hn⟩ := search_spec (fun idx => (words exprs idx).reverse) root
  obtain ⟨m, hm⟩ := exists_declarations h hroot
  refine ⟨max n m, fun fuel hfuel => ?_⟩
  have hcollect : ∀ v, v ∈ collectVars fuel exprs root ↔
      Reach (words exprs) root v ∧ holdsVar exprs v = true := by
    intro v
    rw [collectVars, List.mem_filter, hn fuel (le_of_max_le_left hfuel), Reach, Reach]
    simp only [List.mem_reverse]
  obtain ⟨decls, hdecls, hmem⟩ := hm fuel (le_of_max_le_right hfuel)
  rw [dataHarmless_iff h]
  simp only [hcollect]
  refine ⟨And.left, fun hall => ⟨hall, decls, hdecls, fun v => ?_⟩⟩
  rw [hmem v, hall v]

def compared (imm : UInt32) : List BcfExpr :=
  [⟨bcfVar ||| bcfBv, 32, []⟩, ⟨bcfVar ||| bcfBv, 32, []⟩, bvVal32 imm, bvPred 0x10 1 2]

theorem wellFormed_of_all
    (hvars : ∀ e ∈ exprs, isVar e.code = true → exprType e.code = bcfBv ∧ e.args = [])
    (hargs : ∀ e ∈ exprs, isConstant e = false →
      (e.args.all fun a => (exprAt exprs a).isSome) = true) : WellFormed exprs :=
  ⟨hvars, fun e he hc => List.all_eq_true.1 (hargs e he hc)⟩

theorem nine_compared : ∃ n, ∀ fuel, n ≤ fuel →
    ∀ v, v ∈ collectVars fuel (compared 9) 4 ↔ Occurs (compared 9) 4 v := by
  have hwf : WellFormed (compared 9) := wellFormed_of_all (by decide) (by decide)
  obtain ⟨n, hn⟩ := collectVars_exact_iff hwf (rfl : (exprAt (compared 9) 4).isSome = true)
  refine ⟨n, fun fuel hfuel => ((hn fuel hfuel).2 fun c e _ he hconst w hw v hv hvar => ?_).1⟩
  have hdata : ∀ e ∈ compared 9, isConstant e = true → e.args = [9] := by decide
  rw [hdata e (mem_of_exprAtFrom he) hconst] at hw
  rw [List.mem_singleton.1 hw] at hv
  rcases Relation.ReflTransGen.cases_head hv with rfl | ⟨b, hb, _⟩
  · cases hvar
  · cases hb

/-- The constant zero is taken for the slot of the other variable. -/
theorem zero_taken_for_slot : WellFormed (compared 0) ∧ ¬ Occurs (compared 0) 4 0 ∧
    ∀ fuel, collectVars (fuel + 5) (compared 0) 4 = [0, 1] ∧
      declarations (fuel + 5) (compared 0) 4 = some [(1, 32)] := by
  refine ⟨wellFormed_of_all (by decide) (by decide), fun h => ?_, fun _ => ⟨rfl, rfl⟩⟩
  have hall : (([4, 1, 2] : List UInt32).all fun b =>
      (arguments (compared 0) b).all [4, 1, 2].contains) = true := rfl
  simp only [List.all_eq_true, List.contains_iff_mem] at hall
  have hclosed : ∀ v, Reach (arguments (compared 0)) 4 v → v ∈ ([4, 1, 2] : List UInt32) := by
    intro v hv
    induction hv with
    | refl => exact List.mem_cons_self
    | tail _ hb ih => exact hall _ ih _ hb
  exact absurd (hclosed 0 h.1) (by decide)

end Exact
end ZoneVerifier.VarCollection

namespace ZoneVerifier.PathSlicing
open Symbolic Smtlib VarCollection BitTerm
open CanonicalHash (BcfExpr)

section Code
variable {B : Type}

abbrev NarrowedConst := Option (UInt64 × UInt8 × Bool × Option Nat)

/-- The register compared, where its value was made, and its bounds. -/
abbrev LhsMeta (B : Type) := Option (Nat × Option Nat × Bool × B × B)

structure Recorded (B : Type) where
  pathConds : List UInt32
  pathCondPcs : List Nat
  pathCondIsBranch : List Bool
  pathCondNarrowedConst : List NarrowedConst
  pathCondLhsMeta : List (LhsMeta B)

namespace Recorded

def new : Recorded B := ⟨[], [], [], [], []⟩

variable (v : Recorded B)

def push (pred : UInt32) (pc : Nat) (isBranch : Bool) (narrowed : NarrowedConst)
    (lhsMeta : LhsMeta B) : Recorded B where
  pathConds := v.pathConds ++ [pred]
  pathCondPcs := v.pathCondPcs ++ [pc]
  pathCondIsBranch := v.pathCondIsBranch ++ [isBranch]
  pathCondNarrowedConst := v.pathCondNarrowedConst ++ [narrowed]
  pathCondLhsMeta := v.pathCondLhsMeta ++ [lhsMeta]

def addCondAt (pred : UInt32) (pc : Nat) : Recorded B := v.push pred pc true none none

def addCondAtNarrowed (pred : UInt32) (pc : Nat) (narrowed : NarrowedConst) (lhsMeta : LhsMeta B) :
    Recorded B := v.push pred pc true narrowed lhsMeta

/-- What is recorded of a bound; the predicate is built before. -/
def boundPred (pred : UInt32) (pc : Nat) : Recorded B := v.push pred pc false none none

def take {α : Type} (l : List α) (kept : List Nat) : List α := kept.filterMap (l[·]?)

def retainPathCondsByIndex (kept : List Nat) : Recorded B where
  pathConds := take v.pathConds kept
  pathCondPcs := take v.pathCondPcs kept
  pathCondIsBranch := take v.pathCondIsBranch kept
  pathCondNarrowedConst := take v.pathCondNarrowedConst kept
  pathCondLhsMeta := take v.pathCondLhsMeta kept

def indices : List Nat := List.range v.pathConds.length

def pcAt (i : Nat) : Nat := v.pathCondPcs.getD i 0

def branchAt (i : Nat) : Bool := v.pathCondIsBranch.getD i false

def lhsAt (i : Nat) : Option Nat := (v.pathCondLhsMeta.getD i none).map Prod.fst

/-- The five pushes of a loop; an index out of range panics. -/
def pushKept (kept : Recorded B) (i : Nat) : Option (Recorded B) := do
  some (kept.push (← v.pathConds[i]?) (← v.pathCondPcs[i]?) (← v.pathCondIsBranch[i]?)
    (← v.pathCondNarrowedConst[i]?) (← v.pathCondLhsMeta[i]?))

def unlessEmpty (kept : Recorded B) : Recorded B :=
  if kept.pathConds.isEmpty ∧ ¬ v.pathConds.isEmpty then v else kept

variable (fuel : Nat) (exprs : List BcfExpr)

def varsAt (i : Nat) : List UInt32 := (v.pathConds[i]?).elim [] (collectVars fuel exprs)

def coveredBy (vars : List UInt32) (i : Nat) : Bool :=
  !(v.varsAt fuel exprs i).isEmpty && (v.varsAt fuel exprs i).all vars.contains

/-- The variables of the branch at the previous instruction. -/
def prevVars (prev : Option Nat) : List UInt32 :=
  (prev.bind fun pp => v.indices.find? fun i => v.pcAt i == pp && v.branchAt i).elim []
    (v.varsAt fuel exprs)

def filterPathCondsFromPc (basePc : Nat) (prev : Option Nat) : Option (Recorded B) :=
  let vars := v.prevVars fuel exprs prev
  if basePc = 0 then some v
  else (v.pathCondPcs.zipIdx.foldlM (fun kept (pc, i) =>
    if pc == 0 || decide (basePc ≤ pc) || some pc == prev ||
        (!v.branchAt i && !vars.isEmpty && v.coveredBy fuel exprs vars i) then v.pushKept kept i
    else some kept) new).map v.unlessEmpty

/-- Where the run of conditions at or behind `basePc` starts that ends before an
index. -/
def suffixStart (basePc : Nat) : Nat → Nat
  | 0 => 0
  | n + 1 => if basePc ≤ v.pcAt n then suffixStart basePc n else n + 1

def filterPathCondsTrajSuffix (basePc : Nat) (prev : Option Nat) : Option (Recorded B) :=
  let start := v.suffixStart basePc v.pathConds.length
  let vars := v.prevVars fuel exprs prev
  if basePc = 0 then some v
  else (v.pathCondPcs.zipIdx.foldlM (fun kept (pc, i) =>
    if decide (start ≤ i) || pc == 0 || some pc == prev ||
        (!v.branchAt i && !vars.isEmpty && v.coveredBy fuel exprs vars i) then v.pushKept kept i
    else some kept) new).map v.unlessEmpty

def keepBranch (goalRegs : List Nat) (i : Nat) : Bool :=
  v.pcAt i != 0 && v.branchAt i && (v.lhsAt i).all goalRegs.contains

def filterPathCondsByRegs (goalRegs : List Nat) : Option (Recorded B) :=
  let vars := (v.indices.filter (v.keepBranch goalRegs)).flatMap (v.varsAt fuel exprs)
  (v.indices.foldlM (fun kept i =>
    if v.pcAt i == 0 ||
        if v.branchAt i then v.keepBranch goalRegs i else v.coveredBy fuel exprs vars i then
      v.pushKept kept i
    else some kept) new).map v.unlessEmpty

/-- The last of the branches with the largest point, as that point and the
register compared. -/
def seed : Option (Nat × Nat) :=
  v.indices.foldl (fun best i =>
    match v.lhsAt i with
    | some reg => if v.branchAt i && best.all (·.1 ≤ v.pcAt i) then some (v.pcAt i, reg) else best
    | none => best) none

variable (s : SymbolicState) (varOrigin : UInt32 → Option Nat)

def regVars (r : Nat) : List UInt32 :=
  (if h : r < 11 then s.regExpr ⟨r, h⟩ else none).elim [] (collectVars fuel s.exprs)

def hop : Nat → List Nat → List Nat → List Nat
  | 0, _, goal => goal
  | hops + 1, frontier, goal =>
    let origins := frontier.flatMap fun r => (regVars fuel s r).filterMap varOrigin
    let next := origins.filter fun r => !goal.contains r
    if next.isEmpty then goal else hop hops next (goal ++ next)

def provenanceGoalSet (hops : Nat) : Option (List Nat) :=
  v.seed.map fun best => hop fuel s varOrigin hops [best.2] [best.2]

end Recorded

inductive Filter where
  | fromPc (basePc : Nat) (prev : Option Nat)
  | trajSuffix (basePc : Nat) (prev : Option Nat)
  | byRegs (goalRegs : List Nat)
  | provenance (hops : Nat)

/-- Without a seed there is no filtering by registers. -/
def Filter.apply (fuel : Nat) (s : SymbolicState) (varOrigin : UInt32 → Option Nat)
    (v : Recorded B) : Filter → Option (Recorded B)
  | .fromPc basePc prev => v.filterPathCondsFromPc fuel s.exprs basePc prev
  | .trajSuffix basePc prev => v.filterPathCondsTrajSuffix fuel s.exprs basePc prev
  | .byRegs goalRegs => v.filterPathCondsByRegs fuel s.exprs goalRegs
  | .provenance hops =>
    (v.provenanceGoalSet fuel s varOrigin hops).elim (some v) (v.filterPathCondsByRegs fuel s.exprs)

/-- The vectors of a symbolic state: conditions are recorded and sliced in any order. -/
inductive Built : Recorded B → Prop where
  | new : Built .new
  | push {v : Recorded B} (h : Built v) (pred : UInt32) (pc : Nat) (isBranch : Bool)
      (narrowed : NarrowedConst) (lhsMeta : LhsMeta B) :
      Built (v.push pred pc isBranch narrowed lhsMeta)
  | filtered {v w : Recorded B} (h : Built v) {fuel : Nat} {s : SymbolicState}
      {varOrigin : UInt32 → Option Nat} {f : Filter} (hw : f.apply fuel s varOrigin v = some w) :
      Built w

def Recorded.goal (v : Recorded B) (s : SymbolicState) : SymbolicState :=
  { s with pathConds := (v.pathConds.zip (v.pathCondPcs.zip v.pathCondIsBranch)).map fun c =>
      ⟨c.1, c.2.1, c.2.2⟩ }

end Code

section Slices
open Recorded (take)
variable {B : Type} {v w : Recorded B} {kept : List Nat}

structure Aligned (v : Recorded B) : Prop where
  pcs : v.pathCondPcs.length = v.pathConds.length
  isBranch : v.pathCondIsBranch.length = v.pathConds.length
  narrowedConst : v.pathCondNarrowedConst.length = v.pathConds.length
  lhsMeta : v.pathCondLhsMeta.length = v.pathConds.length

/-- The entries at some indices, the same ones in the five vectors and in their order. -/
def Sliced (v w : Recorded B) : Prop :=
  ∃ kept, kept.Sublist (List.range v.pathConds.length) ∧ w.pathConds = take v.pathConds kept ∧
    w.pathCondPcs = take v.pathCondPcs kept ∧ w.pathCondIsBranch = take v.pathCondIsBranch kept ∧
    w.pathCondNarrowedConst = take v.pathCondNarrowedConst kept ∧
    w.pathCondLhsMeta = take v.pathCondLhsMeta kept

theorem zip_take {α β : Type} {l : List α} {m : List β} (h : l.length = m.length)
    (kept : List Nat) : (take l kept).length = (take m kept).length ∧
      (take l kept).zip (take m kept) = take (l.zip m) kept := by
  induction kept with
  | nil => exact ⟨rfl, rfl⟩
  | cons i kept ih =>
    by_cases hi : i < m.length
    · simpa [take, hi, h] using ih
    · simpa [take, hi, h] using ih

theorem take_range {α : Type} {l : List α} {n : Nat} (h : l.length = n) :
    take l (List.range n) = l := by
  subst h
  induction l with
  | nil => rfl
  | cons a l ih =>
    simpa [take, List.range_succ_eq_map, List.filterMap_map, Function.comp_def] using ih

theorem aligned_retain (h : Aligned v) (kept : List Nat) :
    Aligned (v.retainPathCondsByIndex kept) :=
  ⟨(zip_take h.pcs kept).1, (zip_take h.isBranch kept).1, (zip_take h.narrowedConst kept).1,
    (zip_take h.lhsMeta kept).1⟩

theorem Sliced.aligned (h : Sliced v w) (hv : Aligned v) : Aligned w := by
  obtain ⟨kept, _, hconds, hpcs, hbranch, hnarrowed, hmeta⟩ := h
  have hw : w = v.retainPathCondsByIndex kept := by
    cases w
    congr
  exact hw ▸ aligned_retain hv kept

theorem sliced_self (h : Aligned v) : Sliced v v :=
  ⟨v.indices, .refl _, (take_range rfl).symm, (take_range h.pcs).symm, (take_range h.isBranch).symm,
    (take_range h.narrowedConst).symm, (take_range h.lhsMeta).symm⟩

section Loops
variable {α : Type} {idx : α → Nat} {keep : α → Bool}
  {body : Recorded B → α → Option (Recorded B)} {l : List α}

theorem pushKept_retain (h : Aligned v) {i : Nat} (hi : i < v.pathConds.length) :
    v.pushKept (v.retainPathCondsByIndex kept) i =
      some (v.retainPathCondsByIndex (kept ++ [i])) := by
  have hpcs := h.pcs.symm ▸ hi
  have hbranch := h.isBranch.symm ▸ hi
  have hnarrowed := h.narrowedConst.symm ▸ hi
  have hmeta := h.lhsMeta.symm ▸ hi
  simp [Recorded.pushKept, Recorded.retainPathCondsByIndex, Recorded.push, take, hi, hpcs, hbranch,
    hnarrowed, hmeta]

/-- What a loop has kept is what stands at the indices it has kept. -/
theorem foldlM_pushKept (h : Aligned v)
    (hbody : ∀ w a, body w a = if keep a then v.pushKept w (idx a) else some w)
    (hl : ∀ a ∈ l, idx a < v.pathConds.length) (kept : List Nat) :
    l.foldlM body (v.retainPathCondsByIndex kept) =
      some (v.retainPathCondsByIndex (kept ++ (l.filter keep).map idx)) := by
  induction l generalizing kept with
  | nil => simp
  | cons a l ih =>
    have hrest := ih fun b hb => hl b (List.mem_cons_of_mem a hb)
    rw [List.foldlM_cons, hbody]
    cases hk : keep a with
    | true =>
      rw [if_pos rfl, pushKept_retain h (hl a List.mem_cons_self)]
      show l.foldlM body _ = _
      rw [hrest]
      simp [hk]
    | false =>
      rw [if_neg Bool.false_ne_true]
      show l.foldlM body _ = _
      rw [hrest]
      simp [hk]

theorem loop_eq (h : Aligned v)
    (hbody : ∀ w a, body w a = if keep a then v.pushKept w (idx a) else some w)
    (hl : l.map idx = v.indices) : (l.foldlM body .new).map v.unlessEmpty =
      some (v.unlessEmpty (v.retainPathCondsByIndex ((l.filter keep).map idx))) := by
  have hlt : ∀ a ∈ l, idx a < v.pathConds.length := by
    intro a ha
    have hmem := List.mem_map_of_mem ha (f := idx)
    rw [hl] at hmem
    exact List.mem_range.1 hmem
  exact congrArg (Option.map v.unlessEmpty) (foldlM_pushKept h hbody hlt [])

theorem loop_sliced (h : Aligned v)
    (hbody : ∀ w a, body w a = if keep a then v.pushKept w (idx a) else some w)
    (hl : l.map idx = v.indices) :
    ∃ w, (l.foldlM body .new).map v.unlessEmpty = some w ∧ Sliced v w := by
  have hsub : ((l.filter keep).map idx).Sublist v.indices := hl ▸ List.filter_sublist.map idx
  refine ⟨_, loop_eq h hbody hl, ?_⟩
  unfold Recorded.unlessEmpty
  split_ifs
  · exact sliced_self h
  · exact ⟨_, hsub, rfl, rfl, rfl, rfl, rfl⟩

end Loops

theorem indices_zipIdx (h : Aligned v) : v.pathCondPcs.zipIdx.map Prod.snd = v.indices := by
  rw [List.zipIdx_map_snd, Recorded.indices, ← h.pcs, List.range_eq_range']

theorem sliced_apply (h : Aligned v) (fuel : Nat) (s : SymbolicState)
    (varOrigin : UInt32 → Option Nat) (f : Filter) :
    ∃ w, f.apply fuel s varOrigin v = some w ∧ Sliced v w := by
  have hregs : ∀ goal, ∃ w, v.filterPathCondsByRegs fuel s.exprs goal = some w ∧ Sliced v w :=
    fun _ => loop_sliced h (fun _ _ => rfl) (List.map_id _)
  cases f with
  | fromPc basePc prev =>
    simp only [Filter.apply, Recorded.filterPathCondsFromPc]
    split_ifs
    · exact ⟨v, rfl, sliced_self h⟩
    · exact loop_sliced h (fun _ _ => rfl) (indices_zipIdx h)
  | trajSuffix basePc prev =>
    simp only [Filter.apply, Recorded.filterPathCondsTrajSuffix]
    split_ifs
    · exact ⟨v, rfl, sliced_self h⟩
    · exact loop_sliced h (fun _ _ => rfl) (indices_zipIdx h)
  | byRegs goalRegs => exact hregs goalRegs
  | provenance hops =>
    rw [Filter.apply]
    cases v.provenanceGoalSet fuel s varOrigin hops with
    | none => exact ⟨v, rfl, sliced_self h⟩
    | some goal => exact hregs goal

theorem Built.aligned (h : Built v) : Aligned v := by
  induction h with
  | new => exact ⟨rfl, rfl, rfl, rfl⟩
  | push _ pred pc isBranch narrowed lhsMeta ih =>
    constructor <;> simp [Recorded.push, ih.pcs, ih.isBranch, ih.narrowedConst, ih.lhsMeta]
  | @filtered v w _ fuel s varOrigin f hw ih =>
    obtain ⟨w', hw', hsliced⟩ := sliced_apply ih fuel s varOrigin f
    rw [hw] at hw'
    cases hw'
    exact hsliced.aligned ih

end Slices

section Window
open Recorded (take)
variable {B : Type} {v : Recorded B}

/-- The indices at which a test on `f` succeeds select what a filter keeps. -/
theorem take_filter {α β : Type} (l : List α) (f : α → β) (p : β → Bool) :
    take l (((l.map f).zipIdx.filter fun x => p x.1).map Prod.snd) = l.filter fun a => p (f a) := by
  have hget : ∀ x ∈ l.zipIdx.filter fun x => p (f x.1), l[x.2]? = some x.1 := fun x hx =>
    List.mem_zipIdx_iff_getElem?.1 (List.mem_filter.1 hx).1
  calc take l (((l.map f).zipIdx.filter fun x => p x.1).map Prod.snd)
      = (l.zipIdx.filter fun x => p (f x.1)).filterMap fun x => l[x.2]? := by
        simp [take, List.zipIdx_map, List.filter_map, List.filterMap_map, Function.comp_def]
    _ = (l.zipIdx.filter fun x => p (f x.1)).map Prod.fst := by
        rw [← List.filterMap_eq_map]
        exact List.filterMap_congr hget
    _ = l.filter fun a => p (f a) := by
        conv_rhs => rw [← List.zipIdx_map_fst 0 l, List.filter_map]
        rfl

theorem goal_retain (h : Aligned v) (kept : List Nat) (s : SymbolicState) :
    (v.retainPathCondsByIndex kept).goal s =
      { s with pathConds := take (v.goal s).pathConds kept } := by
  simp only [Recorded.goal, Recorded.retainPathCondsByIndex]
  rw [(zip_take (h.pcs.trans h.isBranch.symm) kept).2,
    (zip_take (by simp [h.pcs, h.isBranch]) kept).2]
  simp [take, List.map_filterMap]

theorem map_pc_goal (h : Aligned v) (s : SymbolicState) :
    (v.goal s).pathConds.map PathCond.pc = v.pathCondPcs := by
  rw [Recorded.goal, List.map_map]
  show (v.pathConds.zip (v.pathCondPcs.zip v.pathCondIsBranch)).map (Prod.fst ∘ Prod.snd) = _
  rw [← List.map_map, List.map_snd_zip (by simp [h.pcs, h.isBranch]),
    List.map_fst_zip (by rw [h.pcs, h.isBranch])]

theorem isEmpty_goal (h : Aligned v) (s : SymbolicState) :
    (v.goal s).pathConds.isEmpty = v.pathConds.isEmpty := by
  rw [Bool.eq_iff_iff, List.isEmpty_iff_length_eq_zero, List.isEmpty_iff_length_eq_zero]
  simp [Recorded.goal, h.pcs, h.isBranch]

/-- Without a previous instruction the window of the vectors is the one of their conditions. -/
theorem goal_filterPathCondsFromPc (h : Aligned v) (fuel basePc : Nat) (s : SymbolicState) :
    (v.filterPathCondsFromPc fuel s.exprs basePc none).map (·.goal s) =
      some ((v.goal s).filterPathCondsFromPc basePc) := by
  by_cases h0 : basePc = 0
  · simp [Recorded.filterPathCondsFromPc, SymbolicState.filterPathCondsFromPc, h0]
  have hloop : v.filterPathCondsFromPc fuel s.exprs basePc none =
      some (v.unlessEmpty (v.retainPathCondsByIndex ((v.pathCondPcs.zipIdx.filter fun x =>
        x.1 == 0 || decide (basePc ≤ x.1)).map Prod.snd))) := by
    simp only [Recorded.filterPathCondsFromPc, if_neg h0]
    exact loop_eq h (fun w a => by simp [Recorded.prevVars]) (indices_zipIdx h)
  have hkept := goal_retain h ((v.pathCondPcs.zipIdx.filter fun x =>
    x.1 == 0 || decide (basePc ≤ x.1)).map Prod.snd) s
  rw [← map_pc_goal h s, take_filter _ PathCond.pc fun pc => pc == 0 || decide (basePc ≤ pc)] at hkept
  rw [hloop, Option.map_some, Recorded.unlessEmpty, SymbolicState.filterPathCondsFromPc, if_neg h0,
    ← isEmpty_goal h s, ← isEmpty_goal (aligned_retain h _) s, ← map_pc_goal h s, hkept]
  split_ifs
  · rfl
  · exact congrArg some hkept

end Window

section Sound
open Recorded (take)
variable {B : Type} {v w : Recorded B}

theorem Sliced.sublist (h : Sliced v w) : w.pathConds.Sublist v.pathConds := by
  obtain ⟨kept, hkept, hconds, _⟩ := h
  have hall : (take v.pathConds kept).Sublist (take v.pathConds _) := hkept.filterMap _
  rwa [← hconds, take_range rfl] at hall

theorem encode_goal (h : Aligned v) (fuel : Nat) (s : SymbolicState) : encode fuel (v.goal s) =
    (v.pathConds.mapM (render (exprAt s.exprs) fuel)).bind fun cs =>
      (s.refineCond.elim (some none) fun rc =>
        (render (exprAt s.exprs) fuel rc).map some).map (assertion cs) := by
  have hfst : (v.pathConds.zip (v.pathCondPcs.zip v.pathCondIsBranch)).map Prod.fst = v.pathConds :=
    List.map_fst_zip (by simp [h.pcs, h.isBranch])
  conv_rhs => rw [← hfst, List.mapM_map]
  rw [encode, Recorded.goal, List.mapM_map]
  congr 1
  funext cs
  cases s.refineCond with
  | none => rfl
  | some rc =>
    rw [Option.elim_some, Option.map_map]
    rfl

theorem assertion_true_iff {σ : UInt32 → Nat} {cs : List (Term UInt32)} {rc : Option (Term UInt32)} :
    (assertion cs rc).eval σ = some (.bool true) ↔
      (∀ t ∈ cs, t.eval σ = some (.bool true)) ∧ ∀ t ∈ rc, t.eval σ = some (.bool true) := by
  rcases cs with _ | ⟨c, _ | ⟨d, cs⟩⟩ <;> cases rc <;>
    simp [assertion, Term.eval_conj_true_iff]
  rw [Term.eval]

/-- A solution of the query before slicing solves the one behind it. -/
def Weakens (fuel : Nat) (s s' : SymbolicState) : Prop :=
  ∀ t, encode fuel s = some t → ∃ t', encode fuel s' = some t' ∧
    ∀ σ, t.eval σ = some (.bool true) → t'.eval σ = some (.bool true)

theorem Sliced.weakens (h : Sliced v w) (hv : Aligned v) (fuel : Nat) (s : SymbolicState) :
    Weakens fuel (v.goal s) (w.goal s) := by
  intro t ht
  rw [encode_goal hv] at ht
  rw [encode_goal (h.aligned hv)]
  obtain ⟨cs, hcs, ht⟩ := Option.bind_eq_some_iff.1 ht
  obtain ⟨rc, hrc, rfl⟩ := Option.map_eq_some_iff.1 ht
  obtain ⟨cs', hcs', hsub⟩ := Fallible.mapM_of_sublist h.sublist hcs
  refine ⟨assertion cs' rc, by rw [hcs', Option.bind_some, hrc, Option.map_some], fun σ htrue => ?_⟩
  rw [assertion_true_iff] at htrue ⊢
  exact ⟨fun u hu => htrue.1 u (hsub.subset hu), htrue.2⟩

theorem slicing_sound (hv : Built v) (fuel depth : Nat) (s : SymbolicState)
    (varOrigin : UInt32 → Option Nat) (f : Filter) :
    ∃ w, f.apply fuel s varOrigin v = some w ∧ Sliced v w ∧ w.pathConds.Sublist v.pathConds ∧
      Weakens depth (v.goal s) (w.goal s) := by
  obtain ⟨w, hw, h⟩ := sliced_apply hv.aligned fuel s varOrigin f
  exact ⟨w, hw, h, h.sublist, h.weakens hv.aligned depth s⟩

/-- A bound and a branch at 4, and a branch at 9. -/
def twoBranches : Recorded Unit :=
  ((Recorded.new.boundPred 0 4).addCondAtNarrowed 3 4 none
    (some (1, none, false, (), ()))).addCondAt 6 9

def noExprs : SymbolicState := ⟨[], fun _ => none, [], none⟩

/-- The window from 5 on keeps the last branch with its metadata. -/
theorem twoBranches_sliced : (Filter.fromPc 5 none).apply 0 noExprs (fun _ => none) twoBranches =
      some ⟨[6], [9], [true], [none], [none]⟩ ∧
    Sliced twoBranches ⟨[6], [9], [true], [none], [none]⟩ := by
  have hbuilt : Built twoBranches := .push (.push (.push .new ..) ..) ..
  obtain ⟨w, hw, h, _⟩ := slicing_sound hbuilt 0 0 noExprs (fun _ => none) (.fromPc 5 none)
  cases hw
  exact ⟨rfl, h⟩

end Sound
end ZoneVerifier.PathSlicing
