import ZoneVerifier.CanonicalHash
import ZoneVerifier.Word

/-!
# The symbolic state

The expressions a path has built, the expression of each register and the path
conditions, in the order they were recorded (`refinement/symbolic.rs`). An
expression is named by its slot offset in the table; the table only grows, so a
slot keeps its expression. `none` is a panic: a slot that names no expression, or
a table that outgrows its 32-bit offsets.
-/

set_option autoImplicit false

namespace ZoneVerifier.Symbolic
open CanonicalHash (BcfExpr bcfBv bcfVal bcfOpMask)

def bcfTypeMask : UInt8 := 0x07

def bcfBool : UInt8 := 0x01

def bcfExtract : UInt8 := 0x38

def bcfSignExtend : UInt8 := 0x48

def bcfZeroExtend : UInt8 := 0x58

def bcfConj : UInt8 := 0x00

def bcfDisj : UInt8 := 0x40

def bpfAdd : UInt8 := 0x00

def bpfJgt : UInt8 := 0x20

def bpfJsgt : UInt8 := 0x60

def bpfJslt : UInt8 := 0xc0

structure PathCond where
  expr : UInt32
  pc : Nat
  isBranch : Bool
  deriving DecidableEq, Repr

structure SymbolicState where
  exprs : List BcfExpr
  regExpr : Fin 11 → Option UInt32
  pathConds : List PathCond
  refineCond : Option UInt32

def slotLen (e : BcfExpr) : Nat := 1 + e.args.length

/-- `next_slot`. -/
def slotCount (exprs : List BcfExpr) : Nat := (exprs.map slotLen).sum

def exprAtFrom (idx : UInt32) : Nat → List BcfExpr → Option BcfExpr
  | _, [] => none
  | cur, e :: es => if cur = idx.toNat then some e else exprAtFrom idx (cur + slotLen e) es

def exprAt (exprs : List BcfExpr) (idx : UInt32) : Option BcfExpr := exprAtFrom idx 0 exprs

namespace SymbolicState

def pushExpr (s : SymbolicState) (e : BcfExpr) : Option (UInt32 × SymbolicState) :=
  if slotCount s.exprs + slotLen e < 2^32 then
    some (UInt32.ofNat (slotCount s.exprs), { s with exprs := s.exprs ++ [e] })
  else none

end SymbolicState

section Exprs

def bvVal32 (imm : UInt32) : BcfExpr := ⟨bcfVal ||| bcfBv, 32, [imm]⟩

def bvVal64 (imm : Nat) : BcfExpr :=
  ⟨bcfVal ||| bcfBv, 64, [UInt32.ofNat imm, UInt32.ofNat (imm / 2^32)]⟩

def bvAlu (op : UInt8) (a b : UInt32) (width : UInt16) : BcfExpr := ⟨op ||| bcfBv, width, [a, b]⟩

def bvPred (op : UInt8) (a b : UInt32) : BcfExpr := ⟨op ||| bcfBool, 0, [a, b]⟩

def predConj (args : List UInt32) : BcfExpr := ⟨bcfConj ||| bcfBool, 0, args⟩

def predDisj (args : List UInt32) : BcfExpr := ⟨bcfDisj ||| bcfBool, 0, args⟩

def bvExtract (size : UInt16) (arg : UInt32) : BcfExpr :=
  ⟨bcfExtract ||| bcfBv, (size - 1) <<< 8, [arg]⟩

def bvVal (val : Nat) (bit32 : Bool) : BcfExpr :=
  if bit32 then bvVal32 (UInt32.ofNat val) else bvVal64 val

/-- `ZEXT_32_to_64` or `SEXT_32_to_64`. -/
def isExt32To64 (e : BcfExpr) : Bool :=
  e.code &&& bcfTypeMask == bcfBv &&
    (e.code &&& bcfOpMask == bcfZeroExtend || e.code &&& bcfOpMask == bcfSignExtend) &&
    e.params == (((32 : UInt16) <<< 8) ||| 64)

end Exprs

namespace SymbolicState

/-- The 32-bit form of an expression: an extension is peeled, a constant is
rebuilt, anything else is extracted from. -/
def expr32 (s : SymbolicState) (slot : UInt32) : Option (UInt32 × SymbolicState) :=
  (exprAt s.exprs slot).bind fun e =>
    if isExt32To64 e then some (e.args.headD 0, s)
    else if e.code = bcfVal ||| bcfBv ∧ e.params = 64 then s.pushExpr (bvVal32 (e.args.headD 0))
    else s.pushExpr (bvExtract 32 slot)

/-- Called with no previous instruction: only the conditions recorded from
`basePc` on are kept, unless that would be none of them. -/
def filterPathCondsFromPc (s : SymbolicState) (basePc : Nat) : SymbolicState :=
  let kept := s.pathConds.filter fun c => c.pc == 0 || decide (basePc ≤ c.pc)
  if basePc = 0 then s
  else if kept.isEmpty ∧ ¬ s.pathConds.isEmpty then s
  else { s with pathConds := kept }

def setRefineCond (s : SymbolicState) (idx : UInt32) : SymbolicState :=
  { s with refineCond := some idx }

/-- `CONJ(CONJ(path conditions), refine_cond)`, without the conjunctions that
would have one argument. -/
def buildGoalRoot (s : SymbolicState) (refineCond : UInt32) : Option (UInt32 × SymbolicState) :=
  match s.pathConds with
  | [] => some (refineCond, s)
  | [c] => s.pushExpr (predConj [c.expr, refineCond])
  | cs => (s.pushExpr (predConj (cs.map PathCond.expr))).bind fun inner =>
      inner.2.pushExpr (predConj [inner.1, refineCond])

end SymbolicState

section Table
variable {e : BcfExpr} {es : List BcfExpr} {idx : UInt32}

theorem exprAtFrom_append {cur : Nat} {more : List BcfExpr} (h : exprAtFrom idx cur es = some e) :
    exprAtFrom idx cur (es ++ more) = some e := by
  induction es generalizing cur with
  | nil => cases h
  | cons d es ih =>
    rw [List.cons_append, exprAtFrom]
    rw [exprAtFrom] at h
    split_ifs at h ⊢ with hc
    · exact h
    · exact ih h

theorem exprAt_of_isPrefix {fs : List BcfExpr} (h : es <+: fs) (he : exprAt es idx = some e) :
    exprAt fs idx = some e := by
  obtain ⟨more, rfl⟩ := h
  exact exprAtFrom_append he

theorem exprAtFrom_end {cur : Nat} (e : BcfExpr) (h : idx.toNat = cur + slotCount es) :
    exprAtFrom idx cur (es ++ [e]) = some e := by
  induction es generalizing cur with
  | nil =>
    rw [List.nil_append, exprAtFrom, if_pos]
    simpa [slotCount] using h.symm
  | cons d es ih =>
    have hcons : slotCount (d :: es) = slotLen d + slotCount es := by
      rw [slotCount, List.map_cons, List.sum_cons, slotCount]
    have hpos : 0 < slotLen d := Nat.lt_add_right _ Nat.one_pos
    rw [List.cons_append, exprAtFrom, if_neg (by omega)]
    exact ih (by omega)

theorem pushExpr_spec {s : SymbolicState} {p : UInt32 × SymbolicState} (h : s.pushExpr e = some p) :
    exprAt p.2.exprs p.1 = some e ∧ s.exprs <+: p.2.exprs ∧
      p.2.pathConds = s.pathConds ∧ p.2.regExpr = s.regExpr := by
  rw [SymbolicState.pushExpr] at h
  split_ifs at h with hroom
  cases h
  refine ⟨exprAtFrom_end e ?_, List.prefix_append _ _, rfl, rfl⟩
  rw [UInt32.toNat_ofNat', Nat.zero_add]
  exact Nat.mod_eq_of_lt (by omega)

theorem mem_filterPathCondsFromPc {s : SymbolicState} {basePc : Nat} {c : PathCond}
    (h : c ∈ (s.filterPathCondsFromPc basePc).pathConds) : c ∈ s.pathConds := by
  rw [SymbolicState.filterPathCondsFromPc] at h
  split_ifs at h with h0 h1
  · exact h
  · exact h
  · exact List.mem_of_mem_filter h

@[simp] theorem exprs_filterPathCondsFromPc (s : SymbolicState) (basePc : Nat) :
    (s.filterPathCondsFromPc basePc).exprs = s.exprs := by
  rw [SymbolicState.filterPathCondsFromPc]
  split_ifs <;> rfl

@[simp] theorem regExpr_filterPathCondsFromPc (s : SymbolicState) (basePc : Nat) :
    (s.filterPathCondsFromPc basePc).regExpr = s.regExpr := by
  rw [SymbolicState.filterPathCondsFromPc]
  split_ifs <;> rfl

end Table
end ZoneVerifier.Symbolic
