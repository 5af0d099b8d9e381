import ZoneVerifier.Bundle
import ZoneVerifier.Symbolic

/-!
# Decoding a goal

A goal payload is its root and its expression table, each expression behind a
header with its number of arguments. That number has one byte, and a conjunction
has an argument for every path condition.
-/

set_option autoImplicit false

namespace ZoneVerifier.Bundle
open ByteCode Symbolic
open CanonicalHash hiding exprAt

def decodeArgs (goal : List UInt8) : Nat → Nat → Option (List UInt32)
  | 0, _ => some []
  | n + 1, off => (rdU32 goal off).bind fun a => (decodeArgs goal n (off + 4)).map (a :: ·)

def decodeExprs (goal : List UInt8) : Nat → Nat → Option (List BcfExpr)
  | 0, _ => some []
  | n + 1, off => do
    let code ← goal[off]?
    let vlen ← goal[off + 1]?
    let params ← slice goal (off + 2) 2
    let args ← decodeArgs goal vlen.toNat (off + 4)
    let rest ← decodeExprs goal n (off + (4 + 4 * vlen.toNat))
    some (⟨code, UInt16.ofNat (ofLeBytes params), args⟩ :: rest)

def decodeGoal (goal : List UInt8) : Option (UInt32 × List BcfExpr) := do
  let root ← rdU32 goal 0
  let n ← rdU32 goal 4
  let exprs ← decodeExprs goal n.toNat 8
  some (root, exprs)

/-- The goal of `build_unreachable_from_replay`: the path conditions alone. -/
def buildUnreachableFromReplay (s : SymbolicState) : Option (UInt32 × SymbolicState) :=
  match s.pathConds with
  | [] => none
  | [c] => some (c.expr, s)
  | cs => s.pushExpr (predConj (cs.map PathCond.expr))

section Decode
variable {goal : List UInt8} {off n : Nat} {exprs : List BcfExpr}

theorem decodeArgs_of_at {args : List UInt32}
    (h : At goal off (args.flatMap SlotTable.wordBytes)) :
    decodeArgs goal args.length off = some args := by
  induction args generalizing off with
  | nil => rfl
  | cons a args ih =>
    have hrest : decodeArgs goal args.length (off + 4) = some args := ih h.right
    rw [List.length_cons, decodeArgs, rdU32_of_at h.left, Option.bind_some, hrest, Option.map_some]

theorem length_decodeArgs {args : List UInt32} (h : decodeArgs goal n off = some args) :
    args.length = n := by
  induction n generalizing off args with
  | zero =>
    cases h
    rfl
  | succ n ih =>
    obtain ⟨a, _, hrest⟩ := Option.bind_eq_some_iff.1 h
    obtain ⟨rest, hargs, rfl⟩ := Option.map_eq_some_iff.1 hrest
    rw [List.length_cons, ih hargs]

theorem decodeExprs_of_at (h : At goal off (exprs.flatMap exprBytes))
    (hargs : ∀ e ∈ exprs, e.args.length ≤ 255) : decodeExprs goal exprs.length off = some exprs := by
  induction exprs generalizing off with
  | nil => rfl
  | cons e es ih =>
    have hrest := h.right
    rw [length_exprBytes] at hrest
    have htail := At.right (x := [e.code, vlen e]) h.left
    have hparams : slice goal (off + 2) 2 = some (leBytes 2 e.params.toNat) := htail.left.slice
    have hcode : goal[off]? = some e.code := h.getElem?
    have hvlen : goal[off + 1]? = some (vlen e) := (At.right (x := [e.code]) h).getElem?
    have hwords : decodeArgs goal e.args.length (off + 4) = some e.args := decodeArgs_of_at htail.right
    have hvalue : UInt16.ofNat (ofLeBytes (leBytes 2 e.params.toNat)) = e.params := by
      rw [ofLeBytes_leBytes, Nat.mod_eq_of_lt (by exact e.params.toNat_lt), UInt16.ofNat_toNat]
    have hes := ih hrest fun x hx => hargs x (List.mem_cons_of_mem e hx)
    simp [decodeExprs, hcode, hvlen, toNat_vlen (hargs e List.mem_cons_self), hparams, hwords, hes,
      hvalue]

theorem args_le_of_decodeExprs (h : decodeExprs goal n off = some exprs) :
    ∀ e ∈ exprs, e.args.length ≤ 255 := by
  induction n generalizing off exprs with
  | zero =>
    cases h
    exact fun e he => nomatch he
  | succ n ih =>
    simp only [decodeExprs, Option.bind_eq_bind, Option.bind_eq_some_iff] at h
    obtain ⟨code, _, vlen, _, params, _, args, hargs, rest, hrest, heq⟩ := h
    cases heq
    refine List.forall_mem_cons.2 ⟨?_, ih hrest⟩
    exact (length_decodeArgs hargs).trans_le (Nat.le_of_lt_succ vlen.toNat_lt)

theorem decodeGoal_serializeGoal_iff (root : UInt32)
    (hsize : (serializeGoal root exprs).length ≤ maxGoalBytes) :
    decodeGoal (serializeGoal root exprs) = some (root, exprs) ↔
      ∀ e ∈ exprs, e.args.length ≤ 255 := by
  have hat := at_zero (serializeGoal root exprs)
  have hbody : At (serializeGoal root exprs) 8 (exprs.flatMap exprBytes) := hat.right.right
  have hcount := (length_le_flatMap_exprBytes exprs).trans (Nat.le_of_add_left_le hbody.le_length)
  have hn : (UInt32.ofNat exprs.length).toNat = exprs.length := by
    rw [maxGoalBytes] at hsize
    rw [UInt32.toNat_ofNat', Nat.mod_eq_of_lt (by omega)]
  have hdecode : decodeGoal (serializeGoal root exprs) =
      (decodeExprs (serializeGoal root exprs) exprs.length 8).map fun es => (root, es) := by
    have hcnt : rdU32 (serializeGoal root exprs) 4 = some (UInt32.ofNat exprs.length) :=
      rdU32_of_at hat.right.left
    rw [decodeGoal, rdU32_of_at hat.left, hcnt]
    show (decodeExprs _ (UInt32.ofNat exprs.length).toNat 8).bind _ = _
    rw [hn, Option.map_eq_bind]
    rfl
  rw [hdecode]
  refine ⟨fun h => ?_, fun hargs => ?_⟩
  · obtain ⟨es, hes, heq⟩ := Option.map_eq_some_iff.1 h
    cases heq
    exact args_le_of_decodeExprs hes
  · rw [decodeExprs_of_at hbody hargs, Option.map_some]

end Decode

section Goals
variable {s : SymbolicState} {goal : UInt32 × SymbolicState}

theorem forall_pushExpr {P : BcfExpr → Prop} {e : BcfExpr} (h : s.pushExpr e = some goal) :
    (∀ x ∈ goal.2.exprs, P x) ↔ P e ∧ ∀ x ∈ s.exprs, P x := by
  rw [SymbolicState.pushExpr] at h
  split_ifs at h
  cases h
  rw [List.forall_mem_append, List.forall_mem_singleton, and_comm]

theorem goal_decodes_iff
    (hgoal : (∃ refineCond, s.buildGoalRoot refineCond = some goal) ∨
      buildUnreachableFromReplay s = some goal)
    (hsize : (serializeGoal goal.1 goal.2.exprs).length ≤ maxGoalBytes) :
    decodeGoal (serializeGoal goal.1 goal.2.exprs) = some (goal.1, goal.2.exprs) ↔
      s.pathConds.length ≤ 255 ∧ ∀ e ∈ s.exprs, e.args.length ≤ 255 := by
  rw [decodeGoal_serializeGoal_iff goal.1 hsize]
  rcases hgoal with ⟨refineCond, hgoal⟩ | hgoal
  · rw [SymbolicState.buildGoalRoot] at hgoal
    split at hgoal
    · next hnil =>
      cases hgoal
      simp [hnil]
    · next c hone =>
      rw [forall_pushExpr hgoal]
      simp [hone, predConj]
    · obtain ⟨inner, hinner, houter⟩ := Option.bind_eq_some_iff.1 hgoal
      rw [forall_pushExpr houter, forall_pushExpr hinner]
      simp [predConj]
  · rw [buildUnreachableFromReplay] at hgoal
    split at hgoal
    · cases hgoal
    · next c hone =>
      cases hgoal
      simp [hone]
    · rw [forall_pushExpr hgoal]
      simp [predConj]

/-- A branch recorded `n` times, as a loop does. -/
def looped (n : Nat) : SymbolicState where
  exprs := [⟨bcfVar ||| bcfBv, 64, []⟩, bvPred bpfJgt 0 0]
  regExpr _ := none
  pathConds := List.replicate n ⟨1, 7, true⟩
  refineCond := none

theorem looped_goal_decodes : ∃ goal, (looped 2).buildGoalRoot 1 = some goal ∧
    decodeGoal (serializeGoal goal.1 goal.2.exprs) = some (goal.1, goal.2.exprs) :=
  ⟨_, rfl, (goal_decodes_iff (s := looped 2) (Or.inl ⟨1, rfl⟩) (by decide)).2
    ⟨by decide, by decide⟩⟩

set_option maxRecDepth 4096 in
/-- The decoded table has no expression at the root. -/
theorem looped_goal_loses_root : ∃ goal table, (looped 256).buildGoalRoot 1 = some goal ∧
    (serializeGoal goal.1 goal.2.exprs).length ≤ maxGoalBytes ∧ nvars goal.2.exprs ≤ maxVars ∧
    decodeGoal (serializeGoal goal.1 goal.2.exprs) = some (goal.1, table) ∧
    exprAt goal.2.exprs goal.1 = some (predConj [4, 1]) ∧ exprAt table goal.1 = none :=
  ⟨_, [⟨0x18, 64, []⟩, bvPred bpfJgt 0 0, predConj [], predConj []], rfl, by decide +kernel,
    by decide +kernel, by decide +kernel, by decide +kernel, by decide +kernel⟩

end Goals
end ZoneVerifier.Bundle
