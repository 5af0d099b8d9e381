import Mathlib.Data.List.Basic

/-!
# Quantifier-free bit-vector terms

The terms of the logic `QF_BV` and their meaning. An assignment gives every
variable a number, read at the width the variable is declared with. A term that
is not well sorted has no value. `Unsatisfiable` says that a formula is well
sorted and false under every assignment.
-/

set_option autoImplicit false

namespace ZoneVerifier.BitTerm

inductive BinOp where
  | add | sub | mul | udiv | or | and | shl | lshr | urem | xor | ashr
  deriving DecidableEq, Repr

inductive Pred where
  | eq | distinct | ugt | uge | ult | ule | sgt | sge | slt | sle
  deriving DecidableEq, Repr

inductive Term (ι : Type) where
  | var (name : ι) (width : Nat)
  | lit (width value : Nat)
  | zeroExtend (extra : Nat) (t : Term ι)
  | signExtend (extra : Nat) (t : Term ι)
  | extract (hi lo : Nat) (t : Term ι)
  | bvnot (t : Term ι)
  | bvneg (t : Term ι)
  | concat (ts : List (Term ι))
  | bin (op : BinOp) (a b : Term ι)
  | truth (b : Bool)
  | conj (ts : List (Term ι))
  | disj (ts : List (Term ι))
  | implies (ts : List (Term ι))
  | not (t : Term ι)
  | pred (op : Pred) (a b : Term ι)

inductive Value where
  | bv {w : Nat} (x : BitVec w)
  | bool (b : Bool)

def BinOp.eval {w : Nat} (op : BinOp) (x y : BitVec w) : BitVec w :=
  match op with
  | .add => x + y
  | .sub => x - y
  | .mul => x * y
  | .udiv => BitVec.smtUDiv x y
  | .or => x ||| y
  | .and => x &&& y
  | .shl => x <<< y
  | .lshr => x >>> y
  | .urem => x % y
  | .xor => x ^^^ y
  | .ashr => x.sshiftRight y.toNat

def Pred.eval {w : Nat} (op : Pred) (x y : BitVec w) : Bool :=
  match op with
  | .eq => x == y
  | .distinct => x != y
  | .ugt => y.ult x
  | .uge => y.ule x
  | .ult => x.ult y
  | .ule => x.ule y
  | .sgt => y.slt x
  | .sge => y.sle x
  | .slt => x.slt y
  | .sle => x.sle y

namespace Value

def toBool? : Value → Option Bool
  | bool b => some b
  | bv _ => none

def unary {w' : Nat → Nat} (f : ∀ w, BitVec w → BitVec (w' w)) : Value → Option Value
  | bv x => some (bv (f _ x))
  | bool _ => none

def binary (f : ∀ w, BitVec w → BitVec w → Value) : Value → Value → Option Value
  | @bv w x, @bv w' y => if h : w' = w then some (f w x (h ▸ y)) else none
  | _, _ => none

def slice (hi lo : Nat) : Value → Option Value
  | @bv w x => if lo ≤ hi ∧ hi < w then some (bv (x.extractLsb hi lo)) else none
  | bool _ => none

def append : Value → Value → Option Value
  | bv x, bv y => some (bv (x ++ y))
  | _, _ => none

/-- The most significant part comes first. -/
def concat : List Value → Option Value
  | [] => none
  | v :: vs => vs.foldlM append v

/-- Right associative. -/
def implies : List Bool → Bool
  | [] => true
  | [b] => b
  | b :: bs => !b || implies bs

end Value

variable {ι : Type}

namespace Term
open Value

mutual

def eval (σ : ι → Nat) : Term ι → Option Value
  | var name width => some (bv (BitVec.ofNat width (σ name)))
  | lit width value => some (bv (BitVec.ofNat width value))
  | zeroExtend extra t => (eval σ t).bind (unary fun w x => x.zeroExtend (w + extra))
  | signExtend extra t => (eval σ t).bind (unary fun w x => x.signExtend (w + extra))
  | extract hi lo t => (eval σ t).bind (slice hi lo)
  | bvnot t => (eval σ t).bind (unary fun _ x => ~~~x)
  | bvneg t => (eval σ t).bind (unary fun _ x => -x)
  | concat ts => (evals σ ts).bind Value.concat
  | bin op a b => (eval σ a).bind fun x => (eval σ b).bind fun y =>
      binary (fun _ x y => bv (op.eval x y)) x y
  | truth b => some (bool b)
  | conj ts => (evals σ ts).bind fun vs => (vs.mapM toBool?).map fun bs => bool (bs.all id)
  | disj ts => (evals σ ts).bind fun vs => (vs.mapM toBool?).map fun bs => bool (bs.any id)
  | implies ts => (evals σ ts).bind fun vs => (vs.mapM toBool?).map fun bs =>
      bool (Value.implies bs)
  | not t => (eval σ t).bind fun v => (toBool? v).map fun b => bool !b
  | pred op a b => (eval σ a).bind fun x => (eval σ b).bind fun y =>
      binary (fun _ x y => bool (op.eval x y)) x y

def evals (σ : ι → Nat) : List (Term ι) → Option (List Value)
  | [] => some []
  | t :: ts => (eval σ t).bind fun v => (evals σ ts).map fun vs => v :: vs

end

/-- Well sorted and false under every assignment. -/
def Unsatisfiable (t : Term ι) : Prop := ∀ σ, t.eval σ = some (bool false)

section Laws
variable {σ : ι → Nat}

theorem binary_eq_some {f : ∀ w, BitVec w → BitVec w → Value} {a b v : Value}
    (h : binary f a b = some v) : ∃ w, ∃ x y : BitVec w, a = bv x ∧ b = bv y ∧ v = f w x y := by
  cases a with
  | bool => cases h
  | @bv w x =>
    cases b with
    | bool => cases h
    | @bv w' y =>
      rw [binary] at h
      split_ifs at h with hw
      subst hw
      exact ⟨w', x, y, rfl, rfl, (Option.some.inj h).symm⟩

theorem bind_binary {f : ∀ w, BitVec w → BitVec w → Value} {a b : Option Value} {v : Value}
    (h : (a.bind fun x => b.bind fun y => binary f x y) = some v) :
    ∃ w, ∃ x y : BitVec w, a = some (bv x) ∧ b = some (bv y) ∧ v = f w x y := by
  obtain ⟨va, ha, h⟩ := Option.bind_eq_some_iff.1 h
  obtain ⟨vb, hb, h⟩ := Option.bind_eq_some_iff.1 h
  obtain ⟨w, x, y, rfl, rfl, hv⟩ := binary_eq_some h
  exact ⟨w, x, y, ha, hb, hv⟩

theorem eval_conj_cons (t : Term ι) (ts : List (Term ι)) :
    (conj (t :: ts)).eval σ = some (bool true) ↔
      t.eval σ = some (bool true) ∧ (conj ts).eval σ = some (bool true) := by
  simp only [eval, evals]
  cases t.eval σ with
  | none => simp
  | some v =>
    cases evals σ ts with
    | none => simp
    | some vs =>
      cases v with
      | bv x => simp [toBool?]
      | bool b => cases hbs : vs.mapM toBool? <;> simp [toBool?, hbs]

theorem eval_conj_true_iff {ts : List (Term ι)} :
    (conj ts).eval σ = some (bool true) ↔ ∀ t ∈ ts, t.eval σ = some (bool true) := by
  induction ts with
  | nil => simp [eval, evals]
  | cons t ts ih => rw [eval_conj_cons, ih, List.forall_mem_cons]

theorem eval_of_conj_false {a b : Term ι} (h : (conj [a, b]).eval σ = some (bool false))
    (ha : a.eval σ = some (bool true)) : b.eval σ = some (bool false) := by
  cases hb : b.eval σ with
  | none => simp [eval, evals, ha, hb] at h
  | some v =>
    cases v with
    | bv x => simp [eval, evals, ha, hb, toBool?] at h
    | bool c => simpa [eval, evals, ha, hb, toBool?] using h

theorem eval_of_disj_false {a b : Term ι} (h : (disj [a, b]).eval σ = some (bool false)) :
    a.eval σ = some (bool false) ∧ b.eval σ = some (bool false) := by
  cases ha : a.eval σ with
  | none => simp [eval, evals, ha] at h
  | some u =>
    cases hb : b.eval σ with
    | none => simp [eval, evals, ha, hb] at h
    | some v =>
      cases u with
      | bv x => simp [eval, evals, ha, hb, toBool?] at h
      | bool c =>
        cases v with
        | bv x => simp [eval, evals, ha, hb, toBool?] at h
        | bool d => simpa [eval, evals, ha, hb, toBool?] using h

end Laws
end Term
end ZoneVerifier.BitTerm
