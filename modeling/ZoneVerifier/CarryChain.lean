import Mathlib.Data.BitVec

/-!
# Sums between two extremes

Carries are monotone in the bits of the summands. So if two summands vary
between extremes, with or without a carry in, every bit of the sum is fixed
where the extremes of the summands agree and the extreme sums agree.
-/

set_option autoImplicit false

namespace ZoneVerifier.CarryChain

variable {w : Nat}

def Below (x y : BitVec w) : Prop := ∀ i, x.getLsbD i = true → y.getLsbD i = true

theorem Below.not {x y : BitVec w} (h : Below x y) : Below (~~~y) (~~~x) := by
  intro i hy
  simp only [BitVec.getLsbD_not, Bool.and_eq_true, decide_eq_true_eq, Bool.not_eq_true'] at hy ⊢
  refine ⟨hy.1, ?_⟩
  cases hx : x.getLsbD i with
  | false => rfl
  | true => rw [h i hx] at hy; exact absurd hy.2 (by decide)

theorem carry_mono {x x' y y' : BitVec w} (hx : Below x x') (hy : Below y y') (c : Bool) (i : Nat) :
    BitVec.carry i x y c = true → BitVec.carry i x' y' c = true := by
  induction i with
  | zero => simp [BitVec.carry_zero]
  | succ i ih =>
    have h1 := hx i
    have h2 := hy i
    simp only [BitVec.carry_succ, Bool.atLeastTwo]
    grind

def sum (x y : BitVec w) (c : Bool) : BitVec w := x + y + BitVec.setWidth w (BitVec.ofBool c)

theorem sum_false (x y : BitVec w) : sum x y false = x + y := by
  simp [sum]

theorem sum_true_not (x y : BitVec w) : sum x (~~~y) true = x - y := by
  rw [sum, BitVec.sub_eq_add_neg, BitVec.neg_eq_not_add, BitVec.add_assoc]
  congr 2
  apply BitVec.eq_of_toNat_eq
  simp

theorem getLsbD_sum {i : Nat} (hi : i < w) (x y : BitVec w) (c : Bool) :
    (sum x y c).getLsbD i = (x.getLsbD i ^^ (y.getLsbD i ^^ BitVec.carry i x y c)) :=
  BitVec.getLsbD_add_add_bool hi x y c

theorem squeeze {a b c : Bool} (hab : a = true → b = true) (hbc : b = true → c = true)
    (h : a = c) : b = a := by
  cases a <;> cases b <;> simp_all

/-- The bits on which all extremes agree are fixed. -/
theorem getLsbD_sum_eq {lo x hi lo' y hi' : BitVec w} (hlo : Below lo x) (hhi : Below x hi)
    (hlo' : Below lo' y) (hhi' : Below y hi') {c : Bool} {i : Nat} (hiw : i < w)
    (hx : lo.getLsbD i = hi.getLsbD i) (hy : lo'.getLsbD i = hi'.getLsbD i)
    (hsum : (sum lo lo' c).getLsbD i = (sum hi hi' c).getLsbD i) :
    (sum x y c).getLsbD i = (sum lo lo' c).getLsbD i := by
  have hxi := squeeze (hlo i) (hhi i) hx
  have hyi := squeeze (hlo' i) (hhi' i) hy
  rw [getLsbD_sum hiw, getLsbD_sum hiw, hx, hy, Bool.xor_right_inj, Bool.xor_right_inj] at hsum
  have hc := squeeze (carry_mono hlo hlo' c i) (carry_mono hhi hhi' c i) hsum
  rw [getLsbD_sum hiw, getLsbD_sum hiw, hxi, hyi, hc]

end ZoneVerifier.CarryChain
