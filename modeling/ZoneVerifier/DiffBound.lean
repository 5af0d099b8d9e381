import Mathlib.Algebra.Order.Ring.Int
import Mathlib.Data.Fintype.List
import Mathlib.Data.Fintype.Prod
import Mathlib.Data.Int.LeastGreatest
import Mathlib.Data.Set.Finite.Lattice
import Mathlib.Data.Set.Finite.Lemmas

/-!
# Difference bounds and their closure

A matrix `m` over an arbitrary type of variables asserts `x - y ≤ m x y` for
every cell below a threshold `top`, which stands for "no bound". The in-place
closure loop only adds assertions that already follow. The bounded cells are the
edges of a graph: without a negative cycle every walk weighs at least as much as
one that repeats no variable, and the least weights to anywhere solve the
matrix. A variable can be eliminated where the other cells imply every walk
through it.
-/

set_option autoImplicit false

namespace ZoneVerifier.DiffBound

section Matrix
variable {V : Type} (top : Int)

abbrev Matrix (V : Type) := V → V → Int

def Sat (m : Matrix V) (x : V → Int) : Prop := ∀ i j, m i j < top → x i - x j ≤ m i j

def Le (m n : Matrix V) : Prop := ∀ i j, m i j ≤ n i j

theorem Le.refl (m : Matrix V) : Le m m := fun _ _ => Int.le_refl _

theorem Le.trans {m n p : Matrix V} (h : Le m n) (h' : Le n p) : Le m p :=
  fun i j => Int.le_trans (h i j) (h' i j)

variable {top}

theorem Sat.of_le {m n : Matrix V} {x : V → Int} (h : Sat top m x) (hle : Le m n) :
    Sat top n x := by
  intro i j hn
  have hm := hle i j
  have := h i j (by omega)
  omega

variable [DecidableEq V]

def set (m : Matrix V) (i j : V) (c : Int) : Matrix V :=
  fun a b => if a = i ∧ b = j then c else m a b

def tighten (m : Matrix V) (i j : V) (c : Int) : Matrix V :=
  if c < m i j then set m i j c else m

theorem tighten_apply (m : Matrix V) (i j a b : V) (c : Int) :
    tighten m i j c a b = if a = i ∧ b = j then min c (m i j) else m a b := by
  unfold tighten
  split
  case isTrue h =>
    unfold set
    split
    case isTrue => omega
    case isFalse => rfl
  case isFalse h =>
    split
    case isTrue hab =>
      obtain ⟨rfl, rfl⟩ := hab
      omega
    case isFalse => rfl

section
variable (m : Matrix V) (i j : V) (c : Int)

theorem tighten_le : Le (tighten m i j c) m := by
  intro a b
  rw [tighten_apply]
  split
  case isTrue hab =>
    obtain ⟨rfl, rfl⟩ := hab
    exact Int.min_le_right _ _
  case isFalse => exact Int.le_refl _

theorem tighten_self_le : tighten m i j c i j ≤ c := by
  rw [tighten_apply, if_pos ⟨rfl, rfl⟩]
  exact Int.min_le_left _ _

theorem sat_tighten_iff (x : V → Int) :
    Sat top (tighten m i j c) x ↔ Sat top m x ∧ (c < top → x i - x j ≤ c) := by
  constructor
  · intro h
    refine ⟨h.of_le (tighten_le m i j c), fun hc => ?_⟩
    have hle := tighten_self_le m i j c
    have := h i j (by omega)
    omega
  · rintro ⟨h, hc⟩ a b hab
    rw [tighten_apply] at hab ⊢
    split at hab
    case isTrue he =>
      obtain ⟨rfl, rfl⟩ := he
      rw [if_pos ⟨rfl, rfl⟩]
      have := h a b
      omega
    case isFalse he =>
      rw [if_neg he]
      exact h a b hab

end

variable (top) in
/-- The variable `x` moves: the bounded cells of its row go through `row` and
those of its column through `col`. -/
def translate (m : Matrix V) (x : V) (row col : Int → Int) : Matrix V := fun i j =>
  if i = x then if j = x then 0 else if m x j < top then row (m x j) else m x j
  else if j = x then if m i x < top then col (m i x) else m i x
  else m i j

/-- A solution still solves the translated matrix after `x` has moved exactly
when it satisfies the new cells of `x`. -/
theorem sat_translate_iff {m : Matrix V} {x : V} {row col : Int → Int} {v w : V → Int}
    (h : Sat top m v) (hw : ∀ j, j ≠ x → w j = v j) :
    Sat top (translate top m x row col) w ↔ ∀ j, j ≠ x →
      (m x j < top → row (m x j) < top → w x - v j ≤ row (m x j)) ∧
      (m j x < top → col (m j x) < top → v j - w x ≤ col (m j x)) := by
  constructor
  · intro hs j hj
    have h1 := hs x j
    have h2 := hs j x
    simp only [translate, if_true, if_neg hj, hw j hj] at h1 h2
    refine ⟨fun hb => ?_, fun hb => ?_⟩
    · rwa [if_pos hb] at h1
    · rwa [if_pos hb] at h2
  · intro hs i j
    simp only [translate]
    by_cases hi : i = x
    · subst hi
      rw [if_pos rfl]
      by_cases hj : j = i
      · subst hj
        simp
      · rw [if_neg hj, hw j hj]
        split_ifs with hb
        · exact (hs j hj).1 hb
        · exact fun hlt => absurd hlt hb
    · rw [if_neg hi, hw i hi]
      by_cases hj : j = x
      · subst hj
        rw [if_pos rfl]
        split_ifs with hb
        · exact (hs i hi).2 hb
        · exact fun hlt => absurd hlt hb
      · rw [if_neg hj, hw j hj]
        exact h i j

section Closure
variable (top) (plus : Int → Int → Int)

def closeRow (k i : V) (dik : Int) (js : List V) (m : Matrix V) : Matrix V :=
  js.foldl (fun m j => if top ≤ m k j then m else tighten m i j (plus dik (m k j))) m

def closeVia (k : V) (vars is : List V) (m : Matrix V) : Matrix V :=
  is.foldl (fun m i => if top ≤ m i k then m else closeRow top plus k i (m i k) vars m) m

def close (vars : List V) (m : Matrix V) : Matrix V :=
  vars.foldl (fun m k => closeVia top plus k vars vars m) m

variable {top plus}

theorem closeRow_le (k i : V) (dik : Int) (js : List V) (m : Matrix V) :
    Le (closeRow top plus k i dik js m) m := by
  induction js generalizing m with
  | nil => exact Le.refl m
  | cons j js ih =>
    rw [closeRow, List.foldl_cons]
    refine Le.trans (ih _) ?_
    split_ifs
    · exact Le.refl m
    · exact tighten_le m i j _

theorem closeVia_le (k : V) (vars is : List V) (m : Matrix V) :
    Le (closeVia top plus k vars is m) m := by
  induction is generalizing m with
  | nil => exact Le.refl m
  | cons i is ih =>
    rw [closeVia, List.foldl_cons]
    refine Le.trans (ih _) ?_
    split_ifs
    · exact Le.refl m
    · exact closeRow_le k i _ vars m

theorem foldl_closeVia_le (vars ks : List V) (m : Matrix V) :
    Le (ks.foldl (fun m k => closeVia top plus k vars vars m) m) m := by
  induction ks generalizing m with
  | nil => exact Le.refl m
  | cons k ks ih =>
    rw [List.foldl_cons]
    exact Le.trans (ih _) (closeVia_le k vars vars m)

def Cells (C : V → V → Int → Prop) (m : Matrix V) : Prop := ∀ i j, C i j (m i j)

section Cells
variable {C : V → V → Int → Prop} {m : Matrix V} {i j k : V} {a : Int}

theorem Cells.tighten (h : Cells C m) (ha : C i j a) : Cells C (tighten m i j a) := by
  intro p q
  rw [tighten_apply]
  split_ifs with he
  · obtain ⟨rfl, rfl⟩ := he
    rcases Int.le_total a (m p q) with hle | hle
    · rwa [Int.min_eq_left hle]
    · rw [Int.min_eq_right hle]
      exact h p q
  · exact h p q

variable (hstep : ∀ i k j a b, C i k a → C k j b → a < top → b < top → C i j (plus a b))
include hstep

theorem Cells.closeRow (h : Cells C m) (ha : C i k a) (hlt : a < top) (js : List V) :
    Cells C (closeRow top plus k i a js m) := by
  induction js generalizing m with
  | nil => exact h
  | cons j js ih =>
    rw [DiffBound.closeRow, List.foldl_cons]
    apply ih
    split_ifs with hj
    · exact h
    · exact h.tighten (hstep i k j a _ ha (h k j) hlt (Int.not_le.1 hj))

theorem Cells.closeVia (h : Cells C m) (k : V) (vars is : List V) :
    Cells C (closeVia top plus k vars is m) := by
  induction is generalizing m with
  | nil => exact h
  | cons i is ih =>
    rw [DiffBound.closeVia, List.foldl_cons]
    apply ih
    split_ifs with hi
    · exact h
    · exact h.closeRow hstep (h i k) (Int.not_le.1 hi) vars

theorem Cells.close (h : Cells C m) (vars : List V) : Cells C (close top plus vars m) := by
  have hrun : ∀ ks : List V,
      Cells C (ks.foldl (fun m k => DiffBound.closeVia top plus k vars vars m) m) := by
    intro ks
    induction ks generalizing m with
    | nil => exact h
    | cons k ks ih => exact ih (h.closeVia hstep k vars vars)
  exact hrun vars

end Cells

variable (hplus : ∀ a b, a < top → b < top → top ≤ plus a b ∨ a + b ≤ plus a b)
include hplus

theorem sat_close_iff (vars : List V) (m : Matrix V) (x : V → Int) :
    Sat top (close top plus vars m) x ↔ Sat top m x := by
  refine ⟨fun h => h.of_le (foldl_closeVia_le vars vars m), fun h => ?_⟩
  refine Cells.close (C := fun i j a => a < top → x i - x j ≤ a) ?_ h vars
  intro i k j a b ha hb ha' hb' hlt
  rcases hplus a b ha' hb' with hp | hp <;> omega

omit hplus

variable (top plus) in
/-- No cell is improved by going through a third variable. -/
def Closed (m : Matrix V) : Prop :=
  ∀ k i j, m i k < top → m k j < top → m i j ≤ plus (m i k) (m k j)

theorem closeRow_of_closed {m : Matrix V} (h : Closed top plus m) {k i : V} (hi : m i k < top)
    (js : List V) : closeRow top plus k i (m i k) js m = m := by
  induction js with
  | nil => rfl
  | cons j js ih =>
    rw [closeRow, List.foldl_cons]
    split_ifs with hj
    · exact ih
    · have hle := h k i j hi (Int.not_le.1 hj)
      rw [tighten, if_neg (Int.not_lt.2 hle)]
      exact ih

theorem closeVia_of_closed {m : Matrix V} (h : Closed top plus m) (k : V) (vars is : List V) :
    closeVia top plus k vars is m = m := by
  induction is with
  | nil => rfl
  | cons i is ih =>
    rw [closeVia, List.foldl_cons]
    split_ifs with hi
    · exact ih
    · rw [closeRow_of_closed h (Int.not_le.1 hi)]
      exact ih

theorem close_of_closed {m : Matrix V} (h : Closed top plus m) (vars : List V) :
    close top plus vars m = m := by
  suffices hk : ∀ ks : List V, ks.foldl (fun m k => closeVia top plus k vars vars m) m = m from
    hk vars
  intro ks
  induction ks with
  | nil => rfl
  | cons k ks ih => rw [List.foldl_cons, closeVia_of_closed h, ih]

end Closure
end Matrix
end ZoneVerifier.DiffBound

namespace ZoneVerifier.DiffBound

section Walks
variable {V : Type} (top : Int) (m : Matrix V)

/-- The steps from `i` through `ps` to `j` are bounded cells. -/
def IsWalk : V → List V → V → Prop
  | i, [], j => m i j < top
  | i, p :: ps, j => m i p < top ∧ IsWalk p ps j

instance IsWalk.decidable : ∀ i ps j, Decidable (IsWalk top m i ps j)
  | i, [], j => inferInstanceAs (Decidable (m i j < top))
  | i, p :: ps, j =>
    haveI := IsWalk.decidable p ps j
    inferInstanceAs (Decidable (m i p < top ∧ IsWalk top m p ps j))

def weight : V → List V → V → Int
  | i, [], j => m i j
  | i, p :: ps, j => m i p + weight p ps j

def Shortest (i j : V) (w : Int) : Prop :=
  IsLeast {c | ∃ ps, IsWalk top m i ps j ∧ weight m i ps j = c} w

def NegCycle : Prop := ∃ i ps, IsWalk top m i ps i ∧ weight m i ps i < 0

variable {top m} {i j k : V} {ps qs : List V}

theorem isWalk_append :
    IsWalk top m i (ps ++ k :: qs) j ↔ IsWalk top m i ps k ∧ IsWalk top m k qs j := by
  induction ps generalizing i with
  | nil => exact Iff.rfl
  | cons p ps ih => simp only [List.cons_append, IsWalk, ih, and_assoc]

theorem weight_append :
    weight m i (ps ++ k :: qs) j = weight m i ps k + weight m k qs j := by
  induction ps generalizing i with
  | nil => rfl
  | cons p ps ih => simp only [List.cons_append, weight, ih, Int.add_assoc]

theorem abs_weight_le {b : Int} (hb : ∀ i j, m i j < top → |m i j| ≤ b)
    (hw : IsWalk top m i ps j) : |weight m i ps j| ≤ b * (ps.length + 1) := by
  induction ps generalizing i with
  | nil =>
    have h := hb i j hw
    simp only [weight, List.length_nil]
    omega
  | cons p ps ih =>
    have h1 := hb i p hw.1
    have h2 := ih hw.2
    have h3 := abs_add_le (m i p) (weight m p ps j)
    have h4 : b * ((p :: ps).length + 1 : Int) = b + b * (ps.length + 1) := by
      rw [List.length_cons, Nat.cast_succ, Int.mul_add b (ps.length + 1) 1, Int.mul_one,
        Int.add_comm]
    rw [weight, h4]
    omega

/-- A solution is a potential: it drops along a walk by at most its weight. -/
theorem Sat.le_weight {x : V → Int} (h : Sat top m x) (hw : IsWalk top m i ps j) :
    x i - x j ≤ weight m i ps j := by
  induction ps generalizing i with
  | nil => exact h i j hw
  | cons p ps ih =>
    have h1 := h i p hw.1
    have h2 := ih hw.2
    rw [weight]
    omega

theorem Sat.not_negCycle {x : V → Int} (h : Sat top m x) : ¬ NegCycle top m := by
  rintro ⟨i, ps, hw, hneg⟩
  have := h.le_weight hw
  omega

theorem exists_repeat {l : List V} (h : ¬ l.Nodup) :
    ∃ as p bs cs, l = as ++ p :: (bs ++ p :: cs) := by
  induction l with
  | nil => exact absurd List.nodup_nil h
  | cons q l ih =>
    by_cases hq : q ∈ l
    · obtain ⟨bs, cs, rfl⟩ := List.append_of_mem hq
      exact ⟨[], q, bs, cs, rfl⟩
    · obtain ⟨as, p, bs, cs, rfl⟩ := ih fun hl => h (List.nodup_cons.2 ⟨hq, hl⟩)
      exact ⟨q :: as, p, bs, cs, rfl⟩

/-- Cutting out the cycles of a walk does not make it heavier. -/
theorem exists_nodup_walk (hn : ¬ NegCycle top m) (hw : IsWalk top m i ps j) :
    ∃ qs, qs.Nodup ∧ IsWalk top m i qs j ∧ weight m i qs j ≤ weight m i ps j := by
  induction hlen : ps.length using Nat.strong_induction_on generalizing ps with
  | _ n ih =>
    by_cases hnd : ps.Nodup
    · exact ⟨ps, hnd, hw, Int.le_refl _⟩
    obtain ⟨as, p, bs, cs, rfl⟩ := exists_repeat hnd
    simp only [isWalk_append] at hw
    have hcut : IsWalk top m i (as ++ p :: cs) j := isWalk_append.2 ⟨hw.1, hw.2.2⟩
    have hcycle : 0 ≤ weight m p bs p := Int.not_lt.1 fun hneg => hn ⟨p, bs, hw.2.1, hneg⟩
    have hlt : (as ++ p :: cs).length < n := by
      simp only [List.length_append, List.length_cons] at hlen ⊢
      omega
    obtain ⟨qs, hqs, hwq, hle⟩ := ih _ hlt hcut rfl
    refine ⟨qs, hqs, hwq, ?_⟩
    simp only [weight_append] at hle ⊢
    omega

theorem NegCycle.exists_simple (h : NegCycle top m) :
    ∃ i ps, (i :: ps).Nodup ∧ IsWalk top m i ps i ∧ weight m i ps i < 0 := by
  obtain ⟨i, ps, hw, hneg⟩ := h
  induction hlen : ps.length using Nat.strong_induction_on generalizing i ps with
  | _ n ih =>
    by_cases hnd : (i :: ps).Nodup
    · exact ⟨i, ps, hnd, hw, hneg⟩
    obtain ⟨as, p, bs, cs, he⟩ := exists_repeat hnd
    cases as with
    | nil =>
      -- the start is met again, which splits the cycle in two
      obtain ⟨rfl, rfl⟩ := List.cons.inj he
      simp only [isWalk_append, weight_append, List.length_append, List.length_cons] at hw hneg hlen
      by_cases hb : weight m i bs i < 0
      · exact ih bs.length (by omega) i bs hw.1 hb rfl
      · exact ih cs.length (by omega) i cs hw.2 (by omega) rfl
    | cons a as =>
      rw [List.cons_append] at he
      obtain ⟨rfl, rfl⟩ := List.cons.inj he
      simp only [isWalk_append, weight_append, List.length_append, List.length_cons] at hw hneg hlen
      by_cases hb : weight m p bs p < 0
      · exact ih bs.length (by omega) p bs hw.2.1 hb rfl
      · have hcut := isWalk_append.2 ⟨hw.1, hw.2.2⟩
        refine ih (as ++ p :: cs).length ?_ i (as ++ p :: cs) hcut ?_ rfl
        · simp only [List.length_append, List.length_cons]
          omega
        · rw [weight_append]
          omega

variable [Fintype V]

theorem exists_weight_lower_bound (hn : ¬ NegCycle top m) :
    ∃ b : Int, ∀ i ps j, IsWalk top m i ps j → b ≤ weight m i ps j := by
  classical
  obtain ⟨b, hb⟩ := (Set.finite_range fun t : V × {l : List V // l.Nodup} × V =>
    weight m t.1 t.2.1 t.2.2).bddBelow
  refine ⟨b, fun i ps j hw => ?_⟩
  obtain ⟨qs, hqs, hwq, hle⟩ := exists_nodup_walk hn hw
  exact Int.le_trans (hb ⟨(i, ⟨qs, hqs⟩, j), rfl⟩) hle

theorem exists_shortest (hn : ¬ NegCycle top m) (hw : IsWalk top m i ps j) :
    ∃ qs, qs.Nodup ∧ IsWalk top m i qs j ∧ Shortest top m i j (weight m i qs j) := by
  obtain ⟨b, hb⟩ := exists_weight_lower_bound hn
  obtain ⟨w, ⟨rs, hwr, rfl⟩, hmin⟩ := Int.exists_least_of_bdd
    (P := fun c => ∃ ps, IsWalk top m i ps j ∧ weight m i ps j = c)
    ⟨b, fun c ⟨ps, hp, hc⟩ => hc ▸ hb i ps j hp⟩ ⟨_, ps, hw, rfl⟩
  obtain ⟨qs, hqs, hwq, hle⟩ := exists_nodup_walk hn hwr
  refine ⟨qs, hqs, hwq, ⟨qs, hwq, rfl⟩, fun c hc => Int.le_trans hle (hmin c hc)⟩

/-- Without a negative cycle the least weight of a walk from a variable to
anywhere, or zero, is a solution. -/
theorem exists_sat_of_not_negCycle (hn : ¬ NegCycle top m) : ∃ x, Sat top m x := by
  obtain ⟨b, hb⟩ := exists_weight_lower_bound hn
  have hleast : ∀ i, ∃ w : Int, (w = 0 ∨ ∃ j ps, IsWalk top m i ps j ∧ weight m i ps j = w) ∧
      ∀ c, (c = 0 ∨ ∃ j ps, IsWalk top m i ps j ∧ weight m i ps j = c) → w ≤ c := fun i =>
    Int.exists_least_of_bdd ⟨min b 0, by
      rintro c (rfl | ⟨j, ps, hw, rfl⟩)
      · exact Int.min_le_right _ _
      · exact Int.le_trans (Int.min_le_left _ _) (hb i ps j hw)⟩ ⟨0, Or.inl rfl⟩
  choose x hx hmin using hleast
  refine ⟨x, fun i j hij => ?_⟩
  have hle : x i ≤ m i j + x j := by
    rcases hx j with hj | ⟨k, ps, hw, hj⟩
    · rw [hj, Int.add_zero]
      exact hmin i _ (Or.inr ⟨j, [], hij, rfl⟩)
    · rw [← hj]
      exact hmin i _ (Or.inr ⟨k, j :: ps, ⟨hij, hw⟩, rfl⟩)
  omega

theorem negCycle_iff : NegCycle top m ↔ ¬ ∃ x, Sat top m x := by
  constructor
  · rintro h ⟨x, hx⟩
    exact hx.not_negCycle h
  · intro h
    by_contra hn
    exact h (exists_sat_of_not_negCycle hn)

end Walks

section Eliminate
variable {V : Type} [DecidableEq V] [Finite V] {top : Int} {m : Matrix V} {x : V} {w : V → Int}

/-- A variable finds a value if none of its lower bounds exceeds one of its
upper bounds. -/
theorem exists_sat_update (hoff : ∀ i j, i ≠ x → j ≠ x → m i j < top → w i - w j ≤ m i j)
    (hx : 0 ≤ m x x) (hthrough : ∀ i j, i ≠ x → j ≠ x → m i x < top → m x j < top →
      w i - w j ≤ m i x + m x j) : ∃ a, Sat top m (Function.update w x a) := by
  have hvalue : ∃ a, (∀ i, i ≠ x → m i x < top → w i - m i x ≤ a) ∧
      ∀ j, j ≠ x → m x j < top → a ≤ w j + m x j := by
    by_cases hlower : ∃ i, i ≠ x ∧ m i x < top
    · -- the largest lower bound
      obtain ⟨i, hi, hmax⟩ := Set.exists_max_image {i | i ≠ x ∧ m i x < top} (fun i => w i - m i x)
        (Set.toFinite _) hlower
      refine ⟨w i - m i x, fun k hk hb => hmax k ⟨hk, hb⟩, fun j hj hb => ?_⟩
      have := hthrough i j hi.1 hj hi.2 hb
      omega
    by_cases hupper : ∃ j, j ≠ x ∧ m x j < top
    · -- there is no lower bound, so the smallest upper bound will do
      obtain ⟨j, hj, hmin⟩ := Set.exists_min_image {j | j ≠ x ∧ m x j < top} (fun j => w j + m x j)
        (Set.toFinite _) hupper
      exact ⟨w j + m x j, fun i hi hb => absurd ⟨i, hi, hb⟩ hlower, fun k hk hb => hmin k ⟨hk, hb⟩⟩
    exact ⟨0, fun i hi hb => absurd ⟨i, hi, hb⟩ hlower, fun j hj hb => absurd ⟨j, hj, hb⟩ hupper⟩
  obtain ⟨a, hlo, hhi⟩ := hvalue
  refine ⟨a, fun i j hij => ?_⟩
  by_cases hi : i = x <;> by_cases hj : j = x
  · subst hi hj
    omega
  · subst hi
    have := hhi j hj hij
    rw [Function.update_self, Function.update_of_ne hj]
    omega
  · subst hj
    have := hlo i hi hij
    rw [Function.update_self, Function.update_of_ne hi]
    omega
  · rw [Function.update_of_ne hi, Function.update_of_ne hj]
    exact hoff i j hi hj hij

end Eliminate
end ZoneVerifier.DiffBound
