import ZoneVerifier.DiffBound

/-!
# The closure loop with a saturating addition

The addition rounds up what it cannot store, so a cell never drops below the
weight of some walk. A family of walks closed under splitting, whose weights can
be stored, bounds its cells from above: this gives the least weights where those
can be stored, and a negative diagonal where a simple negative cycle can.
-/

set_option autoImplicit false

namespace ZoneVerifier.DiffBound

/-- An addition of cells that rounds up: it is exact on the sums `fits` admits,
and its bounded results are among them. -/
structure Saturating (top low : Int) (fits : Int → Prop) (plus : Int → Int → Int) : Prop where
  sound : ∀ a b, a < top → b < top → top ≤ plus a b ∨ a + b ≤ plus a b
  low_le : ∀ a b, low ≤ plus a b
  le : ∀ a b c, low ≤ a → low ≤ b → a < top → b < top → a + b ≤ c → fits c → plus a b ≤ c
  result : ∀ a b, plus a b < top → fits (plus a b)
  lt_top : ∀ c, fits c → c < top

section Bounds
variable {V : Type} [DecidableEq V] {top low : Int} {fits : Int → Prop} {plus : Int → Int → Int}
  {m n : Matrix V} {vars : List V}
variable (hs : Saturating top low fits plus)
include hs

theorem exists_walk_le_close (vars : List V) (i j : V) (hlt : close top plus vars m i j < top) :
    ∃ ps, IsWalk top m i ps j ∧ weight m i ps j ≤ close top plus vars m i j := by
  refine Cells.close
    (C := fun i j a => a < top → ∃ ps, IsWalk top m i ps j ∧ weight m i ps j ≤ a) ?_
    (fun i j h => ⟨[], h, Int.le_refl _⟩) vars i j hlt
  intro i k j a b h1 h2 ha hb hsum
  obtain ⟨ps, hp, hpa⟩ := h1 ha
  obtain ⟨qs, hq, hqb⟩ := h2 hb
  refine ⟨ps ++ k :: qs, isWalk_append.2 ⟨hp, hq⟩, ?_⟩
  rw [weight_append]
  rcases hs.sound a b ha hb with h | h <;> omega

theorem close_cell_cases (vars : List V) (i j : V) :
    close top plus vars m i j = m i j ∨ fits (close top plus vars m i j) ∨
      top ≤ close top plus vars m i j := by
  refine Cells.close (C := fun i j a => a = m i j ∨ fits a ∨ top ≤ a) ?_ (fun i j => Or.inl rfl)
    vars i j
  intro i k j a b _ _ _ _
  by_cases h : plus a b < top
  · exact Or.inr (Or.inl (hs.result a b h))
  · exact Or.inr (Or.inr (Int.not_lt.1 h))

theorem closeRow_via {k i j : V} {a c : Int} (hc : fits c) (ha : low ≤ a) (ha' : a < top)
    {js : List V} (hj : j ∈ js) (hlow : ∀ p q, low ≤ n p q) (hkj : n k j < top)
    (hle : a + n k j ≤ c) : closeRow top plus k i a js n i j ≤ c := by
  induction js generalizing n with
  | nil => cases hj
  | cons q js ih =>
    rw [closeRow, List.foldl_cons]
    by_cases hjq : j = q
    · subst hjq
      refine Int.le_trans (closeRow_le k i a js _ i j) ?_
      rw [if_neg (Int.not_le.2 hkj)]
      exact Int.le_trans (tighten_self_le n i j _) (hs.le a _ c ha (hlow k j) ha' hkj hle hc)
    · have hj' := (List.mem_cons.1 hj).resolve_left hjq
      split_ifs with hq
      · exact ih hj' hlow hkj hle
      · have hcell := tighten_le n i q (plus a (n k q)) k j
        refine ih hj' ?_ (by omega) (by omega)
        exact Cells.tighten (C := fun _ _ a => low ≤ a) hlow (hs.low_le _ _)

/-- One round covers every detour over its pivot whose weight can be stored. -/
theorem closeVia_via {k i j : V} {c : Int} (hc : fits c) {is : List V} (hi : i ∈ is)
    (hj : j ∈ vars) (hlow : ∀ p q, low ≤ n p q) (hik : n i k < top) (hkj : n k j < top)
    (hle : n i k + n k j ≤ c) : closeVia top plus k vars is n i j ≤ c := by
  induction is generalizing n with
  | nil => cases hi
  | cons q is ih =>
    rw [closeVia, List.foldl_cons]
    by_cases hiq : i = q
    · subst hiq
      refine Int.le_trans (closeVia_le k vars is _ i j) ?_
      rw [if_neg (Int.not_le.2 hik)]
      exact closeRow_via hs hc (hlow i k) hik hj hlow hkj hle
    · have hi' := (List.mem_cons.1 hi).resolve_left hiq
      split_ifs with hq
      · exact ih hi' hlow hik hkj hle
      · have hrow : Le (closeRow top plus k q (n q k) vars n) n := closeRow_le k q (n q k) vars n
        have h1 := hrow i k
        have h2 := hrow k j
        refine ih hi' ?_ (by omega) (by omega) (by omega)
        exact Cells.closeRow (C := fun _ _ a => low ≤ a) (fun _ _ _ a b _ _ _ _ => hs.low_le a b)
          hlow (hlow q k) (Int.not_le.1 hq) vars

end Bounds

section Families
variable {V : Type} [DecidableEq V] {top low : Int} {fits : Int → Prop} {plus : Int → Int → Int}
  {m n : Matrix V} {vars : List V}

/-- A family of walks without repetition that contains the two parts of each
member, whose weight can be stored or is not below the given cell. -/
structure Splits (top : Int) (fits : Int → Prop) (m : Matrix V) (G : V → List V → V → Prop) :
    Prop where
  walk : ∀ i ps j, G i ps j → IsWalk top m i ps j
  nodup : ∀ i ps j, G i ps j → ps.Nodup
  left : ∀ i ps k qs j, G i (ps ++ k :: qs) j → G i ps k
  right : ∀ i ps k qs j, G i (ps ++ k :: qs) j → G k qs j
  stored : ∀ i ps k qs j, G i (ps ++ k :: qs) j →
    fits (weight m i (ps ++ k :: qs) j) ∨ (m i j < top ∧ m i j ≤ weight m i (ps ++ k :: qs) j)

/-- The members of the family through the variables `done` bound their cells. -/
def Covers (top : Int) (m : Matrix V) (G : V → List V → V → Prop) (done : List V) (n : Matrix V) :
    Prop :=
  ∀ i ps j, G i ps j → (∀ p ∈ ps, p ∈ done) → n i j < top ∧ n i j ≤ weight m i ps j

variable {G : V → List V → V → Prop} (hs : Saturating top low fits plus)
  (hG : Splits top fits m G)
include hs hG

theorem Covers.closeVia {done : List V} (hcov : Covers top m G done n) (hle : Le n m)
    (hlow : ∀ p q, low ≤ n p q) (hvars : ∀ v, v ∈ vars) (k : V) :
    Covers top m G (k :: done) (closeVia top plus k vars vars n) := by
  have hdown : Le (DiffBound.closeVia top plus k vars vars n) n := closeVia_le k vars vars n
  intro i ps j hg hps
  by_cases hk : k ∈ ps
  · -- the walk passes the pivot once, and both parts are already covered
    obtain ⟨qs, rs, rfl⟩ := List.append_of_mem hk
    have hnd := List.nodup_cons.1 (List.nodup_middle.1 (hG.nodup i _ j hg))
    have hmem : ∀ p ∈ qs ++ rs, p ∈ done := by
      intro p hp
      have hp' : p ∈ qs ++ k :: rs := by
        rw [List.mem_append] at hp ⊢
        exact hp.imp_right (List.mem_cons_of_mem k)
      exact (List.mem_cons.1 (hps p hp')).resolve_left fun he => hnd.1 (he ▸ hp)
    have h1 := hcov i qs k (hG.left i qs k rs j hg) fun p hp => hmem p (List.mem_append_left _ hp)
    have h2 := hcov k rs j (hG.right i qs k rs j hg) fun p hp => hmem p (List.mem_append_right _ hp)
    have hd := hdown i j
    rcases hG.stored i qs k rs j hg with hfit | hgiven
    · have hvia := closeVia_via hs hfit (hvars i) (hvars j) hlow h1.1 h2.1
        (by rw [weight_append]; omega)
      exact ⟨Int.lt_of_le_of_lt hvia (hs.lt_top _ hfit), hvia⟩
    · have hm := hle i j
      omega
  · have hold := hcov i ps j hg fun p hp =>
      (List.mem_cons.1 (hps p hp)).resolve_left fun he => hk (he ▸ hp)
    have hd := hdown i j
    omega

theorem covers_close (hlow : ∀ p q, low ≤ m p q) (hvars : ∀ v, v ∈ vars) {i j : V} {ps : List V}
    (hg : G i ps j) :
    close top plus vars m i j < top ∧ close top plus vars m i j ≤ weight m i ps j := by
  have hrun : ∀ (ks done : List V) (n : Matrix V), Le n m → (∀ p q, low ≤ n p q) →
      Covers top m G done n → (∀ v, v ∈ done ∨ v ∈ ks) → Covers top m G vars
        (ks.foldl (fun m k => DiffBound.closeVia top plus k vars vars m) n) := by
    intro ks
    induction ks with
    | nil =>
      intro done n _ _ hcov hall i ps j hg _
      exact hcov i ps j hg fun p _ => (hall p).resolve_right List.not_mem_nil
    | cons k ks ih =>
      intro done n hle hlown hcov hall
      refine ih (k :: done) _ ?_ ?_ (hcov.closeVia hs hG hle hlown hvars k) fun v => ?_
      · exact Le.trans (closeVia_le k vars vars n) hle
      · exact Cells.closeVia (C := fun _ _ a => low ≤ a) (fun _ _ _ a b _ _ _ _ => hs.low_le a b)
          hlown k vars vars
      · rcases hall v with hv | hv
        · exact Or.inl (List.mem_cons_of_mem k hv)
        · rcases List.mem_cons.1 hv with rfl | hv
          · exact Or.inl List.mem_cons_self
          · exact Or.inr hv
  have hnil : Covers top m G [] m := by
    intro i ps j hg hps
    cases ps with
    | nil => exact ⟨hG.walk i [] j hg, Int.le_refl _⟩
    | cons p ps => exact absurd (hps p List.mem_cons_self) List.not_mem_nil
  exact hrun vars [] m (Le.refl m) hlow hnil (fun v => Or.inr (hvars v)) i ps j hg
    fun p _ => hvars p

end Families

section Exact
variable {V : Type} {top low : Int} {fits : Int → Prop} {plus : Int → Int → Int}
  {m n : Matrix V} {vars : List V}

variable (top) in
/-- The bounded cells of `n` are the least weights of walks in `m`, and there
is no walk where `n` has no bound. -/
def Exact (m n : Matrix V) : Prop :=
  ∀ i j, (n i j < top → Shortest top m i j (n i j)) ∧
    (top ≤ n i j → ∀ ps, ¬ IsWalk top m i ps j)

variable (top fits) in
/-- Every least weight is given or can be stored. -/
def ShortestFit (m : Matrix V) : Prop :=
  ∀ i j w, Shortest top m i j w → fits w ∨ (m i j < top ∧ w = m i j)

variable (top fits) in
/-- The weights of the paths and simple cycles can be stored. -/
def PathsFit (m : Matrix V) : Prop :=
  ∀ i ps j, (i :: ps).Nodup → (ps ++ [j]).Nodup → IsWalk top m i ps j → ps ≠ [] →
    fits (weight m i ps j)

variable (top) in
/-- Each cell is at most the sum of any two that lead around it. -/
def Tight (m : Matrix V) : Prop :=
  ∀ i k, m i k < top → ∀ j, m k j < top → m i j < top ∧ m i j ≤ m i k + m k j

theorem Exact.tight (h : Exact top m n) : Tight top n := by
  intro i k hik j hkj
  obtain ⟨ps, hp, hpw⟩ := ((h i k).1 hik).1
  obtain ⟨qs, hq, hqw⟩ := ((h k j).1 hkj).1
  have hwalk : IsWalk top m i (ps ++ k :: qs) j := isWalk_append.2 ⟨hp, hq⟩
  have hij : n i j < top := Int.not_le.1 fun hge => (h i j).2 hge _ hwalk
  have hle := ((h i j).1 hij).2 ⟨_, hwalk, rfl⟩
  rw [weight_append] at hle
  exact ⟨hij, by omega⟩

/-- Values that keep the bounds between some variables extend to the others. -/
theorem Tight.exists_sat [DecidableEq V] [Finite V] {P : V → Prop} {w : V → Int}
    (h : Tight top m) (hdiag : ∀ i, 0 ≤ m i i) (l : List V) (hl : ∀ i, P i ∨ i ∈ l)
    (hw : ∀ i j, P i → P j → m i j < top → w i - w j ≤ m i j) :
    ∃ v, Sat top m v ∧ ∀ i, P i → v i = w i := by
  classical
  induction l generalizing P w with
  | nil => exact ⟨w, by simp_all [Sat], fun _ _ => rfl⟩
  | cons x l ih =>
    by_cases hx : P x
    · exact ih (by grind) hw
    · -- `x` finds a value next to those already given
      have hvalue : ∃ a, Sat top (fun i j => if (P i ∨ i = x) ∧ (P j ∨ j = x) then m i j else top)
          (Function.update w x a) := by
        have hxx := hdiag x
        apply exists_sat_update
        · grind
        · grind
        · grind [Tight]
      obtain ⟨a, ha⟩ := hvalue
      obtain ⟨v, hv, heq⟩ := ih (P := fun i => P i ∨ i = x) (w := Function.update w x a)
        (by grind) fun i j hi hj hij => by simpa [hi, hj, hij] using ha i j
      exact ⟨v, hv, by grind⟩

theorem Exact.closed (h : Exact top m n) (hs : Saturating top low fits plus) :
    Closed top plus n := by
  intro k i j hik hkj
  have hle := h.tight i k hik j hkj
  rcases hs.sound _ _ hik hkj with hsum | hsum <;> omega

theorem splits_shortest (hfit : ShortestFit top fits m) :
    Splits top fits m fun i ps j => ps.Nodup ∧ IsWalk top m i ps j ∧
      Shortest top m i j (weight m i ps j) where
  walk _ _ _ h := h.2.1
  nodup _ _ _ h := h.1
  left i ps k qs j h := by
    obtain ⟨hnd, hw, hmin⟩ := h
    have hw' := isWalk_append.1 hw
    refine ⟨(List.nodup_append.1 hnd).1, hw'.1, ⟨ps, hw'.1, rfl⟩, ?_⟩
    rintro c ⟨rs, hr, rfl⟩
    have hle := hmin.2 ⟨rs ++ k :: qs, isWalk_append.2 ⟨hr, hw'.2⟩, rfl⟩
    simp only [weight_append] at hle
    omega
  right i ps k qs j h := by
    obtain ⟨hnd, hw, hmin⟩ := h
    have hw' := isWalk_append.1 hw
    refine ⟨(List.nodup_cons.1 (List.nodup_append.1 hnd).2.1).2, hw'.2, ⟨qs, hw'.2, rfl⟩, ?_⟩
    rintro c ⟨rs, hr, rfl⟩
    have hle := hmin.2 ⟨ps ++ k :: rs, isWalk_append.2 ⟨hw'.1, hr⟩, rfl⟩
    simp only [weight_append] at hle
    omega
  stored i ps k qs j h := (hfit i j _ h.2.2).imp_right fun hg => ⟨hg.1, Int.le_of_eq hg.2.symm⟩

theorem splits_paths (hfit : PathsFit top fits m) :
    Splits top fits m fun i ps j => (i :: ps).Nodup ∧ (ps ++ [j]).Nodup ∧ IsWalk top m i ps j where
  walk _ _ _ h := h.2.2
  nodup _ _ _ h := (List.nodup_cons.1 h.1).2
  left i ps k qs j h := by
    obtain ⟨hi, hj, hw⟩ := h
    have hleft : (ps ++ [k]).Sublist (ps ++ k :: qs) :=
      (List.Sublist.refl ps).append ((List.nil_sublist qs).cons_cons k)
    refine ⟨hi.sublist ((List.sublist_append_left ps _).cons_cons i), ?_, (isWalk_append.1 hw).1⟩
    exact (List.nodup_cons.1 hi).2.sublist hleft
  right i ps k qs j h := by
    obtain ⟨hi, hj, hw⟩ := h
    refine ⟨(List.nodup_cons.1 hi).2.sublist (List.sublist_append_right ps _), ?_,
      (isWalk_append.1 hw).2⟩
    rw [List.append_assoc, List.cons_append] at hj
    exact hj.sublist ((List.sublist_cons_self k _).trans (List.sublist_append_right ps _))
  stored i ps k qs j h := Or.inl (hfit i _ j h.1 h.2.1 h.2.2 (by simp))

variable [DecidableEq V] (hs : Saturating top low fits plus)
include hs

/-- Without a negative cycle the loop computes the least weights exactly when
each of them is given or can be stored. -/
theorem exact_close_iff [Fintype V] (hn : ¬ NegCycle top m) (hlow : ∀ p q, low ≤ m p q)
    (hvars : ∀ v, v ∈ vars) : Exact top m (close top plus vars m) ↔ ShortestFit top fits m := by
  constructor
  · intro hex i j w hw
    obtain ⟨ps, hp, hpw⟩ := hw.1
    have hlt : close top plus vars m i j < top := Int.not_le.1 fun hge => (hex i j).2 hge ps hp
    have heq : close top plus vars m i j = w := ((hex i j).1 hlt).unique hw
    have hcases := close_cell_cases (m := m) hs vars i j
    rw [heq] at hlt hcases
    rcases hcases with hgiven | hfit | htop
    · exact Or.inr ⟨hgiven ▸ hlt, hgiven⟩
    · exact Or.inl hfit
    · exact absurd hlt (Int.not_lt.2 htop)
  · intro hfit i j
    refine ⟨fun hlt => ?_, fun hge ps hp => ?_⟩
    · obtain ⟨ps, hp, hle⟩ := exists_walk_le_close hs vars i j hlt
      obtain ⟨qs, hqs, hq, hmin⟩ := exists_shortest hn hp
      have hup := (covers_close hs (splits_shortest hfit) hlow hvars ⟨hqs, hq, hmin⟩).2
      have hdown := hmin.2 ⟨ps, hp, rfl⟩
      have heq : close top plus vars m i j = weight m i qs j := by omega
      rw [heq]
      exact hmin
    · obtain ⟨qs, hqs, hq, hmin⟩ := exists_shortest hn hp
      have hup := (covers_close hs (splits_shortest hfit) hlow hvars ⟨hqs, hq, hmin⟩).1
      omega

theorem negCycle_of_close (htop : 0 ≤ top) {i : V} (hneg : close top plus vars m i i < 0) :
    NegCycle top m := by
  obtain ⟨ps, hp, hle⟩ := exists_walk_le_close hs vars i i (Int.lt_of_lt_of_le hneg htop)
  exact ⟨i, ps, hp, by omega⟩

theorem exists_close_neg (hfit : PathsFit top fits m) (hlow : ∀ p q, low ≤ m p q)
    (hvars : ∀ v, v ∈ vars) (hneg : NegCycle top m) : ∃ i, close top plus vars m i i < 0 := by
  obtain ⟨i, ps, hnd, hw, hlt⟩ := hneg.exists_simple
  have hend : (ps ++ [i]).Nodup := List.nodup_append_comm.1 hnd
  have hle := (covers_close hs (splits_paths hfit) hlow hvars ⟨hnd, hend, hw⟩).2
  exact ⟨i, by omega⟩

end Exact
end ZoneVerifier.DiffBound
