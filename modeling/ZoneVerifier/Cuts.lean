import Mathlib.Data.List.Sort

/-!
# Ranges between cut points

A strictly increasing list of cut points divides the naturals from its first
element up to a length into half-open ranges, each ending at the next cut
point. Two positions lie in one range exactly when no cut point separates them.
-/

set_option autoImplicit false

namespace ZoneVerifier.Cuts

def insertCut (a : Nat) : List Nat → List Nat
  | [] => [a]
  | b :: bs => if a < b then a :: b :: bs else if a = b then b :: bs else b :: insertCut a bs

theorem mem_insertCut {a c : Nat} {bs : List Nat} : c ∈ insertCut a bs ↔ c = a ∨ c ∈ bs := by
  induction bs with
  | nil => simp [insertCut]
  | cons b bs ih =>
    rw [insertCut]
    split_ifs with h1 h2
    · simp
    · simp [h2]
    · simp only [List.mem_cons, ih]
      exact or_left_comm

theorem pairwise_insertCut (a : Nat) {bs : List Nat} (h : bs.Pairwise (· < ·)) :
    (insertCut a bs).Pairwise (· < ·) := by
  induction bs with
  | nil => simp [insertCut]
  | cons b bs ih =>
    have hb := List.pairwise_cons.1 h
    rw [insertCut]
    split_ifs with h1 h2
    · refine List.pairwise_cons.2 ⟨fun c hc => ?_, h⟩
      rcases List.mem_cons.1 hc with rfl | hc
      · exact h1
      · exact Nat.lt_trans h1 (hb.1 c hc)
    · exact h
    · refine List.pairwise_cons.2 ⟨fun c hc => ?_, ih hb.2⟩
      rcases mem_insertCut.1 hc with rfl | hc
      · omega
      · exact hb.1 c hc

def insertAll (targets starts : List Nat) : List Nat :=
  targets.foldl (fun starts target => insertCut target starts) starts

theorem mem_insertAll {c : Nat} {targets starts : List Nat} :
    c ∈ insertAll targets starts ↔ c ∈ starts ∨ c ∈ targets := by
  induction targets generalizing starts with
  | nil => simp [insertAll]
  | cons t targets ih =>
    rw [insertAll, List.foldl_cons, ← insertAll, ih, mem_insertCut, List.mem_cons, or_assoc]
    exact or_left_comm

theorem pairwise_insertAll (targets : List Nat) {starts : List Nat}
    (h : starts.Pairwise (· < ·)) : (insertAll targets starts).Pairwise (· < ·) := by
  induction targets generalizing starts with
  | nil => exact h
  | cons t targets ih => exact ih (pairwise_insertCut t h)

/-- The ranges between consecutive cut points; the last one ends at `len`. -/
def ranges (len : Nat) : List Nat → List (Nat × Nat)
  | [] => []
  | [a] => [(a, len)]
  | a :: b :: cs => (a, b) :: ranges len (b :: cs)

/-- The cut point `c` lies strictly above one position and not above the other. -/
def Separates (c p q : Nat) : Prop := (p < c ∧ c ≤ q) ∨ (q < c ∧ c ≤ p)

instance (c p q : Nat) : Decidable (Separates c p q) :=
  inferInstanceAs (Decidable (_ ∨ _))

section Ranges
variable {len : Nat} {cs : List Nat} {r : Nat × Nat}

theorem fst_mem_of_mem_ranges (hr : r ∈ ranges len cs) : r.1 ∈ cs := by
  induction cs using ranges.induct with
  | case1 => cases hr
  | case2 a =>
    cases List.mem_singleton.1 hr
    simp
  | case3 a b cs ih =>
    rcases List.mem_cons.1 hr with rfl | hr
    · simp
    · exact List.mem_cons_of_mem a (ih hr)

theorem snd_of_mem_ranges (hr : r ∈ ranges len cs) : r.2 ∈ cs ∨ r.2 = len := by
  induction cs using ranges.induct with
  | case1 => cases hr
  | case2 a =>
    cases List.mem_singleton.1 hr
    exact Or.inr rfl
  | case3 a b cs ih =>
    rcases List.mem_cons.1 hr with rfl | hr
    · simp
    · exact (ih hr).imp_left (List.mem_cons_of_mem a)

theorem le_or_le_of_mem_ranges (hs : cs.Pairwise (· < ·)) (hr : r ∈ ranges len cs) {c : Nat}
    (hc : c ∈ cs) : c ≤ r.1 ∨ r.2 ≤ c := by
  induction cs using ranges.induct with
  | case1 => cases hr
  | case2 a =>
    cases List.mem_singleton.1 hr
    exact Or.inl (Nat.le_of_eq (List.mem_singleton.1 hc))
  | case3 a b cs ih =>
    have hb := List.pairwise_cons.1 hs
    rcases List.mem_cons.1 hr with rfl | hlater
    · rcases List.mem_cons.1 hc with rfl | hc
      · exact Or.inl (Nat.le_refl _)
      · rcases List.mem_cons.1 hc with rfl | hc
        · exact Or.inr (Nat.le_refl _)
        · exact Or.inr (Nat.le_of_lt ((List.pairwise_cons.1 hb.2).1 c hc))
    · rcases List.mem_cons.1 hc with rfl | hc
      · exact Or.inl (Nat.le_of_lt (hb.1 r.1 (fst_mem_of_mem_ranges hlater)))
      · exact ih hb.2 hlater hc

theorem exists_mem_ranges {a p : Nat} (ha : a ∈ cs) (hap : a ≤ p) (hp : p < len) :
    ∃ r ∈ ranges len cs, r.1 ≤ p ∧ p < r.2 := by
  induction cs using ranges.induct generalizing a with
  | case1 => cases ha
  | case2 b =>
    rw [List.mem_singleton] at ha
    exact ⟨(b, len), List.mem_singleton.2 rfl, ha ▸ hap, hp⟩
  | case3 b c cs ih =>
    have hlater : c ≤ p → ∃ r ∈ ranges len (b :: c :: cs), r.1 ≤ p ∧ p < r.2 := fun hcp =>
      have ⟨r, hr, h⟩ := ih List.mem_cons_self hcp
      ⟨r, List.mem_cons_of_mem _ hr, h⟩
    rcases List.mem_cons.1 ha with rfl | ha
    · by_cases hcp : c ≤ p
      · exact hlater hcp
      · exact ⟨(a, c), List.mem_cons_self, hap, Nat.not_le.1 hcp⟩
    · obtain ⟨r, hr, h⟩ := ih ha hap
      exact ⟨r, List.mem_cons_of_mem _ hr, h⟩

theorem mem_range_iff_not_separated (hs : cs.Pairwise (· < ·)) (hr : r ∈ ranges len cs) {p q : Nat}
    (h1 : r.1 ≤ p) (h2 : p < r.2) (hq : q < len) :
    (r.1 ≤ q ∧ q < r.2) ↔ ∀ c ∈ cs, ¬ Separates c p q := by
  constructor
  · intro h c hc hsep
    unfold Separates at hsep
    have := le_or_le_of_mem_ranges hs hr hc
    omega
  · intro h
    have hlo := h r.1 (fst_mem_of_mem_ranges hr)
    unfold Separates at hlo
    refine ⟨by omega, ?_⟩
    rcases snd_of_mem_ranges hr with hm | hm
    · have hhi := h r.2 hm
      unfold Separates at hhi
      omega
    · omega

end Ranges
end ZoneVerifier.Cuts
