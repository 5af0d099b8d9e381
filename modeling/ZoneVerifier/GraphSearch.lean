import Mathlib.Data.List.Chain
import Mathlib.Data.Set.Card
import Mathlib.Logic.Relation

/-!
# Walks and searches in a graph

If the walks from a root are of bounded length, no element it reaches lies on a
cycle. A search marks a node before it follows its edges; `stack` is what is
left to do. On a finite graph it ends, with the nodes reached from where it
started, and so do passes that add what has an edge into a set.
-/

set_option autoImplicit false

namespace ZoneVerifier.Walks
open Relation

variable {α : Type} {r : α → α → Prop} {a b : α}

theorem exists_isChain_of_transGen (h : TransGen r a b) {c : List α} (hc : List.IsChain r (b :: c)) :
    ∃ d, List.IsChain r (a :: d) ∧ c.length < d.length := by
  induction h using TransGen.head_induction_on with
  | single hab => exact ⟨b :: c, .cons_cons hab hc, Nat.lt_succ_self _⟩
  | head hac _ ih =>
    obtain ⟨d, hd, hlen⟩ := ih
    exact ⟨_ :: d, .cons_cons hac hd, Nat.lt_succ_of_lt hlen⟩

theorem exists_isChain_of_cycle (h : TransGen r a a) (n : Nat) :
    ∃ c, List.IsChain r (a :: c) ∧ n ≤ c.length := by
  induction n with
  | zero => exact ⟨[], .singleton a, Nat.zero_le _⟩
  | succ n ih =>
    obtain ⟨c, hc, hn⟩ := ih
    obtain ⟨d, hd, hlen⟩ := exists_isChain_of_transGen h hc
    exact ⟨d, hd, hn.trans_lt hlen⟩

theorem acyclic_of_bounded {n : Nat} (h : ∀ c, List.IsChain r (a :: c) → c.length < n)
    (hab : ReflTransGen r a b) : ¬ TransGen r b b := by
  intro hcycle
  obtain ⟨c, hc, hlen⟩ := exists_isChain_of_cycle hcycle n
  rcases reflTransGen_iff_eq_or_transGen.1 hab with rfl | hab
  · exact absurd (h c hc) (Nat.not_lt.2 hlen)
  · obtain ⟨d, hd, hlen'⟩ := exists_isChain_of_transGen hab hc
    exact absurd (h d hd) (Nat.not_lt.2 (hlen.trans hlen'.le))

theorem exists_isChain_of_reflTransGen (h : ReflTransGen r a b) :
    ∃ c, List.IsChain r (a :: c) ∧ b ∈ a :: c := by
  obtain ⟨c, hc, hlast⟩ := List.exists_isChain_cons_of_relationReflTransGen h
  exact ⟨c, hc, hlast ▸ List.getLast_mem _⟩

end ZoneVerifier.Walks

namespace ZoneVerifier.GraphSearch

variable {α : Type}

def Reach (next : α → List α) : α → α → Prop := Relation.ReflTransGen fun a b => b ∈ next a

def search [DecidableEq α] (next : α → List α) : Nat → List α → List α → List α
  | 0, _, seen => seen
  | _ + 1, [], seen => seen
  | fuel + 1, a :: stack, seen =>
    if a ∈ seen then search next fuel stack seen
    else search next fuel (next a ++ stack) (seen ++ [a])

variable {next : α → List α} {start a : α} {stack seen : List α}

structure Explores (next : α → List α) (start : α) (stack seen : List α) : Prop where
  start_mem : start ∈ seen ∨ start ∈ stack
  sound : ∀ a, a ∈ seen ∨ a ∈ stack → Reach next start a
  closed : ∀ a ∈ seen, ∀ b ∈ next a, b ∈ seen ∨ b ∈ stack

namespace Explores

theorem done (h : Explores next start [] seen) (a : α) : a ∈ seen ↔ Reach next start a := by
  refine ⟨fun ha => h.sound a (Or.inl ha), fun ha => ?_⟩
  induction ha with
  | refl => simpa using h.start_mem
  | tail _ hb ih => simpa using h.closed _ ih _ hb

theorem skip (h : Explores next start (a :: stack) seen) (ha : a ∈ seen) :
    Explores next start stack seen := by
  have hdrop : ∀ b, b ∈ seen ∨ b ∈ a :: stack ↔ b ∈ seen ∨ b ∈ stack := by grind
  exact ⟨(hdrop _).1 h.start_mem, fun b hb => h.sound b ((hdrop b).2 hb),
    fun b hb c hc => (hdrop c).1 (h.closed b hb c hc)⟩

theorem expand (h : Explores next start (a :: stack) seen) :
    Explores next start (next a ++ stack) (seen ++ [a]) := by
  have ha : Reach next start a := h.sound a (Or.inr List.mem_cons_self)
  have hedge : ∀ b ∈ next a, Reach next start b := fun b hb => ha.tail hb
  obtain ⟨hstart, hsound, hclosed⟩ := h
  constructor <;> grind

end Explores

theorem search_of_explores [DecidableEq α] [Finite α] (h : Explores next start stack seen) :
    ∃ n, ∀ fuel, n ≤ fuel → ∀ a, a ∈ search next fuel stack seen ↔ Reach next start a := by
  induction hk : {x | x ∉ seen}.ncard using Nat.strong_induction_on generalizing stack seen with
  | _ k ih =>
    subst hk
    induction stack with
    | nil => exact ⟨0, fun fuel _ a => by cases fuel <;> exact h.done a⟩
    | cons b stack ihs =>
      suffices hstep : ∃ n, ∀ fuel, n ≤ fuel →
          ∀ a, a ∈ search next (fuel + 1) (b :: stack) seen ↔ Reach next start a by
        obtain ⟨n, hn⟩ := hstep
        refine ⟨n + 1, fun fuel hfuel => ?_⟩
        obtain ⟨m, rfl⟩ := Nat.exists_eq_add_of_le' hfuel
        exact hn (m + n) (Nat.le_add_left n m)
      by_cases hb : b ∈ seen
      · simp only [search, if_pos hb]
        exact ihs (h.skip hb)
      · simp only [search, if_neg hb]
        refine ih _ (Set.ncard_lt_ncard ⟨fun x hx => ?_, fun hle => ?_⟩ (Set.toFinite _)) h.expand rfl
        · exact fun hmem => hx (List.mem_append_left _ hmem)
        · exact hle hb (List.mem_append_right _ (List.mem_singleton_self b))

theorem search_spec [DecidableEq α] [Finite α] (next : α → List α) (start : α) :
    ∃ n, ∀ fuel, n ≤ fuel → ∀ a, a ∈ search next fuel [start] [] ↔ Reach next start a := by
  refine search_of_explores ⟨Or.inr List.mem_cons_self, fun a ha => ?_, nofun⟩
  rw [List.mem_singleton.1 (ha.resolve_left List.not_mem_nil)]
  exact Relation.ReflTransGen.refl

section Closure
variable [DecidableEq α] {edges : List (α × List α)} {s : Finset α}

def addCaller (s : Finset α × Bool) (e : α × List α) : Finset α × Bool :=
  if e.1 ∈ s.1 then s
  else if e.2.any (· ∈ s.1) then (insert e.1 s.1, true)
  else s

/-- Adds, pass after pass and in place, the nodes with an edge into the set. -/
def close (edges : List (α × List α)) : Nat → Finset α → Option (Finset α)
  | 0, _ => none
  | fuel + 1, s =>
    let r := edges.foldl addCaller (s, false)
    if r.2 then close edges fuel r.1 else some r.1

def Edge (edges : List (α × List α)) (a b : α) : Prop := ∃ e ∈ edges, e.1 = a ∧ b ∈ e.2

def Reaches (edges : List (α × List α)) (s : Finset α) (a : α) : Prop :=
  ∃ b ∈ s, Relation.ReflTransGen (Edge edges) a b

/-- What a pass over `rest` makes of a set: the flag tells whether it grew. -/
structure Passed (edges rest : List (α × List α)) (s r : Finset α × Bool) : Prop where
  subset : s.1 ⊆ r.1
  reaches : ∀ a ∈ r.1, Reaches edges s.1 a
  bound : r.1 ⊆ s.1 ∪ (rest.map Prod.fst).toFinset
  grows : r.2 = true → s.2 = true ∨ s.1.card < r.1.card
  closed : r.2 = false → r = s ∧ ∀ e ∈ rest, ∀ b ∈ e.2, b ∈ s.1 → e.1 ∈ s.1

theorem passed_addCaller {e : α × List α} (he : e ∈ edges) (s : Finset α × Bool) :
    Passed edges [e] s (addCaller s e) := by
  have hself : ∀ a ∈ s.1, Reaches edges s.1 a := fun a ha => ⟨a, ha, .refl⟩
  rw [addCaller]
  split_ifs with hmem hany
  · exact ⟨subset_rfl, hself, Finset.subset_union_left, Or.inl, fun _ => ⟨rfl, by simp [hmem]⟩⟩
  · obtain ⟨b, hb, hbs⟩ := List.any_eq_true.1 hany
    refine ⟨Finset.subset_insert _ _, fun a ha => ?_, by simp,
      fun _ => Or.inr (by simp [hmem]), nofun⟩
    rcases Finset.mem_insert.1 ha with rfl | ha
    · exact ⟨b, by simpa using hbs, .single ⟨e, he, rfl, hb⟩⟩
    · exact hself a ha
  · refine ⟨subset_rfl, hself, Finset.subset_union_left, Or.inl, fun _ => ⟨rfl, ?_⟩⟩
    simpa using fun b hb hbs => absurd (List.any_eq_true.2 ⟨b, hb, by simpa using hbs⟩) hany

theorem passed_foldl {rest : List (α × List α)} (hrest : rest ⊆ edges) (s : Finset α × Bool) :
    Passed edges rest s (rest.foldl addCaller s) := by
  induction rest generalizing s with
  | nil => exact ⟨subset_rfl, fun a ha => ⟨a, ha, .refl⟩, by simp, Or.inl, by simp⟩
  | cons e rest ih =>
    obtain ⟨he, hrest⟩ := List.cons_subset.1 hrest
    have h := passed_addCaller he s
    have h' := ih hrest (addCaller s e)
    refine ⟨h.subset.trans h'.subset, fun a ha => ?_, ?_, fun hr => ?_, fun hr => ?_⟩
    · obtain ⟨b, hb, hab⟩ := h'.reaches a ha
      obtain ⟨c, hc, hbc⟩ := h.reaches b hb
      exact ⟨c, hc, hab.trans hbc⟩
    · have := h.bound
      have := h'.bound
      simp only [Finset.subset_iff, List.map_cons, List.toFinset_cons, Finset.mem_union,
        Finset.mem_insert, List.map_nil, List.toFinset_nil] at *
      grind
    · rcases h'.grows hr with hmid | hlt
      · exact (h.grows hmid).imp_right fun hlt => hlt.trans_le (Finset.card_le_card h'.subset)
      · exact Or.inr ((Finset.card_le_card h.subset).trans_lt hlt)
    · obtain ⟨heq, hclosed⟩ := h'.closed hr
      rw [List.foldl_cons, heq] at hr ⊢
      obtain ⟨hs, hfirst⟩ := h.closed hr
      rw [hs] at hclosed ⊢
      exact ⟨rfl, List.forall_mem_cons.2 ⟨hfirst e List.mem_cons_self, hclosed⟩⟩

/-- The passes end, with the nodes from which the set is reached. -/
theorem close_spec {fuel : Nat} (h : (s ∪ (edges.map Prod.fst).toFinset).card < s.card + fuel) :
    ∃ r, close edges fuel s = some r ∧ ∀ a, a ∈ r ↔ Reaches edges s a := by
  induction fuel generalizing s with
  | zero => exact absurd h (Nat.not_lt.2 (Finset.card_le_card Finset.subset_union_left))
  | succ fuel ih =>
    have hpass := passed_foldl (List.Subset.refl edges) (s, false)
    rw [close]
    cases hr : (edges.foldl addCaller (s, false)).2 with
    | true =>
      obtain hfalse | hlt := hpass.grows hr
      · cases hfalse
      have hcard := Finset.card_le_card (Finset.union_subset hpass.bound Finset.subset_union_right)
      dsimp only at hlt hcard
      obtain ⟨r, hclose, hmem⟩ := ih (s := (edges.foldl addCaller (s, false)).1) (by omega)
      refine ⟨r, by simpa [hr] using hclose, fun a => (hmem a).trans ⟨?_, ?_⟩⟩
      · rintro ⟨b, hb, hab⟩
        obtain ⟨c, hc, hbc⟩ := hpass.reaches b hb
        exact ⟨c, hc, hab.trans hbc⟩
      · exact fun ⟨b, hb, hab⟩ => ⟨b, hpass.subset hb, hab⟩
    | false =>
      obtain ⟨heq, hclosed⟩ := hpass.closed hr
      refine ⟨s, by simp [heq], fun a => ⟨fun ha => ⟨a, ha, .refl⟩, ?_⟩⟩
      rintro ⟨b, hb, hab⟩
      induction hab using Relation.ReflTransGen.head_induction_on with
      | refl => exact hb
      | head hac _ ih =>
        obtain ⟨e, he, rfl, hc⟩ := hac
        exact hclosed e he _ hc ih

end Closure

section Descent
variable {α β γ : Type} {pre : Nat → α → Option γ} {next : α → γ → Option α}
variable {result : α → γ → Option β → β} {a b : α} {n m : Nat} {r : β}

/-- A function that prepares a value and calls itself at most once; `none` when
it needs more nested calls. -/
def descend (pre : Nat → α → Option γ) (next : α → γ → Option α) (result : α → γ → Option β → β) :
    Nat → α → Option β
  | 0, _ => none
  | calls + 1, a => (pre calls a).bind fun c =>
    match next a c with
    | none => some (result a c none)
    | some b => (descend pre next result calls b).map fun r => result a c (some r)

def Nested (pre : Nat → α → Option γ) (next : α → γ → Option α) (a b : α) : Prop :=
  ∃ n c, pre n a = some c ∧ next a c = some b

def Mono (f : Nat → α → Option γ) : Prop := ∀ n m a c, n ≤ m → f n a = some c → f m a = some c

theorem mono_descend (hpre : Mono pre) : Mono (descend pre next result) := by
  intro n m a r hnm h
  induction n generalizing m a r with
  | zero => cases h
  | succ n ih =>
    obtain ⟨m, rfl⟩ := Nat.exists_eq_succ_of_ne_zero (Nat.ne_zero_of_lt hnm)
    have hnm := Nat.le_of_succ_le_succ hnm
    obtain ⟨c, hc, h⟩ := Option.bind_eq_some_iff.1 h
    refine Option.bind_eq_some_iff.2 ⟨c, hpre n m a c hnm hc, ?_⟩
    cases hnext : next a c with
    | none => simpa [hnext] using h
    | some b =>
      simp only [hnext, Option.map_eq_some_iff] at h ⊢
      obtain ⟨r', hr', rfl⟩ := h
      exact ⟨r', ih _ _ _ hnm hr', rfl⟩

theorem isSome_of_descend (hpre : Mono pre) (h : (descend pre next result n a).isSome) :
    (∃ m, (pre m a).isSome) ∧
      ∀ b, Nested pre next a b → ∃ m < n, (descend pre next result m b).isSome := by
  cases n with
  | zero => cases h
  | succ n =>
    obtain ⟨r, h⟩ := Option.isSome_iff_exists.1 h
    obtain ⟨c, hc, h⟩ := Option.bind_eq_some_iff.1 h
    refine ⟨⟨n, by rw [hc]; rfl⟩, fun b ⟨k, c', hc', hnext⟩ => ⟨n, Nat.lt_succ_self n, ?_⟩⟩
    have hboth := hpre k (max k n) a c' (le_max_left _ _) hc'
    rw [hpre n _ a c (le_max_right _ _) hc, Option.some.injEq] at hboth
    subst hboth
    simp only [hnext, Option.map_eq_some_iff] at h
    obtain ⟨r', hr', -⟩ := h
    exact Option.isSome_of_eq_some hr'

def Acyclic (r : α → α → Prop) (a : α) : Prop :=
  ∀ b, Relation.ReflTransGen r a b → ¬ Relation.TransGen r b b

theorem acc_of_acyclic [Finite α] {r : α → α → Prop} (h : Acyclic r a) :
    Acc (fun y x => r x y) a := by
  let later (y x : {b // Relation.ReflTransGen r a b}) : Prop := Relation.TransGen r x.1 y.1
  have : Std.Irrefl later := ⟨fun x => h x.1 x.2⟩
  have hacc : ∀ x : {b // Relation.ReflTransGen r a b}, Acc (fun y x => r x y) x.1 := by
    intro x
    induction x using (Finite.wellFounded_of_trans_of_irrefl later).induction with
    | _ x ih => exact .intro _ fun y hy => ih ⟨y, x.2.tail hy⟩ (.single hy)
  exact hacc ⟨a, .refl⟩

/-- On a finite type the calls end exactly if no argument comes back to itself. -/
theorem returns_iff [Finite α] (hpre : Mono pre) :
    (∃ n, (descend pre next result n a).isSome) ↔
      ∀ b, Relation.ReflTransGen (Nested pre next) a b →
        (∃ n, (pre n b).isSome) ∧ ¬ Relation.TransGen (Nested pre next) b b := by
  constructor
  · rintro ⟨n, h⟩ b hab
    constructor
    · have hb : ∃ m, (descend pre next result m b).isSome := by
        induction hab with
        | refl => exact ⟨n, h⟩
        | tail _ hcd ih =>
          obtain ⟨m, hm⟩ := ih
          obtain ⟨k, -, hk⟩ := (isSome_of_descend hpre hm).2 _ hcd
          exact ⟨k, hk⟩
      exact (isSome_of_descend hpre hb.choose_spec).1
    · refine Walks.acyclic_of_bounded (n := n) (fun c hc => ?_) hab
      clear hab
      induction c generalizing a n with
      | nil =>
        cases n with
        | zero => cases h
        | succ n => exact Nat.succ_pos n
      | cons d c ih =>
        obtain ⟨had, hd⟩ := List.isChain_cons_cons.1 hc
        obtain ⟨m, hm, hmd⟩ := (isSome_of_descend hpre h).2 d had
        exact Nat.lt_of_le_of_lt (ih m hmd hd) hm
  · intro h
    induction acc_of_acyclic fun b hb => (h b hb).2 with
    | intro x _ ih =>
      obtain ⟨⟨n, hn⟩, -⟩ := h x .refl
      obtain ⟨c, hc⟩ := Option.isSome_iff_exists.1 hn
      cases hnext : next x c with
      | none => exact ⟨n + 1, by simp [descend, hc, hnext]⟩
      | some b =>
        have hstep : Nested pre next x b := ⟨n, c, hc, hnext⟩
        obtain ⟨m, hm⟩ := ih b hstep fun d hd => h d (.head hstep hd)
        obtain ⟨r, hr⟩ := Option.isSome_iff_exists.1 hm
        have hc' := hpre n (max n m) x c (le_max_left _ _) hc
        have hr' := mono_descend hpre m (max n m) b r (le_max_right _ _) hr
        exact ⟨max n m + 1, by simp [descend, hc', hnext, hr']⟩

end Descent

end ZoneVerifier.GraphSearch
