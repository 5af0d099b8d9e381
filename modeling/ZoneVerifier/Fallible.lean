import Mathlib.Data.List.Basic

/-!
# Computations that may fail

A sequence or a loop of fallible steps succeeds only if every step of it does.
-/

set_option autoImplicit false

namespace ZoneVerifier.Fallible

variable {α β ε ε' : Type}

theorem bind_ok {x : Except ε α} {f : α → Except ε β} {b : β} (h : (x >>= f) = .ok b) :
    ∃ a, x = .ok a ∧ f a = .ok b := by
  cases x with
  | error e => cases h
  | ok a => exact ⟨a, rfl, h⟩

theorem bind_mapError_ok {x : Except ε α} {g : ε → ε'} {f : α → Except ε' β} {b : β}
    (h : (x.mapError g >>= f) = .ok b) : ∃ a, x = .ok a ∧ f a = .ok b := by
  cases x with
  | error e => cases h
  | ok a => exact ⟨a, rfl, h⟩

theorem seq_ok_iff {x y : Except ε Unit} : (do x; y) = .ok () ↔ x = .ok () ∧ y = .ok () := by
  cases x <;> simp [bind, Except.bind]

theorem forM_ok_iff (xs : List α) (f : α → Except ε Unit) :
    xs.forM f = .ok () ↔ ∀ x ∈ xs, f x = .ok () := by
  induction xs with
  | nil => simp [pure, Except.pure]
  | cons x xs ih =>
    rw [List.forall_mem_cons, ← ih, List.forM]
    cases f x <;> simp [bind, Except.bind]

theorem mapM_cons_eq_some {f : α → Option β} {a : α} {as : List α} {bs : List β} :
    (a :: as).mapM f = some bs ↔ ∃ b cs, f a = some b ∧ as.mapM f = some cs ∧ b :: cs = bs := by
  simp [Option.bind_eq_some_iff]

theorem mapM_of_sublist {f : α → Option β} {as as' : List α} {bs : List β} (h : as'.Sublist as)
    (hbs : as.mapM f = some bs) : ∃ bs', as'.mapM f = some bs' ∧ bs'.Sublist bs := by
  induction h generalizing bs with
  | slnil => exact ⟨bs, hbs, .refl bs⟩
  | cons a _ ih =>
    obtain ⟨b, cs, _, hcs, rfl⟩ := mapM_cons_eq_some.1 hbs
    obtain ⟨bs', hbs', hsub⟩ := ih hcs
    exact ⟨bs', hbs', hsub.cons b⟩
  | cons_cons a _ ih =>
    obtain ⟨b, cs, hb, hcs, rfl⟩ := mapM_cons_eq_some.1 hbs
    obtain ⟨bs', hbs', hsub⟩ := ih hcs
    exact ⟨b :: bs', mapM_cons_eq_some.2 ⟨b, bs', hb, hbs', rfl⟩, hsub.cons_cons b⟩

theorem of_mapM_eq_some {f : α → Option β} {as : List α} {bs : List β}
    (h : as.mapM f = some bs) : bs.length = as.length ∧ ∀ b ∈ bs, ∃ a ∈ as, f a = some b := by
  induction as generalizing bs with
  | nil =>
    cases h
    exact ⟨rfl, nofun⟩
  | cons a as ih =>
    obtain ⟨b, bs', hb, hbs, rfl⟩ := mapM_cons_eq_some.1 h
    obtain ⟨hlen, hmem⟩ := ih hbs
    refine ⟨by rw [List.length_cons, hlen, List.length_cons], List.forall_mem_cons.2 ⟨?_, ?_⟩⟩
    · exact ⟨a, List.mem_cons_self, hb⟩
    · intro c hc
      obtain ⟨a', ha', hf⟩ := hmem c hc
      exact ⟨a', List.mem_cons_of_mem a ha', hf⟩

end ZoneVerifier.Fallible
