import ZoneVerifier.IntervalRefine

/-!
# Chains of interval refinements

A branch refines several registers, and some of them twice. A tuple that has
been synchronised is `Settled`: it cannot regain a word it has lost by a lower
signed refinement. Every chain below is characterised on the valuation that
was represented before the branch.
-/

set_option autoImplicit false

namespace ZoneVerifier.Bounds.ScalarBounds
open Word
variable (b : ScalarBounds)

/-- A sign-crossing tuple has room for negative words. -/
def Settled (b : ScalarBounds) : Prop := b.smin < 0 → 0 ≤ b.smax → 2^63 ≤ b.umax

def SameId (b c : ScalarBounds) : Prop := c.scalarId = b.scalarId

theorem sameId_syncBounds {b c : ScalarBounds} (h : SameId b c) : SameId b c.syncBounds :=
  (scalarId_syncBounds c).trans h

theorem sameId_assumeSle (c : Int) : SameId b (b.assumeSle c) := sameId_syncBounds rfl

theorem sameId_assumeSge (c : Int) : SameId b (b.assumeSge c) := sameId_syncBounds rfl

theorem settled_deduceU64FromS64 : b.deduceU64FromS64.Settled := by
  unfold deduceU64FromS64
  by_cases h0 : 0 ≤ b.smin
  · rw [if_pos h0]
    intro hneg
    simp only [meetU64] at hneg
    omega
  · rw [if_neg h0]
    by_cases hr : b.smin < 0 ∧ 0 ≤ b.smax ∧ b.umax < 2^63
    · rw [if_pos hr]
      intro _ _
      show 2^63 ≤ 2^64 - 1
      omega
    · rw [if_neg hr]
      intro h1 h2
      omega

theorem settled_syncBounds : b.syncBounds.Settled :=
  settled_deduceU64FromS64 _

theorem has_raise_of_capSge {b : ScalarBounds} {c : Int} {n : Nat}
    (h : ((b.capSge c).raise n).Has n) : (b.raise n).Has n ∧ c ≤ toI64 n := by
  obtain ⟨h1, h2, h3, _, h5, h6, h7, h8⟩ := h
  have hmin : b.umin ≤ n := by
    simp only [raise, capSge] at h3
    by_cases h0 : 0 ≤ c
    · rw [if_pos h0] at h3
      omega
    · rwa [if_neg h0] at h3
  simp only [raise, capSge] at h1
  exact ⟨⟨by simp only [raise]; omega, h2, hmin, Nat.le_refl n, h5, h6, h7, h8⟩, by omega⟩

theorem has_assumeSge_iff_of_settled {b : ScalarBounds} {c : Int} {n : Nat} (hb : b.InRange)
    (hc : I64 c) (hn : n < 2^64) (hs : b.Settled ∨ b.Has n) :
    (b.assumeSge c).Has n ↔ b.Has n ∧ c ≤ toI64 n := by
  constructor
  · intro h
    obtain ⟨hr, hu⟩ := (has_syncBounds_iff (hb.capSge hc) hn).1 h
    obtain ⟨hr, hcn⟩ := has_raise_of_capSge hr
    refine ⟨has_of_has_raise hr ?_, hcn⟩
    rcases hs with hs | hs
    · rcases hu with hu | ⟨hneg, h0, h63, _⟩
      · exact hu
      · have hroom := hs (by simp only [capSge] at hneg; omega) h0
        exact absurd h63 (Nat.not_lt.2 hroom)
    · exact hs.le_umax
  · rintro ⟨h, hcn⟩
    exact (has_assumeSge_iff hb hc hn h).2 hcn

end ZoneVerifier.Bounds.ScalarBounds

namespace ZoneVerifier.Interval
open Word Ast Bounds Concrete

def HasAll (s : IntervalState) (ρ : Valuation) : Prop :=
  ∀ r, (s.getBounds r).Has (ρ r).toNat

def Linked (s : IntervalState) (ρ : Valuation) : Prop :=
  ∀ r q i, r.isProgram = true → q.isProgram = true →
    (s.getBounds r).scalarId = some i → (s.getBounds q).scalarId = some i → ρ r = ρ q

/-- Every tuple is settled or still has its word. -/
def Loose (s : IntervalState) (ρ : Valuation) : Prop :=
  ∀ r, (s.getBounds r).Settled ∨ (s.getBounds r).Has (ρ r).toNat

def IdsFrom (s s' : IntervalState) : Prop :=
  ∀ r i, (s'.getBounds r).scalarId = some i → (s.getBounds r).scalarId = some i

section Chains
variable {s : IntervalState} {ρ : Valuation}
variable {c : Int} {s' s₀ : IntervalState} {n u : Nat} {p : Prop} {x y : Reg}
  {f : ScalarBounds → ScalarBounds} (b : ScalarBounds)

theorem represents_iff : Represents s ρ ↔ HasAll s ρ ∧ Linked s ρ :=
  ⟨fun h => ⟨h.has, h.linked⟩, fun h => ⟨h.1, h.2⟩⟩

theorem HasAll.loose (h : HasAll s ρ) : Loose s ρ := fun r => Or.inr (h r)

theorem Linked.of_idsFrom (h : Linked s ρ) (hid : IdsFrom s s') : Linked s' ρ :=
  fun r q i hr hq hri hqi => h r q i hr hq (hid r i hri) (hid q i hqi)

theorem represents_iff_hasAll (h : Linked s ρ) (hid : IdsFrom s s') :
    Represents s' ρ ↔ HasAll s' ρ :=
  represents_iff.trans (and_iff_left (h.of_idsFrom hid))

theorem Linked.value_of_mem (h : Linked s ρ) {r : Reg} (hx : x.isProgram = true)
    (hr : r ∈ linkClass s x) : ρ r = ρ x := by
  rcases List.mem_cons.1 hr with rfl | hr
  · rfl
  · obtain ⟨_, hp, i, hi, hi'⟩ := mem_linkedRegs_iff.1 hr
    exact h r x i hp hx hi' hi

theorem idsFrom_modifyBounds (h : IdsFrom s₀ s) (x : Reg) (hf : ∀ b, ScalarBounds.SameId b (f b)) :
    IdsFrom s₀ (s.modifyBounds x f) := by
  intro r i hi
  rw [getBounds_modifyBounds] at hi
  by_cases hr : r = x
  · rw [if_pos hr] at hi
    rw [hr]
    exact h x i ((hf _).symm.trans hi)
  · rw [if_neg hr] at hi
    exact h r i hi

theorem IdsFrom.refl (s : IntervalState) : IdsFrom s s := fun _ _ h => h

theorem Loose.modifyBounds (h : Loose s ρ) (x : Reg) (hf : (f (s.getBounds x)).Settled) :
    Loose (s.modifyBounds x f) ρ := by
  intro r
  rw [getBounds_modifyBounds]
  by_cases hr : r = x
  · rw [if_pos hr]
    exact Or.inl hf
  · rw [if_neg hr]
    exact h r

theorem hasAll_modifyBounds_iff (x : Reg) (f : ScalarBounds → ScalarBounds) :
    HasAll (s.modifyBounds x f) ρ ↔
      (f (s.getBounds x)).Has (ρ x).toNat ∧ ∀ r, r ≠ x → (s.getBounds r).Has (ρ r).toNat := by
  constructor
  · intro h
    refine ⟨?_, fun r hr => ?_⟩
    · have hx := h x
      rwa [getBounds_modifyBounds, if_pos rfl] at hx
    · have hr' := h r
      rwa [getBounds_modifyBounds, if_neg hr] at hr'
  · rintro ⟨hx, ho⟩ r
    rw [getBounds_modifyBounds]
    by_cases hr : r = x
    · rw [if_pos hr, hr]
      exact hx
    · rw [if_neg hr]
      exact ho r hr

theorem hasAll_modifyBounds_of (h : HasAll s ρ) (x : Reg) (f : ScalarBounds → ScalarBounds) :
    HasAll (s.modifyBounds x f) ρ ↔ (f (s.getBounds x)).Has (ρ x).toNat :=
  (hasAll_modifyBounds_iff x f).trans (and_iff_left fun r _ => h r)

theorem hasAll_assumeSge_iff (hr : InRange s) (hl : Loose s ρ) (hc : I64 c) :
    HasAll (s.modifyBounds x (·.assumeSge c)) ρ ↔ HasAll s ρ ∧ c ≤ signedOf ρ x := by
  rw [hasAll_modifyBounds_iff,
    ScalarBounds.has_assumeSge_iff_of_settled (hr x) hc (ρ x).isLt (hl x)]
  constructor
  · rintro ⟨⟨hx, hcx⟩, ho⟩
    refine ⟨fun r => ?_, hcx⟩
    by_cases h : r = x
    · rw [h]
      exact hx
    · exact ho r h
  · rintro ⟨h, hcx⟩
    exact ⟨⟨h x, hcx⟩, fun r _ => h r⟩

theorem linkedRegs_congr (h : ∀ r, (s'.getBounds r).scalarId = (s.getBounds r).scalarId) :
    linkedRegs s' x = linkedRegs s x := by
  simp only [linkedRegs, h]

section
variable (hf : ∀ b, ScalarBounds.SameId b (f b))
include hf

theorem sameId_modifyBounds (x r : Reg) :
    ScalarBounds.SameId (s.getBounds r) ((s.modifyBounds x f).getBounds r) := by
  rw [getBounds_modifyBounds]
  by_cases h : r = x
  · rw [if_pos h, h]
    exact hf _
  · rw [if_neg h]
    exact rfl

theorem sameId_modifyAll (rs : List Reg) (s : IntervalState)
    (r : Reg) :
    ScalarBounds.SameId (s.getBounds r) ((modifyAll s rs f).getBounds r) := by
  induction rs generalizing s with
  | nil => exact rfl
  | cons q rs ih => exact (ih _).trans (sameId_modifyBounds hf q r)

theorem idsFrom_modifyAll (rs : List Reg)
    (s : IntervalState) :
    IdsFrom s (modifyAll s rs f) :=
  fun r _ hi => (sameId_modifyAll hf rs s r).symm.trans hi

end

theorem hasAll_modifyAll_sge_iff (rs : List Reg) (s : IntervalState) (hc : I64 c) (hr : InRange s)
    (hl : Loose s ρ) :
    HasAll (modifyAll s rs (·.assumeSge c)) ρ ↔ HasAll s ρ ∧ ∀ r ∈ rs, c ≤ signedOf ρ r := by
  induction rs generalizing s with
  | nil => simp [modifyAll]
  | cons q rs ih =>
    have hr' : InRange (s.modifyBounds q (·.assumeSge c)) := hr.modifyBounds ((hr q).assumeSge hc)
    have hl' := hl.modifyBounds q (f := (·.assumeSge c)) (ScalarBounds.settled_syncBounds _)
    have hq : HasAll (modifyAll s (q :: rs) (·.assumeSge c)) ρ ↔
        HasAll (s.modifyBounds q (·.assumeSge c)) ρ ∧ ∀ r ∈ rs, c ≤ signedOf ρ r := ih _ hr' hl'
    rw [hq, hasAll_assumeSge_iff hr hl hc, List.forall_mem_cons, and_assoc]

theorem hasAll_linked_sge_iff (hc : I64 c) (hr : InRange s) (hl : Loose s ρ) (hk : Linked s ρ)
    (hx : x.isProgram = true) :
    HasAll (modifyAll s (linkClass s x) (·.assumeSge c)) ρ ↔ HasAll s ρ ∧ c ≤ signedOf ρ x := by
  rw [hasAll_modifyAll_sge_iff _ s hc hr hl]
  refine and_congr_right fun _ => ⟨fun h => h x List.mem_cons_self, fun h r hr => ?_⟩
  rw [signedOf, hk.value_of_mem hx hr]
  exact h

theorem hasAll_modifyAll_iff (h : HasAll s ρ) {rs : List Reg} (hrs : rs.Nodup)
    (f : ScalarBounds → ScalarBounds) :
    HasAll (modifyAll s rs f) ρ ↔ ∀ r ∈ rs, (f (s.getBounds r)).Has (ρ r).toNat := by
  constructor
  · intro h' r hr
    have := h' r
    rwa [getBounds_modifyAll rs hrs, if_pos hr] at this
  · intro hk r
    rw [getBounds_modifyAll rs hrs]
    by_cases hr : r ∈ rs
    · rw [if_pos hr]
      exact hk r hr
    · rw [if_neg hr]
      exact h r

/-- The words of a register and of everything linked to it survive an upper
refinement by `c`. -/
def CapKept (s : IntervalState) (ρ : Valuation) (x : Reg) (c : Int) : Prop :=
  ∀ r ∈ linkClass s x, (s.getBounds r).SleKeeps c (ρ r).toNat

theorem capKept_of_nonneg (hk : Linked s ρ) (hx : x.isProgram = true) (h : 0 ≤ signedOf ρ x) :
    CapKept s ρ x c := by
  intro r hr
  rw [hk.value_of_mem hx hr]
  exact Or.inr (Or.inl h)

theorem hasAll_linked_sle_iff (h : HasAll s ρ) (hc : I64 c) (hr : InRange s) (hk : Linked s ρ)
    (hx : x.isProgram = true) :
    HasAll (modifyAll s (linkClass s x) (·.assumeSle c)) ρ ↔
      signedOf ρ x ≤ c ∧ CapKept s ρ x c := by
  rw [hasAll_modifyAll_iff h (nodup_linkClass s x)]
  have hiff : ∀ r ∈ linkClass s x, (((s.getBounds r).assumeSle c).Has (ρ r).toNat ↔
      signedOf ρ x ≤ c ∧ (s.getBounds r).SleKeeps c (ρ r).toNat) := by
    intro r hr'
    rw [ScalarBounds.has_assumeSle_iff (hr r) hc (ρ r).isLt (h r), signedOf,
      ← hk.value_of_mem hx hr']
    rfl
  constructor
  · intro h'
    exact ⟨((hiff x List.mem_cons_self).1 (h' x List.mem_cons_self)).1,
      fun r hr' => ((hiff r hr').1 (h' r hr')).2⟩
  · rintro ⟨hv, hkept⟩ r hr'
    exact (hiff r hr').2 ⟨hv, hkept r hr'⟩

theorem idsFrom_sle (h : IdsFrom s₀ s) (x : Reg) (c : Int) :
    IdsFrom s₀ (s.modifyBounds x fun b => b.assumeSle c) :=
  idsFrom_modifyBounds h x fun b => ScalarBounds.sameId_assumeSle b c

theorem idsFrom_sge (h : IdsFrom s₀ s) (x : Reg) (c : Int) :
    IdsFrom s₀ (s.modifyBounds x fun b => b.assumeSge c) :=
  idsFrom_modifyBounds h x fun b => ScalarBounds.sameId_assumeSge b c

/-- What `x ≤ y` keeps: both registers are cut at the other's interval. -/
def LeKept (s : IntervalState) (ρ : Valuation) (x y : Reg) : Prop :=
  (s.getBounds x).smin ≤ (s.getBounds y).smax →
    (signedOf ρ x ≤ (s.getBounds y).smax ∧
      (s.getBounds x).SleKeeps (s.getBounds y).smax (ρ x).toNat) ∧
    (s.getBounds x).smin ≤ signedOf ρ y

theorem InRange.assumeLe (hr : InRange s) (x y : Reg) : InRange (assumeLe s x y) := by
  unfold Interval.assumeLe
  dsimp only
  split_ifs
  · have h1 : InRange (s.modifyBounds x (·.assumeSle (s.getBounds y).smax)) :=
      hr.modifyBounds ((hr x).assumeSle (hr y).smax)
    exact h1.modifyBounds (f := (·.assumeSge _)) ((h1 y).assumeSge (hr x).smin)
  · exact hr

theorem idsFrom_assumeLe (s : IntervalState) (x y : Reg) : IdsFrom s (assumeLe s x y) := by
  unfold assumeLe
  dsimp only
  split_ifs
  · exact idsFrom_sge (idsFrom_sle (IdsFrom.refl s) x _) y _
  · exact IdsFrom.refl s

theorem loose_assumeLe (h : HasAll s ρ) (x y : Reg) : Loose (assumeLe s x y) ρ := by
  unfold assumeLe
  dsimp only
  split_ifs
  · exact (h.loose.modifyBounds x (f := (·.assumeSle _))
      (ScalarBounds.settled_syncBounds _)).modifyBounds y (f := (·.assumeSge _))
        (ScalarBounds.settled_syncBounds _)
  · exact h.loose

theorem hasAll_assumeLe_iff (h : HasAll s ρ) (hr : InRange s) (x y : Reg) :
    HasAll (assumeLe s x y) ρ ↔ LeKept s ρ x y := by
  unfold assumeLe LeKept
  by_cases hg : (s.getBounds x).smin ≤ (s.getBounds y).smax
  · have h1 : InRange (s.modifyBounds x (·.assumeSle (s.getBounds y).smax)) :=
      hr.modifyBounds ((hr x).assumeSle (hr y).smax)
    have hl : Loose (s.modifyBounds x (·.assumeSle (s.getBounds y).smax)) ρ :=
      h.loose.modifyBounds x (f := (·.assumeSle _)) (ScalarBounds.settled_syncBounds _)
    rw [if_pos hg, if_pos hg, hasAll_assumeSge_iff h1 hl (hr x).smin, hasAll_modifyBounds_of h,
      ScalarBounds.has_assumeSle_iff (hr x) (hr y).smax (ρ x).isLt (h x)]
    exact ⟨fun hk _ => hk, fun hk => hk hg⟩
  · rw [if_neg hg, if_neg hg]
    exact iff_of_true h fun hg' => absurd hg' hg

theorem hasAll_modifyBounds_and (hx : (s.getBounds x).Has (ρ x).toNat) :
    HasAll (s.modifyBounds x f) ρ ↔ HasAll s ρ ∧ (f (s.getBounds x)).Has (ρ x).toNat := by
  rw [hasAll_modifyBounds_iff]
  constructor
  · rintro ⟨hf, ho⟩
    refine ⟨fun r => ?_, hf⟩
    by_cases hr : r = x
    · rw [hr]
      exact hx
    · exact ho r hr
  · rintro ⟨h, hf⟩
    exact ⟨hf, fun r _ => h r⟩

/-- What `y < x` keeps: each register is cut at the other's interval, if that
leaves it nonempty. -/
def GtKept (s : IntervalState) (ρ : Valuation) (x y : Reg) : Prop :=
  ((s.getBounds y).smax ≠ 2^63 - 1 ∧ satI64 ((s.getBounds y).smax + 1) ≤ (s.getBounds x).smax →
    satI64 ((s.getBounds y).smax + 1) ≤ signedOf ρ x) ∧
  ((s.getBounds x).smin ≠ -2^63 ∧ (s.getBounds y).smin ≤ satI64 ((s.getBounds x).smin - 1) →
    signedOf ρ y ≤ satI64 ((s.getBounds x).smin - 1) ∧
      (s.getBounds y).SleKeeps (satI64 ((s.getBounds x).smin - 1)) (ρ y).toNat)

theorem hasAll_if_iff [Decidable p] {q : Prop} (h : HasAll s' ρ ↔ HasAll s ρ ∧ q) :
    HasAll (if p then s' else s) ρ ↔ HasAll s ρ ∧ (p → q) := by
  by_cases hp : p <;> simp [hp, h]

theorem hasAll_sleIf_iff [Decidable p] (hc : I64 c) (hr : (s.getBounds y).InRange)
    (hy : (s.getBounds y).Has (ρ y).toNat) :
    HasAll (if p then s.modifyBounds y (·.assumeSle c) else s) ρ ↔
      HasAll s ρ ∧ (p → signedOf ρ y ≤ c ∧ (s.getBounds y).SleKeeps c (ρ y).toNat) :=
  hasAll_if_iff (by
    rw [hasAll_modifyBounds_and hy, ScalarBounds.has_assumeSle_iff hr hc (ρ y).isLt hy]
    rfl)

theorem idsFrom_if [Decidable p] (h : IdsFrom s₀ s) (h' : IdsFrom s₀ s') :
    IdsFrom s₀ (if p then s' else s) := by
  by_cases hp : p
  · rwa [if_pos hp]
  · rwa [if_neg hp]

theorem idsFrom_assumeGt (s : IntervalState) (x y : Reg) : IdsFrom s (assumeGt s x y) :=
  idsFrom_if (idsFrom_if (IdsFrom.refl s) (idsFrom_sge (IdsFrom.refl s) x _))
    (idsFrom_sle (idsFrom_if (IdsFrom.refl s) (idsFrom_sge (IdsFrom.refl s) x _)) y _)

theorem getBounds_if_ne [Decidable p] (hxy : y ≠ x) (f : ScalarBounds → ScalarBounds) :
    (if p then s.modifyBounds x f else s).getBounds y = s.getBounds y := by
  by_cases hp : p
  · rw [if_pos hp, getBounds_modifyBounds, if_neg hxy]
  · rw [if_neg hp]

theorem hasAll_assumeGt_iff (h : HasAll s ρ) (hr : InRange s) (hxy : y ≠ x) :
    HasAll (assumeGt s x y) ρ ↔ GtKept s ρ x y := by
  -- the lower refinement of `x` does not touch the tuple of `y`
  have hy := getBounds_if_ne (s := s) (p := (s.getBounds y).smax ≠ 2^63 - 1 ∧
    satI64 ((s.getBounds y).smax + 1) ≤ (s.getBounds x).smax) hxy
    (·.assumeSge (satI64 ((s.getBounds y).smax + 1)))
  unfold assumeGt GtKept
  rw [hasAll_sleIf_iff (satI64_range _) (by rw [hy]; exact hr y) (by rw [hy]; exact h y),
    hasAll_if_iff (hasAll_assumeSge_iff hr h.loose (satI64_range _)), hy]
  exact ⟨fun hk => ⟨hk.1.2, hk.2⟩, fun hk => ⟨⟨h, hk.1⟩, hk.2⟩⟩

/-- What `x < y` keeps: `x` is cut below the interval of `y`. -/
def LtKept (s : IntervalState) (ρ : Valuation) (x y : Reg) : Prop :=
  (s.getBounds y).smax ≠ 2^63 - 1 → signedOf ρ x ≤ satI64 ((s.getBounds y).smax + -1) ∧
    (s.getBounds x).SleKeeps (satI64 ((s.getBounds y).smax + -1)) (ρ x).toNat

theorem idsFrom_assumeLeOffset (s : IntervalState) (x y : Reg) (c : Int) :
    IdsFrom s (assumeLeOffset s x y c) :=
  idsFrom_if (IdsFrom.refl s) (idsFrom_sle (IdsFrom.refl s) x _)

theorem hasAll_assumeLeOffset_iff (h : HasAll s ρ) (hr : InRange s) (x y : Reg) :
    HasAll (assumeLeOffset s x y (-1)) ρ ↔ LtKept s ρ x y := by
  unfold assumeLeOffset LtKept
  rw [hasAll_sleIf_iff (satI64_range _) (hr x) (h x)]
  exact and_iff_right h

theorem InRange.assumeLeOffset (hr : InRange s) (x y : Reg) (c : Int) :
    InRange (assumeLeOffset s x y c) := by
  unfold Interval.assumeLeOffset
  by_cases hg : (s.getBounds y).smax ≠ 2^63 - 1
  · rw [if_pos hg]
    exact hr.modifyBounds (f := (·.assumeSle _)) ((hr x).assumeSle (satI64_range _))
  · rw [if_neg hg]
    exact hr

theorem loose_assumeLeOffset (h : HasAll s ρ) (x y : Reg) (c : Int) :
    Loose (assumeLeOffset s x y c) ρ := by
  unfold assumeLeOffset
  by_cases hg : (s.getBounds y).smax ≠ 2^63 - 1
  · rw [if_pos hg]
    exact h.loose.modifyBounds x (f := (·.assumeSle _)) (ScalarBounds.settled_syncBounds _)
  · rw [if_neg hg]
    exact h.loose

theorem has_raise_meetAll_iff (c : ScalarBounds) (n : Nat) :
    ((meetAll b c).raise n).Has n ↔ (b.raise n).Has n ∧ (c.raise n).Has n := by
  constructor
  · rintro ⟨h1, h2, h3, _, h5, h6, h7, h8⟩
    exact ⟨⟨(Int.max_le.1 h1).1, (Int.le_min.1 h2).1, (Nat.max_le.1 h3).1, Nat.le_refl n,
        (Int.max_le.1 h5).1, (Int.le_min.1 h6).1, (Nat.max_le.1 h7).1, (Nat.le_min.1 h8).1⟩,
      ⟨(Int.max_le.1 h1).2, (Int.le_min.1 h2).2, (Nat.max_le.1 h3).2, Nat.le_refl n,
        (Int.max_le.1 h5).2, (Int.le_min.1 h6).2, (Nat.max_le.1 h7).2, (Nat.le_min.1 h8).2⟩⟩
  · rintro ⟨⟨h1, h2, h3, _, h5, h6, h7, h8⟩, ⟨k1, k2, k3, _, k5, k6, k7, k8⟩⟩
    exact ⟨Int.max_le.2 ⟨h1, k1⟩, Int.le_min.2 ⟨h2, k2⟩, Nat.max_le.2 ⟨h3, k3⟩, Nat.le_refl n,
      Int.max_le.2 ⟨h5, k5⟩, Int.le_min.2 ⟨h6, k6⟩, Nat.max_le.2 ⟨h7, k7⟩, Nat.le_min.2 ⟨h8, k8⟩⟩

def EqKept (s : IntervalState) (ρ : Valuation) (x y : Reg) : Prop :=
  ((s.getBounds y).raise (ρ x).toNat).Has (ρ x).toNat ∧
    ((ρ x).toNat ≤ (s.getBounds y).umax ∨
      (meetAll (s.getBounds x) (s.getBounds y)).Recovered (ρ x).toNat)

theorem inRange_meetAll {b c : ScalarBounds} (hb : b.InRange) (hc : c.InRange) :
    (meetAll b c).InRange :=
  ((((hb.meetS64 hc.smin hc.smax).meetU64 hc.umin).meetS32 hc.s32Min hc.s32Max).meetU32 hc.u32Min)

theorem hasAll_intersectEqReg_iff (h : HasAll s ρ) (hr : InRange s) (hx : x.isProgram = true)
    (y : Reg) :
    HasAll (intersectEqReg s x y) ρ ↔ EqKept s ρ x y := by
  have hmax : (meetAll (s.getBounds x) (s.getBounds y)).umax =
      min (s.getBounds x).umax (s.getBounds y).umax := rfl
  have hux := (h x).le_umax
  unfold intersectEqReg EqKept
  rw [if_neg (Reg.isProgram_iff.1 hx), hasAll_modifyBounds_of h,
    ScalarBounds.has_syncBounds_iff (inRange_meetAll (hr x) (hr y)) (ρ x).isLt,
    has_raise_meetAll_iff, hmax]
  have hle : (ρ x).toNat ≤ min (s.getBounds x).umax (s.getBounds y).umax ↔
      (ρ x).toNat ≤ (s.getBounds y).umax := by omega
  rw [hle]
  exact and_congr_left fun _ => and_iff_right (ScalarBounds.has_raise_of_has (h x))

theorem idsFrom_intersectEqReg (s : IntervalState) (x y : Reg) :
    IdsFrom s (intersectEqReg s x y) := by
  unfold intersectEqReg
  by_cases hx : x = .zero ∨ x.isAnchor = true
  · rw [if_pos hx]
    exact IdsFrom.refl s
  · rw [if_neg hx]
    exact idsFrom_modifyBounds (IdsFrom.refl s) x fun _ => ScalarBounds.sameId_syncBounds rfl

def bumpMin (m u : Nat) : Nat := if m = u then satU64 (m + 1) else m

def bumpMax (m u : Nat) : Nat := if m = u then m - 1 else m

theorem bumpMin_le {m : Nat} (h : m ≤ n) (hne : n ≠ u) : bumpMin m u ≤ n := by
  unfold bumpMin satU64
  split_ifs <;> omega

theorem le_bumpMax {m : Nat} (h : n ≤ m) (hne : n ≠ u) : n ≤ bumpMax m u := by
  unfold bumpMax
  split_ifs <;> omega

/-- Moving the unsigned edges of a tuple off a value the word does not have
neither loses nor regains the word. -/
theorem has_bumpU64_iff {b : ScalarBounds} (hb : b.InRange) (hn : n < 2^64) (hne : n ≠ u)
    (hs : b.Has n ∨ (b.Settled ∧ u ≠ 2^63)) :
    ((b.meetU64 (bumpMin b.umin u) (bumpMax b.umax u)).syncBounds).Has n ↔ b.Has n := by
  have hlo : bumpMin b.umin u < 2^64 := by
    have := hb.umin
    unfold bumpMin satU64
    split_ifs <;> omega
  constructor
  · intro h
    rcases hs with hs | ⟨hs, hu⟩
    · exact hs
    · obtain ⟨hraise, hmax⟩ := (ScalarBounds.has_syncBounds_iff (hb.meetU64 hlo) hn).1 h
      obtain ⟨h1, h2, h3, _, h5, h6, h7, h8⟩ := hraise
      refine ⟨h1, h2, (Nat.max_le.1 h3).1, ?_, h5, h6, h7, h8⟩
      rcases hmax with hmax | ⟨hneg, h0, h63, _⟩
      · exact (Nat.le_min.1 hmax).1
      · -- the settled maximum is at least `2^63`, and the bump moves it by one at most
        have hroom := hs hneg h0
        simp only [ScalarBounds.meetU64, bumpMax] at h63
        split_ifs at h63 <;> omega
  · intro h
    apply ScalarBounds.has_syncBounds (hb.meetU64 hlo) hn
    exact (ScalarBounds.has_meetU64 _ _ _ _).2
      ⟨h, bumpMin_le h.umin_le hne, le_bumpMax h.le_umax hne⟩

end Chains
end ZoneVerifier.Interval
