import Mathlib.Data.Finset.Card
import Mathlib.Data.Nat.Find

/-!
# Open addressing with linear probing

A table of `cap` cells in which a key is stored at the first free cell from its
home position on, going around at the end. A search from the home position
meets the key before it meets a free cell, so a table with a free cell answers
every search, and filling the free cell the search ends at keeps this true.
-/

set_option autoImplicit false

namespace ZoneVerifier.ProbeTable

/-- Two parallel arrays; only the cells below `cap` are in use. -/
structure Table (K V : Type) where
  cap : Nat
  keys : Nat → K
  vals : Nat → V

variable {K V : Type}

/-- The cells from `j` on up to the first at which `stop` holds. A search that
has passed every cell goes around for ever, so the cell count is enough fuel. -/
def probe (t : Table K V) (step : Nat → Nat) (stop : K → Bool) : Nat → Nat → Option Nat
  | 0, _ => none
  | fuel + 1, j => if stop (t.keys j) then some j else probe t step stop fuel (step j)

def Table.put (t : Table K V) (j : Nat) (k : K) (v : V) : Table K V :=
  { t with keys := fun i => if i = j then k else t.keys i
           vals := fun i => if i = j then v else t.vals i }

def Cyclic (cap : Nat) (step : Nat → Nat) : Prop := ∀ j, j < cap → step j = (j + 1) % cap

variable {n j cap p cap' : Nat}

section Probe
variable {t : Table K V} {step : Nat → Nat} {stop : K → Bool}

theorem probe_eq_some (hstep : Cyclic t.cap step) {fuel : Nat} (hj : j < t.cap)
    (hn : n < fuel) (hstop : stop (t.keys ((j + n) % t.cap)) = true)
    (hbefore : ∀ m, m < n → stop (t.keys ((j + m) % t.cap)) = false) :
    probe t step stop fuel j = some ((j + n) % t.cap) := by
  induction n generalizing fuel j with
  | zero =>
    obtain ⟨fuel, rfl⟩ := Nat.exists_eq_add_of_le' hn
    have hhere : (j + 0) % t.cap = j := Nat.mod_eq_of_lt hj
    rw [hhere] at hstop
    rw [hhere]
    exact if_pos hstop
  | succ n ih =>
    obtain ⟨fuel, rfl⟩ := Nat.exists_eq_add_of_le' (Nat.lt_of_le_of_lt (Nat.zero_le _) hn)
    have hfirst := hbefore 0 (Nat.succ_pos n)
    rw [Nat.add_zero, Nat.mod_eq_of_lt hj] at hfirst
    have hshift : ∀ m, ((j + 1) % t.cap + m) % t.cap = (j + (m + 1)) % t.cap := by
      intro m
      rw [Nat.mod_add_mod]
      congr 1
      omega
    rw [probe, hfirst, if_neg Bool.false_ne_true, hstep j hj,
      ih (Nat.mod_lt _ (by omega)) (by omega) (by rwa [hshift]) ?_, hshift]
    intro m hm
    rw [hshift]
    exact hbefore (m + 1) (by omega)

theorem exists_offset (hj : j < cap) (hp : p < cap) :
    ∃ n, n < cap ∧ (j + n) % cap = p := by
  by_cases h : j ≤ p
  · exact ⟨p - j, by omega, by rw [Nat.add_sub_cancel' h, Nat.mod_eq_of_lt hp]⟩
  · refine ⟨p + cap - j, by omega, ?_⟩
    have he : j + (p + cap - j) = p + cap := by omega
    rw [he, Nat.add_mod_right, Nat.mod_eq_of_lt hp]

theorem exists_probe {s : K → Bool} (hstep : Cyclic t.cap step) (hj : j < t.cap)
    (hp : p < t.cap) (hstop : s (t.keys p) = true) :
    ∃ n, n < t.cap ∧ probe t step s t.cap j = some ((j + n) % t.cap) ∧
      s (t.keys ((j + n) % t.cap)) = true ∧
      ∀ m, m < n → s (t.keys ((j + m) % t.cap)) = false := by
  have hex : ∃ n, s (t.keys ((j + n) % t.cap)) = true := by
    obtain ⟨n, -, hn⟩ := exists_offset hj hp
    exact ⟨n, by rw [hn, hstop]⟩
  have hlt : Nat.find hex < t.cap := by
    obtain ⟨n, hn, he⟩ := exists_offset hj hp
    exact Nat.lt_of_le_of_lt (Nat.find_min' hex (by rw [he, hstop])) hn
  have hbefore : ∀ m, m < Nat.find hex → s (t.keys ((j + m) % t.cap)) = false :=
    fun m hm => Bool.eq_false_iff.2 (Nat.find_min hex hm)
  exact ⟨Nat.find hex, hlt, probe_eq_some hstep hj hlt (Nat.find_spec hex) hbefore,
    Nat.find_spec hex, hbefore⟩

end Probe

section Put
variable {t : Table K V} {k : K} {v : V} {i j : Nat}

theorem keys_put_of_ne (hi : i ≠ j) : (t.put j k v).keys i = t.keys i := if_neg hi

theorem keys_put_self : (t.put j k v).keys j = k := if_pos rfl

theorem keys_put_ne_empty {empty : K} (hk : k ≠ empty) (hi : t.keys i ≠ empty) :
    (t.put j k v).keys i ≠ empty := by
  by_cases hij : i = j
  · rw [hij, keys_put_self]
    exact hk
  · rwa [keys_put_of_ne hij]

end Put

/-- The table holds the finite map `f`, each key where a search finds it. -/
structure Holds (empty : K) (home : K → Nat) (t : Table K V) (f : K → Option V) : Prop where
  home_lt : ∀ k, home k < t.cap
  unique : ∀ i j, i < t.cap → j < t.cap → t.keys i ≠ empty → t.keys i = t.keys j → i = j
  reach : ∀ j, j < t.cap → t.keys j ≠ empty → ∃ n, (home (t.keys j) + n) % t.cap = j ∧
    ∀ m, m < n → t.keys ((home (t.keys j) + m) % t.cap) ≠ empty
  stored : ∀ k v, k ≠ empty → (f k = some v ↔ ∃ j, j < t.cap ∧ t.keys j = k ∧ t.vals j = v)

/-- A free cell the search of an absent key ends at, with a full path before it. -/
structure FreeFor (t : Table K V) (empty : K) (home : K → Nat) (k : K) (j : Nat) : Prop where
  lt : j < t.cap
  free : t.keys j = empty
  path : ∃ n, (home k + n) % t.cap = j ∧
    ∀ m, m < n → t.keys ((home k + m) % t.cap) ≠ empty

def free (cap : Nat) (empty : K) (v : V) : Table K V :=
  { cap := cap, keys := fun _ => empty, vals := fun _ => v }

theorem holds_free {empty : K} {home : K → Nat} {v : V} (hhome : ∀ k, home k < cap) :
    Holds empty home (free cap empty v) fun _ => none :=
  ⟨hhome, fun _ _ _ _ hne => absurd rfl hne, fun _ _ hne => absurd rfl hne,
    fun _ _ hk => ⟨nofun, fun ⟨_, _, he, _⟩ => absurd he.symm hk⟩⟩

theorem Holds.congr {empty : K} {home : K → Nat} {t : Table K V} {f g : K → Option V}
    (h : Holds empty home t f) (hfg : ∀ k, k ≠ empty → f k = g k) : Holds empty home t g :=
  ⟨h.home_lt, h.unique, h.reach, fun k v hk => hfg k hk ▸ h.stored k v hk⟩

section Contents
variable [DecidableEq K] (empty : K) (home : K → Nat)

def occupied (t : Table K V) : Finset Nat := (Finset.range t.cap).filter (t.keys · ≠ empty)

/-- The searches of the table end at a free cell or at the key. -/
def atKey (k : K) (x : K) : Bool := decide (x = empty) || decide (x = k)

def atFree (x : K) : Bool := decide (x = empty)

variable {empty home} {t : Table K V} {f : K → Option V} {step : Nat → Nat}

theorem mem_occupied : j ∈ occupied empty t ↔ j < t.cap ∧ t.keys j ≠ empty := by
  rw [occupied, Finset.mem_filter, Finset.mem_range]

theorem exists_free (h : (occupied empty t).card < t.cap) : ∃ p, p < t.cap ∧ t.keys p = empty := by
  by_contra hne
  have hall : occupied empty t = Finset.range t.cap := by
    refine Finset.filter_true_of_mem fun j hj he => hne ⟨j, Finset.mem_range.1 hj, he⟩
  rw [hall, Finset.card_range] at h
  exact Nat.lt_irrefl _ h

section
variable (h : Holds empty home t f) (hstep : Cyclic t.cap step)
include h hstep

theorem Holds.probe_stored {k : K} {v : V}
    (hk : k ≠ empty) (hf : f k = some v) :
    ∃ j, probe t step (atKey empty k) t.cap (home k) = some j ∧ t.keys j = k ∧ t.vals j = v := by
  obtain ⟨p, hp, hkey, hval⟩ := (h.stored k v hk).1 hf
  obtain ⟨n, hn, hprobe, hstop, hbefore⟩ := exists_probe (s := atKey empty k) hstep
    (h.home_lt k) hp (by simp [atKey, hkey])
  refine ⟨_, hprobe, ?_⟩
  have hcell : t.keys ((home k + n) % t.cap) = k := by
    -- a free cell before the key would lie on the path to it
    obtain ⟨m, hm, hpath⟩ := h.reach p hp (hkey ▸ hk)
    rw [hkey] at hm hpath
    simp only [atKey, Bool.or_eq_true, decide_eq_true_eq] at hstop
    refine hstop.resolve_left fun he => ?_
    rcases Nat.lt_trichotomy n m with hlt | rfl | hgt
    · exact hpath n hlt he
    · exact hk (hkey ▸ hm ▸ he)
    · have hno := hbefore m hgt
      rw [hm, hkey] at hno
      simp [atKey] at hno
  have hne : t.keys ((home k + n) % t.cap) ≠ empty := by rwa [hcell]
  have heq : (home k + n) % t.cap = p :=
    h.unique _ p (Nat.mod_lt _ (Nat.lt_of_le_of_lt (Nat.zero_le _) hp)) hp hne
      (hcell.trans hkey.symm)
  exact ⟨hcell, by rw [heq, hval]⟩

theorem Holds.probe_to_free {s : K → Bool} (k : K) (hempty : s empty = true)
    (hs : ∀ i < t.cap, s (t.keys i) = true → t.keys i = empty)
    (hroom : (occupied empty t).card < t.cap) :
    ∃ j, probe t step s t.cap (home k) = some j ∧ FreeFor t empty home k j := by
  obtain ⟨p, hp, hfree⟩ := exists_free hroom
  obtain ⟨n, hn, hprobe, hstop, hbefore⟩ := exists_probe (s := s) hstep (h.home_lt k) hp
    (by rwa [hfree])
  have hlt : (home k + n) % t.cap < t.cap := Nat.mod_lt _ (Nat.lt_of_le_of_lt (Nat.zero_le _) hp)
  refine ⟨_, hprobe, hlt, hs _ hlt hstop, n, rfl, fun m hm he => ?_⟩
  have hno := hbefore m hm
  rw [he, hempty] at hno
  cases hno

theorem Holds.probe_absent {k : K}
    (hk : k ≠ empty) (hf : f k = none) (hroom : (occupied empty t).card < t.cap) :
    ∃ j, probe t step (atKey empty k) t.cap (home k) = some j ∧ FreeFor t empty home k j := by
  refine h.probe_to_free hstep k (by simp [atKey]) (fun i hi hstop => ?_) hroom
  simp only [atKey, Bool.or_eq_true, decide_eq_true_eq] at hstop
  refine hstop.resolve_right fun he => ?_
  have hsome := (h.stored k _ hk).2 ⟨_, hi, he, rfl⟩
  rw [hf] at hsome
  cases hsome

theorem Holds.probe_free (k : K)
    (hroom : (occupied empty t).card < t.cap) :
    ∃ j, probe t step (atFree empty) t.cap (home k) = some j ∧ FreeFor t empty home k j :=
  h.probe_to_free hstep k (by simp [atFree]) (fun i _ hstop => by simpa [atFree] using hstop) hroom

end

section Put
variable {k : K} {v : V} {j : Nat}

theorem Holds.put (h : Holds empty home t f) (hk : k ≠ empty) (hf : f k = none)
    (hj : FreeFor t empty home k j) :
    Holds empty home (t.put j k v) (Function.update f k (some v)) := by
  have habsent : ∀ i, i < t.cap → t.keys i ≠ k := by
    intro i hi he
    have hsome := (h.stored k _ hk).2 ⟨i, hi, he, rfl⟩
    rw [hf] at hsome
    cases hsome
  refine ⟨h.home_lt, fun i i' hi hi' hne he => ?_, fun i hi hne => ?_, fun k' v' hk' => ?_⟩
  · by_cases hij : i = j
    · by_cases hij' : i' = j
      · rw [hij, hij']
      · rw [hij, keys_put_self, keys_put_of_ne hij'] at he
        exact absurd he.symm (habsent i' hi')
    · by_cases hij' : i' = j
      · rw [hij', keys_put_self, keys_put_of_ne hij] at he
        exact absurd he (habsent i hi)
      · rw [keys_put_of_ne hij, keys_put_of_ne hij'] at he
        rw [keys_put_of_ne hij] at hne
        exact h.unique i i' hi hi' hne he
  · by_cases hij : i = j
    · obtain ⟨n, hn, hpath⟩ := hj.path
      rw [hij, keys_put_self]
      exact ⟨n, hn, fun m hm => keys_put_ne_empty hk (hpath m hm)⟩
    · rw [keys_put_of_ne hij] at hne ⊢
      obtain ⟨n, hn, hpath⟩ := h.reach i hi hne
      exact ⟨n, hn, fun m hm => keys_put_ne_empty hk (hpath m hm)⟩
  · by_cases hkk : k' = k
    · subst hkk
      rw [Function.update_self]
      constructor
      · intro hv
        exact ⟨j, hj.lt, keys_put_self, by rw [← Option.some.inj hv]; exact if_pos rfl⟩
      · rintro ⟨i, hi, hkey, hval⟩
        have hij : i = j := by
          by_contra hne
          rw [keys_put_of_ne hne] at hkey
          exact habsent i hi hkey
        subst hij
        rw [← hval]
        exact congrArg some (if_pos rfl).symm
    · rw [Function.update_of_ne hkk, h.stored k' v' hk']
      constructor
      · rintro ⟨i, hi, hkey, hval⟩
        have hij : i ≠ j := fun he => hk' (by rw [← hkey, he, hj.free])
        exact ⟨i, hi, (keys_put_of_ne hij).trans hkey, (if_neg hij).trans hval⟩
      · rintro ⟨i, hi, hkey, hval⟩
        have hij : i ≠ j := by
          rintro rfl
          exact hkk (hkey.symm.trans keys_put_self)
        exact ⟨i, hi, (keys_put_of_ne hij).symm.trans hkey, (if_neg hij).symm.trans hval⟩

theorem card_occupied_put (hk : k ≠ empty) (hj : FreeFor t empty home k j) :
    (occupied empty (t.put j k v)).card = (occupied empty t).card + 1 := by
  have hinsert : occupied empty (t.put j k v) = insert j (occupied empty t) := by
    ext i
    rw [Finset.mem_insert, mem_occupied, mem_occupied]
    by_cases hij : i = j
    · subst hij
      simp [keys_put_self, hk, show i < (t.put i k v).cap from hj.lt]
    · rw [keys_put_of_ne hij]
      simp only [hij, false_or]
      rfl
  rw [hinsert, Finset.card_insert_of_notMem]
  rw [mem_occupied]
  exact fun h => h.2 hj.free

end Put

theorem card_occupied_free {v : V} : (occupied empty (free cap empty v)).card = 0 := by
  rw [Finset.card_eq_zero, occupied]
  exact Finset.filter_false_of_mem fun _ _ hne => hne rfl

def insertFree (empty : K) (home : K → Nat) (step : Nat → Nat) (t : Table K V) (k : K) (v : V) :
    Option (Table K V) :=
  (probe t step (atFree empty) t.cap (home k)).map fun j => t.put j k v

theorem Holds.insertFree (h : Holds empty home t f) (hstep : Cyclic t.cap step) {k : K} {v : V}
    (hk : k ≠ empty) (hf : f k = none) (hroom : (occupied empty t).card < t.cap) :
    ∃ t', insertFree empty home step t k v = some t' ∧ t'.cap = t.cap ∧
      Holds empty home t' (Function.update f k (some v)) ∧
      (occupied empty t').card = (occupied empty t).card + 1 := by
  obtain ⟨j, hprobe, hj⟩ := h.probe_free hstep k hroom
  refine ⟨t.put j k v, ?_, rfl, h.put hk hf hj, card_occupied_put hk hj⟩
  rw [ProbeTable.insertFree, hprobe, Option.map_some]

def rehash (empty : K) (home : K → Nat) (step : Nat → Nat) (t : Table K V) (n : Nat)
    (new : Table K V) : Option (Table K V) :=
  (List.range n).foldlM (fun new i => if t.keys i = empty then some new
    else insertFree empty home step new (t.keys i) (t.vals i)) new

theorem rehash_succ (home : K → Nat) (n : Nat) (new : Table K V) :
    rehash empty home step t (n + 1) new = (rehash empty home step t n new).bind fun new =>
      if t.keys n = empty then some new
      else insertFree empty home step new (t.keys n) (t.vals n) := by
  rw [rehash, List.range_succ, List.foldlM_append]
  refine congrArg (Option.bind _) (funext fun new => ?_)
  rw [List.foldlM_cons]
  exact bind_pure _

/-- The keys of the first `n` cells, with their values. -/
def Below (t : Table K V) (n : Nat) (f : K → Option V) (empty : K) : Prop :=
  ∀ k v, k ≠ empty → (f k = some v ↔ ∃ j, j < n ∧ t.keys j = k ∧ t.vals j = v)

theorem Holds.rehash_below {home' : K → Nat} (h : Holds empty home t f)
    (hhome : ∀ k, home' k < cap') (hstep : Cyclic cap' step) (hcap : t.cap < cap') (v₀ : V)
    (hn : n ≤ t.cap) :
    ∃ new g, rehash empty home' step t n (free cap' empty v₀) = some new ∧ new.cap = cap' ∧
      Holds empty home' new g ∧ Below t n g empty ∧
      (occupied empty new).card = ((Finset.range n).filter (t.keys · ≠ empty)).card := by
  induction n with
  | zero =>
    exact ⟨_, _, rfl, rfl, holds_free hhome, fun _ _ _ => ⟨nofun, fun ⟨_, hj, _⟩ => nomatch hj⟩,
      card_occupied_free⟩
  | succ n ih =>
    obtain ⟨new, g, hnew, rfl, hg, hbelow, hcard⟩ := ih (Nat.le_of_succ_le hn)
    rw [rehash_succ, hnew, Option.bind_some, Finset.range_add_one, Finset.filter_insert]
    by_cases he : t.keys n = empty
    · refine ⟨new, g, if_pos he, rfl, hg, fun k v hk => ?_, by rw [if_neg (not_not.2 he), hcard]⟩
      rw [hbelow k v hk, Nat.exists_lt_succ_right, or_iff_left fun hn => hk (hn.1.symm.trans he)]
    · have hnone : g (t.keys n) = none := by
        by_contra hsome
        obtain ⟨v, hv⟩ := Option.ne_none_iff_exists'.1 hsome
        obtain ⟨j, hj, hkey, -⟩ := (hbelow _ v he).1 hv
        have hjn := h.unique n j (by omega) (by omega) he hkey.symm
        omega
      have hroom : (occupied empty new).card < new.cap := by
        have hle := Finset.card_filter_le (Finset.range n) (t.keys · ≠ empty)
        rw [Finset.card_range] at hle
        omega
      obtain ⟨new', hins, hcap', hg', hcard'⟩ := hg.insertFree hstep (v := t.vals n) he hnone hroom
      refine ⟨new', _, by rw [if_neg he, hins], hcap', hg', fun k v hk => ?_, ?_⟩
      · by_cases hkn : k = t.keys n
        · subst hkn
          rw [Function.update_self]
          constructor
          · intro hv
            exact ⟨n, Nat.lt_succ_self n, rfl, Option.some.inj hv⟩
          · rintro ⟨j, hj, hkey, hval⟩
            have hjn := h.unique n j (by omega) (by omega) he hkey.symm
            rw [hjn, hval]
        · rw [Function.update_of_ne hkn, hbelow k v hk, Nat.exists_lt_succ_right,
            or_iff_left fun hn => hkn hn.1.symm]
      · rw [hcard', hcard, if_pos he, Finset.card_insert_of_notMem]
        simp

theorem Holds.rehash {home' : K → Nat} (h : Holds empty home t f)
    (hhome : ∀ k, home' k < cap') (hstep : Cyclic cap' step) (hcap : t.cap < cap') (v₀ : V) :
    ∃ new, rehash empty home' step t t.cap (free cap' empty v₀) = some new ∧ new.cap = cap' ∧
      Holds empty home' new f ∧ (occupied empty new).card = (occupied empty t).card := by
  obtain ⟨new, g, hnew, hnewcap, hg, hbelow, hcard⟩ :=
    h.rehash_below hhome hstep hcap v₀ le_rfl
  refine ⟨new, hnew, hnewcap, hg.congr fun k hk => Option.ext fun v => ?_, hcard⟩
  rw [hbelow k v hk, h.stored k v hk]

end Contents
end ZoneVerifier.ProbeTable
