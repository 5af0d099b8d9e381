import ZoneVerifier.StackOps

/-!
# Which entry a byte has after a store

Every store leaves a byte it covers with the entry it writes. A byte outside
keeps its entry or is clobbered; when the store is not aligned, a spill whose
base byte lies in the same slot is clobbered as a whole.
-/

set_option autoImplicit false

namespace ZoneVerifier.StackOps
open Ast Stack
open StackState (slotBase)

variable {s : StackState} {o q : Int} {n : Nat} (s : StackState)

theorem find_insert (o q : Int) (sp : SpilledReg) :
    (s.insert o sp).slots.find q = if q = o then some sp else s.slots.find q := rfl

theorem find_writeEntries (o : Int) (n : Nat) (entry : Nat → SpilledReg) (q : Int) :
    (writeEntries s o n entry).slots.find q =
      if o ≤ q ∧ q < o + n then some (entry (q - o).toNat) else s.slots.find q := by
  induction n with
  | zero => rw [if_neg (by push_cast; omega)]; rfl
  | succ n ih =>
    unfold writeEntries at ih ⊢
    rw [List.range_succ, List.foldl_append, List.foldl_cons, List.foldl_nil, find_insert, ih]
    by_cases hq : q = o + n
    · rw [if_pos hq, if_pos (by push_cast; omega), show (q - o).toNat = n by omega]
    · rw [if_neg hq]
      by_cases hin : o ≤ q ∧ q < o + n
      · rw [if_pos hin, if_pos (by push_cast; omega)]
      · rw [if_neg hin, if_neg (by push_cast; omega)]

theorem slotBase_mod (q : Int) : slotBase q % 8 = 0 := by
  unfold slotBase
  omega

theorem slotBase_eq_iff {b : Int} (hb : b % 8 = 0) :
    slotBase q = b ↔ b ≤ q ∧ q < b + 8 := by
  unfold slotBase
  omega

theorem getSlotKind_isSome (q : Int) :
    (s.getSlotKind q).isSome = (s.slots.find q).isSome := by
  unfold StackState.getSlotKind
  rw [Option.isSome_map]

theorem find_scrubByte (b q : Int) :
    (s.scrubByte b).slots.find q =
      if q = b ∧ (s.slots.find q).isSome then some SpilledReg.misc else s.slots.find q := by
  unfold StackState.scrubByte
  rw [getSlotKind_isSome]
  by_cases hb : (s.slots.find b).isSome = true
  · rw [if_pos hb, find_insert]
    by_cases hq : q = b
    · rw [if_pos hq, if_pos ⟨hq, hq ▸ hb⟩]
    · rw [if_neg hq, if_neg fun h => hq h.1]
  · have hq : ¬ (q = b ∧ (s.slots.find q).isSome = true) := fun h => hb (h.1 ▸ h.2)
    rw [if_neg hb, if_neg hq]

theorem find_scrubBytes (bs : List Int) (s : StackState) (q : Int) :
    (bs.foldl StackState.scrubByte s).slots.find q =
      if q ∈ bs ∧ (s.slots.find q).isSome then some SpilledReg.misc else s.slots.find q := by
  induction bs generalizing s with
  | nil => simp
  | cons b bs ih =>
    rw [List.foldl_cons, ih, find_scrubByte]
    by_cases hq : q = b
    · subst hq
      by_cases hs : (s.slots.find q).isSome = true
      · simp [hs]
      · simp [hs]
    · simp [hq]

theorem mem_slotBytes {b : Int} (hb : b % 8 = 0) :
    q ∈ (List.range 8).map (fun i : Nat => b + (i : Int)) ↔ slotBase q = b := by
  rw [slotBase_eq_iff hb, List.mem_map]
  constructor
  · rintro ⟨i, hi, rfl⟩
    rw [List.mem_range] at hi
    omega
  · intro h
    exact ⟨(q - b).toNat, List.mem_range.2 (by omega), by omega⟩

theorem find_scrubSlot {b : Int} (hb : b % 8 = 0) (s : StackState) (q : Int) :
    (s.scrubSlot b).slots.find q =
      if slotBase q = b ∧ s.getSlotKind b = some .spill ∧ (s.slots.find q).isSome then
        some SpilledReg.misc
      else s.slots.find q := by
  unfold StackState.scrubSlot
  by_cases hk : s.getSlotKind b = some .spill
  · rw [if_pos hk, find_scrubBytes]
    simp only [mem_slotBytes hb, hk, true_and]
  · rw [if_neg hk]
    simp [hk]

theorem getSlotKind_scrubSlot {b : Int} (hb : b % 8 = 0) (s : StackState) (q : Int)
    (hq : q % 8 = 0) : (s.scrubSlot b).getSlotKind q = some .spill ↔
      q ≠ b ∧ s.getSlotKind q = some .spill := by
  have hbase : slotBase q = q := by unfold slotBase; omega
  unfold StackState.getSlotKind
  rw [find_scrubSlot hb, hbase]
  by_cases hqb : q = b
  · subst hqb
    by_cases hk : s.getSlotKind q = some .spill
    · have hs : (s.slots.find q).isSome = true := by
        rw [← getSlotKind_isSome, hk]
        rfl
      rw [if_pos ⟨rfl, hk, hs⟩]
      exact iff_of_false (by decide) fun h => h.1 rfl
    · rw [if_neg fun h => hk h.2.1]
      exact iff_of_false hk fun h => h.1 rfl
  · rw [if_neg fun h => hqb h.1]
    exact (and_iff_right hqb).symm

theorem find_scrubSlots (bs : List Int) (hbs : ∀ b ∈ bs, b % 8 = 0) (s : StackState) (q : Int) :
    (bs.foldl StackState.scrubSlot s).slots.find q =
      if slotBase q ∈ bs ∧ s.getSlotKind (slotBase q) = some .spill ∧
          (s.slots.find q).isSome then some SpilledReg.misc
      else s.slots.find q := by
  induction bs generalizing s with
  | nil => simp
  | cons b bs ih =>
    have hb := hbs b List.mem_cons_self
    rw [List.foldl_cons, ih fun c hc => hbs c (List.mem_cons_of_mem b hc), find_scrubSlot hb]
    simp only [getSlotKind_scrubSlot hb _ _ (slotBase_mod q)]
    by_cases hq : slotBase q = b
    · by_cases hk : s.getSlotKind b = some .spill
      · by_cases hs : (s.slots.find q).isSome = true
        · simp [hq, hk, hs]
        · simp [hq, hk, hs]
      · simp [hq, hk]
    · simp [hq]

/-- The bytes a clobbering store at `[o, o + n)` clobbers outside its range. -/
def Scrubbed (o : Int) (n : Nat) (q : Int) : Prop :=
  slotBase o ≤ slotBase q ∧
    slotBase q ≤ slotBase (o + n - 1) ∧
    s.getSlotKind (slotBase q) = some .spill ∧ (s.slots.find q).isSome = true

instance (s : StackState) (o : Int) (n : Nat) (q : Int) : Decidable (Scrubbed s o n q) :=
  inferInstanceAs (Decidable (_ ∧ _ ∧ _ ∧ _))

theorem find_scrub (o : Int) (n : Nat) (q : Int) :
    (s.scrubSpilledSlotsForWrite o n).slots.find q =
      if Scrubbed s o n q then some SpilledReg.misc else s.slots.find q := by
  unfold StackState.scrubSpilledSlotsForWrite Scrubbed
  have hmem : slotBase q ∈ (List.range
      ((slotBase (o + n - 1) - slotBase o) / 8 + 1).toNat).map
        (fun i : Nat => slotBase o + 8 * (i : Int)) ↔
      slotBase o ≤ slotBase q ∧
        slotBase q ≤ slotBase (o + n - 1) := by
    have h1 := slotBase_mod o
    have h2 := slotBase_mod q
    rw [List.mem_map]
    constructor
    · rintro ⟨i, hi, h⟩
      rw [List.mem_range] at hi
      omega
    · intro h
      refine ⟨((slotBase q - slotBase o) / 8).toNat, ?_, ?_⟩
      · rw [List.mem_range]
        omega
      · omega
  rw [find_scrubSlots]
  · simp only [hmem, and_assoc]
    congr
  · intro b hb
    obtain ⟨i, _, rfl⟩ := List.mem_map.1 hb
    have h1 := slotBase_mod o
    omega

theorem find_scrubRest (size : MemSize) (s : StackState) (b q : Int) :
    (scrubRest size s b).slots.find q =
      if q = b ∧ (s.slots.find q).isSome ∧ s.getSlotKind q ≠ some .zero then
        some (plainEntry size .misc)
      else s.slots.find q := by
  have hsome := getSlotKind_isSome s b
  unfold scrubRest
  by_cases hq : q = b
  · subst hq
    cases hk : s.getSlotKind q with
    | none =>
      rw [hk] at hsome
      simp [← hsome]
    | some kind =>
      rw [hk] at hsome
      by_cases hz : kind = .zero
      · simp [hz]
      · simp [hz, ← hsome, find_insert]
  · rw [if_neg fun h => hq h.1]
    split
    · split_ifs
      · rfl
      · rw [find_insert, if_neg hq]
    · rfl

theorem find_scrubRests (bs : List Int) (size : MemSize) (s : StackState) (q : Int) :
    (bs.foldl (scrubRest size) s).slots.find q =
      if q ∈ bs ∧ (s.slots.find q).isSome ∧ s.getSlotKind q ≠ some .zero then
        some (plainEntry size .misc)
      else s.slots.find q := by
  induction bs generalizing s with
  | nil => simp
  | cons b bs ih =>
    have hkind : (scrubRest size s b).getSlotKind q = ((scrubRest size s b).slots.find q).map (·.kind) :=
      rfl
    rw [List.foldl_cons, ih]
    simp only [hkind, find_scrubRest]
    by_cases hq : q = b
    · by_cases hr : (s.slots.find q).isSome = true ∧ s.getSlotKind q ≠ some .zero
      · simp [hq ▸ hr.1, hq ▸ hr.2, hq]
      · simp only [hr, and_false, if_false]
        exact if_neg fun h => hr ⟨h.2.1, h.2.2⟩
    · simp only [hq, false_and, if_false, List.mem_cons, false_or]
      rfl

theorem find_scrubRemainder (o : Int) (size : MemSize) (q : Int) :
    (scrubRemainder s o size).slots.find q =
      if (o + size.bytes ≤ q ∧ q < o + 8) ∧ (s.slots.find q).isSome ∧
          s.getSlotKind q ≠ some .zero then some (plainEntry size .misc)
      else s.slots.find q := by
  have hle : size.bytes ≤ 8 := by cases size <;> decide
  unfold scrubRemainder
  have hmem : q ∈ (List.range (8 - size.bytes)).map
      (fun i : Nat => o + (size.bytes : Int) + (i : Int)) ↔ o + size.bytes ≤ q ∧ q < o + 8 := by
    rw [List.mem_map]
    constructor
    · rintro ⟨i, hi, rfl⟩
      rw [List.mem_range] at hi
      omega
    · intro h
      exact ⟨(q - o - size.bytes).toNat, List.mem_range.2 (by omega), by omega⟩
  rw [find_scrubRests]
  simp only [hmem]

structure Stored (s s' : StackState) (o : Int) (n : Nat) (entry : Nat → SpilledReg) : Prop where
  inside : ∀ q, o ≤ q → q < o + n → s'.slots.find q = some (entry (q - o).toNat)
  outside : ∀ q, ¬ (o ≤ q ∧ q < o + n) → s'.slots.find q = s.slots.find q ∨
    ((s.slots.find q).isSome = true ∧ ∃ size, s'.slots.find q = some (plainEntry size .misc))
  scrubbed : ∀ q, ¬ (o ≤ q ∧ q < o + n) → o % 8 ≠ 0 →
    slotBase q = slotBase o →
    s.getSlotKind (slotBase o) = some .spill → (s.slots.find q).isSome = true →
    s'.slots.find q = some (plainEntry .u64 .misc)

theorem stored_clobber (o : Int) (n : Nat) (hn : 0 < n)
    (entry : Nat → SpilledReg) :
    Stored s (writeEntries (s.scrubSpilledSlotsForWrite o n) o n entry) o n entry := by
  refine ⟨fun q h1 h2 => ?_, fun q hq => ?_, fun q hq _ hbase hk hs => ?_⟩
  · rw [find_writeEntries, if_pos ⟨h1, h2⟩]
  · rw [find_writeEntries, if_neg hq, find_scrub]
    by_cases hsc : Scrubbed s o n q
    · rw [if_pos hsc]
      exact Or.inr ⟨hsc.2.2.2, .u64, rfl⟩
    · rw [if_neg hsc]
      exact Or.inl rfl
  · rw [find_writeEntries, if_neg hq, find_scrub, if_pos]
    · rfl
    · refine ⟨by omega, ?_, hbase ▸ hk, hs⟩
      rw [hbase]
      unfold slotBase
      omega

theorem stored_aligned (o : Int) (size : MemSize) (ho : o % 8 = 0)
    (first : SpilledReg) (kind : StackSlotKind) :
    Stored s
      (if size.bytes < 8 then scrubRemainder (spillBytes s o size first kind) o size
        else spillBytes s o size first kind) o size.bytes
      (fun i => if i = 0 then first else plainEntry size kind) := by
  have hinside : ∀ q, o ≤ q → q < o + size.bytes → (spillBytes s o size first kind).slots.find q =
      some (if (q - o).toNat = 0 then first else plainEntry size kind) := by
    intro q h1 h2
    unfold spillBytes
    rw [find_writeEntries, if_pos ⟨h1, h2⟩]
  have houtside : ∀ q, ¬ (o ≤ q ∧ q < o + size.bytes) →
      (spillBytes s o size first kind).slots.find q = s.slots.find q := by
    intro q hq
    unfold spillBytes
    rw [find_writeEntries, if_neg hq]
  by_cases hlt : size.bytes < 8
  · rw [if_pos hlt]
    refine ⟨fun q h1 h2 => ?_, fun q hq => ?_, fun q _ hne => absurd ho hne⟩
    · rw [find_scrubRemainder, if_neg (by omega), hinside q h1 h2]
    · rw [find_scrubRemainder, houtside q hq]
      split_ifs with hr
      · exact Or.inr ⟨hr.2.1, size, rfl⟩
      · exact Or.inl rfl
  · rw [if_neg hlt]
    exact ⟨hinside, fun q hq => Or.inl (houtside q hq), fun q _ hne => absurd ho hne⟩

end ZoneVerifier.StackOps
