import Mathlib.Data.Nat.Bitwise
import ZoneVerifier.CanonicalForm
import ZoneVerifier.ProbeTable

/-!
# The C reference of the canonical hash

`c-ref/canonical_hash.c` walks the expressions with two open-addressed tables:
the renamer, which doubles when half full, and the map from slot offsets to array
positions. Its walk is the one of `encode` with these tables, the renamer numbers
like the Rust one and the slot table answers like `slot_index`, so both sides hash
the same bytes. Allocations succeed; a probe that goes around for ever is `none`.
-/

set_option autoImplicit false

namespace ZoneVerifier.CanonicalHashRef
open ByteCode FiniteMap RankedTree RankedTree.Rose FirstOccurrence ProbeTable CanonicalHash Fallible

/-- `UINT32_MAX`, the key of a free cell. -/
def renamerEmpty : UInt32 := 0xffffffff

/-- Knuth multiplicative hash, low bits. -/
def renamerSlot (cap : Nat) (key : UInt32) : Nat := (key * 2654435761).toNat &&& (cap - 1)

/-- `(j + 1) & (cap - 1)`. -/
def advance (cap j : Nat) : Nat := (j + 1) &&& (cap - 1)

structure Renamer where
  table : Table UInt32 UInt32
  used : Nat
  next : UInt32

-- the values of free cells are not initialised and never read
def renamerInit : Renamer := { table := free 16 renamerEmpty 0, used := 0, next := 0 }

def renamerGrow (r : Renamer) : Option Renamer :=
  let newCap := r.table.cap * 2
  (rehash renamerEmpty (renamerSlot newCap) (advance newCap) r.table r.table.cap
    (free newCap renamerEmpty 0)).map fun table => { r with table := table }

/-- Growth comes first, also for a variable that is already known. -/
def ensureRoom (r : Renamer) : Option Renamer :=
  if r.used * 2 ≥ r.table.cap then renamerGrow r else some r

def renamerIntern (r : Renamer) (exprId : UInt32) : Option (UInt32 × Renamer) := do
  let r ← ensureRoom r
  let j ← probe r.table (advance r.table.cap) (atKey renamerEmpty exprId) r.table.cap
    (renamerSlot r.table.cap exprId)
  if r.table.keys j = renamerEmpty then
    some (r.next, { table := r.table.put j exprId r.next, used := r.used + 1, next := r.next + 1 })
  else some (r.table.vals j, r)

/-- The renamer as `encode` uses it: the number `UINT32_MAX` stands for a
failed allocation. -/
def internChecked (r : Renamer) (exprId : UInt32) : Option (UInt32 × Renamer) := do
  let (idx, r) ← renamerIntern r exprId
  if idx = renamerEmpty then none else some (idx, r)

/-- `while (cap < bound) cap *= 2`. -/
def roundUp : Nat → Nat → Nat → Nat
  | 0, cap, _ => cap
  | fuel + 1, cap, bound => if cap < bound then roundUp fuel (cap * 2) bound else cap

def slotTableCap (len : Nat) : Nat := roundUp (len * 2 + 1) 16 (len * 2 + 1)

def slotTableFrom : List BcfExpr → UInt32 → Nat → Table UInt32 UInt32 →
    Option (Table UInt32 UInt32)
  | [], _, _, t => some t
  | e :: es, slot, i, t => do
    let t ← insertFree renamerEmpty (renamerSlot t.cap) (advance t.cap) t slot (UInt32.ofNat i)
    slotTableFrom es (slot + (1 + (vlen e).toUInt32)) (i + 1) t

def slotTableBuild (exprs : List BcfExpr) : Option (Table UInt32 UInt32) :=
  slotTableFrom exprs 0 0 (free (slotTableCap exprs.length) renamerEmpty 0)

/-- The array index of a slot offset; the inner `none` is `SIZE_MAX`. -/
def slotTableGet (t : Table UInt32 UInt32) (slot : UInt32) : Option (Option Nat) := do
  let j ← probe t (advance t.cap) (atKey renamerEmpty slot) t.cap (renamerSlot t.cap slot)
  if t.keys j = renamerEmpty then some none else some (some (t.vals j).toNat)

def exprOf (exprs : List BcfExpr) (t : Table UInt32 UInt32) (id : UInt32) : Option BcfExpr := do
  let found ← slotTableGet t id
  let i ← found
  exprs[i]?

def outbufPushU16Le (b : List UInt8) (v : UInt16) : List UInt8 :=
  b ++ [(v &&& 0xff).toUInt8, ((v >>> 8) &&& 0xff).toUInt8]

def outbufPushU32Le (b : List UInt8) (v : UInt32) : List UInt8 :=
  b ++ [(v &&& 0xff).toUInt8, ((v >>> 8) &&& 0xff).toUInt8, ((v >>> 16) &&& 0xff).toUInt8,
    ((v >>> 24) &&& 0xff).toUInt8]

/-- The static `encode`. Its loops count `i` up to the field `vlen` of one byte. -/
def refEncode (exprs : List BcfExpr) (t : Table UInt32 UInt32) :
    Nat → UInt32 → Renamer × List UInt8 → Option (Renamer × List UInt8)
  | 0, _, _ => none
  | fuel + 1, id, (r, b) => do
    let e ← exprOf exprs t id
    let args := e.args.take (vlen e).toNat
    if vlen e == 0 || !exprArgIsId e.code then
      if isVar e.code then
        let (idx, r) ← internChecked r id
        some (r, outbufPushU32Le (outbufPushU16Le (b ++ [tagVar, e.code, vlen e]) e.params) idx)
      else
        some (r, args.foldl outbufPushU32Le
          (outbufPushU16Le (b ++ [tagLeafConst, e.code, vlen e]) e.params))
    else do
      let (r, b) ← args.foldlM (fun st arg => refEncode exprs t fuel arg st) (r, b)
      some (r, outbufPushU16Le (b ++ [tagInternal, e.code, vlen e]) e.params)

def refHashInput (exprs : List BcfExpr) (fuel : Nat) (root : UInt32) : Option (List UInt8) := do
  let t ← slotTableBuild exprs
  (refEncode exprs t fuel root (renamerInit, [])).map Prod.snd

def zoviaCanonicalHash (sipHash24 : List UInt8 → UInt64) (exprs : List BcfExpr) (fuel : Nat)
    (root : UInt32) : UInt64 :=
  ((refHashInput exprs fuel root).map sipHash24).getD 0

section Walk
variable {exprs : List BcfExpr} {t : Table UInt32 UInt32}

theorem outbufPushU16Le_eq (b : List UInt8) (v : UInt16) :
    outbufPushU16Le b v = b ++ leBytes 2 v.toNat := by
  simp [outbufPushU16Le, leBytes, ← UInt8.toNat_inj, Nat.and_two_pow_sub_one_eq_mod _ 8,
    Nat.shiftRight_eq_div_pow]

theorem outbufPushU32Le_eq (b : List UInt8) (v : UInt32) :
    outbufPushU32Le b v = b ++ leBytes 4 v.toNat := by
  simp [outbufPushU32Le, leBytes, ← UInt8.toNat_inj, Nat.and_two_pow_sub_one_eq_mod _ 8,
    Nat.shiftRight_eq_div_pow, Nat.div_div_eq_div_mul]

theorem foldl_outbufPushU32Le (b : List UInt8) (args : List UInt32) :
    args.foldl outbufPushU32Le b = b ++ args.flatMap fun arg => leBytes 4 arg.toNat := by
  induction args generalizing b with
  | nil => simp
  | cons arg args ih =>
    rw [List.foldl_cons, ih, outbufPushU32Le_eq, List.flatMap_cons, List.append_assoc]

/-- Argument lists that fit the length byte are walked to their end, so the C walk
is the walk of `encode` with the tables of this file. -/
theorem refEncode_eq (hshort : ∀ e ∈ exprs, e.args.length ≤ 255) (fuel : Nat) :
    refEncode exprs t fuel = encode (exprOf exprs t) internChecked fuel := by
  induction fuel with
  | zero => rfl
  | succ fuel ih =>
    funext id ⟨r, b⟩
    rw [refEncode, encode, ih]
    cases he : exprOf exprs t id with
    | none => rfl
    | some e =>
      obtain ⟨found, -, h⟩ := Option.bind_eq_some_iff.1 he
      obtain ⟨i, -, hi⟩ := Option.bind_eq_some_iff.1 h
      have hfits := hshort e (List.mem_of_getElem? hi)
      have hlen : (vlen e).toNat = e.args.length := by
        rw [vlen, UInt8.toNat_ofNat', Nat.mod_eq_of_lt (by omega)]
      have hempty : (vlen e == 0) = e.args.isEmpty := by
        rw [Bool.eq_iff_iff, beq_iff_eq, List.isEmpty_iff_length_eq_zero, ← hlen,
          ← UInt8.toNat_inj]
        rfl
      simp only [Option.bind_eq_bind, Option.bind_some, hempty, isLeaf, hlen, List.take_length,
        foldl_outbufPushU32Le, outbufPushU32Le_eq, outbufPushU16Le_eq, header, List.append_assoc]

end Walk

section Cells
variable {cap : Nat}

theorem renamerSlot_lt (hcap : ∃ k, cap = 2 ^ k) (key : UInt32) : renamerSlot cap key < cap := by
  obtain ⟨k, rfl⟩ := hcap
  rw [renamerSlot, Nat.and_two_pow_sub_one_eq_mod]
  exact Nat.mod_lt _ (Nat.two_pow_pos k)

theorem cyclic_advance (hcap : ∃ k, cap = 2 ^ k) : Cyclic cap (advance cap) := by
  obtain ⟨k, rfl⟩ := hcap
  intro j _
  rw [advance, Nat.and_two_pow_sub_one_eq_mod]

theorem pow_roundUp (fuel bound : Nat) (hcap : ∃ k, cap = 2 ^ k) :
    ∃ k, roundUp fuel cap bound = 2 ^ k := by
  induction fuel generalizing cap with
  | zero => exact hcap
  | succ fuel ih =>
    rw [roundUp]
    split_ifs
    · obtain ⟨k, rfl⟩ := hcap
      exact ih ⟨k + 1, (pow_succ 2 k).symm⟩
    · exact hcap

theorem le_roundUp {fuel bound : Nat} (hcap : 0 < cap) (hbound : bound ≤ cap + fuel) :
    bound ≤ roundUp fuel cap bound := by
  induction fuel generalizing cap with
  | zero => exact hbound
  | succ fuel ih =>
    rw [roundUp]
    split_ifs with h
    · exact ih (by omega) (by omega)
    · omega

theorem lt_slotTableCap (len : Nat) : len < slotTableCap len := by
  have hle : len * 2 + 1 ≤ slotTableCap len := le_roundUp (by decide) (by omega)
  omega

end Cells

def numbering (seen : List UInt32) (id : UInt32) : Option UInt32 :=
  if id ∈ seen then some (UInt32.ofNat (seen.idxOf id)) else none

structure Numbers (dom : UInt32 → Prop) (r : Renamer) (seen : List UInt32) : Prop where
  nodup : seen.Nodup
  mem : ∀ id ∈ seen, dom id
  pow : ∃ k, r.table.cap = 2 ^ k
  even : 2 ∣ r.table.cap
  used : r.used = (occupied renamerEmpty r.table).card
  length : r.used = seen.length
  next : r.next = UInt32.ofNat seen.length
  load : r.used * 2 ≤ r.table.cap
  holds : Holds renamerEmpty (renamerSlot r.table.cap) r.table (numbering seen)

variable {id k : UInt32}

section Intern
variable {dom : UInt32 → Prop} {r : Renamer} {seen : List UInt32}

theorem numbers_init : Numbers dom renamerInit [] where
  nodup := List.nodup_nil
  mem := nofun
  pow := ⟨4, rfl⟩
  even := ⟨8, rfl⟩
  used := card_occupied_free.symm
  length := rfl
  next := rfl
  load := Nat.zero_le _
  holds := holds_free (renamerSlot_lt ⟨4, rfl⟩)

theorem Numbers.grow (h : Numbers dom r seen) :
    ∃ r', renamerGrow r = some r' ∧ Numbers dom r' seen ∧ r'.used * 2 < r'.table.cap := by
  have hpow : ∃ k, r.table.cap * 2 = 2 ^ k := by
    obtain ⟨k, hk⟩ := h.pow
    exact ⟨k + 1, by rw [hk, pow_succ]⟩
  have hpos : 0 < r.table.cap := Nat.lt_of_le_of_lt (Nat.zero_le _) (h.holds.home_lt 0)
  obtain ⟨table, hrehash, hcap, hholds, hcard⟩ := h.holds.rehash (renamerSlot_lt hpow)
    (cyclic_advance hpow) (by omega) 0
  have hload := h.load
  refine ⟨{ r with table := table }, ?_, ⟨h.nodup, h.mem, ?_, ?_, ?_, h.length, h.next, ?_, ?_⟩, ?_⟩
  · rw [renamerGrow, hrehash, Option.map_some]
  · exact hcap ▸ hpow
  · exact hcap ▸ Nat.dvd_mul_left 2 _
  · exact h.used.trans hcard.symm
  · show r.used * 2 ≤ table.cap
    omega
  · show Holds _ (renamerSlot table.cap) table _
    rw [hcap]
    exact hholds
  · show r.used * 2 < table.cap
    omega

theorem Numbers.ensureRoom (h : Numbers dom r seen) :
    ∃ r', ensureRoom r = some r' ∧ Numbers dom r' seen ∧ r'.used * 2 < r'.table.cap := by
  rw [CanonicalHashRef.ensureRoom]
  split_ifs with hfull
  · exact h.grow
  · exact ⟨r, rfl, h, Nat.lt_of_not_le hfull⟩

theorem numbering_note (hid : id ∉ seen) :
    numbering (note seen id) = Function.update (numbering seen) id
      (some (UInt32.ofNat seen.length)) := by
  funext k
  rw [note_of_not_mem hid]
  by_cases hk : k = id
  · subst hk
    rw [Function.update_self, numbering, if_pos (by simp), List.idxOf_append_of_notMem hid]
    simp
  · rw [Function.update_of_ne hk]
    simp only [numbering, List.mem_append, List.mem_singleton, hk, or_false]
    split_ifs with hmem
    · rw [List.idxOf_append_of_mem hmem]
    · rfl

theorem idxOf_note (hid : id ∉ seen) : (note seen id).idxOf id = seen.length := by
  rw [note_of_not_mem hid, List.idxOf_append_of_notMem hid]
  simp

theorem Numbers.put (h : Numbers dom r seen) {j : Nat} (hdom : dom id)
    (hne : id ≠ renamerEmpty) (hid : id ∉ seen) (hroom : r.used * 2 < r.table.cap)
    (hj : FreeFor r.table renamerEmpty (renamerSlot r.table.cap) id j) :
    Numbers dom { table := r.table.put j id r.next, used := r.used + 1, next := r.next + 1 }
      (note seen id) where
  nodup := nodup_note h.nodup id
  mem := fun k hk => (mem_note.1 hk).elim (h.mem k) fun he => he ▸ hdom
  pow := h.pow
  even := h.even
  used := by
    show r.used + 1 = _
    rw [card_occupied_put hne hj, h.used]
  length := by
    show r.used + 1 = _
    rw [h.length, note_of_not_mem hid, List.length_append, List.length_singleton]
  next := by
    show r.next + 1 = _
    rw [h.next, note_of_not_mem hid, List.length_append]
    simp
  load := by
    show (r.used + 1) * 2 ≤ r.table.cap
    have heven := h.even
    omega
  holds := by
    rw [numbering_note hid, ← h.next]
    exact h.holds.put hne (if_neg hid) hj

theorem Numbers.intern (h : Numbers dom r seen) (hdom : dom id)
    (hne : id ≠ renamerEmpty) :
    ∃ r', renamerIntern r id = some (UInt32.ofNat ((note seen id).idxOf id), r') ∧
      Numbers dom r' (note seen id) := by
  obtain ⟨r₁, hr₁, h₁, hroom⟩ := h.ensureRoom
  rw [renamerIntern, hr₁]
  by_cases hid : id ∈ seen
  · obtain ⟨j, hprobe, hkey, hval⟩ := h₁.holds.probe_stored (cyclic_advance h₁.pow) hne
      (if_pos hid : numbering seen id = _)
    rw [note_of_mem hid]
    refine ⟨r₁, ?_, h₁⟩
    simp only [Option.bind_eq_bind, Option.bind_some, hprobe, hkey, if_neg hne, hval]
  · have hcard : (occupied renamerEmpty r₁.table).card < r₁.table.cap := by
      rw [← h₁.used]
      omega
    obtain ⟨j, hprobe, hj⟩ := h₁.holds.probe_absent (cyclic_advance h₁.pow) hne
      (if_neg hid : numbering seen id = none) hcard
    refine ⟨_, ?_, h₁.put hdom hne hid hroom hj⟩
    simp only [Option.bind_eq_bind, Option.bind_some, hprobe, hj.free, if_true, idxOf_note hid,
      h₁.next]

end Intern

/-- The C renamer numbers every expr-id but the one of a free cell. So it never
gives the number that stands for a failure. -/
theorem renamer_internChecked {dom : UInt32 → Prop} (hdom : ∀ id, dom id → id ≠ renamerEmpty) :
    CanonicalHash.Renamer internChecked dom (Numbers dom) := by
  intro r seen id hid h
  obtain ⟨r', hintern, h'⟩ := h.intern hid (hdom id hid)
  refine ⟨r', ?_, h'⟩
  have hlt := List.idxOf_lt_length_of_mem (mem_note.2 (Or.inr rfl) : id ∈ note seen id)
  have hlen := length_le_of_nodup (List.nodup_cons.2
    ⟨fun hmem => hdom _ (h'.mem _ hmem) rfl, h'.nodup⟩ : (renamerEmpty :: note seen id).Nodup)
  rw [List.length_cons] at hlen
  have hne : UInt32.ofNat ((note seen id).idxOf id) ≠ renamerEmpty := by
    intro he
    have hnat := congrArg UInt32.toNat he
    rw [UInt32.toNat_ofNat', Nat.mod_eq_of_lt (by omega)] at hnat
    have hmax : renamerEmpty.toNat = 2^32 - 1 := rfl
    omega
  rw [internChecked, hintern]
  exact if_neg hne

def slots (exprs : List BcfExpr) : Nat := (exprs.map fun e => 1 + e.args.length).sum

theorem length_le_slots (exprs : List BcfExpr) : exprs.length ≤ slots exprs := by
  induction exprs with
  | nil => exact Nat.zero_le _
  | cons e es ih =>
    rw [slots, List.map_cons, List.sum_cons, List.length_cons]
    rw [slots] at ih
    omega

section SlotIndex
variable {es : List BcfExpr} {slot : UInt32} {i : Nat} {m : FinMap UInt32 Nat}

theorem toNat_next {e : BcfExpr} (h : slot.toNat + slots (e :: es) < 2^32 - 1) :
    (slot + (1 + UInt32.ofNat e.args.length)).toNat = slot.toNat + (1 + e.args.length) := by
  rw [slots, List.map_cons, List.sum_cons] at h
  rw [UInt32.toNat_add, UInt32.toNat_add, UInt32.toNat_ofNat']
  have hone : (1 : UInt32).toNat = 1 := rfl
  rw [hone]
  omega

theorem toNat_next_add_slots {e : BcfExpr} (h : slot.toNat + slots (e :: es) < 2^32 - 1) :
    (slot + (1 + UInt32.ofNat e.args.length)).toNat + slots es < 2^32 - 1 := by
  rw [toNat_next h]
  rw [slots, List.map_cons, List.sum_cons] at h
  rw [slots]
  omega

theorem lt_of_find_insert (hm : ∀ k, (m.find k).isSome = true → k.toNat < slot.toNat)
    {e : BcfExpr} (h : slot.toNat + slots (e :: es) < 2^32 - 1) (k : UInt32)
    (hk : ((m.insert slot i).find k).isSome = true) :
    k.toNat < (slot + (1 + UInt32.ofNat e.args.length)).toNat := by
  rw [toNat_next h]
  by_cases hks : k = slot
  · rw [hks]
    omega
  · rw [FinMap.find_insert_of_ne _ _ hks] at hk
    exact Nat.lt_of_lt_of_le (hm k hk) (Nat.le_add_right _ _)

theorem of_find_slotIndexFrom (hslots : slot.toNat + slots es < 2^32 - 1)
    (hm : ∀ k, (m.find k).isSome = true → k.toNat < slot.toNat)
    (hi : ∀ k n, m.find k = some n → n < i) {n : Nat}
    (h : (slotIndexFrom es slot i m).find k = some n) :
    k.toNat < 2^32 - 1 ∧ n < i + es.length := by
  induction es generalizing slot i m with
  | nil =>
    have hk := hm k (by rw [show m.find k = some n from h]; rfl)
    exact ⟨by omega, hi k n h⟩
  | cons e es ih =>
    have hstep := ih (toNat_next_add_slots hslots) (lt_of_find_insert hm hslots) ?_ h
    · rw [List.length_cons]
      exact ⟨hstep.1, by omega⟩
    · intro k' n' hk'
      by_cases hks : k' = slot
      · rw [hks, FinMap.find_insert_self, Option.some.injEq] at hk'
        omega
      · rw [FinMap.find_insert_of_ne _ _ hks] at hk'
        exact Nat.lt_succ_of_lt (hi k' n' hk')

theorem slotTableFrom_eq {t : Table UInt32 UInt32}
    (hshort : ∀ e ∈ es, e.args.length ≤ 255) (hslots : slot.toNat + slots es < 2^32 - 1)
    (hm : ∀ k, (m.find k).isSome = true → k.toNat < slot.toNat) (hpow : ∃ k, t.cap = 2 ^ k)
    (hholds : Holds renamerEmpty (renamerSlot t.cap) t fun k => (m.find k).map UInt32.ofNat)
    (hcard : (occupied renamerEmpty t).card + es.length < t.cap) :
    ∃ t', slotTableFrom es slot i t = some t' ∧ (∃ k, t'.cap = 2 ^ k) ∧
      Holds renamerEmpty (renamerSlot t'.cap) t' (fun k =>
        ((slotIndexFrom es slot i m).find k).map UInt32.ofNat) ∧
      (occupied renamerEmpty t').card < t'.cap := by
  induction es generalizing slot i m t with
  | nil => exact ⟨t, rfl, hpow, hholds, hcard⟩
  | cons e es ih =>
    have hfresh : (m.find slot).map UInt32.ofNat = none := by
      rw [Option.map_eq_none_iff, Option.eq_none_iff_forall_ne_some]
      intro n hn
      exact Nat.lt_irrefl _ (hm slot (by rw [hn]; rfl))
    have hne : slot ≠ renamerEmpty := by
      rintro rfl
      have hmax : renamerEmpty.toNat = 2^32 - 1 := rfl
      omega
    rw [List.length_cons] at hcard
    obtain ⟨t₁, hins, hcap, hholds₁, hcard₁⟩ := hholds.insertFree (cyclic_advance hpow)
      (v := UInt32.ofNat i) hne hfresh (by omega)
    have hvlen : (vlen e).toUInt32 = UInt32.ofNat e.args.length := by
      apply UInt32.toNat_inj.1
      have hle := hshort e List.mem_cons_self
      rw [UInt8.toNat_toUInt32, toNat_vlen hle, UInt32.toNat_ofNat', Nat.mod_eq_of_lt (by omega)]
    rw [slotTableFrom, hins]
    rw [hvlen]
    refine ih (fun e he => hshort e (List.mem_cons_of_mem _ he)) (toNat_next_add_slots hslots)
      (lt_of_find_insert hm hslots) (hcap ▸ hpow) ?_ (by omega)
    rw [hcap]
    refine hholds₁.congr fun k _ => ?_
    by_cases hk : k = slot
    · rw [hk, Function.update_self, FinMap.find_insert_self, Option.map_some]
    · rw [Function.update_of_ne hk, FinMap.find_insert_of_ne _ _ hk]

end SlotIndex

theorem isSome_of_mem_ids {lookup : UInt32 → Option BcfExpr} {fuel : Nat}
    {t : Rose (Label UInt32)} (ht : unfold lookup fuel id = some t) :
    ∀ k ∈ ids t.postOrder, (lookup k).isSome = true := by
  induction fuel generalizing id t with
  | zero => cases ht
  | succ fuel ih =>
    obtain ⟨e, he, ht⟩ := Option.bind_eq_some_iff.1 ht
    have hlabel : ∀ k ∈ ids [labelOf id e], (lookup k).isSome = true := by
      intro k hk
      rw [labelOf] at hk
      split_ifs at hk <;> simp [ids, Label.id?] at hk
      rw [hk, he]
      rfl
    cases hleaf : isLeaf e with
    | true =>
      rw [if_pos hleaf, Option.some.injEq] at ht
      subst ht
      exact hlabel
    | false =>
      rw [if_neg (by rw [hleaf]; exact Bool.false_ne_true)] at ht
      obtain ⟨ts, hts, ht⟩ := Option.bind_eq_some_iff.1 ht
      rw [Option.some.injEq] at ht
      subst ht
      intro k hk
      rw [postOrder, ids, List.filterMap_append, List.mem_append] at hk
      rcases hk with hk | hk
      · rw [postOrders_eq, List.mem_filterMap] at hk
        obtain ⟨l, hl, hlk⟩ := hk
        obtain ⟨t, htmem, hl⟩ := List.mem_flatMap.1 hl
        obtain ⟨a, -, ha⟩ := (of_mapM_eq_some hts).2 t htmem
        exact ih ha k (List.mem_filterMap.2 ⟨l, hl, hlk⟩)
      · exact hlabel k hk

section Table
variable {exprs : List BcfExpr} (hslots : slots exprs < 2^32 - 1)
include hslots

theorem of_find_slotIndex {n : Nat} (h : (slotIndex exprs).find k = some n) :
    k.toNat < 2^32 - 1 ∧ n < exprs.length := by
  have hzero : (0 : UInt32).toNat = 0 := rfl
  obtain ⟨hk, hn⟩ := of_find_slotIndexFrom (by rw [hzero]; omega) (by simp) (by simp) h
  exact ⟨hk, by omega⟩

theorem exists_slotTable (hshort : ∀ e ∈ exprs, e.args.length ≤ 255) :
    ∃ t, slotTableBuild exprs = some t ∧
      ∀ slot, slotTableGet t slot = some ((slotIndex exprs).find slot) := by
  have hpow : ∃ k, slotTableCap exprs.length = 2 ^ k := pow_roundUp _ _ ⟨4, rfl⟩
  have hzero : (0 : UInt32).toNat = 0 := rfl
  obtain ⟨t, hbuild, htpow, hholds, hcard⟩ := @slotTableFrom_eq exprs 0 0 FinMap.empty
    (free (slotTableCap exprs.length) renamerEmpty 0) hshort (by rw [hzero]; omega) (by simp) hpow
    (holds_free (renamerSlot_lt hpow))
    (by rw [card_occupied_free, Nat.zero_add]; exact lt_slotTableCap exprs.length)
  refine ⟨t, hbuild, fun slot => ?_⟩
  have hstep := cyclic_advance htpow
  rw [slotTableGet]
  cases hfind : (slotIndex exprs).find slot with
  | some n =>
    obtain ⟨hlt, hn⟩ := of_find_slotIndex hslots hfind
    have hne : slot ≠ renamerEmpty := by
      rintro rfl
      have hmax : renamerEmpty.toNat = 2^32 - 1 := rfl
      omega
    have hsome : ((slotIndexFrom exprs 0 0 FinMap.empty).find slot).map UInt32.ofNat =
        some (UInt32.ofNat n) := by
      rw [show (slotIndexFrom exprs 0 0 FinMap.empty).find slot = some n from hfind]
      rfl
    obtain ⟨j, hprobe, hkey, hval⟩ := hholds.probe_stored hstep hne hsome
    have hle := length_le_slots exprs
    have hnat : (UInt32.ofNat n).toNat = n := by
      rw [UInt32.toNat_ofNat', Nat.mod_eq_of_lt (by omega)]
    simp only [Option.bind_eq_bind, hprobe, Option.bind_some, hkey, if_neg hne, hval, hnat]
  | none =>
    obtain ⟨j, hprobe, hj⟩ : ∃ j, probe t (advance t.cap) (atKey renamerEmpty slot) t.cap
        (renamerSlot t.cap slot) = some j ∧
        FreeFor t renamerEmpty (renamerSlot t.cap) slot j := by
      by_cases hne : slot = renamerEmpty
      · have hstop : atKey renamerEmpty slot = atFree renamerEmpty := by
          funext x
          rw [hne, atKey, atFree, Bool.or_self]
        rw [hstop]
        exact hholds.probe_free hstep slot hcard
      · refine hholds.probe_absent hstep hne ?_ hcard
        rw [show (slotIndexFrom exprs 0 0 FinMap.empty).find slot = none from hfind]
        rfl
    simp only [Option.bind_eq_bind, hprobe, Option.bind_some, hj.free, if_true]

theorem ne_empty_of_exprAt (h : (exprAt exprs id).isSome = true) :
    id ≠ renamerEmpty := by
  rintro rfl
  rw [exprAt] at h
  cases hfind : (slotIndex exprs).find renamerEmpty with
  | none =>
    rw [hfind] at h
    cases h
  | some n =>
    have hlt := (of_find_slotIndex hslots hfind).1
    have hmax : renamerEmpty.toNat = 2^32 - 1 := rfl
    omega

theorem refHashInput_eq (hshort : ∀ e ∈ exprs, e.args.length ≤ 255) (fuel : Nat)
    (root : UInt32) : refHashInput exprs fuel root = hashInput exprs fuel root := by
  obtain ⟨t, hbuild, hget⟩ := exists_slotTable hslots hshort
  have hlookup : exprOf exprs t = exprAt exprs := by
    funext id
    rw [exprOf, hget, exprAt]
    rfl
  rw [refHashInput, hbuild]
  show (refEncode exprs t fuel root _).map Prod.snd = _
  rw [refEncode_eq hshort, hlookup, hashInput]
  cases ht : unfold (exprAt exprs) fuel root with
  | none =>
    rw [encode_eq, encode_eq, ht]
    rfl
  | some tree =>
    rw [encode_of_renamer renamer_varRenamer numbers_new ht fun _ _ => trivial,
      encode_of_renamer (renamer_internChecked fun _ => ne_empty_of_exprAt hslots) numbers_init ht
        (isSome_of_mem_ids ht)]

end Table

/-- On a well-formed table the C walk hashes what the Rust walk hashes: at every
root they agree, and at the slot offset of an expression both end. -/
theorem reference_agrees {exprs : List BcfExpr} (hwf : WellFormed (exprAt exprs))
    (hslots : slots exprs < 2^32 - 1) (hshort : ∀ e ∈ exprs, e.args.length ≤ 255)
    (root : UInt32) :
    (∀ fuel, refHashInput exprs fuel root = hashInput exprs fuel root) ∧
      ((exprAt exprs root).isSome = true → ∃ bytes n, ∀ fuel, n ≤ fuel →
        hashInput exprs fuel root = some bytes ∧ refHashInput exprs fuel root = some bytes ∧
        ∀ sipHash24 : List UInt8 → UInt64, hashExpr sipHash24 exprs fuel root =
          some (zoviaCanonicalHash sipHash24 exprs fuel root)) := by
  refine ⟨fun fuel => refHashInput_eq hslots hshort fuel root, fun hroot => ?_⟩
  obtain ⟨t, ht⟩ := hwf.exists_unfolds hroot
  obtain ⟨n, hn⟩ := hashes_of_unfolds ht
  refine ⟨(canonical t).flatMap record, n, fun fuel hfuel => ?_⟩
  have hrust := hn fuel hfuel
  have hc := (refHashInput_eq hslots hshort fuel root).trans hrust
  refine ⟨hrust, hc, fun sipHash24 => ?_⟩
  rw [hashExpr, hrust, zoviaCanonicalHash, hc]
  rfl

theorem reference_agrees_doubled : ∃ bytes n, ∀ fuel, n ≤ fuel →
    hashInput doubled fuel 1 = some bytes ∧ refHashInput doubled fuel 1 = some bytes ∧
    ∀ sipHash24 : List UInt8 → UInt64, hashExpr sipHash24 doubled fuel 1 =
      some (zoviaCanonicalHash sipHash24 doubled fuel 1) :=
  (reference_agrees wellFormed_doubled (by decide) (by decide) 1).2 (by simp [exprAt_doubled])

end ZoneVerifier.CanonicalHashRef
