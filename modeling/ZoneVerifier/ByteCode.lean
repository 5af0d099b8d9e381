import Mathlib.Algebra.Order.Ring.Int
import Mathlib.Data.List.Basic
import Mathlib.Data.Nat.Init

/-!
# Byte codes

Little-endian words of a fixed number of bytes, codes whose words end where
their own content says, and tables of records whose head word announces how many
argument words follow. Reading a table inverts writing it, and what is read
writes back to the bytes it was read from.
-/

set_option autoImplicit false

namespace ZoneVerifier.ByteCode

/-- The `n` low bytes of `v`, the least significant one first. -/
def leBytes : Nat → Nat → List UInt8
  | 0, _ => []
  | n + 1, v => UInt8.ofNat v :: leBytes n (v / 256)

def ofLeBytes : List UInt8 → Nat
  | [] => 0
  | b :: bs => b.toNat + 256 * ofLeBytes bs

@[simp] theorem length_leBytes (n v : Nat) : (leBytes n v).length = n := by
  induction n generalizing v with
  | zero => rfl
  | succ n ih => rw [leBytes, List.length_cons, ih]

theorem ofLeBytes_leBytes (n v : Nat) : ofLeBytes (leBytes n v) = v % 256^n := by
  induction n generalizing v with
  | zero => simp [leBytes, ofLeBytes, Nat.mod_one]
  | succ n ih =>
    have hsplit : v % 256^(n + 1) = v % 256 + 256 * (v / 256 % 256^n) := by
      rw [Nat.pow_succ', Nat.mod_mul]
    rw [leBytes, ofLeBytes, ih, UInt8.toNat_ofNat', hsplit]

theorem leBytes_inj {n u v : Nat} (hu : u < 256^n) (hv : v < 256^n)
    (h : leBytes n u = leBytes n v) : u = v := by
  have hval := congrArg ofLeBytes h
  rwa [ofLeBytes_leBytes, ofLeBytes_leBytes, Nat.mod_eq_of_lt hu, Nat.mod_eq_of_lt hv] at hval

def slice (b : List UInt8) (o n : Nat) : Option (List UInt8) :=
  if o + n ≤ b.length then some ((b.drop o).take n) else none

def At (b : List UInt8) (o : Nat) (x : List UInt8) : Prop :=
  ∃ pre post, b = pre ++ (x ++ post) ∧ pre.length = o

section At
variable {b x y : List UInt8} {o : Nat}

theorem At.slice (h : At b o x) : slice b o x.length = some x := by
  obtain ⟨pre, post, rfl, rfl⟩ := h
  rw [ByteCode.slice, if_pos (by simp), List.drop_left, List.take_left]

theorem At.le_length (h : At b o x) : o + x.length ≤ b.length := by
  obtain ⟨pre, post, rfl, rfl⟩ := h
  simp

theorem At.left (h : At b o (x ++ y)) : At b o x := by
  obtain ⟨pre, post, rfl, hpre⟩ := h
  exact ⟨pre, y ++ post, by simp, hpre⟩

theorem At.right (h : At b o (x ++ y)) : At b (o + x.length) y := by
  obtain ⟨pre, post, rfl, rfl⟩ := h
  exact ⟨pre ++ x, post, by simp, by simp⟩

theorem At.getElem? {c : UInt8} (h : At b o (c :: y)) : b[o]? = some c := by
  obtain ⟨pre, post, rfl, rfl⟩ := h
  simp

theorem at_zero (b : List UInt8) : At b 0 b := ⟨[], [], by simp, rfl⟩

end At

section Delimited
variable {α β : Type}

/-- A valid word is not empty, and where it ends is known from its content. -/
structure SelfDelimiting (Valid : α → Prop) (enc : α → List β) : Prop where
  ne_nil : ∀ a, enc a ≠ []
  append_inj : ∀ {a b : α} {r s : List β}, Valid a → Valid b → enc a ++ r = enc b ++ s →
    a = b ∧ r = s

theorem SelfDelimiting.flatMap_inj {Valid : α → Prop} {enc : α → List β}
    (h : SelfDelimiting Valid enc) {as bs : List α} (ha : ∀ a ∈ as, Valid a)
    (hb : ∀ b ∈ bs, Valid b) (heq : as.flatMap enc = bs.flatMap enc) : as = bs := by
  induction as generalizing bs with
  | nil =>
    cases bs with
    | nil => rfl
    | cons b bs =>
      have hnil : enc b = [] := (List.append_eq_nil_iff.1 heq.symm).1
      exact absurd hnil (h.ne_nil b)
  | cons a as ih =>
    cases bs with
    | nil =>
      have hnil : enc a = [] := (List.append_eq_nil_iff.1 heq).1
      exact absurd hnil (h.ne_nil a)
    | cons b bs =>
      obtain ⟨hab, hrest⟩ := h.append_inj (ha a List.mem_cons_self) (hb b List.mem_cons_self) heq
      rw [hab, ih (fun x hx => ha x (List.mem_cons_of_mem a hx))
        (fun x hx => hb x (List.mem_cons_of_mem b hx)) hrest]

theorem flatMap_append_inj {enc : α → List β} {n : Nat} (hlen : ∀ a, (enc a).length = n)
    (hinj : ∀ a b, enc a = enc b → a = b) {as bs : List α} {r s : List β}
    (hl : as.length = bs.length) (heq : as.flatMap enc ++ r = bs.flatMap enc ++ s) :
    as = bs ∧ r = s := by
  induction as generalizing bs with
  | nil =>
    cases bs with
    | nil => exact ⟨rfl, heq⟩
    | cons b bs => cases hl
  | cons a as ih =>
    cases bs with
    | nil => cases hl
    | cons b bs =>
      rw [List.flatMap_cons, List.flatMap_cons, List.append_assoc, List.append_assoc] at heq
      obtain ⟨hab, hrest⟩ := List.append_inj heq ((hlen a).trans (hlen b).symm)
      obtain ⟨hs, hr⟩ := ih (Nat.succ.inj hl) hrest
      exact ⟨by rw [hinj a b hab, hs], hr⟩

end Delimited
end ZoneVerifier.ByteCode

namespace ZoneVerifier.SlotTable
open ByteCode

section Words
variable {b : List UInt8} {o : Nat}

def wordBytes (w : UInt32) : List UInt8 := leBytes 4 w.toNat

def wordAt (b : List UInt8) (o : Nat) : UInt32 := UInt32.ofNat (ofLeBytes ((b.drop o).take 4))

theorem length_wordBytes (w : UInt32) : (wordBytes w).length = 4 := length_leBytes 4 _

theorem leBytes_ofLeBytes (x : List UInt8) : leBytes x.length (ofLeBytes x) = x := by
  induction x with
  | nil => rfl
  | cons c x ih =>
    have hc := c.toNat_lt
    have hdiv : (c.toNat + 256 * ofLeBytes x) / 256 = ofLeBytes x := by omega
    have hmod : UInt8.ofNat (c.toNat + 256 * ofLeBytes x) = c := by
      apply UInt8.toNat_inj.1
      rw [UInt8.toNat_ofNat']
      omega
    rw [List.length_cons, ofLeBytes, leBytes, hdiv, ih, hmod]

theorem ofLeBytes_lt (x : List UInt8) : ofLeBytes x < 256^x.length := by
  induction x with
  | nil => exact Nat.one_pos
  | cons c x ih =>
    have hc := c.toNat_lt
    rw [ofLeBytes, List.length_cons, Nat.pow_succ']
    omega

theorem wordAt_of_at {w : UInt32} (h : At b o (wordBytes w)) : wordAt b o = w := by
  obtain ⟨pre, post, rfl, rfl⟩ := h
  have hw : w.toNat < 256^4 := w.toNat_lt
  rw [wordAt, List.drop_left, List.take_left' (length_wordBytes w), wordBytes, ofLeBytes_leBytes,
    Nat.mod_eq_of_lt hw, UInt32.ofNat_toNat]

theorem wordBytes_wordAt (h : o + 4 ≤ b.length) : wordBytes (wordAt b o) = (b.drop o).take 4 := by
  have hlen : ((b.drop o).take 4).length = 4 := by
    rw [List.length_take, List.length_drop]
    omega
  have hlt := ofLeBytes_lt ((b.drop o).take 4)
  have hval : (wordAt b o).toNat = ofLeBytes ((b.drop o).take 4) := by
    rw [hlen] at hlt
    rw [wordAt, UInt32.toNat_ofNat']
    exact Nat.mod_eq_of_lt hlt
  have hbytes := leBytes_ofLeBytes ((b.drop o).take 4)
  rw [hlen] at hbytes
  rw [wordBytes, hval, hbytes]

def readArgs (b : List UInt8) : Nat → Nat → List UInt32
  | _, 0 => []
  | o, n + 1 => wordAt b o :: readArgs b (o + 4) n

theorem length_readArgs (b : List UInt8) (o n : Nat) : (readArgs b o n).length = n := by
  induction n generalizing o with
  | zero => rfl
  | succ n ih => rw [readArgs, List.length_cons, ih]

theorem length_flatMap_wordBytes (as : List UInt32) :
    (as.flatMap wordBytes).length = 4 * as.length := by
  induction as with
  | nil => rfl
  | cons a as ih =>
    rw [List.flatMap_cons, List.length_append, length_wordBytes, ih, List.length_cons]
    omega

theorem readArgs_of_at {as : List UInt32} (h : At b o (as.flatMap wordBytes)) :
    readArgs b o as.length = as := by
  induction as generalizing o with
  | nil => rfl
  | cons a as ih =>
    have hrest := h.right
    rw [length_wordBytes] at hrest
    rw [List.length_cons, readArgs, wordAt_of_at h.left, ih hrest]

theorem take_drop_append (b : List UInt8) (o m n : Nat) :
    (b.drop o).take m ++ (b.drop (o + m)).take n = (b.drop o).take (m + n) := by
  rw [List.take_add, List.drop_drop]

theorem flatMap_readArgs {n : Nat} (h : o + 4 * n ≤ b.length) :
    (readArgs b o n).flatMap wordBytes = (b.drop o).take (4 * n) := by
  induction n generalizing o with
  | zero => rfl
  | succ n ih =>
    rw [readArgs, List.flatMap_cons, wordBytes_wordAt (by omega), ih (by omega),
      take_drop_append]
    congr 1
    omega

end Words

structure Layout (α : Type) where
  head : α → UInt32
  args : α → List UInt32
  /-- How many words follow a head. -/
  count : UInt32 → Nat
  make : UInt32 → List UInt32 → α
  head_make : ∀ h as, as.length = count h → head (make h as) = h
  args_make : ∀ h as, args (make h as) = as

namespace Layout
variable {α : Type} (L : Layout α)

def Fits (a : α) : Prop := L.count (L.head a) = (L.args a).length ∧ L.make (L.head a) (L.args a) = a

def encode (a : α) : List UInt8 := wordBytes (L.head a) ++ (L.args a).flatMap wordBytes

def table (as : List α) : List UInt8 := as.flatMap L.encode

def slots (as : List α) : Nat := (as.map fun a => 1 + (L.args a).length).sum

def read (b : List UInt8) (stop pos : Nat) : Except (Nat × Nat) (List α × Nat) :=
  if pos < stop then
    let h := wordAt b pos
    let n := L.count h
    if stop < pos + 4 + 4 * n then .error (pos + 4 + 4 * n, stop)
    else do
      let rest ← read b stop (pos + 4 + 4 * n)
      .ok (L.make h (readArgs b (pos + 4) n) :: rest.1, rest.2)
  else .ok ([], pos)
termination_by stop - pos

variable {L} {b : List UInt8} {stop pos : Nat} {a : α} {as : List α}

theorem length_encode (a : α) : (L.encode a).length = 4 * (1 + (L.args a).length) := by
  rw [encode, List.length_append, length_wordBytes, length_flatMap_wordBytes]
  omega

theorem length_table (as : List α) : (L.table as).length = 4 * L.slots as := by
  induction as with
  | nil => rfl
  | cons a as ih =>
    have hcons : L.slots (a :: as) = 1 + (L.args a).length + L.slots as := List.sum_cons
    have htable : L.table (a :: as) = L.encode a ++ L.table as := List.flatMap_cons
    rw [htable, List.length_append, length_encode, ih, hcons]
    omega

theorem fits_make {h : UInt32} {xs : List UInt32} (hlen : xs.length = L.count h) :
    L.Fits (L.make h xs) := by
  rw [Fits, L.head_make h xs hlen, L.args_make]
  exact ⟨hlen.symm, rfl⟩

theorem read_table (hfit : ∀ a ∈ as, L.Fits a) (hat : At b pos (L.table as))
    (hstop : stop = pos + (L.table as).length) : L.read b stop pos = .ok (as, stop) := by
  induction as generalizing pos with
  | nil =>
    obtain rfl : stop = pos := hstop
    rw [read, if_neg (lt_irrefl _)]
  | cons a as ih =>
    have htable : L.table (a :: as) = L.encode a ++ L.table as := List.flatMap_cons
    rw [htable] at hat hstop
    have hrec := hat.left
    have hrest := hat.right
    have hlen := length_encode (L := L) a
    have hfita := hfit a List.mem_cons_self
    have hhead := wordAt_of_at hrec.left
    have hargs := hrec.right
    rw [length_wordBytes] at hargs
    rw [List.length_append] at hstop
    have hnext : pos + (L.encode a).length = pos + 4 + 4 * (L.args a).length := by omega
    rw [hnext] at hrest
    rw [read, if_pos (by omega)]
    dsimp only
    rw [hhead, hfita.1, if_neg (by omega), readArgs_of_at hargs, hfita.2,
      ih (fun a' ha' => hfit a' (List.mem_cons_of_mem a ha')) hrest (by omega)]
    rfl

theorem read_cases {r : List α × Nat} (h : L.read b stop pos = .ok r) :
    (¬ pos < stop ∧ r = ([], pos)) ∨
      ∃ n rest, n = L.count (wordAt b pos) ∧ pos < stop ∧ pos + 4 + 4 * n ≤ stop ∧
        L.read b stop (pos + 4 + 4 * n) = .ok rest ∧
        r = (L.make (wordAt b pos) (readArgs b (pos + 4) n) :: rest.1, rest.2) := by
  rw [read] at h
  by_cases hpos : pos < stop
  · rw [if_pos hpos] at h
    by_cases hend : stop < pos + 4 + 4 * L.count (wordAt b pos)
    · rw [if_pos hend] at h
      cases h
    · rw [if_neg hend] at h
      cases hrest : L.read b stop (pos + 4 + 4 * L.count (wordAt b pos)) with
      | error e =>
        rw [hrest] at h
        cases h
      | ok rest =>
        rw [hrest] at h
        exact .inr ⟨_, rest, rfl, hpos, Nat.not_lt.1 hend, hrest, (Except.ok.inj h).symm⟩
  · rw [if_neg hpos] at h
    exact .inl ⟨hpos, (Except.ok.inj h).symm⟩

theorem table_of_read (hle : pos ≤ stop) (hstop : stop ≤ b.length) {r : List α × Nat}
    (h : L.read b stop pos = .ok r) :
    r.2 = stop ∧ L.table r.1 = (b.drop pos).take (stop - pos) ∧ ∀ a ∈ r.1, L.Fits a := by
  induction hd : stop - pos using Nat.strong_induction_on generalizing pos r with
  | _ d ih =>
    obtain ⟨hpos, rfl⟩ | ⟨n, rest, hn, hpos, hend, hrest, rfl⟩ := read_cases h
    · have hd0 : d = 0 := by omega
      rw [hd0, List.take_zero]
      exact ⟨by omega, rfl, fun a ha => absurd ha List.not_mem_nil⟩
    · obtain ⟨hp, htable, hfit⟩ := ih _ (by omega) hend hrest rfl
      have hlen := length_readArgs b (pos + 4) n
      have hmake := fits_make (L := L) (hlen.trans hn)
      refine ⟨hp, ?_, ?_⟩
      · have hcons : L.table (L.make (wordAt b pos) (readArgs b (pos + 4) n) :: rest.1) =
            L.encode (L.make (wordAt b pos) (readArgs b (pos + 4) n)) ++ L.table rest.1 :=
          List.flatMap_cons
        rw [hcons, htable, encode, L.head_make _ _ (hlen.trans hn), L.args_make,
          wordBytes_wordAt (by omega), flatMap_readArgs (by omega), take_drop_append,
          Nat.add_assoc pos, take_drop_append]
        congr 1
        omega
      · intro a ha
        rcases List.mem_cons.1 ha with rfl | ha
        · exact hmake
        · exact hfit a ha

end Layout
end ZoneVerifier.SlotTable
