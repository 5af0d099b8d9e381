import ZoneVerifier.ArshTransfer

/-!
# The bitwise operations

`handle_and`, `handle_or` and `handle_xor` (`analysis/transfer/alu/bitwise.rs`)
compute the tristate number of the result first and read unsigned bounds off it:
an `and` lies below both operands, an `or` above both. Signed bounds are added
where the unsigned ones do not cross the sign. A 32-bit operation refines the
low half only; its upper half is zero by the tristate number.
-/

set_option autoImplicit false

namespace ZoneVerifier.BitwiseTransfer
open Word Ast Concrete Tristate Machine ShiftTransfer
open Numeric (NumericDomain)
open Tristate.Tnum (BitOp)
open Function (update update_self)

/-- The tristate number of the source as it is, also for a 32-bit operation. -/
def srcTnum (s : State) : Operand → Tnum
  | .imm k => Tnum.constant (BitVec.ofInt 64 k)
  | .reg r => s.getTnum r

def srcU32 (s : State) : Operand → Nat × Nat
  | .imm k => (lo32 (toU64 k), lo32 (toU64 k))
  | .reg r => s.domain.getU32Bounds r

def srcU64 (s : State) : Operand → Nat × Nat
  | .imm k => (toU64 k, toU64 k)
  | .reg r => s.domain.getU64Bounds r

def refineLow (d : NumericDomain) (dst : Reg) (lo hi : Nat) : NumericDomain :=
  let d := d.setU32Bounds dst lo hi
  if toI32 lo ≤ toI32 hi then d.setS32Bounds dst (toI32 lo) (toI32 hi) else d

def refineWord (d : NumericDomain) (dst : Reg) (lo hi : Nat) : NumericDomain :=
  let d := d.setU64Bounds dst lo hi
  if toI64 lo ≤ toI64 hi then (d.assumeGeImm dst (toI64 lo)).assumeLeImm dst (toI64 hi) else d

def refineResult (d : NumericDomain) (w : Width) (dst : Reg) (src t : Tnum) (low word : Nat × Nat) :
    NumericDomain :=
  let d := refineLow (d.forget dst) dst low.1 low.2
  if w = .w64 ∧ ¬ (src.mask = 0 ∧ t.mask = 0) then refineWord d dst word.1 word.2 else d

/-- A known result is stored as a constant once more. -/
def finish (s : State) (dst : Reg) (d : NumericDomain) (t : Tnum) : State :=
  let s := overwrite s dst d t
  match t.constValue with
  | some c => { s with domain := s.domain.assumeEqImm dst (toI64 c.toNat) }
  | none => s

def lowKnown (src t : Tnum) : Prop := src.trunc32.mask = 0 ∧ t.trunc32.mask = 0

instance (src t : Tnum) : Decidable (lowKnown src t) := inferInstanceAs (Decidable (_ ∧ _))

def handleAnd (s : State) (w : Width) (dst : Reg) (src : Operand) : State :=
  let t := BitOp.and.handle w (s.getTnum dst) (source s src)
  let sub := t.trunc32.value.toNat
  let low := if lowKnown (srcTnum s src) t then (sub, sub)
    else (sub, min (s.domain.getU32Bounds dst).2 (srcU32 s src).2)
  let word := (t.value.toNat, min (s.domain.getU64Bounds dst).2 (srcU64 s src).2)
  finish s dst (refineResult s.domain w dst (srcTnum s src) t low word) t

def handleOr (s : State) (w : Width) (dst : Reg) (src : Operand) : State :=
  let t := BitOp.or.handle w (s.getTnum dst) (source s src)
  let sub := t.trunc32.value.toNat
  let low := if lowKnown (srcTnum s src) t then (sub, sub)
    else (max (s.domain.getU32Bounds dst).1 (srcU32 s src).1, t.trunc32.maxValue.toNat)
  let word := (max (s.domain.getU64Bounds dst).1 (srcU64 s src).1, t.maxValue.toNat)
  finish s dst (refineResult s.domain w dst (srcTnum s src) t low word) t

def handleXor (s : State) (w : Width) (dst : Reg) (src : Operand) : State :=
  let t := BitOp.xor.handle w (s.getTnum dst) (source s src)
  let low := (t.trunc32.value.toNat, t.trunc32.maxValue.toNat)
  let word := (t.value.toNat, t.maxValue.toNat)
  finish s dst (refineResult s.domain w dst (srcTnum s src) t low word) t

section Refine
variable {d : NumericDomain} {ρ : Valuation} {dst : Reg} {lo hi : Nat}

theorem toI64_between_of_le {a b n : Nat} (h1 : a ≤ n) (h2 : n ≤ b) (hb : b < 2^64)
    (hs : toI64 a ≤ toI64 b) :
    toI64 a ≤ toI64 n ∧ toI64 n ≤ toI64 b ∧ (0 ≤ toI64 n ∨ toI64 b < 0) := by
  unfold toI64 at *
  split_ifs at * <;> omega

theorem tracks_refineLow (h : d.Tracks ρ) (hd : dst.isProgram = true) (hhi : hi < 2^32)
    (h1 : lo ≤ lo32 (ρ dst).toNat) (h2 : lo32 (ρ dst).toNat ≤ hi) :
    (refineLow d dst lo hi).Tracks ρ := by
  have hu := h.setU32Bounds hd hhi h1 h2
  unfold refineLow
  split
  case isTrue hs =>
    obtain ⟨h3, h4⟩ := Bounds.ScalarBounds.toI32_between_of_le h1 h2 hhi hs
    exact hu.setS32Bounds hd (toI32_range lo) (toI32_range hi) h3 h4
  case isFalse => exact hu

theorem tracks_refineWord (h : d.Tracks ρ) (hd : dst.isProgram = true) (hhi : hi < 2^64)
    (h1 : lo ≤ (ρ dst).toNat) (h2 : (ρ dst).toNat ≤ hi) : (refineWord d dst lo hi).Tracks ρ := by
  have hu := h.setU64Bounds hd h1 h2
  unfold refineWord
  split
  case isTrue hs =>
    obtain ⟨h3, h4, hsign⟩ := toI64_between_of_le h1 h2 hhi hs
    have hge := hu.assumeGeImm (x := dst) (toI64_range (n := lo) (by omega)) h3
    exact hge.assumeLeImm (toI64_range hhi) h4 hsign
  case isFalse => exact hu

structure Bounded (w : Width) (v : BitVec 64) (low word : Nat × Nat) : Prop where
  low_le : low.1 ≤ lo32 v.toNat
  le_low : lo32 v.toNat ≤ low.2
  low_lt : low.2 < 2^32
  word_le : w = .w64 → word.1 ≤ v.toNat
  le_word : w = .w64 → v.toNat ≤ word.2
  word_lt : word.2 < 2^64

theorem tracks_refineResult (h : d.Tracks ρ) (hd : dst.isProgram = true) {w : Width}
    {v : BitVec 64} {low word : Nat × Nat} (hb : Bounded w v low word) (src t : Tnum) :
    (refineResult d w dst src t low word).Tracks (update ρ dst v) := by
  have hlow : (refineLow (d.forget dst) dst low.1 low.2).Tracks (update ρ dst v) := by
    refine tracks_refineLow (h.forget hd) hd hb.low_lt ?_ ?_
    · rw [update_self]
      exact hb.low_le
    · rw [update_self]
      exact hb.le_low
  unfold refineResult
  split
  case isTrue hw =>
    refine tracks_refineWord hlow hd hb.word_lt ?_ ?_
    · rw [update_self]
      exact hb.word_le hw.1
    · rw [update_self]
      exact hb.le_word hw.1
  case isFalse => exact hlow

variable {s : State} {v : BitVec 64} {t : Tnum}

theorem represents_finish (h : s.Represents ρ) (hd : dst.isProgram = true) (ht : t.Has v)
    (hk : d.Tracks (update ρ dst v)) :
    (finish s dst d t).Represents (update ρ dst v) := by
  have hz := (not_or.1 (Reg.isProgram_iff.1 hd)).1
  have hrep := represents_overwrite h hd ht hk
  unfold finish
  dsimp only
  cases hc : t.constValue with
  | none => exact hrep
  | some c =>
    have hv : v = c := Tnum.ShiftOp.eq_of_constValue hc ht
    have hsync : (tnumBounds d dst t).Tracks (update ρ dst v) := by
      refine tracks_tnumBounds hk ?_
      rw [update_self]
      exact ht
    have heq := hsync.assumeEqImm (x := dst) (c := toI64 c.toNat) hd
      (by rw [signedOf, update_self, hv]; rfl)
    refine ⟨?_, hrep.tnum⟩
    rw [overwrite_eq s hz] at hrep ⊢
    rw [Constraints.domain_setTnum]
    exact heq.represents

end Refine

section Words
variable {x y v : BitVec 64} {t : Tnum}

theorem lo32_run (op : BitOp) (w : Width) (x y : BitVec 64) :
    lo32 (op.run w x y).toNat = lo32 (op.word x y).toNat := by
  cases w with
  | w64 => rfl
  | w32 => rw [BitOp.run_w32, toNat_and_low, NumericDomain.lo32_lo32]

theorem sub_between (ht : t.Has v) : t.trunc32.value.toNat ≤ lo32 v.toNat ∧
    lo32 v.toNat ≤ t.trunc32.maxValue.toNat := by
  have h1 := Tnum.minValue_le (Tnum.has_trunc32 ht)
  have h2 := Tnum.le_maxValue (Tnum.has_trunc32 ht)
  rw [toNat_and_low] at h1 h2
  exact ⟨h1, h2⟩

theorem lo32_and (x y : BitVec 64) : lo32 (x &&& y).toNat ≤ lo32 x.toNat ∧
    lo32 (x &&& y).toNat ≤ lo32 y.toNat := by
  have he : lo32 (x &&& y).toNat = lo32 x.toNat &&& lo32 y.toNat := by
    rw [BitVec.toNat_and]
    exact Nat.and_mod_two_pow
  rw [he]
  exact ⟨Nat.and_le_left, Nat.and_le_right⟩

theorem lo32_or (x y : BitVec 64) : lo32 x.toNat ≤ lo32 (x ||| y).toNat ∧
    lo32 y.toNat ≤ lo32 (x ||| y).toNat := by
  have he : lo32 (x ||| y).toNat = lo32 x.toNat ||| lo32 y.toNat := by
    rw [BitVec.toNat_or]
    exact Nat.or_mod_two_pow
  rw [he]
  exact ⟨Nat.left_le_or, Nat.right_le_or⟩

end Words

section Operands
variable {s : State} {ρ : Valuation}

theorem srcU32_spec (h : s.Represents ρ) (ht : s.domain.Tracks ρ) (src : Operand) :
    (srcU32 s src).1 ≤ lo32 (operandValue ρ src).toNat ∧
      lo32 (operandValue ρ src).toNat ≤ (srcU32 s src).2 ∧ (srcU32 s src).2 < 2^32 := by
  cases src with
  | imm k =>
    rw [operandValue, toNat_ofInt]
    exact ⟨Nat.le_refl _, Nat.le_refl _, lo32_lt _⟩
  | reg r =>
    obtain ⟨h1, h2⟩ := NumericDomain.getU32Bounds_sound h.domain r
    exact ⟨h1, h2, ht.getU32Bounds_lt r⟩

theorem srcU64_spec (h : s.Represents ρ) (ht : s.domain.Tracks ρ) (src : Operand) :
    (srcU64 s src).1 ≤ (operandValue ρ src).toNat ∧
      (operandValue ρ src).toNat ≤ (srcU64 s src).2 ∧ (srcU64 s src).2 < 2^64 := by
  cases src with
  | imm k =>
    rw [operandValue, toNat_ofInt]
    exact ⟨Nat.le_refl _, Nat.le_refl _, toU64_lt k⟩
  | reg r =>
    obtain ⟨h1, h2⟩ := NumericDomain.getU64Bounds_sound h.domain r
    exact ⟨h1, h2, ht.getU64Bounds_lt r⟩

end Operands

section Handlers
variable {s : State} {ρ : Valuation} {w : Width} {dst : Reg} {src : Operand} {v : BitVec 64}
  {t : Tnum}

theorem known_between (ht : t.Has v) (hk : lowKnown (srcTnum s src) t) :
    t.trunc32.value.toNat ≤ lo32 v.toNat ∧ lo32 v.toNat ≤ t.trunc32.value.toNat := by
  have hsub := sub_between ht
  simpa [Tnum.maxValue, hk.2] using hsub

section
variable (h : s.Represents ρ) (ht : s.domain.Tracks ρ) (hd : dst.isProgram = true)
include h ht hd

theorem represents_handleAnd :
    (handleAnd s w dst src).Represents
      (update ρ dst (BitOp.and.run w (ρ dst) (operandValue ρ src))) := by
  have hhas := BitOp.and.has_handle w (h.tnum dst) (source_has h src)
  obtain ⟨-, s2, s3⟩ := srcU32_spec h ht src
  obtain ⟨-, s5, s6⟩ := srcU64_spec h ht src
  obtain ⟨-, d2⟩ := NumericDomain.getU32Bounds_sound h.domain dst
  obtain ⟨-, d4⟩ := NumericDomain.getU64Bounds_sound h.domain dst
  obtain ⟨l1, l2⟩ := lo32_and (ρ dst) (operandValue ρ src)
  have hlow := lo32_run .and w (ρ dst) (operandValue ρ src)
  rw [BitOp.word] at hlow
  refine represents_finish h hd hhas (tracks_refineResult ht hd ?_ _ _)
  constructor
  · split_ifs
    · exact (sub_between hhas).1
    · exact (sub_between hhas).1
  · split_ifs with hk
    · exact (known_between hhas hk).2
    · omega
  · split_ifs with hk
    · exact Nat.lt_of_le_of_lt (known_between hhas hk).1 (lo32_lt _)
    · exact Nat.lt_of_le_of_lt (Nat.min_le_right _ _) s3
  · exact fun _ => Tnum.minValue_le hhas
  · rintro rfl
    rw [BitOp.run, BitOp.word, BitVec.toNat_and]
    exact Nat.le_min.2 ⟨Nat.le_trans Nat.and_le_left d4, Nat.le_trans Nat.and_le_right s5⟩
  · exact Nat.lt_of_le_of_lt (Nat.min_le_right _ _) s6

theorem represents_handleOr :
    (handleOr s w dst src).Represents
      (update ρ dst (BitOp.or.run w (ρ dst) (operandValue ρ src))) := by
  have hhas := BitOp.or.has_handle w (h.tnum dst) (source_has h src)
  obtain ⟨s1, -, -⟩ := srcU32_spec h ht src
  obtain ⟨s4, -, -⟩ := srcU64_spec h ht src
  obtain ⟨d1, -⟩ := NumericDomain.getU32Bounds_sound h.domain dst
  obtain ⟨d3, -⟩ := NumericDomain.getU64Bounds_sound h.domain dst
  obtain ⟨l1, l2⟩ := lo32_or (ρ dst) (operandValue ρ src)
  have hlow := lo32_run .or w (ρ dst) (operandValue ρ src)
  rw [BitOp.word] at hlow
  refine represents_finish h hd hhas (tracks_refineResult ht hd ?_ _ _)
  constructor
  · split_ifs with hk
    · exact (known_between hhas hk).1
    · omega
  · split_ifs with hk
    · exact (known_between hhas hk).2
    · exact (sub_between hhas).2
  · split_ifs with hk
    · exact Nat.lt_of_le_of_lt (known_between hhas hk).1 (lo32_lt _)
    · exact maxValue_trunc32_lt _
  · rintro rfl
    rw [BitOp.run, BitOp.word, BitVec.toNat_or]
    exact Nat.max_le.2 ⟨Nat.le_trans d3 Nat.left_le_or, Nat.le_trans s4 Nat.right_le_or⟩
  · exact fun _ => Tnum.le_maxValue hhas
  · exact BitVec.isLt _

theorem represents_handleXor :
    (handleXor s w dst src).Represents
      (update ρ dst (BitOp.xor.run w (ρ dst) (operandValue ρ src))) := by
  have hhas := BitOp.xor.has_handle w (h.tnum dst) (source_has h src)
  refine represents_finish h hd hhas (tracks_refineResult ht hd ?_ _ _)
  constructor
  · exact (sub_between hhas).1
  · exact (sub_between hhas).2
  · exact maxValue_trunc32_lt _
  · exact fun _ => Tnum.minValue_le hhas
  · exact fun _ => Tnum.le_maxValue hhas
  · exact BitVec.isLt _

end

/-- The bitwise operations are sound in both widths and domains, with an
immediate and with a register. -/
theorem bitwise_sound (h : s.Represents ρ) (hr : s.InRange) (hd : dst.isProgram = true) :
    (handleAnd s w dst src).Represents
      (update ρ dst (BitOp.and.run w (ρ dst) (operandValue ρ src))) ∧
    (handleOr s w dst src).Represents
      (update ρ dst (BitOp.or.run w (ρ dst) (operandValue ρ src))) ∧
    (handleXor s w dst src).Represents
      (update ρ dst (BitOp.xor.run w (ρ dst) (operandValue ρ src))) := by
  have ht := NumericDomain.tracks_of_ready (d := s.domain) ⟨h.domain, hr, h.zero⟩
  exact ⟨represents_handleAnd h ht hd, represents_handleOr h ht hd, represents_handleXor h ht hd⟩

end Handlers

/-- `w1 op= -2` on minus one, from an interval that knows nothing. -/
theorem minus_one_masked :
    (handleAnd unconstrainedInterval .w32 .r1 (.imm (-2))).Represents
      (update minusOne .r1 (BitOp.and.run .w32 (minusOne .r1)
        (operandValue minusOne (.imm (-2))))) ∧
    (handleOr unconstrainedInterval .w32 .r1 (.imm (-2))).Represents
      (update minusOne .r1 (BitOp.or.run .w32 (minusOne .r1)
        (operandValue minusOne (.imm (-2))))) ∧
    (handleXor unconstrainedInterval .w32 .r1 (.imm (-2))).Represents
      (update minusOne .r1 (BitOp.xor.run .w32 (minusOne .r1)
        (operandValue minusOne (.imm (-2))))) :=
  bitwise_sound represents_unconstrainedInterval inRange_unconstrainedInterval (by decide)

end ZoneVerifier.BitwiseTransfer
