import ZoneVerifier.ArshTransfer
import ZoneVerifier.RegExec

/-!
# Masks and negation

`apply_and_imm` bounds a register by a mask, `apply_neg` turns its interval around
(`domains/zone/ops.rs`, `domains/interval/ops.rs`), and `handle_neg`
(`analysis/transfer/alu/arithmetic.rs`) keeps the low half of the old tristate
number for a 32-bit negation. Negation flips every bit above the lowest set one,
so that number is right exactly if it knows none of them.
-/

set_option autoImplicit false

open Function (update update_self)

namespace ZoneVerifier.Zone
open Ast

def applyAndImm (d : Dbm) (dst : Reg) (mask : Int) : Dbm :=
  (((d.forgetVar dst).addConstraint dst .zero mask).addConstraint .zero dst 0).close

def applyNeg (d : Dbm) (reg : Reg) : Dbm :=
  let (l, h) := getInterval d reg
  let d := forget d reg
  if l ≠ -2^63 ∧ h ≠ 2^63 - 1 then
    assumeLeImm (assumeGeImm d reg (Word.wrapI64 (-h))) reg (Word.wrapI64 (-l))
  else d

end ZoneVerifier.Zone

namespace ZoneVerifier.Interval
open Word Ast Bounds Concrete

def maskEnds (mask : Int) : ScalarBounds :=
  { ScalarBounds.unknown with smin := 0, smax := mask, umin := 0, umax := toU64 mask }

def applyAndImm (s : IntervalState) (dst : Reg) (mask : Int) : IntervalState :=
  if dst = .zero ∨ dst.isAnchor then s
  else
    s.update dst
      { bounds := if 0 ≤ mask then (maskEnds mask).forget32ThenSync else ScalarBounds.unknown
        ptrOffset := none }

def negEnds (b : ScalarBounds) : ScalarBounds :=
  { ScalarBounds.unknown with smin := wrapI64 (-b.smax), smax := wrapI64 (-b.smin) }

def applyNeg (s : IntervalState) (reg : Reg) : IntervalState :=
  if reg = .zero ∨ reg.isAnchor then s
  else
    let b := s.getBounds reg
    if b.smin = -2^63 ∨ b.smax = -2^63 then s.forget reg
    else if wrapI64 (-b.smin) < wrapI64 (-b.smax) then s.forget reg
    else s.update reg { bounds := (negEnds b).forget32ThenSync, ptrOffset := none }

end ZoneVerifier.Interval

namespace ZoneVerifier.Numeric.NumericDomain
open Word Ast Bounds Concrete

def applyAndImm : NumericDomain → Reg → Int → NumericDomain
  | zone d, dst, mask => zone (Zone.applyAndImm d dst mask)
  | interval s, dst, mask => interval (Interval.applyAndImm s dst mask)

def applyNeg : NumericDomain → Reg → NumericDomain
  | zone d, reg => zone (Zone.applyNeg d reg)
  | interval s, reg => interval (Interval.applyNeg s reg)

section Overwrite
variable {d : NumericDomain} {ρ : Valuation} {x : Reg} {v : BitVec 64}

theorem Tracks.applyAndImm (h : d.Tracks ρ) (hx : x.isProgram = true) {mask : Int}
    (hm : mask < 2^63) (hv : (v.toNat : Int) ≤ mask) :
    (d.applyAndImm x mask).Tracks (update ρ x v) := by
  have hs : signed v = v.toNat := toI64_of_lt (by omega)
  cases d with
  | zone d =>
    have hx' := not_or.1 (Reg.isProgram_iff.1 hx)
    have hf := Zone.Tracks.forgetVar (v := v) h hx'.1
    have hval : signedOf (update ρ x v) x = v.toNat := by
      rw [signedOf, update_self, hs]
    have h1 := hf.addConstraint (i := x) (j := .zero) (c := mask)
      (Zone.asserted_of_le (by rw [hf.zero, hval]; omega))
    exact (h1.addConstraint (Zone.asserted_of_le (by rw [hf.zero, hval]; omega))).close
  | interval s =>
    have hmask : 0 ≤ mask := by omega
    have hu : toU64 mask = mask.toNat := by
      unfold toU64
      omega
    have hr : (Interval.maskEnds mask).InRange := by
      have hun : ScalarBounds.unknown.InRange := by decide
      refine { hun with smin := ?_, smax := ?_, umin := ?_, umax := toU64_lt mask }
      · exact (by decide : I64 0)
      · exact (by unfold I64; omega : I64 mask)
      · exact (by decide : 0 < 2^64)
    have hhas : (Interval.maskEnds mask).Has v.toNat := by
      refine { ScalarBounds.has_unknown v.isLt with
        smin_le := ?_, le_smax := ?_, umin_le := Nat.zero_le _, le_umax := ?_ }
      · exact (by omega : (0 : Int) ≤ signed v)
      · exact (by omega : signed v ≤ mask)
      · show v.toNat ≤ toU64 mask
        omega
    show (interval (Interval.applyAndImm s x mask)).Tracks _
    unfold Interval.applyAndImm
    rw [if_neg (Reg.isProgram_iff.1 hx), if_pos hmask]
    exact ready_update h hx (ScalarBounds.has_syncBounds hr v.isLt hhas) hr.syncBounds
      (ScalarBounds.scalarId_syncBounds _)

theorem Tracks.applyLowMask (h : d.Tracks ρ) (hx : x.isProgram = true) (hv : v.toNat < 2^32) :
    (d.applyAndImm x 0xFFFFFFFF).Tracks (update ρ x v) :=
  h.applyAndImm hx (by decide) (by omega)

end Overwrite

section Neg
variable {d : NumericDomain} {ρ : Valuation} {x : Reg}

theorem signed_neg {v : BitVec 64} (h : signed v ≠ -2^63) : signed (-v) = -signed v := by
  unfold signed toI64 at *
  rw [BitVec.toNat_neg]
  split_ifs at * <;> omega

theorem neg_between {v : BitVec 64} {lo hi : Int} (hlo : I64 lo) (hhi : I64 hi) (hne : lo ≠ -2^63)
    (h1 : lo ≤ signed v) (h2 : signed v ≤ hi) :
    wrapI64 (-hi) ≤ signed (-v) ∧ signed (-v) ≤ wrapI64 (-lo) ∧ wrapI64 (-hi) = -hi := by
  unfold I64 at hlo hhi
  rw [signed_neg (by omega), wrapI64_of_range (x := -hi) (by omega) (by omega),
    wrapI64_of_range (x := -lo) (by omega) (by omega)]
  omega

theorem Tracks.applyNeg (h : d.Tracks ρ) (hx : x.isProgram = true) :
    (d.applyNeg x).Tracks (update ρ x (-ρ x)) := by
  cases d with
  | zone d =>
    obtain ⟨hl, hu⟩ := getInterval_sound h.represents h.zero x
    obtain ⟨hlo, hhi⟩ := h.getInterval_range x
    have hf : Zone.Tracks (Zone.forget d x) (update ρ x (-ρ x)) := h.forget hx
    have hval : signedOf (update ρ x (-ρ x)) x = signed (-ρ x) := by
      rw [signedOf, update_self]
    show Zone.Tracks (Zone.applyNeg d x) _
    unfold Zone.applyNeg
    dsimp only
    split
    case isTrue hfin =>
      obtain ⟨h1, h2, -⟩ := neg_between hlo hhi hfin.1 hl hu
      have hge := hf.assumeGeImm (Zone.geKept_of_le (hval ▸ h1))
      exact hge.assumeLeImm (Zone.leKept_of_le (hval ▸ h2))
    case isFalse => exact hf
  | interval s =>
    have hb := h.rep.has x
    have hr := h.range x
    have hforget : (interval (s.forget x)).Tracks (update ρ x (-ρ x)) :=
      Tracks.forget (d := interval s) h hx
    show (interval (Interval.applyNeg s x)).Tracks _
    unfold Interval.applyNeg
    rw [if_neg (Reg.isProgram_iff.1 hx)]
    dsimp only
    split
    case isTrue => exact hforget
    case isFalse hmin =>
      obtain ⟨h1, h2, -⟩ := neg_between hr.smin hr.smax (not_or.1 hmin).1 hb.smin_le hb.le_smax
      split
      case isTrue => exact hforget
      case isFalse =>
        have hrange : (Interval.negEnds (s.getBounds x)).InRange :=
          { (by decide : ScalarBounds.unknown.InRange) with
            smin := wrapI64_range _, smax := wrapI64_range _ }
        have hhas := ScalarBounds.has_syncBounds hrange (-ρ x).isLt
          { ScalarBounds.has_unknown (-ρ x).isLt with smin_le := h1, le_smax := h2 }
        exact ready_update h hx hhas hrange.syncBounds (ScalarBounds.scalarId_syncBounds _)

end Neg

end ZoneVerifier.Numeric.NumericDomain

namespace ZoneVerifier.NegTransfer
open Ast Concrete Tristate Machine RegExec ShiftTransfer
open Numeric (NumericDomain)

def handleNeg (s : State) (w : Width) (dst : Reg) : State :=
  let d := s.domain.applyNeg dst
  let d := if w = .w32 then d.applyAndImm dst 0xFFFFFFFF else d
  State.setTnum { s with domain := d } dst
    (if w = .w32 then (s.getTnum dst).trunc32 else Tnum.unknown)

/-- The tristate number knows no bit of the low half above the lowest bit that
is set. -/
def LowestOnly (t : Tnum) (x : BitVec 64) : Prop :=
  ∀ i < 32, t.mask.getLsbD i = false → ∀ j < i, x.getLsbD j = false

theorem getLsbD_neg_low (x y : BitVec 64) {i : Nat} (hi : i < 32) :
    (aluResult .w32 .neg x y).getLsbD i = (x.getLsbD i ^^ decide (∃ j < i, x.getLsbD j = true)) := by
  have hj : (∃ j < i, (x.setWidth 32).getLsbD j = true) ↔ ∃ j < i, x.getLsbD j = true := by
    refine exists_congr fun j => and_congr_right fun hji => ?_
    rw [BitVec.getLsbD_setWidth, decide_eq_true (Nat.lt_trans hji hi), Bool.true_and]
  show ((-x.setWidth 32).setWidth 64).getLsbD i = _
  rw [BitVec.getLsbD_setWidth, BitVec.getLsbD_neg, BitVec.getLsbD_setWidth]
  simp only [hj, hi, Nat.lt_trans hi (by decide : 32 < 64), decide_true, Bool.true_and]

theorem getLsbD_neg_high (x y : BitVec 64) {i : Nat} (hi : ¬ i < 32) :
    (aluResult .w32 .neg x y).getLsbD i = false := by
  show ((-x.setWidth 32).setWidth 64).getLsbD i = false
  rw [BitVec.getLsbD_setWidth, BitVec.getLsbD_of_ge _ _ (Nat.not_lt.1 hi), Bool.and_false]

theorem trunc32_has_neg_iff {t : Tnum} {x : BitVec 64} (ht : t.Has x) (y : BitVec 64) :
    t.trunc32.Has (aluResult .w32 .neg x y) ↔ LowestOnly t x := by
  have hmask (i : Nat) : t.trunc32.mask.getLsbD i = (t.mask.getLsbD i && decide (i < 32)) :=
    Tnum.BitOp.getLsbD_and_low _ i
  have hlow (i : Nat) : (x &&& 0xFFFFFFFF).getLsbD i = (x.getLsbD i && decide (i < 32)) :=
    Tnum.BitOp.getLsbD_and_low _ i
  rw [Tnum.has_iff_agree (Tnum.has_trunc32 ht)]
  constructor
  · intro h i hi hm j hj
    have hagree := h i (Nat.lt_trans hi (by decide)) (by rw [hmask, hm, Bool.false_and])
    rw [hlow, getLsbD_neg_low x y hi, decide_eq_true hi, Bool.and_true] at hagree
    by_contra hset
    have hex : ∃ j < i, x.getLsbD j = true := ⟨j, hj, Bool.eq_true_of_not_eq_false hset⟩
    rw [decide_eq_true hex, Bool.xor_true] at hagree
    exact Bool.not_ne_self _ hagree
  · intro h i _ hm
    rw [hlow]
    by_cases hi : i < 32
    · rw [hmask, decide_eq_true hi, Bool.and_true] at hm
      have hnone : ¬ ∃ j < i, x.getLsbD j = true := by
        rintro ⟨j, hj, hset⟩
        exact absurd (h i hi hm j hj) (by rw [hset]; decide)
      rw [getLsbD_neg_low x y hi, decide_eq_false hnone, Bool.xor_false, decide_eq_true hi,
        Bool.and_true]
    · rw [getLsbD_neg_high x y hi, decide_eq_false hi, Bool.and_false]

section Handler
variable {s : State} {ρ : Valuation} {dst : Reg}

/-- The bounds always follow the negation; the tristate number of a 32-bit one
does exactly if nothing above the lowest set bit was known. -/
theorem handleNeg_represents_iff (h : s.Represents ρ) (hr : s.InRange) (hd : dst.isProgram = true)
    (w : Width) (y : BitVec 64) :
    (handleNeg s w dst).Represents (update ρ dst (aluResult w .neg (ρ dst) y)) ↔
      w = .w64 ∨ LowestOnly (s.getTnum dst) (ρ dst) := by
  have ht := NumericDomain.tracks_of_ready (d := s.domain) ⟨h.domain, hr, h.zero⟩
  have h64 := ht.applyNeg hd
  rw [handleNeg, State.represents_write_iff h hd]
  cases w with
  | w64 =>
    simp only [reduceCtorEq, if_false, true_or, iff_true]
    exact ⟨h64.represents, Tnum.has_unknown _⟩
  | w32 =>
    have h32 := h64.applyLowMask hd (aluResult_w32_lt .neg (ρ dst) y)
    rw [Function.update_idem] at h32
    simp only [reduceCtorEq, if_true, false_or]
    rw [trunc32_has_neg_iff (h.tnum dst)]
    exact and_iff_right h32.represents

end Handler

def one : Valuation
  | .r1 => 1
  | _ => 0

def holdingOne : State :=
  State.setTnum
    { unconstrainedInterval with domain := unconstrainedInterval.domain.assumeEqImm .r1 1 }
    .r1 (Tnum.constant 1)

theorem tracks_holdingOne : (unconstrainedInterval.domain.assumeEqImm .r1 1).Tracks one := by
  have ht := NumericDomain.tracks_of_ready (d := unconstrainedInterval.domain) (ρ := one)
    ⟨represents_newInterval rfl, inRange_unconstrainedInterval, by decide⟩
  exact ht.assumeEqImm (by decide) (by decide)

theorem represents_holdingOne : holdingOne.Represents one := by
  have hnew : unconstrainedInterval.Represents one := represents_new (represents_newInterval rfl) rfl
  have hwrite := (State.represents_write_iff hnew (by decide : Reg.r1.isProgram = true) (v := 1)
    (unconstrainedInterval.domain.assumeEqImm .r1 1) (Tnum.constant 1)).2
  rw [show update one .r1 1 = one from Function.update_eq_self _ _] at hwrite
  exact hwrite ⟨tracks_holdingOne.represents, (Tnum.has_constant_iff 1 1).2 rfl⟩

theorem inRange_holdingOne : holdingOne.InRange := by
  have hdom : holdingOne.domain = unconstrainedInterval.domain.assumeEqImm .r1 1 :=
    Constraints.domain_setTnum _ _ _
  rw [State.InRange, hdom]
  exact tracks_holdingOne.range

/-- `w1 = -w1` turns one into `0xFFFFFFFF`, and the tristate number still has
one. -/
theorem negated_one_lost :
    holdingOne.Represents one ∧ holdingOne.InRange ∧
      ¬ (handleNeg holdingOne .w32 .r1).Represents
        (update one .r1 (aluResult .w32 .neg (one .r1) 0)) := by
  refine ⟨represents_holdingOne, inRange_holdingOne, fun h => ?_⟩
  have ht := ((State.represents_write_iff represents_holdingOne (by decide) _ _).1 h).2
  exact absurd ht (by decide)

theorem minus_one_negated :
    (handleNeg unconstrainedInterval .w32 .r1).Represents
      (update minusOne .r1 (aluResult .w32 .neg (minusOne .r1) 0)) := by
  refine (handleNeg_represents_iff represents_unconstrainedInterval inRange_unconstrainedInterval
    (by decide) .w32 0).2 (Or.inr fun i hi hm => ?_)
  have hones : (unconstrainedInterval.getTnum .r1).mask.getLsbD i = true := by
    show (BitVec.allOnes 64).getLsbD i = true
    rw [BitVec.getLsbD_allOnes]
    exact decide_eq_true (by omega)
  exact absurd (hones.symm.trans hm) (by decide)

end ZoneVerifier.NegTransfer
