import ZoneVerifier.BranchKeep
import ZoneVerifier.OutcomeSound

/-!
# The fallbacks of branch refinement

A comparison that the numeric domain does not take up directly is turned into
an unsigned range, into bounds of the low half, or into known bits. Each of
these keeps every represented valuation that satisfies the comparison. A branch
on `left & mask` clears the bits of the mask on the fall-through side; a mask of
one bit also sets that bit on the taken side.
-/

set_option autoImplicit false

namespace ZoneVerifier.Numeric.NumericDomain
open Word Ast Bounds Concrete
open Constraints (Ready)
open ZoneVerifier.Interval (IntervalState)

def Tracks : NumericDomain → Valuation → Prop
  | zone d, ρ => Zone.Tracks d ρ
  | interval s, ρ => Ready (interval s) ρ

section Chain
variable {d : NumericDomain} {ρ : Valuation} {x : Reg} {c : Int}

theorem tracks_of_ready (h : Ready d ρ) : d.Tracks ρ := by
  cases d with
  | zone d => exact h.tracks
  | interval s => exact h

theorem Tracks.represents (h : d.Tracks ρ) : d.Represents ρ := by
  cases d with
  | zone d => exact Zone.Tracks.represents h
  | interval s => exact h.rep

theorem Tracks.zero (h : d.Tracks ρ) : signedOf ρ .zero = 0 := by
  cases d with
  | zone d => exact Zone.Tracks.zero h
  | interval s => exact Ready.zero h

theorem ready_modifyBounds {s : IntervalState} {f : ScalarBounds → ScalarBounds}
    (h : Ready (interval s) ρ) (hid : ∀ b, ScalarBounds.SameId b (f b))
    (hrange : (f (s.getBounds x)).InRange) (hhas : (f (s.getBounds x)).Has (ρ x).toNat) :
    Ready (interval (s.modifyBounds x f)) ρ := by
  have hids := Interval.idsFrom_modifyBounds (Interval.IdsFrom.refl s) x hid
  refine ⟨(Interval.represents_iff_hasAll h.linked hids).2 ?_,
    Interval.InRange.modifyBounds h.range hrange, h.zero⟩
  exact (Interval.hasAll_modifyBounds_of h.hasAll x f).2 hhas

theorem tracks_synced {s : IntervalState} {f : ScalarBounds → ScalarBounds}
    (h : Ready (interval s) ρ) (hx : x.isProgram = true)
    (hid : ∀ b, ScalarBounds.SameId b (f b).syncBounds) (hrange : (f (s.getBounds x)).InRange)
    (hhas : (f (s.getBounds x)).Has (ρ x).toNat) :
    Tracks (if x = .zero ∨ x.isAnchor then interval s
      else interval (s.modifyBounds x fun b => (f b).syncBounds)) ρ := by
  rw [if_neg (Reg.isProgram_iff.1 hx)]
  exact ready_modifyBounds h hid hrange.syncBounds
    (ScalarBounds.has_syncBounds hrange (ρ x).isLt hhas)

section
variable (h : d.Tracks ρ)
include h

theorem Tracks.assumeGeImm (hc : I64 c) (hv : c ≤ signedOf ρ x) :
    (d.assumeGeImm x c).Tracks ρ := by
  cases d with
  | zone d => exact Zone.Tracks.assumeGeImm h (Zone.geKept_of_le hv)
  | interval s =>
    refine ready_modifyBounds h (ScalarBounds.sameId_assumeSge · c) ((h.range x).assumeSge hc) ?_
    exact (ScalarBounds.has_assumeSge_iff (h.range x) hc (ρ x).isLt (h.hasAll x)).2 hv

theorem Tracks.assumeLeImm_of_keeps (hc : I64 c) (hv : signedOf ρ x ≤ c)
    (hs : d.isInterval = true → (d.tuple x).SleKeeps c (ρ x).toNat) :
    (d.assumeLeImm x c).Tracks ρ := by
  cases d with
  | zone d => exact Zone.Tracks.assumeLeImm h (Zone.leKept_of_le hv)
  | interval s =>
    refine ready_modifyBounds h (ScalarBounds.sameId_assumeSle · c) ((h.range x).assumeSle hc) ?_
    exact (ScalarBounds.has_assumeSle_iff (h.range x) hc (ρ x).isLt (h.hasAll x)).2 ⟨hv, hs rfl⟩

theorem Tracks.assumeLeImm (hc : I64 c) (hv : signedOf ρ x ≤ c)
    (hs : 0 ≤ signedOf ρ x ∨ c < 0) : (d.assumeLeImm x c).Tracks ρ := by
  refine h.assumeLeImm_of_keeps hc hv fun _ => ?_
  rcases hs with hs | hs
  · exact Or.inr (Or.inl hs)
  · exact Or.inl hs

theorem Tracks.setS32Bounds (hx : x.isProgram = true) {lo hi : Int}
    (hlo : I32 lo) (hhi : I32 hi) (h1 : lo ≤ toI32 (ρ x).toNat) (h2 : toI32 (ρ x).toNat ≤ hi) :
    (d.setS32Bounds x lo hi).Tracks ρ := by
  cases d with
  | zone d =>
    have hf := Zone.Tracks.fits h x
    have hfit : Zone.Fits { d.bounds x with s32Min := lo, s32Max := hi } (ρ x).toNat :=
      { hf with
        has := { hf.has with s32Min_le := h1, le_s32Max := h2 }
        s32Max := hhi.2 }
    exact Zone.Tracks.syncBounds (Zone.Tracks.setBounds h hfit) x
  | interval s =>
    exact tracks_synced h hx (fun _ => ScalarBounds.sameId_syncBounds rfl) ((h.range x).meetS32 hlo hhi)
      ((ScalarBounds.has_meetS32 _ _ _ _).2 ⟨h.hasAll x, h1, h2⟩)

theorem Tracks.setU32Bounds (hx : x.isProgram = true) {lo hi : Nat}
    (hhi : hi < 2^32) (h1 : lo ≤ lo32 (ρ x).toNat) (h2 : lo32 (ρ x).toNat ≤ hi) :
    (d.setU32Bounds x lo hi).Tracks ρ := by
  cases d with
  | zone d =>
    have hf := Zone.Tracks.fits h x
    have hfit : Zone.Fits { d.bounds x with u32Min := lo, u32Max := hi } (ρ x).toNat :=
      { hf with
        has := { hf.has with u32Min_le := h1, le_u32Max := h2 }
        u32Max := hhi }
    exact Zone.Tracks.syncBounds (Zone.Tracks.setBounds h hfit) x
  | interval s =>
    have hlo : lo < 2^32 := Nat.lt_of_le_of_lt h1 (lo32_lt _)
    exact tracks_synced h hx (fun _ => ScalarBounds.sameId_syncBounds rfl) ((h.range x).meetU32 hlo)
      ((ScalarBounds.has_meetU32 _ _ _ _).2 ⟨h.hasAll x, h1, h2⟩)

theorem Tracks.setU64Bounds (hx : x.isProgram = true) {lo hi : Nat}
    (h1 : lo ≤ (ρ x).toNat) (h2 : (ρ x).toNat ≤ hi) : (d.setU64Bounds x lo hi).Tracks ρ := by
  cases d with
  | zone d =>
    exact Zone.Tracks.syncBounds (Zone.Tracks.setBounds h ((Zone.Tracks.fits h x).meetU64 h1 h2)) x
  | interval s =>
    have hlo : lo < 2^64 := Nat.lt_of_le_of_lt h1 (ρ x).isLt
    exact tracks_synced h hx (fun _ => ScalarBounds.sameId_syncBounds rfl) ((h.range x).meetU64 hlo)
      ((ScalarBounds.has_meetU64 _ _ _ _).2 ⟨h.hasAll x, h1, h2⟩)

end

end Chain
end ZoneVerifier.Numeric.NumericDomain

namespace ZoneVerifier.Constraints
open Word Ast Bounds Tristate Machine Numeric Concrete Outcome
open ZoneVerifier.Interval (satI32)

section Domain
variable {d : NumericDomain} {ρ : Valuation} {x : Reg}

theorem represents_unsignedRange (h : Ready d ρ) {lo hi : Nat} (hhi : hi < 2^64)
    (h1 : lo ≤ (ρ x).toNat) (h2 : (ρ x).toNat ≤ hi) :
    (applySignedFromUnsignedRange d x lo hi).Represents ρ := by
  unfold applySignedFromUnsignedRange
  rw [if_neg (by omega)]
  by_cases hsign : hi ≤ 2^63 - 1 ∨ 2^63 ≤ lo
  · rw [if_pos hsign]
    have hv : signedOf ρ x = toI64 (ρ x).toNat := rfl
    refine (((NumericDomain.tracks_of_ready h).assumeGeImm (toI64_range (by omega)) ?_).assumeLeImm
      (toI64_range hhi) ?_ ?_).represents <;>
      rw [hv] <;> unfold toI64 <;> split_ifs <;> omega
  · rw [if_neg hsign]
    exact h.rep

theorem represents_rangeSide (h : Ready d ρ) {op : CmpOp} {b : BitVec 64}
    (hcmp : CmpHolds .w64 op (ρ x) b) : (rangeSide d x op b.toNat).Represents ρ := by
  have hb := b.isLt
  cases op with
  | ugt =>
    have hgt : b.toNat < (ρ x).toNat := hcmp
    simp only [rangeSide]
    rw [if_pos (by omega)]
    exact represents_unsignedRange h (by omega) (by omega) (by omega)
  | uge =>
    have hge : b.toNat ≤ (ρ x).toNat := hcmp
    exact represents_unsignedRange h (by omega) hge (by omega)
  | ult =>
    have hlt : (ρ x).toNat < b.toNat := hcmp
    simp only [rangeSide]
    rw [if_pos (by omega)]
    exact represents_unsignedRange h (by omega) (by omega) (by omega)
  | ule =>
    have hle : (ρ x).toNat ≤ b.toNat := hcmp
    exact represents_unsignedRange h hb (by omega) hle
  | eq | ne | slt | sle | sgt | sge | test => exact h.rep

end Domain

section Fallback
variable {s : State} {ρ : Valuation} {left : Reg} {op : CmpOp} {right : Operand}

/-- A register of the program, or an immediate of the machine type. -/
def ValidOperand : Operand → Prop
  | .reg r => r.isProgram = true
  | .imm i => I64 i

theorem represents_withDomain (h : s.Represents ρ) {d : NumericDomain} (hd : d.Represents ρ) :
    { s with domain := d }.Represents ρ :=
  ⟨hd, h.tnum⟩

theorem represents_setTnum (h : s.Represents ρ) {x : Reg} {t : Tnum} (ht : t.Has (ρ x)) :
    (s.setTnum x t).Represents ρ := by
  refine ⟨?_, fun r => ?_⟩
  · unfold State.setTnum
    split_ifs
    · exact h.domain
    · exact h.domain
  · rw [State.getTnum_setTnum]
    split_ifs with hr
    · rw [hr.1]
      exact ht
    · exact h.tnum r

theorem leftConst_sound (h : s.Represents ρ) {k : Int} (hk : leftConst s left = some k) :
    I64 k ∧ BitVec.ofInt 64 k = ρ left := by
  unfold leftConst at hk
  split at hk
  · next k' hf =>
    cases hk
    have hv := NumericDomain.getFixedValue_sound h.domain h.zero hf
    exact ⟨hv ▸ signed_range (ρ left), by rw [← hv, signedOf, ofInt_signed]⟩
  · split_ifs at hk with hc
    cases hk
    have hv := Tnum.eq_value_of_isConst hc (h.tnum left)
    rw [← hv]
    exact ⟨signed_range (ρ left), ofInt_signed (ρ left)⟩

theorem flipUnsignedCmp_eq (h : isSigned op = false) : flipUnsignedCmp op = flipCmpOp op := by
  cases op <;> first | rfl | cases h

theorem represents_unsignedConstSide (hr : s.InRange) (h : s.Represents ρ)
    (ho : isUnsigned op = true) (hcmp : CmpHolds .w64 op (ρ left) (operandValue ρ right)) :
    (unsignedConstSide s left op right).Represents ρ := by
  have hready : Ready s.domain ρ := ⟨h.domain, hr, h.zero⟩
  have hsig : isSigned op = false := by cases op <;> first | rfl | cases ho
  unfold unsignedConstSide
  split
  · next k reg hk =>
    obtain ⟨_, hk⟩ := leftConst_sound h hk
    refine represents_withDomain h ?_
    rw [← toNat_ofInt, hk, flipUnsignedCmp_eq hsig]
    exact represents_rangeSide hready ((cmpHolds_flip .w64 op _ _).2 hcmp)
  · next imm _ =>
    refine represents_withDomain h ?_
    rw [← toNat_ofInt]
    exact represents_rangeSide hready hcmp
  · exact h

theorem fallbackTarget_sound (h : s.Represents ρ) (hl : left.isProgram = true)
    (hop : ValidOperand right) {flip : CmpOp → CmpOp} (hflip : flip op = flipCmpOp op)
    (hcmp : CmpHolds .w32 op (ρ left) (operandValue ρ right)) {target : Reg} {k : Int}
    {op' : CmpOp} (hf : fallbackTarget s left op right flip = some (target, k, op')) :
    target.isProgram = true ∧ I64 k ∧ CmpHolds .w32 op' (ρ target) (BitVec.ofInt 64 k) ∧
      (op' = op ∨ op' = flipCmpOp op) := by
  unfold fallbackTarget at hf
  split at hf
  · next k' reg hk =>
    cases hf
    obtain ⟨hk64, hk⟩ := leftConst_sound h hk
    refine ⟨hop, hk64, ?_, Or.inr hflip⟩
    rw [hk, hflip]
    exact (cmpHolds_flip .w32 op _ _).2 hcmp
  · next imm _ =>
    cases hf
    exact ⟨hl, hop, hcmp, Or.inl rfl⟩
  · next reg _ =>
    obtain ⟨v, hv, heq⟩ := Option.map_eq_some_iff.1 hf
    cases heq
    have hk := NumericDomain.getFixedValue_sound h.domain h.zero hv
    refine ⟨hl, hk ▸ signed_range (ρ reg), ?_, Or.inl rfl⟩
    rw [← hk, signedOf, ofInt_signed]
    exact hcmp

theorem derivedS32_edges (b : ScalarBounds) :
    -2^31 ≤ (NumericDomain.derivedS32 b).1 ∧ (NumericDomain.derivedS32 b).2 < 2^31 := by
  have h1 := toI32_range (toU64 b.smin)
  have h2 := toI32_range (toU64 b.smax)
  unfold I32 at h1 h2
  unfold NumericDomain.derivedS32
  split_ifs <;> dsimp only <;> omega

theorem getS32Bounds_range {d : NumericDomain} (h : Ready d ρ) (x : Reg) :
    I32 (d.getS32Bounds x).1 ∧ I32 (d.getS32Bounds x).2 := by
  obtain ⟨h1, h2⟩ := NumericDomain.getS32Bounds_sound h.rep x
  have hedge : -2^31 ≤ (d.getS32Bounds x).1 ∧ (d.getS32Bounds x).2 < 2^31 := by
    cases d with
    | zone d => exact ⟨(h.range x).s32Min.1, (h.range x).s32Max.2⟩
    | interval ivl =>
      have hd := derivedS32_edges (ivl.getBounds x)
      simp only [NumericDomain.getS32Bounds]
      split_ifs <;> omega
  unfold I32 at *
  omega

theorem getU32Bounds_range {d : NumericDomain} (h : Ready d ρ) (x : Reg) :
    (d.getU32Bounds x).2 < 2^32 := by
  cases d with
  | zone d => exact (h.range x).u32Max
  | interval ivl =>
    have h2 := lo32_lt (ivl.getBounds x).umax
    simp only [NumericDomain.getU32Bounds, NumericDomain.derivedU32]
    split_ifs <;> dsimp only <;> omega

theorem s32Range_sound {n : Nat} {b r : Int × Int} {rv : Int} {a : BitVec 64}
    (hb1 : I32 b.1) (hb2 : I32 b.2) (h1 : b.1 ≤ toI32 a.toNat) (h2 : toI32 a.toNat ≤ b.2)
    (hrv : rv = toI32 n) {v : BitVec 64} (hn : v.toNat = n) (hcmp : CmpHolds .w32 op a v)
    (hr : s32Range op rv b = some r) :
    I32 r.1 ∧ I32 r.2 ∧ r.1 ≤ toI32 a.toNat ∧ toI32 a.toNat ≤ r.2 := by
  have hrr := toI32_range n
  have hv : readS .w32 v = rv := by rw [hrv, ← hn]; rfl
  have hval : readS .w32 a = toI32 a.toNat := rfl
  unfold I32 at *
  cases op with
  | sgt | sge | slt | sle =>
    simp only [s32Range, Option.some.injEq] at hr
    subst hr
    simp only [CmpHolds, hv, hval] at hcmp
    simp only [satI32]
    omega
  | eq | ne | uge | ule | ugt | ult | test => cases hr

theorem u32Range_sound {b r : Nat × Nat} {a v : BitVec 64} (hb2 : b.2 < 2^32)
    (h1 : b.1 ≤ lo32 a.toNat) (h2 : lo32 a.toNat ≤ b.2) (hcmp : CmpHolds .w32 op a v)
    (hr : u32Range op (lo32 v.toNat) b = some r) :
    r.2 < 2^32 ∧ r.1 ≤ lo32 a.toNat ∧ lo32 a.toNat ≤ r.2 := by
  cases op with
  | ugt | uge | ult | ule | eq =>
    simp only [u32Range, Option.some.injEq] at hr
    subst hr
    simp only [CmpHolds, readU] at hcmp
    try split_ifs
    all_goals
      omega
  | ne =>
    simp only [u32Range, Option.some.injEq, bumpNe] at hr
    subst hr
    simp only [CmpHolds, readU] at hcmp
    split_ifs <;> omega
  | slt | sle | sgt | sge | test => cases hr

theorem represents_w32SignedSide (hr : s.InRange) (h : s.Represents ρ) (hl : left.isProgram = true)
    (hop : ValidOperand right) (ho : isSigned op = true)
    (hcmp : CmpHolds .w32 op (ρ left) (operandValue ρ right)) :
    (w32SignedSide s left op right).Represents ρ := by
  have hready : Ready s.domain ρ := ⟨h.domain, hr, h.zero⟩
  have hun : isUnsigned op = false := by cases op <;> first | rfl | cases ho
  unfold w32SignedSide
  split
  · exact h
  · next target k op' hf =>
    obtain ⟨ht, _, hcmp', _⟩ := fallbackTarget_sound h hl hop
      (by cases op <;> first | rfl | cases hun) hcmp hf
    split
    · exact h
    · next b hb =>
      obtain ⟨r1, r2⟩ := getS32Bounds_range hready target
      obtain ⟨s1, s2⟩ := NumericDomain.getS32Bounds_sound h.domain target
      obtain ⟨i1, i2, i3, i4⟩ := s32Range_sound r1 r2 s1 s2 rfl (toNat_ofInt k) hcmp' hb
      have htracks := NumericDomain.tracks_of_ready hready
      exact represents_withDomain h (htracks.setS32Bounds ht i1 i2 i3 i4).represents

theorem represents_refineSubregTnum (h : s.Represents ρ) {x : Reg} {lo hi : Nat} (hhi : hi < 2^32)
    (h1 : lo ≤ lo32 (ρ x).toNat) (h2 : lo32 (ρ x).toNat ≤ hi) :
    (refineSubregTnum s x lo hi).Represents ρ := by
  have hlow : (ρ x &&& 0xFFFFFFFF).toNat = lo32 (ρ x).toNat := toNat_and_low (ρ x)
  have hrange : (Tnum.fromRange (BitVec.ofNat 64 lo) (BitVec.ofNat 64 hi)).Has
      (ρ x &&& 0xFFFFFFFF) := by
    apply Tnum.has_fromRange
    · rw [hlow, BitVec.toNat_ofNat, Nat.mod_eq_of_lt (by omega)]
      exact h1
    · rw [hlow, BitVec.toNat_ofNat, Nat.mod_eq_of_lt (by omega)]
      exact h2
  obtain ⟨new, hnew, hhas⟩ := Tnum.has_intersect (Tnum.has_trunc32 (h.tnum x)) hrange
  unfold refineSubregTnum
  rw [if_neg (by omega)]
  dsimp only
  rw [hnew]
  exact represents_setTnum h (Tnum.has_recombine (h.tnum x) hhas)

theorem represents_w32UnsignedSide (hr : s.InRange) (h : s.Represents ρ)
    (hl : left.isProgram = true) (hop : ValidOperand right) (ho : isSigned op = false)
    (hcmp : CmpHolds .w32 op (ρ left) (operandValue ρ right)) :
    (w32UnsignedSide s left op right).Represents ρ := by
  have hready : Ready s.domain ρ := ⟨h.domain, hr, h.zero⟩
  unfold w32UnsignedSide
  split
  · exact h
  · next target k op' hf =>
    obtain ⟨ht, _, hcmp', _⟩ := fallbackTarget_sound h hl hop (flipUnsignedCmp_eq ho) hcmp hf
    split
    · exact h
    · next b hb =>
      obtain ⟨s1, s2⟩ := NumericDomain.getU32Bounds_sound h.domain target
      obtain ⟨i2, i3, i4⟩ := u32Range_sound (getU32Bounds_range hready target) s1 s2 hcmp' hb
      have hd := (NumericDomain.tracks_of_ready hready).setU32Bounds ht i2 i3 i4
      exact represents_refineSubregTnum (represents_withDomain h hd.represents) i2 i3 i4

end Fallback
end ZoneVerifier.Constraints

namespace ZoneVerifier.Constraints
open Word Ast Bounds Tristate Machine Numeric Concrete Outcome

variable {m a : BitVec 64}

theorem isPowerOfTwo_cases (h : isPowerOfTwo m = true) :
    ∃ k, m = BitVec.twoPow 64 k ∧ m.toNat.log2 = k ∧ k < 64 := by
  unfold isPowerOfTwo at h
  simp only [Bool.and_eq_true, bne_iff_ne, ne_eq, beq_iff_eq] at h
  obtain ⟨h0, hm⟩ := h
  have hn0 : m.toNat ≠ 0 := fun h => h0 (BitVec.eq_of_toNat_eq h)
  have hpos : 1 ≤ m.toNat := Nat.one_le_iff_ne_zero.2 hn0
  have hnat : m.toNat &&& (m.toNat - 1) = 0 := by
    have := congrArg BitVec.toNat hm
    rwa [BitVec.toNat_and, BitVec.toNat_sub_of_le (by rw [BitVec.le_def]; exact hpos)] at this
  obtain ⟨k, hk⟩ := (Nat.and_sub_one_eq_zero_iff_isPowerOfTwo hn0).1 hnat
  have hlt : k < 64 := by
    have := m.isLt
    rw [hk] at this
    exact (Nat.pow_lt_pow_iff_right (by decide)).1 this
  refine ⟨k, BitVec.eq_of_toNat_eq ?_, by rw [hk, Nat.log2_two_pow], hlt⟩
  rw [hk, BitVec.toNat_twoPow, Nat.mod_eq_of_lt (Nat.pow_lt_pow_right (by decide) hlt)]

theorem cmpHolds_test_iff {w : Width} {b : BitVec 64} (hm : m = widthBits w b) :
    CmpHolds w .test a b ↔ a &&& m ≠ 0 := by
  have hlow : a &&& widthBits w b = widthBits w (a &&& b) := by
    cases w with
    | w64 => rfl
    | w32 => exact (BitVec.and_assoc a b _).symm
  simp only [CmpHolds]
  rw [← toNat_widthBits, ← hlow, ← hm, ne_eq, ne_eq, not_iff_not]
  exact ⟨fun h => BitVec.eq_of_toNat_eq h, fun h => by rw [h]; rfl⟩

theorem and_twoPow_of_ne {k : Nat} (h : a &&& BitVec.twoPow 64 k ≠ 0) :
    a &&& BitVec.twoPow 64 k = BitVec.twoPow 64 k ∧ a.getLsbD k = true := by
  rw [BitVec.and_twoPow] at *
  split_ifs at * with hb
  · exact ⟨rfl, hb⟩
  · exact absurd rfl h

theorem bit_of_and_twoPow {k : Nat} (hk : k < 64)
    (h : a &&& BitVec.twoPow 64 k = 0) : a.getLsbD k = false := by
  rw [BitVec.and_twoPow] at h
  split_ifs at h with hb
  · have := congrArg (fun v : BitVec 64 => v.getLsbD k) h
    simp [hk] at this
  · simpa using hb

theorem getLsbD_eq_decide (a : BitVec 64) (k : Nat) :
    a.getLsbD k = decide (a.toNat / 2^k % 2 = 1) :=
  Nat.testBit_eq_decide_div_mod_eq

section Domain
variable {d : NumericDomain} {ρ : Valuation} {x : Reg}

theorem represents_assumeLtZero (h : Ready d ρ) (hv : signedOf ρ x < 0) :
    (d.assumeLtImm x 0).Represents ρ := by
  cases d with
  | zone d =>
    exact (h.tracks.assumeLtImm (by decide) (Zone.leKept_of_le (by omega))).represents
  | interval s =>
    have hle : (NumericDomain.interval s).assumeLtImm x 0 = .interval (s.modifyBounds x
        (·.assumeSle (-1))) := rfl
    rw [hle]
    exact ((NumericDomain.tracks_of_ready h).assumeLeImm (by decide) (by omega)
      (Or.inr (by decide))).represents

end Domain

section State
variable {s : State} {ρ : Valuation} {left : Reg} {w : Width} {right : Operand}

theorem testMask_sound (h : s.Represents ρ) (hm : testMask s w right = some m) :
    m = widthBits w (operandValue ρ right) := by
  cases right with
  | imm i =>
    cases hm
    exact immValue_eq w i
  | reg r =>
    obtain ⟨k, hk, rfl⟩ := Option.map_eq_some_iff.1 hm
    have hv := NumericDomain.getFixedValue_sound h.domain h.zero hk
    rw [immValue_eq, ← hv, signedOf, ofInt_signed]
    rfl

theorem domain_setTnum (s : State) (x : Reg) (t : Tnum) : (s.setTnum x t).domain = s.domain := by
  unfold State.setTnum
  split_ifs
  · rfl
  · rfl

theorem sign_of_bit : 0 ≤ signed a ↔ a.getLsbD 63 = false := by
  rw [getLsbD_eq_decide, decide_eq_false_iff_not]
  unfold signed toI64
  split_ifs <;> omega

theorem low_of_bit (h0 : 0 ≤ signed a) (h1 : signed a ≤ 0xFFFFFFFF) :
    signed a ≤ 0x7FFFFFFF ↔ a.getLsbD 31 = false := by
  have hv := toNat_of_signed_nonneg h0
  rw [getLsbD_eq_decide, decide_eq_false_iff_not]
  omega

theorem fitsInU32Range_sound (h : s.Represents ρ) (hf : s.domain.fitsInU32Range left = true) :
    0 ≤ signedOf ρ left ∧ signedOf ρ left ≤ 0xFFFFFFFF := by
  obtain ⟨h1, h2⟩ := NumericDomain.getInterval_sound h.domain h.zero left
  obtain ⟨-, -, hlo, hhi⟩ := of_decide_eq_true hf
  exact ⟨hlo.trans h1, h2.trans hhi⟩

theorem represents_applyTestConstraints (hr : s.InRange) (h : s.Represents ρ) :
    (CmpHolds w .test (ρ left) (operandValue ρ right) →
      (applyTestConstraints s s left w right).1.Represents ρ) ∧
    (¬ CmpHolds w .test (ρ left) (operandValue ρ right) →
      (applyTestConstraints s s left w right).2.Represents ρ) := by
  have hready : Ready s.domain ρ := ⟨h.domain, hr, h.zero⟩
  have htracks := NumericDomain.tracks_of_ready hready
  unfold applyTestConstraints
  cases hm : testMask s w right with
  | none => exact ⟨fun _ => h, fun _ => h⟩
  | some m =>
    rw [cmpHolds_test_iff (testMask_sound h hm), not_not]
    have helse : ρ left &&& m = 0 → (s.setTnum left ⟨(s.getTnum left).value &&& ~~~m,
        (s.getTnum left).mask &&& ~~~m⟩).Represents ρ := fun h0 =>
      represents_setTnum h (Tnum.has_clear (h.tnum left) h0)
    dsimp only
    by_cases hp : isPowerOfTwo m = true
    · obtain ⟨k, rfl, hlog, hk⟩ := isPowerOfTwo_cases hp
      have hthen : ρ left &&& BitVec.twoPow 64 k ≠ 0 →
          (s.setTnum left ⟨(s.getTnum left).value ||| BitVec.twoPow 64 k,
            (s.getTnum left).mask &&& ~~~BitVec.twoPow 64 k⟩).Represents ρ := fun h1 =>
        represents_setTnum h (Tnum.has_set (h.tnum left) (and_twoPow_of_ne h1).1)
      rw [if_pos hp, hlog]
      simp only [domain_setTnum]
      by_cases h32 : w = .w32 ∧ k = 31
      · obtain ⟨rfl, rfl⟩ := h32
        rw [if_pos ⟨rfl, rfl⟩]
        by_cases hf : s.domain.fitsInU32Range left = true
        · obtain ⟨h0, hmax⟩ := fitsInU32Range_sound h hf
          have hbit := low_of_bit h0 hmax
          rw [if_pos hf]
          refine ⟨fun h1 => represents_withDomain (hthen h1) ?_,
            fun h1 => represents_withDomain (helse h1) ?_⟩
          · refine (htracks.assumeGeImm (by decide) ?_).represents
            have hset := (and_twoPow_of_ne h1).2
            have hnot : ¬ signed (ρ left) ≤ 0x7FFFFFFF := fun hle => by
              rw [hbit.1 hle] at hset
              cases hset
            change ¬ signedOf ρ left ≤ 0x7FFFFFFF at hnot
            omega
          · refine (htracks.assumeLeImm (by decide) ?_ (Or.inl h0)).represents
            exact hbit.2 (bit_of_and_twoPow (by decide) h1)
        · rw [if_neg hf]
          exact ⟨hthen, helse⟩
      · rw [if_neg h32]
        by_cases h64 : w = .w64 ∧ k = 63
        · obtain ⟨rfl, rfl⟩ := h64
          rw [if_pos ⟨rfl, rfl⟩]
          refine ⟨fun h1 => represents_withDomain (hthen h1) ?_,
            fun h1 => represents_withDomain (helse h1) ?_⟩
          · refine represents_assumeLtZero hready ?_
            have hset := (and_twoPow_of_ne h1).2
            refine Int.not_le.1 fun h0 => ?_
            rw [sign_of_bit.1 h0] at hset
            cases hset
          · refine (htracks.assumeGeImm (by decide) ?_).represents
            exact sign_of_bit.2 (bit_of_and_twoPow (by decide) h1)
        · rw [if_neg h64]
          exact ⟨hthen, helse⟩
    · rw [if_neg hp]
      exact ⟨fun _ => h, helse⟩

end State
end ZoneVerifier.Constraints
