import ZoneVerifier.Constraints
import ZoneVerifier.IntervalKeep

/-!
# What a branch refinement keeps

For each refinement of a branch, the valuations it keeps among those
represented before. The zone domain keeps a valuation when the signed
comparison holds of it. The interval domain cuts a register at the signed
bounds of the other operand, and an upper cut can lose negative words.
-/

set_option autoImplicit false

namespace ZoneVerifier.Interval
open Ast Bounds

theorem getBounds_assumeEqImm (s : IntervalState) {x : Reg} (hx : x.isProgram = true) (c : Int)
    (r : Reg) : (assumeEqImm s x c).getBounds r =
      if r = x then ScalarBounds.constant c else s.getBounds r := by
  have hnot := not_or.1 (Reg.isProgram_iff.1 hx)
  unfold assumeEqImm
  rw [if_pos hnot, IntervalState.set, if_pos hnot.1]
  unfold IntervalState.update IntervalState.getBounds
  dsimp only
  by_cases hr : r = x
  · rw [if_pos hr, if_pos hr]
  · rw [if_neg hr, if_neg hr]

end ZoneVerifier.Interval

namespace ZoneVerifier.Constraints
open Word Ast Bounds Numeric Concrete
open ZoneVerifier.Interval (IntervalState linkedRegs linkClass modifyAll HasAll Loose Linked IdsFrom
  IdsFrom.refl bumpMin bumpMax bumpMin_le le_bumpMax)

section Linked
variable {s : IntervalState}

theorem foldl_interval {apply : NumericDomain → Reg → NumericDomain}
    {f : ScalarBounds → ScalarBounds}
    (happ : ∀ s r, apply (.interval s) r = .interval (s.modifyBounds r f)) (rs : List Reg)
    (s : IntervalState) : rs.foldl apply (.interval s) = .interval (modifyAll s rs f) := by
  induction rs generalizing s with
  | nil => rfl
  | cons r rs ih =>
    rw [List.foldl_cons, happ]
    exact ih _

theorem applyLinked_interval {apply : NumericDomain → Reg → NumericDomain}
    {f : ScalarBounds → ScalarBounds}
    (happ : ∀ s r, apply (.interval s) r = .interval (s.modifyBounds r f))
    (hf : ∀ b, ScalarBounds.SameId b (f b)) (s : IntervalState) (x : Reg) :
    applyLinked (.interval s) x apply = .interval (modifyAll s (linkClass s x) f) := by
  have hlink : linkedRegs (s.modifyBounds x f) x = linkedRegs s x :=
    Interval.linkedRegs_congr fun r => Interval.sameId_modifyBounds hf x r
  unfold applyLinked
  rw [happ]
  show (linkedRegs (s.modifyBounds x f) x).foldl apply (.interval (s.modifyBounds x f)) = _
  rw [hlink, foldl_interval happ]
  rfl

theorem assumeGeLinked_interval (s : IntervalState) (x : Reg) (c : Int) :
    assumeGeLinked (.interval s) x c =
      .interval (modifyAll s (linkClass s x) (·.assumeSge c)) :=
  applyLinked_interval (fun _ _ => rfl) (fun b => ScalarBounds.sameId_assumeSge b c) s x

theorem assumeLeLinked_interval (s : IntervalState) (x : Reg) (c : Int) :
    assumeLeLinked (.interval s) x c =
      .interval (modifyAll s (linkClass s x) (·.assumeSle c)) :=
  applyLinked_interval (fun _ _ => rfl) (fun b => ScalarBounds.sameId_assumeSle b c) s x

theorem assumeLtLinked_interval (s : IntervalState) (x : Reg) {c : Int} (hc : c ≠ -2^63) :
    assumeLtLinked (.interval s) x c =
      .interval (modifyAll s (linkClass s x) (·.assumeSle (c - 1))) := by
  refine applyLinked_interval (fun s r => ?_) (fun b => ScalarBounds.sameId_assumeSle b (c - 1)) s x
  show NumericDomain.interval (Interval.assumeLtImm s r c) = _
  rw [Interval.assumeLtImm, if_pos hc]

end Linked

section Kept
variable {s : IntervalState} (d : NumericDomain)

/-- The signed bound `c ≤ v` as the domain records it. -/
def geImmKept (c v : Int) : Prop :=
  match d with
  | .zone _ => Zone.GeKept c v
  | .interval _ => c ≤ v

/-- The words an upper signed bound `c` does not lose. -/
def capKept (ρ : Valuation) (x : Reg) (c : Int) : Prop :=
  match d with
  | .zone _ => True
  | .interval s => Interval.CapKept s ρ x c

def leKept (ρ : Valuation) (x y : Reg) : Prop :=
  match d with
  | .zone _ => signedOf ρ x ≤ signedOf ρ y
  | .interval s => Interval.LeKept s ρ x y

def gtKept (ρ : Valuation) (x y : Reg) : Prop :=
  match d with
  | .zone _ => signedOf ρ y < signedOf ρ x
  | .interval s => Interval.GtKept s ρ x y

def ltKept (ρ : Valuation) (x y : Reg) : Prop :=
  match d with
  | .zone _ => signedOf ρ x < signedOf ρ y
  | .interval s => Interval.LtKept s ρ x y

def eqKept (ρ : Valuation) (x y : Reg) : Prop :=
  match d with
  | .zone _ => signedOf ρ x = signedOf ρ y
  | .interval s => Interval.EqKept s ρ x y

variable {d : NumericDomain} {ρ : Valuation} {x y : Reg} {c : Int}

theorem geImmKept_of_le (h : c ≤ signedOf ρ x) : geImmKept d c (signedOf ρ x) := by
  cases d with
  | zone d => exact Zone.geKept_of_le h
  | interval s => exact h

theorem geImmKept_iff_nonneg (hc : 0 ≤ c) (h : 0 ≤ signedOf ρ x → c ≤ signedOf ρ x) :
    geImmKept d c (signedOf ρ x) ↔ 0 ≤ signedOf ρ x := by
  constructor
  · intro hk
    cases d with
    | zone d =>
      simp only [geImmKept, Zone.GeKept, Zone.posBound_eq] at hk
      omega
    | interval s => exact Int.le_trans hc hk
  · intro h0
    exact geImmKept_of_le (h h0)

/-- The domain represents the valuation and its bounds are machine numbers. -/
structure Ready (d : NumericDomain) (ρ : Valuation) : Prop where
  rep : d.Represents ρ
  range : d.InRange
  zero : signedOf ρ .zero = 0

theorem Ready.tracks {d : Zone.Dbm} (h : Ready (.zone d) ρ) : Zone.Tracks d ρ :=
  Zone.Represents.tracks h.rep h.range h.zero

theorem Ready.hasAll (h : Ready (.interval s) ρ) : HasAll s ρ :=
  (Interval.represents_iff.1 h.rep).1

theorem Ready.linked (h : Ready (.interval s) ρ) : Linked s ρ :=
  (Interval.represents_iff.1 h.rep).2

theorem represents_assumeGeLinked_iff (h : Ready d ρ) (hc : I64 c) (hx : x.isProgram = true) :
    (assumeGeLinked d x c).Represents ρ ↔ geImmKept d c (signedOf ρ x) := by
  cases d with
  | zone d => exact Zone.represents_assumeGeImm_iff h.tracks
  | interval s =>
    rw [assumeGeLinked_interval]
    have hid := Interval.idsFrom_modifyAll (f := (·.assumeSge c))
      (fun b => ScalarBounds.sameId_assumeSge b c) (linkClass s x) s
    refine (Interval.represents_iff_hasAll h.linked hid).trans ?_
    rw [Interval.hasAll_linked_sge_iff hc h.range h.hasAll.loose h.linked hx]
    exact and_iff_right h.hasAll

theorem represents_cap_iff (h : Ready (.interval s) ρ) (hc : I64 c) (hx : x.isProgram = true)
    (hv : signedOf ρ x ≤ c) :
    (NumericDomain.interval (modifyAll s (linkClass s x) (·.assumeSle c))).Represents ρ ↔
      capKept (.interval s) ρ x c := by
  have hid := Interval.idsFrom_modifyAll (f := (·.assumeSle c))
    (fun b => ScalarBounds.sameId_assumeSle b c) (linkClass s x) s
  refine (Interval.represents_iff_hasAll h.linked hid).trans ?_
  rw [Interval.hasAll_linked_sle_iff h.hasAll hc h.range h.linked hx]
  exact and_iff_right hv

theorem represents_assumeLeLinked_iff (h : Ready d ρ) (hc : I64 c) (hx : x.isProgram = true)
    (hv : signedOf ρ x ≤ c) : (assumeLeLinked d x c).Represents ρ ↔ capKept d ρ x c := by
  cases d with
  | zone d =>
    exact iff_of_true (h.tracks.assumeLeImm (Zone.leKept_of_le hv)).represents trivial
  | interval s =>
    rw [assumeLeLinked_interval]
    exact represents_cap_iff h hc hx hv

theorem represents_assumeLtLinked_iff (h : Ready d ρ) (hc : I64 c) (hx : x.isProgram = true)
    (hv : signedOf ρ x < c) : (assumeLtLinked d x c).Represents ρ ↔ capKept d ρ x (c - 1) := by
  have hmin := (signed_range (ρ x)).1
  change -2^63 ≤ signedOf ρ x at hmin
  have hne : c ≠ -2^63 := by omega
  cases d with
  | zone d =>
    exact iff_of_true (h.tracks.assumeLtImm hne (Zone.leKept_of_le (by omega))).represents trivial
  | interval s =>
    rw [assumeLtLinked_interval s x hne]
    have hc1 : I64 (c - 1) := by
      unfold I64 at *
      omega
    exact represents_cap_iff h hc1 hx (by omega)

theorem Ready.sle_linked (h : Ready (.interval s) ρ) (hc : I64 c) (hx : x.isProgram = true)
    (hv : signedOf ρ x ≤ c) (h0 : 0 ≤ signedOf ρ x) :
    Ready (.interval (modifyAll s (linkClass s x) (·.assumeSle c))) ρ where
  rep := (represents_cap_iff h hc hx hv).2 (Interval.capKept_of_nonneg h.linked hx h0)
  range := Interval.InRange.modifyAll h.range (Interval.nodup_linkClass s x)
    fun _ hb => hb.assumeSle hc
  zero := h.zero

section
variable (h : Ready d ρ)
include h

theorem represents_assumeLe_nonneg (hc : I64 c) (hx : x.isProgram = true)
    (hv : signedOf ρ x ≤ c) (h0 : 0 ≤ signedOf ρ x) :
    (assumeGeLinked (assumeLeLinked d x c) x 0).Represents ρ := by
  cases d with
  | zone d =>
    exact ((h.tracks.assumeLeImm (Zone.leKept_of_le hv)).assumeGeImm
      (Zone.geKept_of_le h0)).represents
  | interval s =>
    rw [assumeLeLinked_interval]
    exact (represents_assumeGeLinked_iff (h.sle_linked hc hx hv h0) (by decide) hx).2
      (geImmKept_of_le h0)

theorem represents_assumeLt_nonneg (hc : I64 c) (hx : x.isProgram = true)
    (hv : signedOf ρ x < c) (h0 : 0 ≤ signedOf ρ x) :
    (assumeGeLinked (assumeLtLinked d x c) x 0).Represents ρ := by
  have hne : c ≠ -2^63 := by omega
  have hc1 : I64 (c - 1) := by
    unfold I64 at *
    omega
  have hv1 : signedOf ρ x ≤ c - 1 := by omega
  cases d with
  | zone d =>
    exact ((h.tracks.assumeLtImm hne (Zone.leKept_of_le hv1)).assumeGeImm
      (Zone.geKept_of_le h0)).represents
  | interval s =>
    rw [assumeLtLinked_interval s x hne]
    exact (represents_assumeGeLinked_iff (h.sle_linked hc1 hx hv1 h0) (by decide) hx).2
      (geImmKept_of_le h0)

theorem represents_assumeEqImm (hx : x.isProgram = true)
    (hv : signedOf ρ x = c) : (d.assumeEqImm x c).Represents ρ := by
  cases d with
  | zone d => exact (h.tracks.assumeEqImm hv).represents
  | interval s =>
    have hid : IdsFrom s (Interval.assumeEqImm s x c) := by
      intro r i hi
      rw [Interval.getBounds_assumeEqImm s hx] at hi
      by_cases hr : r = x
      · rw [if_pos hr] at hi
        cases hi
      · rwa [if_neg hr] at hi
    refine (Interval.represents_iff_hasAll h.linked hid).2 fun r => ?_
    rw [Interval.getBounds_assumeEqImm s hx]
    by_cases hr : r = x
    · rw [if_pos hr, hr, ← hv]
      exact ScalarBounds.has_constant (ρ x).isLt
    · rw [if_neg hr]
      exact h.hasAll r

theorem represents_assumeEqLinked (hx : x.isProgram = true)
    (hv : signedOf ρ x = c) : (assumeEqLinked d x c).Represents ρ := by
  cases d with
  | zone d => exact represents_assumeEqImm (d := .zone d) h hx hv
  | interval s =>
    have hnone : linkedRegs (Interval.assumeEqImm s x c) x = [] := by
      unfold linkedRegs
      rw [Interval.getBounds_assumeEqImm s hx, if_pos rfl]
      rfl
    have hside : assumeEqLinked (.interval s) x c = .interval (Interval.assumeEqImm s x c) := by
      show (linkedRegs (Interval.assumeEqImm s x c) x).foldl _ _ = _
      rw [hnone]
      rfl
    rw [hside]
    exact represents_assumeEqImm (d := .interval s) h hx hv

theorem represents_assumeLe_iff (x y : Reg) :
    (d.assumeLe x y).Represents ρ ↔ leKept d ρ x y := by
  cases d with
  | zone d => exact Zone.represents_assumeLe_iff h.tracks
  | interval s =>
    refine (Interval.represents_iff_hasAll h.linked (Interval.idsFrom_assumeLe s x y)).trans ?_
    exact Interval.hasAll_assumeLe_iff h.hasAll h.range x y

theorem represents_assumeGt_iff (hxy : y ≠ x) :
    (d.assumeGt x y).Represents ρ ↔ gtKept d ρ x y := by
  cases d with
  | zone d => exact Zone.represents_assumeGt_iff h.tracks
  | interval s =>
    refine (Interval.represents_iff_hasAll h.linked (Interval.idsFrom_assumeGt s x y)).trans ?_
    exact Interval.hasAll_assumeGt_iff h.hasAll h.range hxy

theorem represents_assumeLeOffset_iff (x y : Reg) :
    (d.assumeLeOffset x y (-1)).Represents ρ ↔ ltKept d ρ x y := by
  cases d with
  | zone d => exact Zone.represents_assumeLeOffset_iff h.tracks
  | interval s =>
    refine (Interval.represents_iff_hasAll h.linked
      (Interval.idsFrom_assumeLeOffset s x y (-1))).trans ?_
    exact Interval.hasAll_assumeLeOffset_iff h.hasAll h.range x y

theorem represents_intersectEqReg_iff (hx : x.isProgram = true) (y : Reg) :
    (d.intersectEqReg x y).Represents ρ ↔ eqKept d ρ x y := by
  cases d with
  | zone d => exact Zone.represents_intersectEqReg_iff h.tracks
  | interval s =>
    refine (Interval.represents_iff_hasAll h.linked
      (Interval.idsFrom_intersectEqReg s x y)).trans ?_
    exact Interval.hasAll_intersectEqReg_iff h.hasAll h.range hx y

end

theorem represents_geZero_interval {s' : IntervalState} (h : Ready (.interval s) ρ)
    (hid : IdsFrom s s') (hr : Interval.InRange s') (hl : Loose s' ρ) (hx : x.isProgram = true) :
    (assumeGeLinked (.interval s') x 0).Represents ρ ↔ HasAll s' ρ ∧ 0 ≤ signedOf ρ x := by
  have hk := h.linked.of_idsFrom hid
  rw [assumeGeLinked_interval]
  have hid' := Interval.idsFrom_modifyAll (f := (·.assumeSge 0))
    (fun b => ScalarBounds.sameId_assumeSge b 0) (linkClass s' x) s'
  refine (Interval.represents_iff_hasAll hk hid').trans ?_
  exact Interval.hasAll_linked_sge_iff (by decide) hr hl hk hx

theorem represents_assumeLe_geZero_iff (h : Ready d ρ) (hx : x.isProgram = true) (y : Reg) :
    (assumeGeLinked (d.assumeLe x y) x 0).Represents ρ ↔ leKept d ρ x y ∧ 0 ≤ signedOf ρ x := by
  cases d with
  | zone d => exact Zone.represents_assumeLe_geZero_iff h.tracks
  | interval s =>
    refine (represents_geZero_interval h (Interval.idsFrom_assumeLe s x y)
      (Interval.InRange.assumeLe h.range x y) (Interval.loose_assumeLe h.hasAll x y) hx).trans ?_
    rw [Interval.hasAll_assumeLe_iff h.hasAll h.range]
    rfl

theorem represents_assumeLt_geZero_iff (h : Ready d ρ) (hx : x.isProgram = true) (y : Reg) :
    (assumeGeLinked (d.assumeLeOffset x y (-1)) x 0).Represents ρ ↔
      ltKept d ρ x y ∧ 0 ≤ signedOf ρ x := by
  cases d with
  | zone d => exact Zone.represents_assumeLt_geZero_iff h.tracks
  | interval s =>
    refine (represents_geZero_interval h (Interval.idsFrom_assumeLeOffset s x y (-1))
      (Interval.InRange.assumeLeOffset h.range x y (-1))
      (Interval.loose_assumeLeOffset h.hasAll x y (-1)) hx).trans ?_
    rw [Interval.hasAll_assumeLeOffset_iff h.hasAll h.range]
    rfl

/-- The first stage of `refineNeImm`: a signed edge that is hit is moved. -/
def neEdge (d : NumericDomain) (x : Reg) (c : Int) : NumericDomain :=
  if (d.getInterval x).1 = c ∧ (d.getInterval x).1 < (d.getInterval x).2 then
    assumeGeLinked d x (satI64 ((d.getInterval x).1 + 1))
  else if (d.getInterval x).2 = c ∧ (d.getInterval x).1 < (d.getInterval x).2 then
    assumeLeLinked d x (satI64 ((d.getInterval x).2 - 1))
  else d

/-- The second stage: an unsigned edge that is hit is moved. -/
def neBump (d : NumericDomain) (x : Reg) (u : Nat) : NumericDomain :=
  let b := d.getU64Bounds x
  if (bumpMin b.1 u, bumpMax b.2 u) ≠ (b.1, b.2) ∧ bumpMin b.1 u ≤ bumpMax b.2 u then
    d.setU64Bounds x (bumpMin b.1 u) (bumpMax b.2 u)
  else d

theorem refineNeImm_eq (d : NumericDomain) (x : Reg) (c : Int) :
    refineNeImm d x c = neBump (neEdge d x c) x (toU64 c) := rfl

theorem neBump_zone {d : Zone.Dbm} (h : Zone.Tracks d ρ) {u : Nat} (hne : (ρ x).toNat ≠ u) :
    (neBump (.zone d) x u).Represents ρ := by
  unfold neBump
  dsimp only
  split_ifs with hg
  · have hfit := (h.fits x).meetU64 (bumpMin_le (h.fits x).has.umin_le hne)
      (le_bumpMax (h.fits x).has.le_umax hne)
    exact Zone.Tracks.represents (Zone.Tracks.syncBounds (h.setBounds hfit) x)
  · exact h.represents

theorem hasAll_neBump_iff {s' : IntervalState} (h : Linked s ρ) (hid : IdsFrom s s')
    (hr : Interval.InRange s') (hx : x.isProgram = true) {u : Nat} (hne : (ρ x).toNat ≠ u)
    (hs : (s'.getBounds x).Has (ρ x).toNat ∨ ((s'.getBounds x).Settled ∧ u ≠ 2^63)) :
    (neBump (.interval s') x u).Represents ρ ↔ HasAll s' ρ := by
  have hb := Interval.has_bumpU64_iff (hr x) (ρ x).isLt hne hs
  unfold neBump
  dsimp only
  split_ifs with hg
  · have hset : ∀ lo hi, (NumericDomain.interval s').setU64Bounds x lo hi =
        .interval (s'.modifyBounds x fun b => (b.meetU64 lo hi).syncBounds) := by
      intro lo hi
      show (if x = .zero ∨ x.isAnchor = true then _ else _) = _
      rw [if_neg (Reg.isProgram_iff.1 hx)]
    rw [hset]
    refine (Interval.represents_iff_hasAll h (Interval.idsFrom_modifyBounds hid x
      fun b => ScalarBounds.sameId_syncBounds (c := b.meetU64 _ _) rfl)).trans ?_
    rw [Interval.hasAll_modifyBounds_iff]
    constructor
    · rintro ⟨hx', ho⟩ r
      by_cases hrx : r = x
      · rw [hrx]
        exact hb.1 hx'
      · exact ho r hrx
    · intro hall
      exact ⟨hb.2 (hall x), fun r _ => hall r⟩
  · exact Interval.represents_iff_hasAll h hid

/-- What `x ≠ c` keeps: only a cut of the signed maximum can lose words. -/
def neKept (d : NumericDomain) (ρ : Valuation) (x : Reg) (c : Int) : Prop :=
  (d.getInterval x).2 = c → (d.getInterval x).1 < c → capKept d ρ x (c - 1)

theorem refineNeImm_zone {d : Zone.Dbm} (h : Ready (.zone d) ρ) (hv : signedOf ρ x ≠ c)
    (hu : (ρ x).toNat ≠ toU64 c) : (refineNeImm (.zone d) x c).Represents ρ := by
  have ht := h.tracks
  have hi := NumericDomain.getInterval_sound h.rep h.zero x
  have hv64 := signed_range (ρ x)
  change -2^63 ≤ signedOf ρ x ∧ signedOf ρ x < 2^63 at hv64
  rw [refineNeImm_eq]
  unfold neEdge
  split_ifs with h1 h2
  · refine neBump_zone (ht.assumeGeImm (Zone.geKept_of_le ?_)) hu
    unfold satI64
    omega
  · refine neBump_zone (ht.assumeLeImm (Zone.leKept_of_le ?_)) hu
    unfold satI64
    omega
  · exact neBump_zone ht hu

theorem refineNeImm_interval_iff (h : Ready (.interval s) ρ) (hx : x.isProgram = true) (hc : I64 c)
    (hv : signedOf ρ x ≠ c) (hu : (ρ x).toNat ≠ toU64 c) :
    (refineNeImm (.interval s) x c).Represents ρ ↔ neKept (.interval s) ρ x c := by
  have hlo := (h.hasAll x).smin_le
  have hhi := (h.hasAll x).le_smax
  change (s.getBounds x).smin ≤ signedOf ρ x at hlo
  change signedOf ρ x ≤ (s.getBounds x).smax at hhi
  have hlr := (h.range x).smin
  have hhr := (h.range x).smax
  have hmem : x ∈ linkClass s x := List.mem_cons_self
  unfold I64 at hlr hhr hc
  rw [refineNeImm_eq]
  change (neBump (if (s.getBounds x).smin = c ∧ (s.getBounds x).smin < (s.getBounds x).smax then _
    else if (s.getBounds x).smax = c ∧ (s.getBounds x).smin < (s.getBounds x).smax then _
    else _) x (toU64 c)).Represents ρ ↔ ((s.getBounds x).smax = c → (s.getBounds x).smin < c → _)
  by_cases h1 : (s.getBounds x).smin = c ∧ (s.getBounds x).smin < (s.getBounds x).smax
  · have hsat : satI64 ((s.getBounds x).smin + 1) = c + 1 := by
      unfold satI64
      omega
    have hsge : I64 (c + 1) := by
      unfold I64
      omega
    have hid := Interval.idsFrom_modifyAll (f := (·.assumeSge (c + 1)))
      (fun b => ScalarBounds.sameId_assumeSge b _) (linkClass s x) s
    have hall : HasAll (modifyAll s (linkClass s x) (·.assumeSge (c + 1))) ρ :=
      (Interval.hasAll_linked_sge_iff hsge h.range h.hasAll.loose h.linked hx).2
        ⟨h.hasAll, by omega⟩
    have hr := Interval.InRange.modifyAll h.range (Interval.nodup_linkClass s x)
      (f := (·.assumeSge (c + 1))) fun _ hb => hb.assumeSge hsge
    rw [if_pos h1]
    change (neBump (assumeGeLinked _ x (satI64 ((s.getBounds x).smin + 1))) x _).Represents ρ ↔ _
    rw [hsat, assumeGeLinked_interval, hasAll_neBump_iff h.linked hid hr hx hu (Or.inl (hall x))]
    exact iff_of_true hall fun h2 h3 => by omega
  · rw [if_neg h1]
    by_cases h2 : (s.getBounds x).smax = c ∧ (s.getBounds x).smin < (s.getBounds x).smax
    · have hsat : satI64 ((s.getBounds x).smax - 1) = c - 1 := by
        unfold satI64
        omega
      have hsle : I64 (c - 1) := by
        unfold I64
        omega
      have hid := Interval.idsFrom_modifyAll (f := (·.assumeSle (c - 1)))
        (fun b => ScalarBounds.sameId_assumeSle b _) (linkClass s x) s
      have hr := Interval.InRange.modifyAll h.range (Interval.nodup_linkClass s x)
        (f := (·.assumeSle (c - 1))) fun _ hb => hb.assumeSle hsle
      have hset : ((modifyAll s (linkClass s x) (·.assumeSle (c - 1))).getBounds x).Settled := by
        rw [Interval.getBounds_modifyAll _ (Interval.nodup_linkClass s x),
          if_pos hmem]
        exact ScalarBounds.settled_syncBounds _
      have h63 : toU64 c ≠ 2^63 := by
        unfold toU64
        omega
      rw [if_pos h2]
      change (neBump (assumeLeLinked _ x (satI64 ((s.getBounds x).smax - 1))) x _).Represents ρ ↔ _
      rw [hsat, assumeLeLinked_interval,
        hasAll_neBump_iff h.linked hid hr hx hu (Or.inr ⟨hset, h63⟩),
        Interval.hasAll_linked_sle_iff h.hasAll hsle h.range h.linked hx]
      constructor
      · intro hk _ _
        exact hk.2
      · intro hk
        exact ⟨by omega, hk h2.1 (by omega)⟩
    · rw [if_neg h2, hasAll_neBump_iff h.linked (IdsFrom.refl s) h.range hx hu
        (Or.inl (h.hasAll x))]
      exact iff_of_true h.hasAll fun h3 h4 => absurd ⟨h3, by omega⟩ h2

theorem represents_refineNeImm_iff (h : Ready d ρ) (hx : x.isProgram = true) (hc : I64 c)
    (hv : signedOf ρ x ≠ c) (hu : (ρ x).toNat ≠ toU64 c) :
    (refineNeImm d x c).Represents ρ ↔ neKept d ρ x c := by
  cases d with
  | zone d => exact iff_of_true (refineNeImm_zone h hv hu) fun _ _ => trivial
  | interval s => exact refineNeImm_interval_iff h hx hc hv hu

end Kept
end ZoneVerifier.Constraints
