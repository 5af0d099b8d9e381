import ZoneVerifier.ShiftTransfer

/-!
# Region accesses of the zone domain

`check_region_access` (`domains/zone/ops.rs`) reads two cells: how far the start
anchor lies above the base, and the base above the end anchor. An access that
passes stays between the anchors in every valuation of the matrix, closed or
not, and none of the functions that fill the matrix excludes a valuation that
meets what is assumed.
-/

set_option autoImplicit false

namespace ZoneVerifier.Zone
open Word Ast Bounds Concrete Tristate

def Within (ρ : Valuation) (base : Reg) (off size : Int) (anchorStart anchorEnd : Reg) : Prop :=
  signedOf ρ anchorStart ≤ signedOf ρ base + off ∧
    signedOf ρ base + off + size ≤ signedOf ρ anchorEnd

section Check
variable {d : Dbm} {ρ : Valuation} {base anchorStart anchorEnd : Reg} {off size : Int}

theorem sub_le_get (h : Satisfies d ρ) {i j : Reg} (hfin : d.get i j < inf) :
    signedOf ρ i - signedOf ρ j ≤ d.get i j :=
  h i j hfin

/-- A positive sum of a cell below `INF`, a 16-bit offset and a size does not
wrap to a negative one. -/
theorem nonpos_of_wrap {c : Int} (hc : c < inf) (hoff : off < 2^15) (hsize : size < 2^62)
    (h : wrapI64 (c + off + size) ≤ 0) : c + off + size ≤ 0 := by
  by_contra hpos
  rw [inf_eq] at hc
  rw [wrapI64_of_range (by omega) (by omega)] at h
  exact hpos h

theorem within_of_check (h : Satisfies d ρ) (hoff : off < 2^15) (hsize : size < 2^62)
    (hcheck : checkRegionAccess d base off size anchorStart anchorEnd = (true, true)) :
    Within ρ base off size anchorStart anchorEnd := by
  obtain ⟨hstart, hend⟩ := Prod.mk.inj hcheck
  obtain ⟨hsfin, hs⟩ := of_decide_eq_true hstart
  obtain ⟨hefin, he⟩ := of_decide_eq_true hend
  have h1 := sub_le_get h hsfin
  have h2 := sub_le_get h hefin
  have h3 := nonpos_of_wrap hefin hoff hsize he
  constructor <;> omega

end Check

section Region
variable {d : Dbm} {ρ : Valuation}

/-- The check admits only accesses between the anchors, and importing the bounds
of a register, or its tristate number, into the matrix keeps every valuation
they describe. -/
theorem regionAccess_sound (h : Represents d ρ) (hr : ∀ r, (d.bounds r).InRange)
    (hz : signedOf ρ .zero = 0) :
    (∀ base anchorStart anchorEnd off size, off < 2^15 → size < 2^62 →
      checkRegionAccess d base off size anchorStart anchorEnd = (true, true) →
        Within ρ base off size anchorStart anchorEnd) ∧
    (∀ x, Represents (syncBounds d x) ρ) ∧
    ∀ x (t : Tnum), t.Has (ρ x) →
      (ShiftTransfer.tnumBounds (.zone d) x t).Represents ρ := by
  have ht : Tracks d ρ := h.tracks hr hz
  refine ⟨?_, fun x => (ht.syncBounds x).represents, fun x t hhas => ?_⟩
  · intro base anchorStart anchorEnd off size hoff hsize hcheck
    exact within_of_check h.sat hoff hsize hcheck
  · exact (ShiftTransfer.tracks_tnumBounds (d := .zone d) ht hhas).represents

end Region

/-- The matrix after `if r1 + 14 <= data_end` at the start of the packet. -/
def headerChecked : Dbm :=
  (Dbm.new.addConstraint .anchorData .r1 0).addConstraint .r1 .anchorDataEnd (-14)

def shortPacket : Valuation
  | .anchorDataEnd => 14
  | _ => 0

theorem header_within : Within shortPacket .r1 12 2 .anchorData .anchorDataEnd := by
  have hnew : Tracks Dbm.new shortPacket := tracks_new (by decide)
  have hfirst := hnew.addConstraint (i := .anchorData) (j := .r1) (c := 0)
    (asserted_of_le (by decide))
  have hsecond : Tracks headerChecked shortPacket :=
    hfirst.addConstraint (asserted_of_le (by decide))
  have hbounds : headerChecked.bounds = Dbm.new.bounds := by
    rw [headerChecked, bounds_addConstraint, bounds_addConstraint]
  have hrange (r : Reg) : (headerChecked.bounds r).InRange := by
    rw [hbounds]
    exact (by decide : ScalarBounds.unknown.InRange)
  exact (regionAccess_sound hsecond.represents hrange hsecond.zero).1 _ _ _ _ _ (by decide)
    (by decide) (by decide)

end ZoneVerifier.Zone
