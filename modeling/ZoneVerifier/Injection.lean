import ZoneVerifier.ReplayExact
import ZoneVerifier.TransferStep

/-!
# Injecting a verified fact

A verified bound on `i - j` tightens what the interval state records of the
pointer in `i` (`pcc/injector.rs`): its accessible bytes, its greatest offset from
an anchor, or its greatest offset in a map value by way of a pointer into the same
map. Two pointers into one map may point into different values of it.
-/

set_option autoImplicit false

namespace ZoneVerifier.Replay
open Word Ast Concrete Certificate
open Machine (State)
open ZoneVerifier.Interval (IntervalState PtrOffset)
open RegTypes (RegType TypeState)

def strengthenRange (c : Int) (po : PtrOffset) : PtrOffset :=
  let provenRange := max (wrapI64 (-c)) 0
  { po with range := some (max (po.range.getD provenRange) provenRange) }

def tightenVarOff (newVarOffUb : Int) (po : PtrOffset) : PtrOffset :=
  { po with varOff := min po.varOff (max newVarOffUb 0).toNat }

def valueMap : RegType → Option Nat
  | .ptrToMapValue _ _ mapIdx _ _ => some mapIdx
  | _ => none

/-- The offset of `i` after the fact `i - j ≤ c`; only the maps of the two pointers are compared. -/
def refineOffset (types : TypeState) (ivl : IntervalState) (i j : Reg) (c : Int) (po : PtrOffset) :
    PtrOffset :=
  if j = .anchorDataEnd ∧ po.anchor = .anchorData then strengthenRange c po
  else if j = po.anchor then tightenVarOff (wrapI64 (c - po.off)) po
  else
    match valueMap (types.get i), valueMap (types.get j), ivl.getPtrOffset j with
    | some iMap, some jMap, some jPo =>
      if iMap = jMap then
        let jMaxOff := wrapI64 (jPo.off + toI64 jPo.varOff)
        tightenVarOff (wrapI64 (wrapI64 (c + jMaxOff) - po.off)) po
      else po
    | _, _, _ => po

def applyVerifiedFact (s : State) (iIdx jIdx : Nat) (c : Int) : State :=
  match Reg.idxToReg iIdx, Reg.idxToReg jIdx, s.domain with
  | some i, some j, .interval ivl =>
    { s with domain := .interval (ivl.modifyPtrOffset i (refineOffset s.types ivl i j c)) }
  | _, _, _ => s

/-- The registers of an execution, and where the map value starts that a register points into. -/
structure World where
  regs : Valuation
  element : Reg → Int

namespace World
variable (w : World)

/-- What the offset of a pointer counts from. -/
def origin (i : Reg) (po : PtrOffset) : Int :=
  if po.anchor = .zero then w.element i else signedOf w.regs po.anchor

def offset (i : Reg) (po : PtrOffset) : Int := signedOf w.regs i - w.origin i po

end World

def regionEnd : Reg → Option Reg
  | .anchorData => some .anchorDataEnd
  | .anchorDataMeta => some .anchorData
  | _ => none

structure Placed (w : World) (i : Reg) (po : PtrOffset) : Prop where
  low : po.off ≤ w.offset i po
  high : w.offset i po ≤ po.off + po.varOff
  room : ∀ last, regionEnd po.anchor = some last → ∀ n, po.range = some n →
    signedOf w.regs i + n ≤ signedOf w.regs last

def ptrOffsetOf (s : State) (r : Reg) : Option PtrOffset :=
  match s.domain with
  | .interval ivl => ivl.getPtrOffset r
  | .zone _ => none

def OffsetsHold (w : World) (s : State) : Prop :=
  ∀ r po, ptrOffsetOf s r = some po → Placed w r po

def OffsetsInRange (s : State) : Prop := ∀ r po, ptrOffsetOf s r = some po → I64 po.off

/-- The difference of a map pointer and `Zero` is its offset in the map value. -/
def FactHolds (w : World) (s : State) (i j : Reg) (c : Int) : Prop :=
  ∀ po, ptrOffsetOf s i = some po →
    if j = po.anchor then w.offset i po ≤ c else signedOf w.regs i - signedOf w.regs j ≤ c

/-- The greatest offset the fact `i - j ≤ c` leaves to `i`, as the difference to its least one. -/
def impliedVarOff (c : Int) (po jPo : PtrOffset) : Int := c + (jPo.off + jPo.varOff) - po.off

/-- Both pointers point into one map value, and the implied offset does not overflow. -/
def SameElement (w : World) (i j : Reg) (c : Int) (po jPo : PtrOffset) : Prop :=
  w.origin i po = w.origin j jPo ∧ I64 (impliedVarOff c po jPo)

/-- A packet bound is not positive; the subtraction from an anchored bound does not overflow; and
a second pointer points into the same map value. Where one of these fails, the pointer may still
happen to be where the refined offset has it. -/
def InjectSafe (w : World) (s : State) (i j : Reg) (c : Int) : Prop :=
  ∀ po, ptrOffsetOf s i = some po →
    if j = .anchorDataEnd ∧ po.anchor = .anchorData then
      c ≤ 0 ∨ signedOf w.regs i ≤ signedOf w.regs j
    else if j = po.anchor then c - po.off < 2^63 ∨ w.offset i po = po.off
    else
      ∀ jPo mapIdx, valueMap (s.types.get i) = some mapIdx → valueMap (s.types.get j) = some mapIdx →
        ptrOffsetOf s j = some jPo →
          w.offset i po = po.off ∨ SameElement w i j c po jPo ∨
            (¬ SameElement w i j c po jPo ∧
              w.offset i po - po.off ≤ wrapI64 (impliedVarOff c po jPo))

section Placed
variable {w : World} {i : Reg} {po : PtrOffset} {c : Int}

theorem placed_strengthenRange_iff (hc : I64 c) (hp : Placed w i po)
    (ha : po.anchor = .anchorData)
    (hf : signedOf w.regs i - signedOf w.regs .anchorDataEnd ≤ c) :
    Placed w i (strengthenRange c po) ↔
      c ≤ 0 ∨ signedOf w.regs i ≤ signedOf w.regs .anchorDataEnd := by
  have hneg : max (wrapI64 (-c)) 0 = if c ≤ 0 ∧ c ≠ -2^63 then -c else 0 := by
    unfold I64 at hc
    unfold wrapI64 toI64 toU64
    split_ifs <;> omega
  have hlast : regionEnd po.anchor = some .anchorDataEnd := by rw [ha]; rfl
  have hroom : Placed w i (strengthenRange c po) ↔
      signedOf w.regs i + max (po.range.getD (max (wrapI64 (-c)) 0)) (max (wrapI64 (-c)) 0) ≤
        signedOf w.regs .anchorDataEnd := by
    constructor
    · intro h
      exact h.room _ hlast _ rfl
    · intro h
      refine ⟨hp.low, hp.high, fun last hl n hn => ?_⟩
      cases hlast.symm.trans hl
      cases hn
      exact h
  rw [hroom, hneg]
  cases hrange : po.range with
  | none =>
    simp only [Option.getD_none]
    split_ifs <;> omega
  | some n =>
    have hn := hp.room _ hlast n hrange
    simp only [Option.getD_some]
    split_ifs <;> omega

theorem placed_tightenVarOff_iff (hp : Placed w i po) (b : Int) :
    Placed w i (tightenVarOff b po) ↔ w.offset i po = po.off ∨ w.offset i po - po.off ≤ b := by
  have hlow := hp.low
  have hhigh := hp.high
  have hoffset : w.offset i (tightenVarOff b po) = w.offset i po := rfl
  constructor
  · intro h
    have := h.high
    rw [hoffset] at this
    simp only [tightenVarOff] at this
    omega
  · intro h
    refine ⟨hlow, ?_, hp.room⟩
    rw [hoffset]
    simp only [tightenVarOff]
    omega

theorem placed_anchored_iff (hc : I64 c) (ho : I64 po.off) (hp : Placed w i po)
    (hf : w.offset i po ≤ c) :
    Placed w i (tightenVarOff (wrapI64 (c - po.off)) po) ↔
      c - po.off < 2^63 ∨ w.offset i po = po.off := by
  have hlow := hp.low
  unfold I64 at hc ho
  have hwrap := @wrapI64_cases (c - po.off) (by omega) (by omega)
  rw [placed_tightenVarOff_iff hp]
  omega

theorem wrapped_bound (c off jOff : Int) (n : Nat) :
    wrapI64 (wrapI64 (c + wrapI64 (jOff + toI64 n)) - off) = wrapI64 (c + (jOff + n) - off) := by
  have h1 := wrapI64_emod (jOff + toI64 n)
  have h2 := wrapI64_emod (c + wrapI64 (jOff + toI64 n))
  have h3 : toI64 n % 2^64 = n % 2^64 := by
    unfold toI64
    split_ifs <;> omega
  apply wrapI64_congr
  omega

end Placed

section Injection
variable {w : World} {s : State} {i j : Reg} {c : Int} {ivl : IntervalState}

theorem ptrOffsetOf_apply (hd : s.domain = .interval ivl) (r : Reg) :
    ptrOffsetOf (applyVerifiedFact s i.idx j.idx c) r =
      if r = i then (ivl.getPtrOffset i).map (refineOffset s.types ivl i j c)
      else ivl.getPtrOffset r := by
  simp only [applyVerifiedFact, Reg.idxToReg_idx, hd, ptrOffsetOf,
    IntervalState.modifyPtrOffset, IntervalState.update, IntervalState.getPtrOffset]
  split_ifs <;> rfl

theorem offsetsHold_apply_iff (hd : s.domain = .interval ivl) (hpre : OffsetsHold w s) :
    OffsetsHold w (applyVerifiedFact s i.idx j.idx c) ↔
      ∀ po, ptrOffsetOf s i = some po → Placed w i (refineOffset s.types ivl i j c po) := by
  have hof : ∀ r, ptrOffsetOf s r = ivl.getPtrOffset r := by
    intro r
    simp only [ptrOffsetOf, hd]
  constructor
  · intro h po hpo
    apply h i
    rw [ptrOffsetOf_apply hd, if_pos rfl, ← hof, hpo]
    rfl
  · intro h r po hpo
    rw [ptrOffsetOf_apply hd] at hpo
    by_cases hr : r = i
    · subst hr
      rw [if_pos rfl, ← hof, Option.map_eq_some_iff] at hpo
      obtain ⟨old, hold, rfl⟩ := hpo
      exact h old hold
    · rw [if_neg hr, ← hof] at hpo
      exact hpre r po hpo

/-- The fact and the greatest offset of the second pointer bound the first one. -/
theorem offset_le_of_same_element {po jPo : PtrOffset} (hj : Placed w j jPo)
    (hf : signedOf w.regs i - signedOf w.regs j ≤ c) (h : SameElement w i j c po jPo) :
    w.offset i po - po.off ≤ wrapI64 (impliedVarOff c po jPo) := by
  have hwrap : wrapI64 (impliedVarOff c po jPo) = impliedVarOff c po jPo := toI64_toU64 h.2
  have horigin := h.1
  have hhigh := hj.high
  rw [hwrap]
  unfold impliedVarOff
  unfold World.offset at *
  omega

theorem offset_le_iff {po jPo : PtrOffset} (hj : Placed w j jPo)
    (hf : signedOf w.regs i - signedOf w.regs j ≤ c) :
    w.offset i po - po.off ≤ wrapI64 (impliedVarOff c po jPo) ↔
      SameElement w i j c po jPo ∨ (¬ SameElement w i j c po jPo ∧
        w.offset i po - po.off ≤ wrapI64 (impliedVarOff c po jPo)) := by
  constructor
  · intro h
    by_cases hs : SameElement w i j c po jPo
    · exact .inl hs
    · exact .inr ⟨hs, h⟩
  · rintro (hs | ⟨_, h⟩)
    · exact offset_le_of_same_element hj hf hs
    · exact h

theorem placed_refineOffset_iff (hd : s.domain = .interval ivl) (hc : I64 c)
    (hrange : OffsetsInRange s) (hpre : OffsetsHold w s) (hfact : FactHolds w s i j c)
    {po : PtrOffset} (hpo : ptrOffsetOf s i = some po) :
    Placed w i (refineOffset s.types ivl i j c po) ↔
      if j = .anchorDataEnd ∧ po.anchor = .anchorData then
        c ≤ 0 ∨ signedOf w.regs i ≤ signedOf w.regs j
      else if j = po.anchor then c - po.off < 2^63 ∨ w.offset i po = po.off
      else
        ∀ jPo mapIdx, valueMap (s.types.get i) = some mapIdx →
          valueMap (s.types.get j) = some mapIdx → ptrOffsetOf s j = some jPo →
            w.offset i po = po.off ∨ SameElement w i j c po jPo ∨
              (¬ SameElement w i j c po jPo ∧
                w.offset i po - po.off ≤ wrapI64 (impliedVarOff c po jPo)) := by
  have hp := hpre i po hpo
  have hf := hfact po hpo
  have hof : ptrOffsetOf s j = ivl.getPtrOffset j := by simp only [ptrOffsetOf, hd]
  unfold refineOffset
  by_cases hcross : j = .anchorDataEnd ∧ po.anchor = .anchorData
  · rw [if_pos hcross, if_pos hcross]
    obtain ⟨rfl, ha⟩ := hcross
    rw [ha, if_neg (by decide)] at hf
    exact placed_strengthenRange_iff hc hp ha hf
  rw [if_neg hcross, if_neg hcross]
  by_cases hsame : j = po.anchor
  · rw [if_pos hsame, if_pos hsame]
    rw [if_pos hsame] at hf
    exact placed_anchored_iff hc (hrange i po hpo) hp hf
  rw [if_neg hsame] at hf
  rw [if_neg hsame, if_neg hsame, hof]
  cases hi : valueMap (s.types.get i) with
  | none => simp [hp]
  | some iMap =>
    cases hj : valueMap (s.types.get j) with
    | none => simp [hp]
    | some jMap =>
      cases hjo : ivl.getPtrOffset j with
      | none => simp [hp]
      | some jPo =>
        by_cases hmap : iMap = jMap
        · subst hmap
          have hj := hpre j jPo (hof.trans hjo)
          simp only [if_true, wrapped_bound, placed_tightenVarOff_iff hp]
          rw [← impliedVarOff, offset_le_iff hj hf]
          simp
        · simp [hp, hmap, Ne.symm hmap]

theorem apply_of_zone {d : Zone.Dbm} (hd : s.domain = .zone d) :
    applyVerifiedFact s i.idx j.idx c = s := by
  simp only [applyVerifiedFact, Reg.idxToReg_idx, hd]

theorem offsetsHold_apply_of_safe (hc : I64 c) (hrange : OffsetsInRange s) (hpre : OffsetsHold w s)
    (hfact : FactHolds w s i j c) (hsafe : InjectSafe w s i j c) :
    OffsetsHold w (applyVerifiedFact s i.idx j.idx c) := by
  cases hd : s.domain with
  | zone d =>
    rw [apply_of_zone hd]
    exact hpre
  | interval ivl =>
    rw [offsetsHold_apply_iff hd hpre]
    intro po hpo
    exact (placed_refineOffset_iff hd hc hrange hpre hfact hpo).2 (hsafe po hpo)

theorem injection_sound_iff (hc : I64 c) (hrange : OffsetsInRange s) (hpre : OffsetsHold w s)
    (hfact : FactHolds w s i j c) :
    OffsetsHold w (applyVerifiedFact s i.idx j.idx c) ↔ InjectSafe w s i j c := by
  refine ⟨fun h po hpo => ?_, offsetsHold_apply_of_safe hc hrange hpre hfact⟩
  cases hd : s.domain with
  | zone d => simp [ptrOffsetOf, hd] at hpo
  | interval ivl =>
    rw [offsetsHold_apply_iff hd hpre] at h
    exact (placed_refineOffset_iff hd hc hrange hpre hfact hpo).1 (h po hpo)

end Injection

section Run
variable {w : World} {s s' : State} {i j : Reg} {c : Int} {facts : List VerifiedEntry}

def applyVerifiedRefinements (s : State) (facts : List VerifiedEntry) : State :=
  facts.foldl (fun s fact => applyVerifiedFact s fact.leftReg fact.rightReg fact.bound) s

/-- Injection leaves the types, the anchor and the least offset of every pointer, and lowers its
greatest one. -/
structure Tightened (s s' : State) : Prop where
  types : s'.types = s.types
  offsets : ∀ r po', ptrOffsetOf s' r = some po' → ∃ po, ptrOffsetOf s r = some po ∧
    po'.anchor = po.anchor ∧ po'.off = po.off ∧ po'.varOff ≤ po.varOff

theorem refineOffset_kept (types : TypeState) (ivl : IntervalState) (i j : Reg) (c : Int)
    (po : PtrOffset) : (refineOffset types ivl i j c po).anchor = po.anchor ∧
      (refineOffset types ivl i j c po).off = po.off ∧
      (refineOffset types ivl i j c po).varOff ≤ po.varOff := by
  have htight : ∀ b, (tightenVarOff b po).varOff ≤ po.varOff := fun b => Nat.min_le_left ..
  unfold refineOffset
  split_ifs
  · exact ⟨rfl, rfl, Nat.le_refl _⟩
  · exact ⟨rfl, rfl, htight _⟩
  · split
    · split_ifs
      · exact ⟨rfl, rfl, htight _⟩
      · exact ⟨rfl, rfl, Nat.le_refl _⟩
    · exact ⟨rfl, rfl, Nat.le_refl _⟩

theorem tightened_apply (s : State) (i j : Reg) (c : Int) :
    Tightened s (applyVerifiedFact s i.idx j.idx c) := by
  cases hd : s.domain with
  | zone d =>
    rw [apply_of_zone hd]
    exact ⟨rfl, fun r po h => ⟨po, h, rfl, rfl, Nat.le_refl _⟩⟩
  | interval ivl =>
    refine ⟨by simp only [applyVerifiedFact, Reg.idxToReg_idx, hd], fun r po' h => ?_⟩
    have hof : ∀ q, ptrOffsetOf s q = ivl.getPtrOffset q := fun q => by simp only [ptrOffsetOf, hd]
    rw [ptrOffsetOf_apply hd] at h
    split_ifs at h with hr
    · obtain ⟨po, hpo, rfl⟩ := Option.map_eq_some_iff.1 h
      exact ⟨po, hr ▸ (hof i).trans hpo, refineOffset_kept ..⟩
    · exact ⟨po', (hof r).trans h, rfl, rfl, Nat.le_refl _⟩

/-- What makes a fact safe to inject, whatever other facts are injected before it: the offset the
second pointer implies does not overflow for any smaller greatest offset of it either. -/
def FactSafe (w : World) (s : State) (i j : Reg) (c : Int) : Prop :=
  ∀ po, ptrOffsetOf s i = some po →
    if j = .anchorDataEnd ∧ po.anchor = .anchorData then c ≤ 0
    else if j = po.anchor then c - po.off < 2^63
    else
      ∀ jPo mapIdx, valueMap (s.types.get i) = some mapIdx → valueMap (s.types.get j) = some mapIdx →
        ptrOffsetOf s j = some jPo →
          w.origin i po = w.origin j jPo ∧ -2^63 ≤ c + jPo.off - po.off ∧
            impliedVarOff c po jPo < 2^63

theorem origin_congr {po po' : PtrOffset} (h : po'.anchor = po.anchor) (r : Reg) :
    w.origin r po' = w.origin r po := by
  unfold World.origin
  rw [h]

theorem FactHolds.tightened (h : FactHolds w s i j c) (ht : Tightened s s') :
    FactHolds w s' i j c := by
  intro po' hpo'
  obtain ⟨po, hpo, hanchor, _⟩ := ht.offsets i po' hpo'
  have hfact := h po hpo
  unfold World.offset at hfact ⊢
  rw [hanchor, origin_congr hanchor]
  exact hfact

theorem FactSafe.tightened (h : FactSafe w s i j c) (ht : Tightened s s') :
    FactSafe w s' i j c := by
  intro po' hpo'
  obtain ⟨po, hpo, hanchor, hoff, _⟩ := ht.offsets i po' hpo'
  have hsafe := h po hpo
  rw [hanchor, hoff]
  split_ifs at hsafe ⊢
  · exact hsafe
  · exact hsafe
  · intro jPo' mapIdx hi hj hjPo'
    obtain ⟨jPo, hjPo, hjAnchor, hjOff, hjVar⟩ := ht.offsets j jPo' hjPo'
    rw [ht.types] at hi hj
    obtain ⟨horigin, hlow, hhigh⟩ := hsafe jPo mapIdx hi hj hjPo
    rw [origin_congr hanchor, origin_congr hjAnchor]
    unfold impliedVarOff at *
    exact ⟨horigin, by omega, by omega⟩

theorem FactSafe.injectSafe (h : FactSafe w s i j c) : InjectSafe w s i j c := by
  intro po hpo
  have hsafe := h po hpo
  split_ifs at hsafe ⊢
  · exact .inl hsafe
  · exact .inl hsafe
  · intro jPo mapIdx hi hj hjPo
    obtain ⟨horigin, hlow, hhigh⟩ := hsafe jPo mapIdx hi hj hjPo
    unfold impliedVarOff at hhigh
    exact .inr (.inl ⟨horigin, by unfold impliedVarOff; omega, hhigh⟩)

theorem OffsetsInRange.tightened (h : OffsetsInRange s) (ht : Tightened s s') : OffsetsInRange s' := by
  intro r po' hpo'
  obtain ⟨po, hpo, _, hoff, _⟩ := ht.offsets r po' hpo'
  exact hoff ▸ h r po hpo

/-- Facts that are safe in the first state stay so while the others are injected. -/
theorem offsetsHold_applyVerifiedRefinements (hpre : OffsetsHold w s) (hrange : OffsetsInRange s)
    (h : ∀ fact ∈ facts, ∃ i j : Reg, fact.leftReg = i.idx ∧ fact.rightReg = j.idx ∧
      I64 fact.bound ∧ FactHolds w s i j fact.bound ∧ FactSafe w s i j fact.bound) :
    OffsetsHold w (applyVerifiedRefinements s facts) := by
  induction facts generalizing s with
  | nil => exact hpre
  | cons fact facts ih =>
    obtain ⟨i, j, hi, hj, hc, hfact, hsafe⟩ := h fact List.mem_cons_self
    have ht := tightened_apply s i j fact.bound
    rw [applyVerifiedRefinements, List.foldl_cons, hi, hj]
    refine ih (offsetsHold_apply_of_safe hc hrange hpre hfact hsafe.injectSafe)
      (hrange.tightened ht) fun f hf => ?_
    obtain ⟨k, l, hk, hl, hb, hholds, hs⟩ := h f (List.mem_cons_of_mem _ hf)
    exact ⟨k, l, hk, hl, hb, hholds.tightened ht, hs.tightened ht⟩

end Run

section Examples

/-- A pointer to fourteen bytes into the packet; nothing is known about the packet's end. -/
def packetPtr : PtrOffset := { PtrOffset.atAnchor .anchorData with off := 14 }

def packetState : State :=
  State.new (.interval (IntervalState.new.update .r2 (.withPtrOffset .unknown packetPtr))) 1

def shortPacket : World where
  regs r :=
    match r with
    | .anchorData => 1000
    | .anchorDataMeta => 1000
    | .anchorDataEnd => 1004
    | .r2 => 1014
    | _ => 0
  element _ := 0

def trivialEntry : AnnotationEntry := ⟨Reg.r2.idx, Reg.anchorDataEnd.idx, 2^63 - 1,
  [.fact 0 Reg.r2.idx Reg.anchorDataEnd.idx (2^63 - 1)]⟩

def mapPtr (varOff : Nat) : PtrOffset := { PtrOffset.atAnchor .zero with varOff }

/-- `r1` and `r2` point into values of map 0, found by two lookups. -/
def mapState (idOfR2 varOff : Nat) : State :=
  { State.new (.interval ((IntervalState.new.update .r1 (.withPtrOffset .unknown (mapPtr 63))).update
      .r2 (.withPtrOffset .unknown (mapPtr varOff)))) 1 with
    types := (TypeState.newNotInit.set .r1 (.ptrToMapValue 1 none 0 none false)).set .r2
      (.ptrToMapValue idOfR2 none 0 none false) }

def mapWorld (start1 start2 at1 at2 : Nat) : World where
  regs r :=
    match r with
    | .r1 => BitVec.ofNat 64 at1
    | .r2 => BitVec.ofNat 64 at2
    | _ => 0
  element r := if r = .r1 then start1 else start2

def compareEntry : AnnotationEntry := ⟨Reg.r1.idx, Reg.r2.idx, 0, [.fact 0 Reg.r1.idx Reg.r2.idx 0]⟩

theorem offsetsHold_of_no_range {w : World} {s : State}
    (h : ∀ r, ∀ po ∈ ptrOffsetOf s r, po.range = none ∧ po.off ≤ w.offset r po ∧
      w.offset r po ≤ po.off + po.varOff) : OffsetsHold w s := by
  intro r po hpo
  obtain ⟨hrange, hlow, hhigh⟩ := h r po hpo
  refine ⟨hlow, hhigh, fun last _ n hn => ?_⟩
  rw [hrange] at hn
  cases hn

theorem verified_facts_injected_wrongly :
    (checkProof (fun _ => [packetState]) [.jmp 1, .exit] trivialEntry =
        some ⟨Reg.r2.idx, Reg.anchorDataEnd.idx, 2^63 - 1⟩ ∧
      OffsetsHold shortPacket packetState ∧
      FactHolds shortPacket packetState .r2 .anchorDataEnd (2^63 - 1) ∧
      ¬ OffsetsHold shortPacket
        (applyVerifiedFact packetState Reg.r2.idx Reg.anchorDataEnd.idx (2^63 - 1))) ∧
    (checkProof (fun _ => [mapState 2 0]) [.ifCmp .w64 .r1 .ugt (.reg .r2) 2, .exit, .exit]
        compareEntry = some ⟨Reg.r1.idx, Reg.r2.idx, 0⟩ ∧
      OffsetsHold (mapWorld 1000 2000 1040 2000) (mapState 2 0) ∧
      FactHolds (mapWorld 1000 2000 1040 2000) (mapState 2 0) .r1 .r2 0 ∧
      ¬ OffsetsHold (mapWorld 1000 2000 1040 2000)
        (applyVerifiedFact (mapState 2 0) Reg.r1.idx Reg.r2.idx 0)) := by
  refine ⟨⟨by decide, offsetsHold_of_no_range (by decide), ?_, ?_⟩, by decide,
    offsetsHold_of_no_range (by decide), ?_, ?_⟩
  · intro po hpo
    cases hpo
    decide
  · intro h
    exact absurd ((h .r2 _ rfl).room _ rfl _ rfl) (by decide)
  · intro po hpo
    cases hpo
    decide
  · intro h
    exact absurd (h .r1 _ rfl).high (by decide)

/-- Both pointers stem from one lookup, and the second one is at most eight bytes in. -/
theorem same_element_injected :
    OffsetsHold (mapWorld 1000 1000 1004 1008)
      (applyVerifiedFact (mapState 1 8) Reg.r1.idx Reg.r2.idx (-4)) := by
  refine (injection_sound_iff (by decide) ?_ (offsetsHold_of_no_range (by decide)) ?_).2 ?_
  · intro r po h
    cases r <;> cases h <;> decide
  · intro po hpo
    cases hpo
    decide
  · intro po hpo
    cases hpo
    rw [if_neg (by decide), if_neg (by decide)]
    intro jPo mapIdx _ _ hj
    cases hj
    exact .inr (.inl ⟨rfl, by decide, by decide⟩)

/-- The second pointer is bounded first, and then the first one through it. -/
theorem bounded_then_compared :
    OffsetsHold (mapWorld 1000 1000 1004 1008) (applyVerifiedRefinements (mapState 1 20)
      [⟨Reg.r2.idx, Reg.zero.idx, 8⟩, ⟨Reg.r1.idx, Reg.r2.idx, -4⟩]) := by
  refine offsetsHold_applyVerifiedRefinements (offsetsHold_of_no_range (by decide)) ?_ ?_
  · intro r po h
    cases r <;> cases h <;> decide
  · intro fact hfact
    simp only [List.mem_cons, List.not_mem_nil, or_false] at hfact
    rcases hfact with rfl | rfl
    · refine ⟨.r2, .zero, rfl, rfl, by decide, ?_, ?_⟩
      · intro po hpo
        cases hpo
        decide
      · intro po hpo
        cases hpo
        rw [if_neg (by decide), if_pos (by decide)]
        decide
    · refine ⟨.r1, .r2, rfl, rfl, by decide, ?_, ?_⟩
      · intro po hpo
        cases hpo
        decide
      · intro po hpo
        cases hpo
        rw [if_neg (by decide), if_neg (by decide)]
        intro jPo mapIdx _ _ hj
        cases hj
        exact ⟨rfl, by decide, by decide⟩

end Examples

end ZoneVerifier.Replay
