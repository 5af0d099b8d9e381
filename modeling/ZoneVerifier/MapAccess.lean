import ZoneVerifier.BtfComplete
import ZoneVerifier.Represent

/-!
# Accesses to map values

`check_map_access` bounds an access through a pointer to a map value
(`analysis/transfer/memory/map.rs`) by what the state knows of its offset: a
pointer offset, else the scalar range, else the constant of its type. The window
must lie in the value and clear of the special fields. The scalar branch compares
the fields from the instruction offset on, not from where the access can start.
-/

set_option autoImplicit false

namespace ZoneVerifier.MapAccess
open Word Ast Btf Numeric

structure BpfMapDef where
  valueSize : UInt32
  btfValTypeId : Option UInt32

inductive MapError where
  | unsafeMapLoad (pc : Nat) (off size limit : Int)
  | unsafeMapAccess (pc : Nat) (size : Int) (mapIdx : Nat)
  deriving DecidableEq, Repr

/-- The failures reported, and whether a refinement suppressed one. -/
structure Outcome where
  failures : List MapError
  refined : Bool
  deriving DecidableEq, Repr

def passed : Outcome := { failures := [], refined := false }

def suppressed : Outcome := { failures := [], refined := true }

def failed (e : MapError) : Outcome := { failures := [e], refined := false }

structure Access where
  pc : Nat
  mapIdx : Nat
  base : Reg
  insnOff : Int
  insnOff_range : -2^15 ≤ insnOff ∧ insnOff < 2^15
  size : Int
  size_pos : 0 < size
  mapDef : BpfMapDef

def Access.mapLimit (a : Access) : Int := a.mapDef.valueSize.toNat

section Check
variable (btf : BtfContext) (cache : Cache) (a : Access)

def specialFields : List SpecialField :=
  match a.mapDef.btfValTypeId with
  | none => []
  | some id => (findSpecialFields btf cache id).1

def fieldEnd (f : SpecialField) : UInt32 := f.offset + f.size

def checkBtfFieldsAccess (finalOffset accessEnd : Int) : List MapError :=
  (specialFields btf cache a).flatMap fun f =>
    if finalOffset < (fieldEnd f).toNat ∧ (f.offset.toNat : Int) < accessEnd then
      [.unsafeMapLoad a.pc finalOffset a.size a.mapLimit]
    else []

/-- The window is in the value and clear of the fields; `refine` is the answer of
`try_bcf_refine_map` to an unbounded one. -/
def checkWindow (refine : Bool) (start stop compared : Int) : Outcome :=
  if ¬ (0 ≤ start ∧ stop ≤ a.mapLimit) then
    if refine then suppressed else failed (.unsafeMapLoad a.pc start a.size a.mapLimit)
  else { failures := checkBtfFieldsAccess btf cache a compared stop, refined := false }

/-- `none` is the answer `false`. -/
def intervalCheckMapAccess (refine : Bool) (ivl : Interval.IntervalState) : Option Outcome :=
  (ivl.getPtrOffset a.base).map fun p =>
    let minOff := wrapI64 (p.minOffset + a.insnOff)
    let maxOff := wrapI64 (wrapI64 (p.maxOffset + a.insnOff) + a.size)
    checkWindow btf cache a refine minOff maxOff minOff

def zoneCheckMapAccess (refine : Bool) (d : NumericDomain) (mapOff : Option Int) : Outcome :=
  let dbmMin := (d.getInterval a.base).1
  let dbmMax := (d.getInterval a.base).2
  if dbmMin ≠ -2^63 ∧ dbmMax ≠ 2^63 - 1 then
    let accessStart := wrapI64 (dbmMin + a.insnOff)
    let accessEnd := wrapI64 (wrapI64 (dbmMax + a.insnOff) + a.size)
    checkWindow btf cache a refine accessStart accessEnd a.insnOff
  else
    match mapOff with
    | some fixedOff =>
      let finalOffset := wrapI64 (fixedOff + a.insnOff)
      let accessEnd := wrapI64 (finalOffset + a.size)
      if ¬ (0 ≤ finalOffset ∧ accessEnd ≤ a.mapLimit) then
        failed (.unsafeMapAccess a.pc a.size a.mapIdx)
      else
        { failures := checkBtfFieldsAccess btf cache a finalOffset accessEnd, refined := false }
    | none =>
      if refine then suppressed
      else failed (.unsafeMapLoad a.pc a.insnOff a.size a.mapLimit)

def checkMapAccess (refine : Bool) (d : NumericDomain) (mapOff : Option Int) : Outcome :=
  match d with
  | .interval ivl =>
    (intervalCheckMapAccess btf cache a refine ivl).getD
      (zoneCheckMapAccess btf cache a refine d mapOff)
  | .zone _ => zoneCheckMapAccess btf cache a refine d mapOff

end Check

/-- What the state knows of the offset of the pointer, and from where on its
window is compared with the special fields. -/
structure Known where
  least : Int
  greatest : Int
  comparedFrom : Int

section Meaning
variable (a : Access) (d : NumericDomain) (mapOff : Option Int)

/-- The offsets a pointer offset stands for: `[off, off + var_off]`. -/
def ofPtrOffset (p : Interval.PtrOffset) : Known :=
  { least := p.off, greatest := p.off + p.varOff, comparedFrom := p.off + a.insnOff }

def ofScalars : Option Known :=
  let dbmMin := (d.getInterval a.base).1
  let dbmMax := (d.getInterval a.base).2
  if dbmMin ≠ -2^63 ∧ dbmMax ≠ 2^63 - 1 then
    some { least := dbmMin, greatest := dbmMax, comparedFrom := a.insnOff }
  else mapOff.map fun k => { least := k, greatest := k, comparedFrom := k + a.insnOff }

def known : Option Known :=
  match d with
  | .interval ivl => ((ivl.getPtrOffset a.base).map (ofPtrOffset a)).or (ofScalars a d mapOff)
  | .zone _ => ofScalars a d mapOff

def Allows (p : Int) : Prop :=
  ∃ k, known a d mapOff = some k ∧ k.least ≤ p ∧ p ≤ k.greatest

/-- A byte of the value that belongs to a special field. -/
def InField (f : SpecialField) (b : Int) : Prop :=
  (f.offset.toNat : Int) ≤ b ∧ b < f.offset.toNat + f.size.toNat

/-- The access at the offset `p` stays in the value, and none of its bytes belongs
to a special field. -/
structure SafeAt (btf : BtfContext) (cache : Cache) (p : Int) : Prop where
  inside : 0 ≤ p + a.insnOff ∧ p + a.insnOff + a.size ≤ a.mapLimit
  clear : ∀ f ∈ specialFields btf cache a, ∀ b, p + a.insnOff ≤ b → b < p + a.insnOff + a.size →
    ¬ InField f b

/-- Where the check is right: the ends of the window do not overflow, and every
field the window meets ends behind the point it is compared from and below 4 GiB. -/
structure Covered (btf : BtfContext) (cache : Cache) (k : Known) : Prop where
  start : -2^63 ≤ k.least + a.insnOff
  stop : k.greatest + a.insnOff + a.size < 2^63
  seen : ∀ f ∈ specialFields btf cache a, ∀ b, k.least + a.insnOff ≤ b →
    b < k.greatest + a.insnOff + a.size → InField f b →
    k.comparedFrom < f.offset.toNat + f.size.toNat ∧ f.offset.toNat + f.size.toNat < 2^32

end Meaning

section Window
variable {btf : BtfContext} {cache : Cache} {a : Access}

theorem wrapI64_sum {hi insn size : Int} (h : -2^63 ≤ hi + insn) (hsize : 0 < size)
    (h' : hi + insn + size < 2^63) : wrapI64 (wrapI64 (hi + insn) + size) = hi + insn + size := by
  rw [wrapI64_of_range h (by omega), wrapI64_of_range (by omega) h']

theorem checkBtfFieldsAccess_eq_nil {compared stop : Int} :
    checkBtfFieldsAccess btf cache a compared stop = [] ↔ ∀ f ∈ specialFields btf cache a,
      ¬ (compared < (fieldEnd f).toNat ∧ (f.offset.toNat : Int) < stop) := by
  rw [checkBtfFieldsAccess, List.flatMap_eq_nil_iff]
  refine forall₂_congr fun f _ => ?_
  split_ifs with h
  · simp [h]
  · simp [h]

theorem exists_access {lo hi b : Int} (hlohi : lo ≤ hi)
    (hlo : lo + a.insnOff ≤ b) (hhi : b < hi + a.insnOff + a.size) :
    ∃ p, lo ≤ p ∧ p ≤ hi ∧ p + a.insnOff ≤ b ∧ b < p + a.insnOff + a.size := by
  have hsize := a.size_pos
  by_cases h : b < lo + a.insnOff + a.size
  · exact ⟨lo, le_rfl, hlohi, hlo, h⟩
  · exact ⟨b - a.insnOff - a.size + 1, by omega, by omega, by omega, by omega⟩

theorem mapLimit_lt (a : Access) : 0 ≤ a.mapLimit ∧ a.mapLimit < 2^32 := by
  have hlt := a.mapDef.valueSize.toNat_lt
  rw [Access.mapLimit]
  omega

theorem safe_iff_covered {k : Known} (hlohi : k.least ≤ k.greatest)
    (hstart : Covered a btf cache k → 0 ≤ k.least + a.insnOff)
    (hstop : Covered a btf cache k → k.greatest + a.insnOff + a.size ≤ a.mapLimit)
    (hclear : k.greatest + a.insnOff + a.size ≤ a.mapLimit → -2^63 ≤ k.least + a.insnOff →
      ∀ f ∈ specialFields btf cache a, ¬ (k.comparedFrom < (fieldEnd f).toNat ∧
        (f.offset.toNat : Int) < k.greatest + a.insnOff + a.size)) :
    (∀ p, k.least ≤ p → p ≤ k.greatest → SafeAt a btf cache p) ↔ Covered a btf cache k := by
  constructor
  · intro h
    have hleast := (h k.least le_rfl hlohi).inside
    have hgreatest := (h k.greatest hlohi le_rfl).inside
    have hlimit := mapLimit_lt a
    refine ⟨by omega, by omega, fun f hf b hlo hhi hb => ?_⟩
    obtain ⟨p, hp, hp', hbp, hbp'⟩ := exists_access hlohi hlo hhi
    exact absurd hb ((h p hp hp').clear f hf b hbp hbp')
  · intro h p hp hp'
    have h0 := hstart h
    have h1 := hstop h
    refine ⟨⟨by omega, by omega⟩, fun f hf b hlo hhi hb => ?_⟩
    obtain ⟨hcompared, hend⟩ := h.seen f hf b (by omega) (by omega) hb
    have hno := hclear h1 h.start f hf
    rw [fieldEnd, UInt32.toNat_add, Nat.mod_eq_of_lt (by omega)] at hno
    unfold InField at hb
    omega

theorem checkWindow_eq_passed {refine : Bool} {start stop compared : Int} :
    checkWindow btf cache a refine start stop compared = passed ↔
      (0 ≤ start ∧ stop ≤ a.mapLimit) ∧ ∀ f ∈ specialFields btf cache a,
        ¬ (compared < (fieldEnd f).toNat ∧ (f.offset.toNat : Int) < stop) := by
  rw [checkWindow, ← checkBtfFieldsAccess_eq_nil]
  by_cases h : 0 ≤ start ∧ stop ≤ a.mapLimit
  · simp [h, passed]
  · rw [if_pos h]
    refine iff_of_false ?_ fun hp => h hp.1
    split_ifs
    · simp [suppressed, passed]
    · simp [failed, passed]

end Window

theorem maxOffset_eq {p : Interval.PtrOffset} {insn size limit : Int}
    (hinsn : -2^15 ≤ insn ∧ insn < 2^15) (hsize : 0 < size) (hlimit : limit < 2^32)
    (hstart : 0 ≤ p.off + insn)
    (hstop : p.off + p.varOff + insn + size < 2^63)
    (hend : wrapI64 (wrapI64 (p.maxOffset + insn) + size) ≤ limit) :
    p.maxOffset = p.off + p.varOff := by
  have hto : toI64 p.varOff = p.varOff := by
    unfold toI64
    rw [if_pos (by omega)]
  rw [Interval.PtrOffset.maxOffset, hto] at hend ⊢
  refine satI64_of_range ⟨by omega, ?_⟩
  by_contra hbig
  have hsat : satI64 (p.off + p.varOff) = 2^63 - 1 := by
    unfold satI64
    omega
  rw [hsat, wrapI64_sum (by omega) hsize (by omega)] at hend
  omega

section Branches
variable {btf : BtfContext} {cache : Cache} {a : Access} {d : NumericDomain} {mapOff : Option Int}
variable {refine : Bool}

theorem ptrOffset_safe_iff {ivl : Interval.IntervalState} {p : Interval.PtrOffset}
    (hp : ivl.getPtrOffset a.base = some p)
    (h : intervalCheckMapAccess btf cache a refine ivl = some passed) :
    (∀ q, p.off ≤ q → q ≤ p.off + p.varOff → SafeAt a btf cache q) ↔
      Covered a btf cache (ofPtrOffset a p) := by
  have hsize := a.size_pos
  obtain ⟨hlimit, hlimit'⟩ := mapLimit_lt a
  rw [intervalCheckMapAccess, hp, Option.map_some, Option.some.injEq, checkWindow_eq_passed,
    Interval.PtrOffset.minOffset] at h
  obtain ⟨⟨hstart, hstop⟩, hclear⟩ := h
  have hlow : -2^63 ≤ p.off + a.insnOff → p.off + p.varOff + a.insnOff + a.size < 2^63 →
      wrapI64 (p.off + a.insnOff) = p.off + a.insnOff :=
    fun h h' => wrapI64_of_range h (by omega)
  have hhigh : -2^63 ≤ p.off + a.insnOff → p.off + p.varOff + a.insnOff + a.size < 2^63 →
      wrapI64 (wrapI64 (p.maxOffset + a.insnOff) + a.size) =
        p.off + p.varOff + a.insnOff + a.size := by
    intro h h'
    rw [maxOffset_eq a.insnOff_range hsize hlimit' (by omega) h' hstop,
      wrapI64_sum (by omega) hsize (by omega)]
  refine safe_iff_covered (k := ofPtrOffset a p) (show p.off ≤ p.off + p.varOff by omega)
    (fun hc => ?_) (fun hc => ?_) fun hend hbegin => ?_
  · have hl := hlow hc.start hc.stop
    show 0 ≤ p.off + a.insnOff
    omega
  · have hh := hhigh hc.start hc.stop
    show p.off + p.varOff + a.insnOff + a.size ≤ a.mapLimit
    omega
  · have hend' : p.off + p.varOff + a.insnOff + a.size ≤ a.mapLimit := hend
    rwa [hlow hbegin (by omega), hhigh hbegin (by omega)] at hclear

theorem scalars_safe_iff {lo hi : Int} (hlohi : lo ≤ hi)
    (h : checkWindow btf cache a refine (wrapI64 (lo + a.insnOff))
      (wrapI64 (wrapI64 (hi + a.insnOff) + a.size)) a.insnOff = passed) :
    (∀ q, lo ≤ q → q ≤ hi → SafeAt a btf cache q) ↔
      Covered a btf cache { least := lo, greatest := hi, comparedFrom := a.insnOff } := by
  have hsize := a.size_pos
  obtain ⟨hlimit, hlimit'⟩ := mapLimit_lt a
  obtain ⟨⟨hstart, hstop⟩, hclear⟩ := checkWindow_eq_passed.1 h
  refine safe_iff_covered (k := { least := lo, greatest := hi, comparedFrom := a.insnOff }) hlohi
    (fun hc => ?_) (fun hc => ?_) fun hend hbegin => ?_
  · have hc' : hi + a.insnOff + a.size < 2^63 := hc.stop
    rwa [wrapI64_of_range (x := lo + a.insnOff) hc.start (by omega)] at hstart
  · have hc' : -2^63 ≤ lo + a.insnOff := hc.start
    have hsum : hi + a.insnOff + a.size < 2^63 := hc.stop
    rwa [wrapI64_sum (by omega) hsize hsum] at hstop
  · have hend' : hi + a.insnOff + a.size ≤ a.mapLimit := hend
    have hbegin' : -2^63 ≤ lo + a.insnOff := hbegin
    rwa [wrapI64_sum (by omega) hsize (by omega)] at hclear

theorem fixed_safe_iff {k : Int}
    (hin : 0 ≤ wrapI64 (k + a.insnOff) ∧
      wrapI64 (wrapI64 (k + a.insnOff) + a.size) ≤ a.mapLimit)
    (h : checkBtfFieldsAccess btf cache a (wrapI64 (k + a.insnOff))
      (wrapI64 (wrapI64 (k + a.insnOff) + a.size)) = []) :
    (∀ q, k ≤ q → q ≤ k → SafeAt a btf cache q) ↔
      Covered a btf cache { least := k, greatest := k, comparedFrom := k + a.insnOff } := by
  have hsize := a.size_pos
  obtain ⟨hlimit, hlimit'⟩ := mapLimit_lt a
  rw [checkBtfFieldsAccess_eq_nil] at h
  refine safe_iff_covered (k := { least := k, greatest := k, comparedFrom := k + a.insnOff }) le_rfl
    (fun hc => ?_) (fun hc => ?_) fun hend hbegin => ?_
  · have hc' : k + a.insnOff + a.size < 2^63 := hc.stop
    have hstart := hin.1
    rwa [wrapI64_of_range (x := k + a.insnOff) hc.start (by omega)] at hstart
  · have hstop := hin.2
    rwa [wrapI64_sum hc.start hsize hc.stop] at hstop
  · have hend' : k + a.insnOff + a.size ≤ a.mapLimit := hend
    have hbegin' : -2^63 ≤ k + a.insnOff := hbegin
    rwa [wrapI64_sum hbegin' hsize (by omega), wrapI64_of_range hbegin' (by omega)] at h

theorem zone_safe_iff (h : zoneCheckMapAccess btf cache a refine d mapOff = passed) :
    (∀ k, ofScalars a d mapOff = some k → ∀ q, k.least ≤ q → q ≤ k.greatest →
      SafeAt a btf cache q) ↔
      ∀ k, ofScalars a d mapOff = some k → k.least ≤ k.greatest → Covered a btf cache k := by
  unfold zoneCheckMapAccess at h
  unfold ofScalars
  by_cases hfin : (d.getInterval a.base).1 ≠ -2^63 ∧ (d.getInterval a.base).2 ≠ 2^63 - 1
  · simp only [if_pos hfin, Option.some.injEq, forall_eq'] at h ⊢
    by_cases hlohi : (d.getInterval a.base).1 ≤ (d.getInterval a.base).2
    · rw [scalars_safe_iff hlohi h]
      exact ⟨fun hc _ => hc, fun hc => hc hlohi⟩
    · exact ⟨fun _ hle => absurd hle hlohi, fun _ q hq hq' => absurd (hq.trans hq') hlohi⟩
  · simp only [if_neg hfin] at h ⊢
    cases hk : mapOff with
    | none => simp
    | some k =>
      simp only [hk, Option.map_some, Option.some.injEq, forall_eq'] at h ⊢
      by_cases hin : 0 ≤ wrapI64 (k + a.insnOff) ∧
          wrapI64 (wrapI64 (k + a.insnOff) + a.size) ≤ a.mapLimit
      · rw [if_neg (not_not.2 hin)] at h
        have hnil : checkBtfFieldsAccess btf cache a (wrapI64 (k + a.insnOff))
            (wrapI64 (wrapI64 (k + a.insnOff) + a.size)) = [] := congrArg Outcome.failures h
        rw [fixed_safe_iff hin hnil]
        exact ⟨fun hc _ => hc, fun hc => hc le_rfl⟩
      · rw [if_pos hin] at h
        simp [failed, passed] at h

/-- An accepted access is in the value and clear of its special fields, at every
offset the state allows, exactly where the window it was checked with covers what
the state knows. -/
theorem accepted_safe_iff (h : checkMapAccess btf cache a refine d mapOff = passed) :
    (∀ p, Allows a d mapOff p → SafeAt a btf cache p) ↔
      ∀ k, known a d mapOff = some k → k.least ≤ k.greatest → Covered a btf cache k := by
  have hallows : (∀ p, Allows a d mapOff p → SafeAt a btf cache p) ↔
      ∀ k, known a d mapOff = some k → ∀ q, k.least ≤ q → q ≤ k.greatest →
        SafeAt a btf cache q :=
    ⟨fun hs k hk q hq hq' => hs q ⟨k, hk, hq, hq'⟩, fun hs p ⟨k, hk, hp, hp'⟩ => hs k hk p hp hp'⟩
  rw [hallows]
  cases d with
  | zone dbm => exact zone_safe_iff h
  | interval ivl =>
    rw [checkMapAccess] at h
    simp only [known]
    cases hp : ivl.getPtrOffset a.base with
    | none =>
      have hnone : intervalCheckMapAccess btf cache a refine ivl = none := by
        rw [intervalCheckMapAccess, hp, Option.map_none]
      rw [hnone, Option.getD_none] at h
      exact zone_safe_iff h
    | some p =>
      have hsome : intervalCheckMapAccess btf cache a refine ivl = some passed := by
        cases hi : intervalCheckMapAccess btf cache a refine ivl with
        | none =>
          rw [intervalCheckMapAccess, hp] at hi
          cases hi
        | some o =>
          rw [hi] at h
          exact congrArg some h
      simp only [Option.map_some, Option.some_or, Option.some.injEq, forall_eq']
      rw [show (∀ q, (ofPtrOffset a p).least ≤ q → q ≤ (ofPtrOffset a p).greatest →
        SafeAt a btf cache q) ↔ _ from ptrOffset_safe_iff hp hsome]
      exact ⟨fun hc _ => hc, fun hc => hc (show p.off ≤ p.off + p.varOff by omega)⟩

end Branches

section Samples
open Concrete

/-- A load of four bytes at `r1 + insnOff` from a value of eight bytes whose last
four are a lock. -/
def lockAccess (insnOff : Int) (h : -2^15 ≤ insnOff ∧ insnOff < 2^15) : Access where
  pc := 0
  mapIdx := 0
  base := .r1
  insnOff := insnOff
  insnOff_range := h
  size := 4
  size_pos := by decide
  mapDef := { valueSize := 8, btfValTypeId := some 2 }

def offsetIn (lo hi : Int) : NumericDomain :=
  (NumericDomain.interval Interval.IntervalState.new).assignInterval .r1 lo hi

def fresh : Cache := cacheAfter lockTypes []

def minusFour : Valuation := fun r => if r = .r1 then BitVec.ofInt 64 (-4) else 0

theorem offsetIn_represents : (offsetIn (-8) (-4)).Represents minusFour where
  has := by
    intro r
    cases r <;> decide
  linked := by
    intro r q i _ _ h
    cases r <;> cases h

/-- With an offset in `[-8, -4]` and the instruction offset 8 the window is the
whole value, and the lock ends where the comparison begins: the load of the lock
passes. -/
theorem lock_load_accepted :
    checkMapAccess lockTypes fresh (lockAccess 8 (by decide)) false (offsetIn (-8) (-4)) none =
        passed ∧
      (offsetIn (-8) (-4)).Represents minusFour ∧
      Allows (lockAccess 8 (by decide)) (offsetIn (-8) (-4)) none (signedOf minusFour .r1) ∧
      ¬ SafeAt (lockAccess 8 (by decide)) lockTypes fresh (signedOf minusFour .r1) := by
  refine ⟨by decide, offsetIn_represents, ⟨_, rfl, by decide, by decide⟩, fun h => ?_⟩
  refine h.clear { kind := .spinLock, offset := 4, size := 4, contains := none } (by decide) 4
    (by decide) (by decide) ⟨by decide, by decide⟩

/-- With an offset that is not negative the same window start is compared. -/
theorem unlocked_load_safe :
    checkMapAccess lockTypes fresh (lockAccess 0 (by decide)) false (offsetIn 0 0) none = passed ∧
      ((∀ p, Allows (lockAccess 0 (by decide)) (offsetIn 0 0) none p →
          SafeAt (lockAccess 0 (by decide)) lockTypes fresh p) ↔
        ∀ k, known (lockAccess 0 (by decide)) (offsetIn 0 0) none = some k →
          k.least ≤ k.greatest → Covered (lockAccess 0 (by decide)) lockTypes fresh k) := by
  have h : checkMapAccess lockTypes fresh (lockAccess 0 (by decide)) false (offsetIn 0 0) none =
    passed := by decide
  exact ⟨h, accepted_safe_iff h⟩

end Samples
end ZoneVerifier.MapAccess
