import ZoneVerifier.SpillRun

/-!
# Loads from a sound frame

A load takes the recorded value of an aligned entry of the same size, cuts a
narrower value out of the bits of an entry below it, or knows the width only.
After every run of stores that leave no unsound entry, a load over written
bytes gives its register the word in memory, and a pointer type only where
one spill of that pointer wrote the 8 bytes last.
-/

set_option autoImplicit false

namespace ZoneVerifier.SpillSound
open Word Ast RegTypes Tristate Stack Machine Concrete ByteMemory Numeric StackOps Constraints
open Function (update update_self update_of_ne update_idem)

section Narrow
variable {m : Memory} {o b : Int} {size : MemSize} {t : Tnum}

theorem toNat_sizeMask (size : MemSize) : (sizeMask size).toNat = 256^size.bytes - 1 := by
  cases size <;> rfl

theorem toNat_and_sizeMask (x : BitVec 64) (size : MemSize) :
    (x &&& sizeMask size).toNat = x.toNat % 256^size.bytes := by
  have hpow : (256 : Nat)^size.bytes = 2^(8 * size.bytes) := by
    rw [show (256 : Nat) = 2^8 by rfl, ← Nat.pow_mul]
  rw [BitVec.toNat_and, toNat_sizeMask, hpow, Nat.and_two_pow_sub_one_eq_mod]

theorem readLe_lt_word (m : Memory) (b : Int) (size : MemSize) : readLe m b size.bytes < 2^64 :=
  lt_of_lt_of_le (readLe_lt m b size.bytes)
    (Nat.pow_le_pow_right (by decide) (size_le size).2)

theorem toNat_loadWord (m : Memory) (b : Int) (size : MemSize) :
    (loadWord m b size.bytes).toNat = readLe m b size.bytes := by
  unfold loadWord
  rw [BitVec.toNat_ofNat, Nat.mod_eq_of_lt (readLe_lt_word m b size)]

theorem loadWord_slice {wide : MemSize} {back : Nat} (h : back + size.bytes ≤ wide.bytes) :
    loadWord m (b + back) size.bytes =
      (loadWord m b wide.bytes >>> (8 * back)) &&& sizeMask size := by
  apply BitVec.eq_of_toNat_eq
  rw [toNat_loadWord, toNat_and_sizeMask, BitVec.toNat_ushiftRight, toNat_loadWord,
    Nat.shiftRight_eq_div_pow, readLe_slice m b h]
  have hpow : (256 : Nat)^back = 2^(8 * back) := by
    rw [show (256 : Nat) = 2^8 by rfl, ← Nat.pow_mul]
  rw [hpow]

theorem has_slice {x k : BitVec 64} {i : Nat} (h : t.Has x) :
    Tnum.Has { value := (t.value >>> i) &&& k, mask := (t.mask >>> i) &&& k } ((x >>> i) &&& k) := by
  rw [← h]
  apply BitVec.eq_of_getLsbD_eq
  intro j hj
  simp only [BitVec.getLsbD_and, BitVec.getLsbD_not, BitVec.getLsbD_ushiftRight, hj, decide_true,
    Bool.true_and]
  by_cases hij : i + j < 64
  · simp only [hij, decide_true, Bool.true_and]
    cases x.getLsbD (i + j) <;> cases t.mask.getLsbD (i + j) <;> cases k.getLsbD j <;> rfl
  · have hx : x.getLsbD (i + j) = false := BitVec.getLsbD_of_ge x _ (by omega)
    simp [hx]

theorem narrowedTnum_cases {stack : StackState} (h : narrowedTnum stack o size = some t) :
    ∃ (back : Nat) (sp : SpilledReg), stack.slots.find (o - back) = some sp ∧
      back + size.bytes ≤ sp.size.bytes ∧ Usable (o - back) sp ∧
      (sp.tnum.mask >>> (8 * back)) &&& sizeMask size ≠ sizeMask size ∧
      t = { value := (sp.tnum.value >>> (8 * back)) &&& sizeMask size
            mask := (sp.tnum.mask >>> (8 * back)) &&& sizeMask size } := by
  unfold narrowedTnum at h
  rw [Option.join_eq_some_iff] at h
  obtain ⟨back, -, hstep⟩ := List.exists_of_findSome?_eq_some h
  unfold narrowStep StackState.getSlot at hstep
  dsimp only at hstep
  cases hf : stack.slots.find (o - back) with
  | none =>
    rw [hf] at hstep
    cases hstep
  | some sp =>
    rw [hf] at hstep
    dsimp only at hstep
    split_ifs at hstep with hu hmask
    · cases hstep
    · exact ⟨back, sp, hf, hu.1, hu.2, hmask, (Option.some_inj.1 (Option.some_inj.1 hstep)).symm⟩

theorem has_narrowedTnum {c : Config} (hc : c.Sound)
    (h : narrowedTnum c.stack o size = some t) : t.Has (loadWord c.mem o size.bytes) := by
  obtain ⟨back, sp, hf, hle, hu, -, rfl⟩ := narrowedTnum_cases h
  have hslice := loadWord_slice (m := c.mem) (b := o - back) hle
  rw [Int.sub_add_cancel] at hslice
  rw [hslice]
  exact has_slice ((hc.slots _ sp hf).tnum hu)

/-- Bits are never cut out for a full word: an 8-byte entry without a source
has none. -/
theorem narrow_of_narrowedTnum {c : Config} {sp : SpilledReg} (hc : c.Sound)
    (hf : c.stack.slots.find o = some sp) (ho : o % size.bytes = 0)
    (hm : ¬ (sp.sourceReg.isSome = true ∧ sp.size = size))
    (h : narrowedTnum c.stack o size = some t) : size ≠ .u64 := by
  intro h64
  obtain ⟨back, sp', hf', hle, -, hmask, -⟩ := narrowedTnum_cases h
  have hsize := size_le sp'.size
  rw [h64] at hle ho
  have h8 : MemSize.u64.bytes = 8 := rfl
  have hback : back = 0 := by omega
  rw [hback, Int.natCast_zero, Int.sub_zero, hf, Option.some_inj] at hf'
  subst hf'
  have hwide : sp.size = .u64 := by
    revert hle
    cases sp.size <;> simp [MemSize.bytes]
  cases hs : sp.sourceReg with
  | some r => exact hm ⟨by rw [hs]; rfl, hwide.trans h64.symm⟩
  | none =>
    rw [(hc.slots o sp hf).plain ho hs, hback, h64] at hmask
    exact hmask (by decide)

theorem maxValue_narrowed (value mask : BitVec 64) (hs : size ≠ .u64) :
    (value &&& sizeMask size ||| mask &&& sizeMask size).toNat < 2^32 := by
  have hpart : ∀ x : BitVec 64, (x &&& sizeMask size).toNat < 2^32 := by
    intro x
    rw [toNat_and_sizeMask]
    refine lt_of_lt_of_le (Nat.mod_lt _ (Nat.pow_pos (by decide))) ?_
    cases size <;> first | exact absurd rfl hs | decide
  rw [BitVec.toNat_or]
  exact Nat.or_lt_two_pow (hpart value) (hpart mask)

theorem bounds_of_small {x : BitVec 64} (hcap : (t.value ||| t.mask).toNat < 2^32) (h : t.Has x) :
    0 ≤ toI64 t.value.toNat ∧ toI64 t.value.toNat ≤ signed x ∧
      signed x ≤ toI64 (t.value ||| t.mask).toNat := by
  have hmin : t.value.toNat ≤ x.toNat := Tnum.minValue_le h
  have hmax : x.toNat ≤ (t.value ||| t.mask).toNat := Tnum.le_maxValue h
  unfold signed
  rw [toI64_of_lt (by omega), toI64_of_lt (by omega), toI64_of_lt (by omega)]
  omega

end Narrow

section Restore
variable {d : NumericDomain} {ρ : Valuation} {dst : Reg} {v : BitVec 64} {sp : SpilledReg}
variable {ivl : Interval.IntervalState}

theorem tracks_addRelation {z : Zone.Dbm} {anchor : Option Reg} {lo hi : Option Int}
    (h : Zone.Tracks z ρ) (hr : Related ρ (ρ dst) anchor lo hi) :
    ∃ z', addRelation (.zone z) dst anchor lo hi = .zone z' ∧ Zone.Tracks z' ρ := by
  cases anchor with
  | none => exact ⟨z, rfl, h⟩
  | some a =>
    obtain ⟨-, hhi, hlo⟩ := hr a rfl
    have hup : ∀ {z c}, Zone.Tracks z ρ → hi = some c → Zone.Tracks (z.addConstraint dst a c) ρ :=
      fun hz hc => hz.addConstraint (Zone.asserted_of_le (hhi _ hc))
    have hdown : ∀ {z c}, Zone.Tracks z ρ → lo = some c → Zone.Tracks (z.addConstraint a dst c) ρ :=
      fun hz hc => hz.addConstraint (Zone.asserted_of_le (hlo _ hc))
    cases hi with
    | none =>
      cases lo with
      | none => exact ⟨_, rfl, h⟩
      | some l => exact ⟨_, rfl, hdown h rfl⟩
    | some u =>
      cases lo with
      | none => exact ⟨_, rfl, hup h rfl⟩
      | some l => exact ⟨_, rfl, hdown (hup h rfl) rfl⟩

theorem addRelation_interval {anchor : Option Reg} {lo hi : Option Int} (hd : dst ≠ .zero)
    (hr : Related ρ v anchor lo hi) :
    addRelation (.interval ivl) dst anchor lo hi = .interval ivl := by
  cases anchor with
  | none => rfl
  | some a =>
    have ha : a ≠ .zero := by
      intro h
      have := (hr a rfl).1
      rw [h] at this
      cases this
    unfold addRelation NumericDomain.addConstraint
    cases lo <;> cases hi <;> simp [hd, ha]

theorem represents_restore_zone {z : Zone.Dbm} (h : Zone.Tracks z ρ)
    (hr : RelatedBounds ρ (ρ dst) sp.ptrBounds) :
    (restoreAnchorInfo (.zone z) dst sp).Represents ρ := by
  have hmap : (if isMapValueType sp.regType = true then
      (NumericDomain.zone z).initMapValuePtr dst else .zone z) = .zone z := ite_self _
  unfold restoreAnchorInfo
  rw [hmap]
  cases hp : sp.ptrBounds with
  | none => exact h.represents
  | some pb =>
    rw [hp] at hr
    cases pb with
    | zone a lo hi ea elo ehi =>
      obtain ⟨z1, h1, ht1⟩ := tracks_addRelation h hr.1
      obtain ⟨z2, h2, ht2⟩ := tracks_addRelation ht1 hr.2
      dsimp only
      rw [h1, h2]
      split_ifs
      · exact ht2.close.represents
      · exact ht2.represents
    | interval off varOff range id =>
      dsimp only
      split <;> exact h.represents

theorem represents_setPtrOffset (p : Interval.PtrOffset) (h : Interval.Represents ivl ρ) :
    (setPtrOffset (.interval ivl) dst p).Represents ρ := by
  have hsame : ∀ r, (ivl.update dst { ivl.get dst with ptrOffset := some p }).getBounds r =
      ivl.getBounds r := by
    intro r
    rw [Interval.getBounds_update]
    split_ifs with hr
    · rw [hr]
      rfl
    · rfl
  refine ⟨fun r => ?_, fun r q i hr hq h1 h2 => ?_⟩
  · rw [hsame]
    exact h.has r
  · rw [hsame] at h1 h2
    exact h.linked r q i hr hq h1 h2

theorem represents_restore_interval (hd : dst.isProgram = true) (h : Interval.Represents ivl ρ)
    (hr : RelatedBounds ρ (ρ dst) sp.ptrBounds) (hm : isMapValueType sp.regType = true → ρ dst = 0) :
    (restoreAnchorInfo (.interval ivl) dst sp).Represents ρ := by
  have hd' := not_or.1 (Reg.isProgram_iff.1 hd)
  have hmap : ∃ ivl', (if isMapValueType sp.regType = true then
      (NumericDomain.interval ivl).initMapValuePtr dst else .interval ivl) = .interval ivl' ∧
      Interval.Represents ivl' ρ := by
    by_cases hty : isMapValueType sp.regType = true
    · rw [if_pos hty]
      refine ⟨_, rfl, ?_⟩
      have hup := h.update (x := dst) (v := ρ dst)
        (b := Interval.RegInterval.withPtrOffset (Bounds.ScalarBounds.constant 0)
          { Interval.PtrOffset.atAnchor .zero with off := 0 })
        (by rw [hm hty]; exact Bounds.ScalarBounds.has_constant (n := 0) (by decide)) rfl
      rw [Function.update_eq_self] at hup
      unfold Interval.initMapValuePtr Interval.initMapValuePtrAt Interval.IntervalState.set
      rw [if_neg (not_or.2 hd'), if_pos hd'.1]
      exact hup
    · rw [if_neg hty]
      exact ⟨ivl, rfl, h⟩
  obtain ⟨ivl', heq, h'⟩ := hmap
  unfold restoreAnchorInfo
  rw [heq]
  cases hp : sp.ptrBounds with
  | none => exact h'
  | some pb =>
    rw [hp] at hr
    cases pb with
    | zone a lo hi ea elo ehi =>
      dsimp only
      rw [addRelation_interval hd'.1 hr.1, addRelation_interval hd'.1 hr.2]
      split_ifs <;> exact h'
    | interval off varOff range id =>
      dsimp only
      split
      · exact represents_setPtrOffset _ h'
      · exact h'

end Restore

section Fill
variable {c : Config} {dst : Reg} {o : Int} {size : MemSize} {sp : SpilledReg}
variable {v : BitVec 64} {lo hi : Int} {ρ : Valuation}

/-- The recorded bounds are assigned as they are only if the read has the size
of the entry, or takes its lower half. -/
def TakesBounds (sp : SpilledReg) (o : Int) (size : MemSize) : Prop :=
  (sp.sourceReg.isSome = true ∧ sp.size = size) ∨ isLowHalf sp o size = true

/-- The recorded range keeps the word when it is assigned, and a pointer to a
map value, which the interval domain resets to the start of the value, is there. -/
def FillKept (c : Config) (o : Int) (size : MemSize) : Prop :=
  ∀ sp, c.stack.getSlot o = some sp → TakesBounds sp o size →
    c.state.domain.intervalKept sp.bounds.min sp.bounds.max (loadWord c.mem o size.bytes) ∧
    (c.state.domain.isInterval = true → isMapValueType sp.regType = true →
      loadWord c.mem o size.bytes = 0)

/-- A load gives the register this type, these bits and a domain that allows
the word. -/
structure Filled (s s' : State) (ρ : Valuation) (dst : Reg) (v : BitVec 64) (ty : RegType) : Prop where
  types : s'.types = s.types.set dst ty
  domain : s'.domain.Represents (update ρ dst v)
  tnum : ∃ t : Tnum, t.Has v ∧ s'.tnums = fun q => if q = dst then some t else s.tnums q

theorem Filled.represents {s s' : State} {ty : RegType} (h : Filled s s' ρ dst v ty)
    (hd : dst.isProgram = true) (hs : s.Represents ρ) :
    s'.Represents (update ρ dst v) := by
  obtain ⟨t, ht, htn⟩ := h.tnum
  refine ⟨h.domain, fun r => ?_⟩
  by_cases hr : r = dst
  · rw [hr, update_self, getTnum_of_isProgram s' hd, rawTnum, htn]
    simpa using ht
  · have hsame : s'.getTnum r = s.getTnum r := by
      unfold State.getTnum
      rw [htn]
      cases r <;> simp only [if_neg hr]
    rw [update_of_ne hr, hsame]
    exact hs.tnum r

/-- The bounds a load takes over contain the word. -/
structure Assignable (d : NumericDomain) (lo hi : Int) (v : BitVec 64) : Prop where
  range : d.isInterval = true → I64 lo ∧ I64 hi
  min_le : lo ≤ signed v
  le_max : signed v ≤ hi
  kept : d.intervalKept lo hi v

theorem tracks_assigned {z : Zone.Dbm} (h : Ready (.zone z) ρ) (hd : dst.isProgram = true)
    (ha : Assignable (.zone z) lo hi v) :
    Zone.Tracks (Zone.assignInterval (Zone.forget z dst) dst lo hi) (update ρ dst v) := by
  have hforget := NumericDomain.ready_forget (v := v) h hd
  have hd' := not_or.1 (Reg.isProgram_iff.1 hd)
  have := Zone.Tracks.assignInterval hforget.tracks hd'.1 ha.min_le ha.le_max
  rwa [update_idem] at this

theorem represents_assigned {d : NumericDomain} (h : Ready d ρ) (hd : dst.isProgram = true)
    (ha : Assignable d lo hi v) :
    ((d.forget dst).assignInterval dst lo hi).Represents (update ρ dst v) := by
  cases d with
  | zone z => exact (tracks_assigned h hd ha).represents
  | interval ivl =>
    obtain ⟨hlo, hhi⟩ := ha.range rfl
    have hforget := NumericDomain.ready_forget (v := v) h hd
    have := NumericDomain.represents_assignInterval hforget hd hlo hhi ha.min_le ha.le_max ha.kept
    rwa [update_idem] at this

theorem represents_restored {d : NumericDomain} (h : Ready d ρ) (hd : dst.isProgram = true)
    (ha : Assignable d lo hi v) (hr : RelatedBounds ρ v sp.ptrBounds)
    (hm : d.isInterval = true → isMapValueType sp.regType = true → v = 0) :
    (restoreAnchorInfo ((d.forget dst).assignInterval dst lo hi) dst sp).Represents
      (update ρ dst v) := by
  have hself : update ρ dst v dst = v := update_self dst v ρ
  -- the anchors are not the destination
  have hrel : RelatedBounds (update ρ dst v) (update ρ dst v dst) sp.ptrBounds := by
    have hone : ∀ {a lo hi}, Related ρ v a lo hi → Related (update ρ dst v) v a lo hi := by
      intro a lo hi h x hx
      obtain ⟨h1, h2⟩ := h x hx
      have hne : x ≠ dst := by
        intro he
        exact (not_or.1 (Reg.isProgram_iff.1 hd)).2 (he ▸ h1)
      refine ⟨h1, ?_⟩
      unfold signedOf
      rw [update_of_ne hne]
      exact h2
    rw [hself]
    cases hp : sp.ptrBounds with
    | none => trivial
    | some pb =>
      rw [hp] at hr
      cases pb with
      | zone a lo hi ea elo ehi => exact ⟨hone hr.1, hone hr.2⟩
      | interval off varOff range id => trivial
  cases d with
  | zone z => exact represents_restore_zone (tracks_assigned h hd ha) hrel
  | interval ivl =>
    refine represents_restore_interval hd (represents_assigned h hd ha) hrel fun hty => ?_
    rw [hself]
    exact hm rfl hty

theorem filled_assign {s : State} {t : Tnum} (ty : RegType) (h : Ready s.domain ρ)
    (hd : dst.isProgram = true) (ha : Assignable s.domain lo hi v) (ht : t.Has v) :
    Filled s (assignFilled (putPtrConstOff { s with domain := s.domain.forget dst } dst none) dst ty
      t lo hi) ρ dst v ty :=
  ⟨rfl, represents_assigned h hd ha, t, ht, rfl⟩

theorem assignable_recorded (hc : c.Sound) (hf : c.stack.slots.find o = some sp)
    (hs : sp.sourceReg.isSome = true) (hk : FillKept c o size) (ht : TakesBounds sp o size)
    (hv : loadWord c.mem o size.bytes = loadWord c.mem o sp.size.bytes) :
    Assignable c.state.domain sp.bounds.min sp.bounds.max (loadWord c.mem o size.bytes) := by
  obtain ⟨-, hrec⟩ := (hc.slots o sp hf).spilled hs
  rw [← hv] at hrec
  exact ⟨hrec.range, hrec.min_le, hrec.le_max, (hk sp hf ht).1⟩

theorem lt_of_upper_zero {t : Tnum} {x : BitVec 64} (h : t.Has x)
    (hmask : t.mask &&& 0xFFFFFFFF00000000#64 = 0#64) (hval : t.value >>> 32 = 0#64) : x.toNat < 2^32 := by
  have hmask' : t.mask.toNat < 2^32 := by
    apply Nat.lt_pow_two_of_testBit
    intro i hi
    by_cases h64 : i < 64
    · have hbit := congrArg (fun y : BitVec 64 => y.getLsbD i) hmask
      have hones : (0xFFFFFFFF00000000#64).getLsbD i = true := by
        have hshift : 0xFFFFFFFF00000000#64 = 0xFFFFFFFF#64 <<< 32 := by decide
        have hlow : (0xFFFFFFFF#64).getLsbD (i - 32) = true := by
          show Nat.testBit (2^32 - 1) (i - 32) = true
          rw [Nat.testBit_two_pow_sub_one]
          exact decide_eq_true (by omega)
        rw [hshift, BitVec.getLsbD_shiftLeft, hlow, decide_eq_true h64,
          decide_eq_false (by omega)]
        rfl
      simp only [BitVec.getLsbD_and, BitVec.getLsbD_zero] at hbit
      rwa [hones, Bool.and_true] at hbit
    · exact BitVec.getLsbD_of_ge t.mask i (by omega)
  have hval' : t.value.toNat < 2^32 := by
    have := congrArg BitVec.toNat hval
    rw [BitVec.toNat_ushiftRight, Nat.shiftRight_eq_div_pow] at this
    have h0 : (0#64).toNat = 0 := rfl
    omega
  have hmax := Tnum.le_maxValue h
  have hor : t.maxValue.toNat < 2^32 := by
    unfold Tnum.maxValue
    rw [BitVec.toNat_or]
    exact Nat.or_lt_two_pow hval' hmask'
  omega

theorem loadWord_lt_size (m : Memory) (o : Int) (size : MemSize) :
    (loadWord m o size.bytes).toNat < 256^size.bytes := by
  rw [toNat_loadWord]
  exact readLe_lt m o size.bytes

theorem assignable_unbounded (d : NumericDomain) (hv : v.toNat < 256^size.bytes) :
    Assignable d size.unboundedScalarBounds.1 size.unboundedScalarBounds.2 v := by
  have hsigned := signed_range v
  have hpos : v.toNat < 2^63 → signed v = v.toNat := toI64_of_lt
  unfold I64 at hsigned
  cases size <;> simp only [MemSize.bytes, MemSize.unboundedScalarBounds] at hv ⊢ <;>
    refine ⟨fun _ => ⟨by decide, by decide⟩, by omega, by omega, fun _ => ?_⟩
  · exact Or.inl (by decide)
  · exact Or.inl (by decide)
  · exact Or.inl (by decide)
  · exact Or.inr (Or.inr (Or.inr (Or.inl (by decide))))

theorem loadWord_lowHalf (hc : c.Sound) (hf : c.stack.slots.find o = some sp)
    (h : isLowHalf sp o size = true) : sp.sourceReg.isSome = true ∧
      loadWord c.mem o size.bytes = loadWord c.mem o sp.size.bytes := by
  obtain ⟨rfl, hwide, ho, hs, -, hmask, hval⟩ := of_decide_eq_true h
  refine ⟨hs, ?_⟩
  have hhas := (hc.slots o sp hf).tnum (Or.inl ho)
  have hle : 0 + MemSize.u32.bytes ≤ sp.size.bytes := by
    rw [hwide]
    decide
  have hslice := loadWord_slice (m := c.mem) (b := o) hle
  rw [Int.natCast_zero, Int.add_zero] at hslice
  rw [hslice]
  have hlt := lt_of_upper_zero hhas hmask hval
  apply BitVec.eq_of_toNat_eq
  rw [toNat_and_sizeMask, Nat.mul_zero, BitVec.ushiftRight_zero]
  exact Nat.mod_eq_of_lt hlt

theorem filled_fillEntry (hc : c.Sound) (hd : dst.isProgram = true) (ho : o % size.bytes = 0)
    (hf : c.stack.slots.find o = some sp) (hk : FillKept c o size) :
    ∃ ty, Filled c.state (fillEntry c.state c.stack dst o size sp) c.regs dst
      (loadWord c.mem o size.bytes) ty ∧
      (ty ≠ .scalarValue → ty = sp.regType ∧ sp.size = size) := by
  have hready : Ready c.state.domain c.regs := ⟨hc.represents.domain, hc.range, hc.represents.zero⟩
  have hok := hc.slots o sp hf
  unfold fillEntry
  by_cases hm : sp.sourceReg.isSome = true ∧ sp.size = size
  · have hmatch : (sp.sourceReg.isSome && decide (sp.size = size)) = true := by
      rw [hm.1, decide_eq_true hm.2]
      rfl
    obtain ⟨hmod, hrec⟩ := hok.spilled hm.1
    rw [hm.2] at hrec
    have ha := assignable_recorded hc hf hm.1 hk (Or.inl hm) (by rw [hm.2])
    have ht := hok.tnum (Or.inl hmod)
    rw [hm.2] at ht
    have hfill := filled_assign sp.regType hready hd ha ht
    refine ⟨sp.regType, ?_, fun _ => ⟨rfl, hm.2⟩⟩
    simp only [hmatch, Bool.not_true, Bool.false_and, Bool.false_eq_true, if_false,
      decide_eq_true hmod, Bool.and_self, if_true]
    split_ifs
    · exact ⟨rfl, represents_restored hready hd ha hrec.related (hk sp hf (Or.inl hm)).2, _, ht, rfl⟩
    · exact ⟨hfill.types, hfill.domain, hfill.tnum⟩
  · have hmatch : (sp.sourceReg.isSome && decide (sp.size = size)) = false := by
      rw [Bool.eq_false_iff, Ne, Bool.and_eq_true, decide_eq_true_eq]
      exact hm
    simp only [hmatch, Bool.not_false, Bool.true_and, Bool.false_and, Bool.false_eq_true, if_false]
    refine ⟨.scalarValue, ?_, fun h => absurd rfl h⟩
    by_cases hlow : isLowHalf sp o size = true
    · rw [if_pos hlow]
      obtain ⟨hs, hload⟩ := loadWord_lowHalf hc hf hlow
      obtain ⟨hmod, -⟩ := hok.spilled hs
      have ha := assignable_recorded hc hf hs hk (Or.inr hlow) hload
      have ht := hok.tnum (Or.inl hmod)
      rw [← hload] at ht
      have hfill := filled_assign .scalarValue hready hd ha ht
      exact ⟨hfill.types, hfill.domain, hfill.tnum⟩
    · rw [if_neg hlow]
      cases hn : narrowedTnum c.stack o size with
      | some t =>
        have hnarrow := narrow_of_narrowedTnum hc hf ho hm hn
        have ht := has_narrowedTnum hc hn
        have hcap : (t.value ||| t.mask).toNat < 2^32 := by
          obtain ⟨back, sp', -, -, -, -, rfl⟩ := narrowedTnum_cases hn
          exact maxValue_narrowed _ _ hnarrow
        obtain ⟨h0, h1, h2⟩ := bounds_of_small hcap ht
        have ha : Assignable c.state.domain (toI64 t.value.toNat) (toI64 (t.value ||| t.mask).toNat)
            (loadWord c.mem o size.bytes) :=
          ⟨fun _ => ⟨toI64_range t.value.isLt, toI64_range (t.value ||| t.mask).isLt⟩, h1, h2,
            fun _ => Or.inl h0⟩
        have hfill := filled_assign .scalarValue hready hd ha ht
        exact ⟨hfill.types, hfill.domain, hfill.tnum⟩
      | none =>
        have ha : Assignable c.state.domain size.unboundedScalarBounds.1
            size.unboundedScalarBounds.2 (loadWord c.mem o size.bytes) := by
          exact assignable_unbounded c.state.domain (loadWord_lt_size c.mem o size)
        have hfill := filled_assign .scalarValue hready hd ha (Tnum.has_unknown _)
        exact ⟨hfill.types, hfill.domain, hfill.tnum⟩

end Fill
end ZoneVerifier.SpillSound

namespace ZoneVerifier.SpillSound
open Ast RegTypes Machine Numeric StackOps

/-- Every byte of the range was stored to. -/
def Written (c : Config) (o : Int) (n : Nat) : Prop :=
  ∀ q, o ≤ q → q < o + n → ∃ w ∈ c.log, w.offset ≤ q ∧ q < w.offset + w.size.bytes

section
variable {c : Config} {dst : Reg} {o : Int} {size : MemSize}

def Present (s : State) (o : Int) (size : MemSize) : Prop :=
  ∀ q, o ≤ q → q < o + size.bytes → (s.stack.slots.find q).isSome = true

theorem all_present_iff (s : State) (o : Int) (size : MemSize) :
    ((List.range size.bytes).all fun i : Nat =>
      (s.frames.current.stack.getSlot (o + (i : Int))).isSome) = true ↔ Present s o size := by
  rw [List.all_eq_true]
  constructor
  · intro h q h1 h2
    have hq := h (q - o).toNat (List.mem_range.2 (by omega))
    rwa [show o + ((q - o).toNat : Int) = q by omega] at hq
  · intro h i hi
    rw [List.mem_range] at hi
    exact h (o + i) (by omega) (by omega)

theorem fillAt_of_present {s : State} (h : Present s o size) (dst : Reg) :
    ∃ sp, s.stack.slots.find o = some sp ∧ fillAt s s.frames.currentLevel dst o size =
      some (fillEntry s s.stack dst o size sp) := by
  have hsize := size_le size
  obtain ⟨sp, hsp⟩ := Option.isSome_iff_exists.1 (h o (Int.le_refl o) (by omega))
  refine ⟨sp, hsp, ?_⟩
  have hslot : s.frames.current.stack.getSlot o = some sp := hsp
  unfold fillAt
  rw [FrameStack.get_currentLevel]
  simp only [(all_present_iff s o size).2 h, if_true, hslot, Option.map_some]
  rfl

theorem fillAt_of_absent {s : State} (h : ¬ Present s o size) (dst : Reg) :
    fillAt s s.frames.currentLevel dst o size = none := by
  unfold fillAt
  rw [FrameStack.get_currentLevel]
  dsimp only
  rw [if_neg fun hall => h ((all_present_iff s o size).1 hall)]

theorem Config.Sound.present (hc : c.Sound) (hw : Written c o size.bytes) :
    Present c.state o size := by
  intro q h1 h2
  obtain ⟨w, hw, h3, h4⟩ := hw q h1 h2
  exact hc.written w hw q h3 h4

/-- A load after a run of stores: the register represents the word the memory
holds, and only the last 8-byte spill of a pointer gives it a pointer type. -/
theorem fillAt_after_run {c₀ : Config} (hc₀ : c₀.Sound) (hrun : Relation.ReflTransGen Step c₀ c)
    (hd : dst.isProgram = true) (ho : Op.InFrame o size) (hw : Written c o size.bytes)
    (hk : FillKept c o size) :
    ∃ s', fillAt c.state c.state.frames.currentLevel dst o size = some s' ∧
      s'.Represents (Function.update c.regs dst (loadWord c.mem o size.bytes)) ∧
      (s'.types.get dst ≠ .scalarValue → size = .u64 ∧
        lastWrite c.log o = some ⟨o, .u64, some (s'.types.get dst)⟩) := by
  have hc := sound_of_reaches hrun hc₀
  obtain ⟨sp, hsp, hfill⟩ := fillAt_of_present (hc.present hw) dst
  obtain ⟨ty, hfilled, hty⟩ := filled_fillEntry hc hd ho.1 hsp hk
  refine ⟨_, hfill, hfilled.represents hd hc.represents, fun hp => ?_⟩
  have hget : (fillEntry c.state c.state.stack dst o size sp).types.get dst = ty := by
    have htypes := hfilled.types
    unfold Config.stack at htypes
    rw [htypes, TypeState.get_set, if_pos ⟨rfl, Reg.toIndex_ne_none hd⟩]
  rw [hget] at hp ⊢
  obtain ⟨rfl, hsize⟩ := hty hp
  obtain ⟨-, h64, hlast⟩ := (hc.slots o sp hsp).pointer hp
  refine ⟨hsize ▸ h64, ?_⟩
  -- the lowest byte was stored to, so there is a last store to compare with
  obtain ⟨w, hmem, h1, h2⟩ := hw o (Int.le_refl o) (by have := size_le size; omega)
  have htouch : w.touches o = true := decide_eq_true (by omega)
  cases hfind : lastWrite c.log o with
  | none => exact absurd htouch (List.find?_eq_none.1 hfind w hmem)
  | some w' => rw [hlast w' hfind]

end

def emptyFrame : Config :=
  { state := State.new NumericDomain.newInterval 0, regs := fun _ => 0, mem := fun _ => 0, log := [] }

theorem emptyFrame_sound : emptyFrame.Sound where
  represents := .of_unlinked rfl (by decide) (by decide) (by decide)
  range := by
    intro r
    cases r <;> decide
  slots := by
    intro b sp h
    cases h
  written := by
    intro w h
    cases h

/-- Four zero bytes are stored at `-4`, then `5` at `-2`; the load of the four
bytes still gives zero. -/
theorem fillAt_returns_stale_zero :
    emptyFrame.Sound ∧ (Op.storeImm 0 (-4) .u32).Valid emptyFrame ∧
      (Op.storeImm 5 (-2) .u8).Valid ((Op.storeImm 0 (-4) .u32).exec emptyFrame) ∧
      (let c := (Op.storeImm 5 (-2) .u8).exec ((Op.storeImm 0 (-4) .u32).exec emptyFrame)
      Written c (-4) MemSize.u32.bytes ∧ loadWord c.mem (-4) MemSize.u32.bytes = 0x50000 ∧
        ∃ s', fillAt c.state c.state.frames.currentLevel .r2 (-4) .u32 = some s' ∧
          s'.getTnum .r2 = Tristate.Tnum.constant 0 ∧
          ¬ s'.Represents (Function.update c.regs .r2 (loadWord c.mem (-4) MemSize.u32.bytes))) := by
  refine ⟨emptyFrame_sound, ⟨by decide, by decide, by decide, by decide⟩,
    ⟨by decide, by decide, by decide, by decide⟩, ?_, by decide, ?_⟩
  · intro q h1 h2
    exact ⟨⟨-4, .u32, none⟩, List.mem_cons_of_mem _ List.mem_cons_self, h1, h2⟩
  · refine ⟨_, rfl, by decide, fun h => ?_⟩
    have htnum := h.tnum .r2
    revert htnum
    decide

/-- A word is stored with one 8-byte store and read back. -/
theorem fillAt_after_storeImm :
    ∃ s', fillAt ((Op.storeImm 5 (-8) .u64).exec emptyFrame).state 0 .r2 (-8) .u64 = some s' ∧
      s'.Represents (Function.update (fun _ => 0) .r2 5) := by
  have hrun : Relation.ReflTransGen Step emptyFrame ((Op.storeImm 5 (-8) .u64).exec emptyFrame) := by
    refine Relation.ReflTransGen.single ⟨.storeImm 5 (-8) .u64, ⟨by decide, by decide, by decide, by decide⟩,
      ?_, rfl⟩
    intro q sp hf
    cases hf
  have hload : loadWord ((Op.storeImm 5 (-8) .u64).exec emptyFrame).mem (-8) MemSize.u64.bytes = 5 := by
    decide
  have hdst : Reg.r2.isProgram = true := rfl
  have hframe : Op.InFrame (-8) .u64 := ⟨by decide, by decide, by decide⟩
  have hwritten : Written ((Op.storeImm 5 (-8) .u64).exec emptyFrame) (-8) MemSize.u64.bytes :=
    fun q h1 h2 => ⟨⟨-8, .u64, none⟩, List.mem_cons_self, h1, h2⟩
  have hkept : FillKept ((Op.storeImm 5 (-8) .u64).exec emptyFrame) (-8) .u64 := by
    intro sp hsp _
    cases hsp
    exact ⟨fun _ => Or.inl (by decide), fun _ h => absurd h (by decide)⟩
  obtain ⟨s', hs', hrep, -⟩ := fillAt_after_run emptyFrame_sound hrun hdst hframe hwritten hkept
  exact ⟨s', hs', hrep⟩

end ZoneVerifier.SpillSound
