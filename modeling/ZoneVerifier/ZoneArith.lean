import ZoneVerifier.Assign

/-!
# Addition and subtraction in the zone domain

`add_imm`, `apply_add_reg` and `apply_sub_reg` (`domains/zone/ops.rs`) move a
register by shifting its row and its column of difference bounds. The shift is
integer arithmetic, the machine wraps at `2^63`: when the exact result leaves
the signed range, a bound on the side it leaves from must have room for `2^64`.
-/

set_option autoImplicit false

namespace ZoneVerifier.Zone
open Word Ast Bounds DiffBound Concrete
open Function (update)
variable (d : Dbm) (dst src : Reg)

/-- The shadow tuple after a move by an amount in `[lo, hi]`: only the signed
interval is kept. -/
def shiftBounds (b : ShadowBounds) (lo hi : Int) : ShadowBounds :=
  { ScalarBounds.unknown with smin := satI64 (b.smin + lo), smax := satI64 (b.smax + hi) }

def moved (x : Reg) (row col : Int → Int) (lo hi : Int) : Dbm :=
  (Dbm.setBounds { d with data := translate inf d.data x row col } x
    (shiftBounds (d.bounds x) lo hi)).close

/-- `x` is forgotten and gets new ends where there are any. -/
def withEnds (x : Reg) (lo hi : Option Int) : Dbm :=
  let d := d.forgetVar x
  let d := lo.elim d (assumeGeImm d x)
  let d := hi.elim d (assumeLeImm d x)
  d.close

def addImm (x : Reg) (c : Int) : Dbm :=
  moved d x (fun a => satI64 (a + c)) (fun a => satI64 (a - c)) c c

def applyAddImm (dst : Reg) (imm : Int) : Dbm := addImm d dst imm

def Bounded (r : Reg) : Prop :=
  (getInterval d r).1 ≠ -2^63 ∧ (getInterval d r).2 ≠ 2^63 - 1

instance (d : Dbm) (r : Reg) : Decidable (Bounded d r) := inferInstanceAs (Decidable (_ ∧ _))

def sumLo : Option Int :=
  if (getInterval d dst).1 ≠ -2^63 ∧ (getInterval d src).1 ≠ -2^63 then
    some (satI64 ((getInterval d dst).1 + (getInterval d src).1))
  else none

def sumHi : Option Int :=
  if (getInterval d dst).2 ≠ 2^63 - 1 ∧ (getInterval d src).2 ≠ 2^63 - 1 then
    some (satI64 ((getInterval d dst).2 + (getInterval d src).2))
  else none

def diffLo : Option Int :=
  if (getInterval d dst).1 ≠ -2^63 ∧ (getInterval d src).2 ≠ 2^63 - 1 then
    some (satI64 ((getInterval d dst).1 - (getInterval d src).2))
  else none

def diffHi : Option Int :=
  if (getInterval d dst).2 ≠ 2^63 - 1 ∧ (getInterval d src).1 ≠ -2^63 then
    some (satI64 ((getInterval d dst).2 - (getInterval d src).1))
  else none

def applyAddReg : Dbm :=
  let (srcLo, srcHi) := getInterval d src
  if Bounded d src then
    moved d dst (fun a => clampedAdd a srcHi) (fun a => satI64 (a - srcLo)) srcLo srcHi
  else withEnds d dst (sumLo d dst src) (sumHi d dst src)

def applySubReg : Dbm :=
  let (srcLo, srcHi) := getInterval d src
  if Bounded d src then
    moved d dst (fun a => satI64 (a - srcLo)) (fun a => clampedAdd a srcHi) (-srcHi) (-srcLo)
  else withEnds d dst (diffLo d dst src) (diffHi d dst src)

/-- A difference `s` is admitted by the bound `a` shifted by `k` with saturation. -/
def SatKept (k a s : Int) : Prop := inf ≤ a + k ∨ s ≤ a + k

/-- The same for `clamped_add`, which drops large sums and overflows and
weakens small ones. -/
def ClampKept (k a s : Int) : Prop :=
  posBound < a + k ∨ a + k < -2^63 ∨ s ≤ max (a + k) (-posBound)

variable {k a s k' w c : Int}

section Move
variable {d : Dbm} {x : Reg} {ρ : Valuation} {δ : Int} {row col : Int → Int}

/-- `x` moves by `δ`. When the result leaves the signed range at the top, the
differences to `x` grow by `2^64`, and at the bottom those from `x` do. -/
def MoveCovered (d : Dbm) (x : Reg) (ρ : Valuation) (δ : Int) (row col : Int → Int → Prop) : Prop :=
  (2^63 ≤ signedOf ρ x + δ → ∀ j, j ≠ x → d.get j x < inf →
    col (d.get j x) (signedOf ρ j - (signedOf ρ x + δ) + 2^64)) ∧
  (signedOf ρ x + δ < -2^63 → ∀ j, j ≠ x → d.get x j < inf →
    row (d.get x j) (signedOf ρ x + δ - signedOf ρ j + 2^64))

/-- A shift by `k` never asserts more than the shifted bound. -/
def Shifts (f : Int → Int) (k : Int) : Prop := ∀ a, a < inf → f a < inf → a + k ≤ f a

/-- What the shifted bound asserts. -/
structure Keeps (f : Int → Int) (k : Int) (kept : Int → Int → Prop) : Prop where
  shifts : Shifts f k
  iff : ∀ a s, a < inf → -2^63 < s → ((f a < inf → s ≤ f a) ↔ kept a s)

theorem keeps_sat (h : k' ≤ k) : Keeps (fun a => satI64 (a + k)) k' (SatKept k) := by
  refine ⟨fun a ha hf => ?_, fun a s _ hs => ?_⟩
  · unfold satI64 inf at *
    omega
  · unfold SatKept satI64 inf
    omega

theorem keeps_clamp (hk : k < inf) (h : k' ≤ k) : Keeps (clampedAdd · k) k' (ClampKept k) := by
  refine ⟨fun a ha hf => ?_, fun a s ha _ => ?_⟩
  · rcases clampedAdd_sound a k ha hk with h' | h'
    · exact absurd hf (Int.not_lt.2 h')
    · exact Int.le_trans (Int.add_le_add_left h a) h'
  · unfold ClampKept clampedAdd clampUpperBound I64
    have h1 : posBound < inf ∧ 0 < posBound ∧ inf < 2^62 := by unfold posBound inf; omega
    have h2 : negBound = -posBound := rfl
    rw [if_neg (by omega)]
    split_ifs <;> omega

theorem signedOf_update_self (ρ : Valuation) (x : Reg) (n : BitVec 64) :
    signedOf (update ρ x n) x = signed n := by
  rw [signedOf, Function.update_self]

theorem signedOf_update_of_ne (ρ : Valuation) (n : BitVec 64) {j : Reg} (hj : j ≠ x) :
    signedOf (update ρ x n) j = signedOf ρ j := by
  rw [signedOf, Function.update_of_ne hj]
  rfl

/-- The value of a moved register, by where the exact result lies. -/
structure Wraps (w s : Int) : Prop where
  inside : -2^63 ≤ w → w < 2^63 → s = w
  above : 2^63 ≤ w → s = w - 2^64
  below : w < -2^63 → s = w + 2^64

theorem wraps_of_mod (hs : I64 s) (hw : -2^64 ≤ w ∧ w < 2^64) (h : (s - w) % 2^64 = 0) :
    Wraps w s := by
  unfold I64 at hs
  constructor <;> intros <;> omega

/-- A translation is sound for the wrapped result exactly when the bounds on
the side it leaves from cover the wrap. -/
theorem satisfies_translate_iff (h : Satisfies d ρ) (hrow : Shifts row δ) (hcol : Shifts col (-δ))
    {n : BitVec 64} (hn : Wraps (signedOf ρ x + δ) (signed n)) :
    Sat inf (translate inf d.data x row col) (signedOf (update ρ x n)) ↔
      MoveCovered d x ρ δ (fun a s => row a < inf → s ≤ row a)
        (fun a s => col a < inf → s ≤ col a) := by
  rw [sat_translate_iff h (fun j hj => signedOf_update_of_ne ρ n hj), signedOf_update_self]
  have hle : ∀ j, j ≠ x → signed n ≤ signedOf ρ x + δ →
      d.data x j < inf → row (d.data x j) < inf → signed n - signedOf ρ j ≤ row (d.data x j) := by
    intro j _ hs hb hr
    have h1 := h x j hb
    have h2 := hrow _ hb hr
    omega
  have hge : ∀ j, j ≠ x → signedOf ρ x + δ ≤ signed n →
      d.data j x < inf → col (d.data j x) < inf → signedOf ρ j - signed n ≤ col (d.data j x) := by
    intro j _ hs hb hr
    have h1 := h j x hb
    have h2 := hcol _ hb hr
    omega
  unfold MoveCovered Dbm.get
  constructor
  · intro hs
    refine ⟨fun hw j hj hb hr => ?_, fun hw j hj hb hr => ?_⟩
    · have h1 := (hs j hj).2 hb hr
      have h2 := hn.above hw
      omega
    · have h1 := (hs j hj).1 hb hr
      have h2 := hn.below hw
      omega
  · rintro ⟨hover, hunder⟩ j hj
    rcases Int.lt_or_le (signedOf ρ x + δ) (-2^63) with hw | hw
    · have h2 := hn.below hw
      refine ⟨fun hb hr => ?_, fun hb hr => hge j hj (by omega) hb hr⟩
      have h1 := hunder hw j hj hb hr
      omega
    · rcases Int.lt_or_le (signedOf ρ x + δ) (2^63) with hw' | hw'
      · have h2 := hn.inside hw hw'
        exact ⟨fun hb hr => hle j hj (by omega) hb hr, fun hb hr => hge j hj (by omega) hb hr⟩
      · have h2 := hn.above hw'
        refine ⟨fun hb hr => hle j hj (by omega) hb hr, fun hb hr => ?_⟩
        have h1 := hover hw' j hj hb hr
        omega

theorem moveCovered_congr {row col row' col' : Int → Int → Prop} (hw : I64 δ ∨ I64 (-δ))
    (hrow : ∀ a s, a < inf → -2^63 < s → (row a s ↔ row' a s))
    (hcol : ∀ a s, a < inf → -2^63 < s → (col a s ↔ col' a s)) :
    MoveCovered d x ρ δ row col ↔ MoveCovered d x ρ δ row' col' := by
  have hx : I64 (signedOf ρ x) := signed_range (ρ x)
  refine and_congr ?_ ?_
  · refine forall_congr' fun _ => forall_congr' fun j => forall_congr' fun _ =>
      forall_congr' fun hb => hcol _ _ hb ?_
    have hj : I64 (signedOf ρ j) := signed_range (ρ j)
    unfold I64 at *
    omega
  · refine forall_congr' fun _ => forall_congr' fun j => forall_congr' fun _ =>
      forall_congr' fun hb => hrow _ _ hb ?_
    have hj : I64 (signedOf ρ j) := signed_range (ρ j)
    unfold I64 at *
    omega

theorem satisfies_moved_iff {rowKept colKept : Int → Int → Prop} {lo hi : Int} {n : BitVec 64}
    (h : Satisfies d ρ) (hrow : Keeps row δ rowKept) (hcol : Keeps col (-δ) colKept)
    (hδ : I64 δ ∨ I64 (-δ)) (hn : Wraps (signedOf ρ x + δ) (signed n)) :
    Satisfies (moved d x row col lo hi) (update ρ x n) ↔ MoveCovered d x ρ δ rowKept colKept := by
  refine (satisfies_close_iff _ _).trans ?_
  rw [← moveCovered_congr hδ hrow.iff hcol.iff]
  exact satisfies_translate_iff h hrow.shifts hcol.shifts hn

end Move

theorem wraps_add (a b : BitVec 64) : Wraps (signed a + signed b) (signed (a + b)) := by
  have ha := signed_range a
  have hb := signed_range b
  refine wraps_of_mod (signed_range _) ?_ ?_
  · unfold I64 at *
    omega
  · unfold signed toI64
    rw [BitVec.toNat_add]
    split_ifs <;> omega

theorem wraps_sub (a b : BitVec 64) : Wraps (signed a + -signed b) (signed (a - b)) := by
  have ha := signed_range a
  have hb := signed_range b
  refine wraps_of_mod (signed_range _) ?_ ?_
  · unfold I64 at *
    omega
  · unfold signed toI64
    rw [BitVec.toNat_sub]
    split_ifs <;> omega

theorem getInterval_snd_lt {d : Dbm} {x : Reg} (h : (getInterval d x).2 ≠ 2^63 - 1) :
    (getInterval d x).2 < inf := by
  simp only [getInterval] at h ⊢
  split_ifs at h ⊢ with hi
  · exact absurd rfl h
  · exact Int.not_le.1 hi

section Ends
variable {d e : Dbm} {x : Reg} {ρ : Valuation} {c : Int} {lo hi : Option Int}

/-- The matrices are the same, and so is the shadow tuple of `x`. -/
structure Agree (x : Reg) (d e : Dbm) : Prop where
  data : d.data = e.data
  bounds : d.bounds x = e.bounds x

theorem Agree.addConstraint (h : Agree x d e) (i j : Reg) (c : Int) :
    Agree x (d.addConstraint i j c) (e.addConstraint i j c) := by
  constructor
  · unfold Dbm.addConstraint
    split_ifs
    · exact h.data
    · rw [h.data]
  · rw [bounds_addConstraint, bounds_addConstraint, h.bounds]

theorem Agree.close (h : Agree x d e) : Agree x d.close e.close :=
  ⟨by simp only [Dbm.close, h.data], h.bounds⟩

theorem Agree.setBounds (h : Agree x d e) (b : ShadowBounds) :
    Agree x (d.setBounds x b) (e.setBounds x b) :=
  ⟨h.data, by simp [Dbm.setBounds]⟩

theorem Agree.ite {d' e' : Dbm} {p : Prop} [Decidable p] (h : Agree x d e) (h' : Agree x d' e') :
    Agree x (if p then d else d') (if p then e else e') := by
  split_ifs
  · exact h
  · exact h'

section
variable (h : Agree x d e)
include h

theorem Agree.syncFromDbm :
    Zone.syncFromDbm d x (d.bounds x) = Zone.syncFromDbm e x (e.bounds x) := by
  rcases d with ⟨data, bd⟩
  rcases e with ⟨data', be⟩
  obtain ⟨hdata : data = data', hb : bd x = be x⟩ := h
  subst hdata
  show Zone.syncFromDbm ⟨data, bd⟩ x (bd x) = _
  rw [hb]
  rfl

theorem Agree.syncBounds :
    Agree x (Zone.syncBounds d x) (Zone.syncBounds e x) := by
  unfold Zone.syncBounds
  rw [h.syncFromDbm]
  generalize crossPollinate (Zone.syncFromDbm e x (e.bounds x)) = b
  refine h.ite ?_
  have hmax : Agree x
      (if b.smax < 2^63 - 1 then (d.setBounds x b).addConstraint x .zero b.smax
        else d.setBounds x b)
      (if b.smax < 2^63 - 1 then (e.setBounds x b).addConstraint x .zero b.smax
        else e.setBounds x b) :=
    ((h.setBounds b).addConstraint x .zero b.smax).ite (h.setBounds b)
  exact (hmax.addConstraint .zero x (-b.smin)).ite hmax

theorem Agree.assumeGeImm (c : Int) :
    Agree x (Zone.assumeGeImm d x c) (Zone.assumeGeImm e x c) :=
  h.ite (h.addConstraint .zero x (-c)).close.syncBounds

theorem Agree.assumeLeImm (c : Int) :
    Agree x (Zone.assumeLeImm d x c) (Zone.assumeLeImm e x c) :=
  h.ite (h.addConstraint x .zero c).close.syncBounds

theorem Agree.satisfies_iff : Satisfies d ρ ↔ Satisfies e ρ := by
  rw [Satisfies, h.data, ← Satisfies]

end

/-- The same matrix with nothing known in the shadow tuples. -/
def blind (d : Dbm) : Dbm := { d with bounds := fun _ => ScalarBounds.unknown }

theorem tracks_blind (h : Satisfies d ρ) (hz : signedOf ρ .zero = 0) : Tracks (blind d) ρ :=
  ⟨h, fun r => Fits.of_inRange (b := ScalarBounds.unknown) (by decide)
    (ScalarBounds.has_unknown (ρ r).isLt), hz⟩

theorem agree_forgetVar_blind (d : Dbm) (x : Reg) :
    Agree x (d.forgetVar x) ((blind d).forgetVar x) :=
  ⟨rfl, by simp [Dbm.forgetVar]⟩

theorem satisfies_of_assumeLeImm (h : Satisfies (Zone.assumeLeImm d x c) ρ) : Satisfies d ρ := by
  unfold Zone.assumeLeImm at h
  split_ifs at h
  · exact h
  · exact satisfies_of_addConstraint ((satisfies_close_iff _ ρ).1 (satisfies_of_syncBounds h))

theorem satisfies_of_assumeGeImm (h : Satisfies (Zone.assumeGeImm d x c) ρ) : Satisfies d ρ := by
  unfold Zone.assumeGeImm at h
  split_ifs at h
  · exact h
  · exact satisfies_of_addConstraint ((satisfies_close_iff _ ρ).1 (satisfies_of_syncBounds h))

theorem Agree.geEnd (h : Agree x d e) (lo : Option Int) :
    Agree x (lo.elim d (Zone.assumeGeImm d x)) (lo.elim e (Zone.assumeGeImm e x)) := by
  cases lo with
  | none => exact h
  | some c => exact h.assumeGeImm c

theorem Agree.leEnd (h : Agree x d e) (hi : Option Int) :
    Agree x (hi.elim d (Zone.assumeLeImm d x)) (hi.elim e (Zone.assumeLeImm e x)) := by
  cases hi with
  | none => exact h
  | some c => exact h.assumeLeImm c

theorem Tracks.geEnd (h : Tracks d ρ) (hlo : ∀ c, lo = some c → GeKept c (signedOf ρ x)) :
    Tracks (lo.elim d (Zone.assumeGeImm d x)) ρ := by
  cases lo with
  | none => exact h
  | some c => exact h.assumeGeImm (hlo c rfl)

theorem Tracks.leEnd (h : Tracks d ρ) (hhi : ∀ c, hi = some c → LeKept c (signedOf ρ x)) :
    Tracks (hi.elim d (Zone.assumeLeImm d x)) ρ := by
  cases hi with
  | none => exact h
  | some c => exact h.assumeLeImm (hhi c rfl)

theorem geKept_of_geEnd (hz : signedOf ρ .zero = 0)
    (h : Satisfies (lo.elim d (Zone.assumeGeImm d x)) ρ) (c : Int) (hc : lo = some c) :
    GeKept c (signedOf ρ x) := by
  subst hc
  exact geKept_of_satisfies hz h

theorem leKept_of_leEnd (hz : signedOf ρ .zero = 0)
    (h : Satisfies (hi.elim d (Zone.assumeLeImm d x)) ρ) :
    Satisfies d ρ ∧ ∀ c, hi = some c → LeKept c (signedOf ρ x) := by
  cases hi with
  | none => exact ⟨h, nofun⟩
  | some c =>
    refine ⟨satisfies_of_assumeLeImm h, fun c' hc => ?_⟩
    cases hc
    exact leKept_of_satisfies hz h

theorem satisfies_withEnds_iff (h : Satisfies d ρ) (hz : signedOf ρ .zero = 0) (hx : x ≠ .zero)
    (n : BitVec 64) (lo hi : Option Int) :
    Satisfies (withEnds d x lo hi) (update ρ x n) ↔
      (∀ c, lo = some c → GeKept c (signed n)) ∧ (∀ c, hi = some c → LeKept c (signed n)) := by
  have hz' : signedOf (update ρ x n) .zero = 0 := by
    rw [signedOf_update_of_ne ρ n hx.symm, hz]
  unfold withEnds
  rw [satisfies_close_iff, ← signedOf_update_self ρ x n]
  constructor
  · intro hs
    obtain ⟨hlo, hhi⟩ := leKept_of_leEnd hz' hs
    exact ⟨geKept_of_geEnd hz' hlo, hhi⟩
  · -- the shadow tuples take no part, so they may as well be empty
    rintro ⟨hlo, hhi⟩
    have htr : Tracks ((blind d).forgetVar x) (update ρ x n) :=
      (tracks_blind h hz).forgetVar hx
    have hag := ((agree_forgetVar_blind d x).geEnd lo).leEnd hi
    exact hag.satisfies_iff.2 ((htr.geEnd hlo).leEnd hhi).sat

/-- The new ends of an exact result `w` admit the wrapped result. -/
def EndsCovered (w : Int) (lo hi : Option Int) : Prop :=
  (2^63 ≤ w → ∀ c, lo = some c → GeKept c (w - 2^64)) ∧
  (w < -2^63 → ∀ c, hi = some c → LeKept c (w + 2^64))

theorem endsCovered_iff (hw : Wraps w s) (hlo : ∀ c, lo = some c → c ≤ w ∨ c = -2^63)
    (hhi : ∀ c, hi = some c → w ≤ c ∨ c = 2^63 - 1) (hs : -2^64 ≤ w ∧ w < 2^64) :
    ((∀ c, lo = some c → GeKept c s) ∧ (∀ c, hi = some c → LeKept c s)) ↔
      EndsCovered w lo hi := by
  have hge : w ≤ s → ∀ c, lo = some c → GeKept c s := by
    intro hws c hc
    rcases hlo c hc with hcw | rfl
    · exact geKept_of_le (Int.le_trans hcw hws)
    · exact Or.inl (by rw [posBound_eq]; decide)
  have hle : s ≤ w → ∀ c, hi = some c → LeKept c s := by
    intro hws c hc
    rcases hhi c hc with hcw | rfl
    · exact leKept_of_le (Int.le_trans hws hcw)
    · exact Or.inl (by rw [posBound_eq]; decide)
  rcases Int.lt_or_le w (-2^63) with h | h
  · have he := hw.below h
    rw [he] at hge ⊢
    exact ⟨fun hk => ⟨fun h' => absurd h' (by omega), fun _ => hk.2⟩,
      fun hk => ⟨hge (by omega), hk.2 h⟩⟩
  · rcases Int.lt_or_le w (2^63) with h' | h'
    · have he := hw.inside h h'
      exact ⟨fun _ => ⟨fun h'' => absurd h'' (by omega), fun h'' => absurd h'' (by omega)⟩,
        fun _ => ⟨hge (by omega), hle (by omega)⟩⟩
    · have he := hw.above h'
      rw [he] at hle ⊢
      exact ⟨fun hk => ⟨fun _ => hk.1, fun h'' => absurd h'' (by omega)⟩,
        fun hk => ⟨hk.1 h', hle (by omega)⟩⟩

end Ends

section Transfer
variable {d : Dbm} {dst src : Reg} {ρ : Valuation}

def AddImmCovered (d : Dbm) (dst : Reg) (ρ : Valuation) (c : Int) : Prop :=
  MoveCovered d dst ρ c (SatKept c) (SatKept (-c))

def AddRegCovered (d : Dbm) (dst src : Reg) (ρ : Valuation) : Prop :=
  if Bounded d src then
    MoveCovered d dst ρ (signedOf ρ src) (ClampKept (getInterval d src).2)
      (SatKept (-(getInterval d src).1))
  else EndsCovered (signedOf ρ dst + signedOf ρ src) (sumLo d dst src) (sumHi d dst src)

def SubRegCovered (d : Dbm) (dst src : Reg) (ρ : Valuation) : Prop :=
  if Bounded d src then
    MoveCovered d dst ρ (-signedOf ρ src) (SatKept (-(getInterval d src).1))
      (ClampKept (getInterval d src).2)
  else EndsCovered (signedOf ρ dst + -signedOf ρ src) (diffLo d dst src) (diffHi d dst src)

theorem applyAddReg_eq (d : Dbm) (dst src : Reg) : applyAddReg d dst src =
    if Bounded d src then
      moved d dst (fun a => clampedAdd a (getInterval d src).2)
        (fun a => satI64 (a - (getInterval d src).1)) (getInterval d src).1 (getInterval d src).2
    else withEnds d dst (sumLo d dst src) (sumHi d dst src) := rfl

theorem applySubReg_eq (d : Dbm) (dst src : Reg) : applySubReg d dst src =
    if Bounded d src then
      moved d dst (fun a => satI64 (a - (getInterval d src).1))
        (fun a => clampedAdd a (getInterval d src).2) (-(getInterval d src).2)
        (-(getInterval d src).1)
    else withEnds d dst (diffLo d dst src) (diffHi d dst src) := rfl

theorem le_of_end {p : Prop} [Decidable p] (h : a ≤ w) (c : Int)
    (hc : (if p then some (satI64 a) else none) = some c) : c ≤ w ∨ c = -2^63 := by
  split_ifs at hc
  cases hc
  unfold satI64
  omega

theorem ge_of_end {p : Prop} [Decidable p] (h : w ≤ a) (c : Int)
    (hc : (if p then some (satI64 a) else none) = some c) : w ≤ c ∨ c = 2^63 - 1 := by
  split_ifs at hc
  cases hc
  unfold satI64
  omega

variable (h : Satisfies d ρ)
include h

theorem satisfies_addImm_iff (hc : I64 c) :
    Satisfies (addImm d dst c) (update ρ dst (ρ dst + BitVec.ofInt 64 c)) ↔
      AddImmCovered d dst ρ c := by
  have hw : Wraps (signedOf ρ dst + c) (signed (ρ dst + BitVec.ofInt 64 c)) := by
    have := wraps_add (ρ dst) (BitVec.ofInt 64 c)
    rwa [signed_ofInt hc] at this
  have hcol : Keeps (fun a => satI64 (a - c)) (-c) (SatKept (-c)) := keeps_sat (Int.le_refl (-c))
  exact satisfies_moved_iff h (keeps_sat (Int.le_refl c)) hcol (Or.inl hc) hw

variable (hz : signedOf ρ .zero = 0) (hd : dst ≠ .zero)
include hz hd

theorem satisfies_applyAddReg_iff :
    Satisfies (applyAddReg d dst src) (update ρ dst (ρ dst + ρ src)) ↔
      AddRegCovered d dst src ρ := by
  have hw : Wraps (signedOf ρ dst + signedOf ρ src) (signed (ρ dst + ρ src)) :=
    wraps_add (ρ dst) (ρ src)
  have hsrc := getInterval_bounds h hz src
  have hdst := getInterval_bounds h hz dst
  have hr : I64 (signedOf ρ src) := signed_range (ρ src)
  have hr' : I64 (signedOf ρ dst) := signed_range (ρ dst)
  rw [applyAddReg_eq, AddRegCovered]
  by_cases hb : Bounded d src
  · rw [if_pos hb, if_pos hb]
    have hhi := getInterval_snd_lt hb.2
    have hcol : Keeps (fun a => satI64 (a - (getInterval d src).1)) _ _ :=
      keeps_sat (Int.neg_le_neg hsrc.1)
    exact satisfies_moved_iff h (keeps_clamp hhi hsrc.2) hcol (Or.inl hr) hw
  · rw [if_neg hb, if_neg hb]
    refine (satisfies_withEnds_iff h hz hd _ _ _).trans (endsCovered_iff hw ?_ ?_ ?_)
    · exact le_of_end (Int.add_le_add hdst.1 hsrc.1)
    · exact ge_of_end (Int.add_le_add hdst.2 hsrc.2)
    · unfold I64 at hr hr'
      omega

theorem satisfies_applySubReg_iff :
    Satisfies (applySubReg d dst src) (update ρ dst (ρ dst - ρ src)) ↔
      SubRegCovered d dst src ρ := by
  have hw : Wraps (signedOf ρ dst + -signedOf ρ src) (signed (ρ dst - ρ src)) :=
    wraps_sub (ρ dst) (ρ src)
  have hsrc := getInterval_bounds h hz src
  have hdst := getInterval_bounds h hz dst
  have hr : I64 (signedOf ρ src) := signed_range (ρ src)
  have hr' : I64 (signedOf ρ dst) := signed_range (ρ dst)
  rw [applySubReg_eq, SubRegCovered]
  by_cases hb : Bounded d src
  · rw [if_pos hb, if_pos hb]
    have hhi := getInterval_snd_lt hb.2
    have hrow : Keeps (fun a => satI64 (a - (getInterval d src).1)) _ _ :=
      keeps_sat (Int.neg_le_neg hsrc.1)
    have hcol : Keeps _ (- -signedOf ρ src) _ :=
      keeps_clamp hhi (by rw [Int.neg_neg]; exact hsrc.2)
    exact satisfies_moved_iff h hrow hcol (Or.inr (by rwa [Int.neg_neg])) hw
  · rw [if_neg hb, if_neg hb]
    refine (satisfies_withEnds_iff h hz hd _ _ _).trans (endsCovered_iff hw ?_ ?_ ?_)
    · exact le_of_end (Int.sub_le_sub hdst.1 hsrc.2)
    · exact ge_of_end (Int.sub_le_sub hdst.2 hsrc.1)
    · unfold I64 at hr hr'
      omega

/-- The three operations are sound for the wrapping result exactly where the
wrap is covered. -/
theorem zone_arith_sound_iff {c : Int} (hc : I64 c) :
    (Satisfies (addImm d dst c) (update ρ dst (ρ dst + BitVec.ofInt 64 c)) ↔
      AddImmCovered d dst ρ c) ∧
    (Satisfies (applyAddReg d dst src) (update ρ dst (ρ dst + ρ src)) ↔
      AddRegCovered d dst src ρ) ∧
    (Satisfies (applySubReg d dst src) (update ρ dst (ρ dst - ρ src)) ↔
      SubRegCovered d dst src ρ) :=
  ⟨satisfies_addImm_iff h hc, satisfies_applyAddReg_iff h hz hd, satisfies_applySubReg_iff h hz hd⟩

end Transfer

def nonnegative : Dbm := Dbm.new.addConstraint .zero .r1 0

theorem closed_nonnegative : Closed inf clampedAdd nonnegative.data := by
  unfold Closed
  decide +kernel

def largest : Valuation := fun r => if r = .r1 then BitVec.ofInt 64 (2^63 - 1) else 0

theorem satisfies_nonnegative : Satisfies nonnegative largest := by
  unfold Satisfies Sat
  decide +kernel

/-- Adding one to the largest word leaves the zone. -/
theorem increment_leaves_zone :
    nonnegative.close.data = nonnegative.data ∧ Satisfies nonnegative largest ∧
    ¬ Satisfies (addImm nonnegative .r1 1)
      (update largest .r1 (largest .r1 + BitVec.ofInt 64 1)) := by
  refine ⟨?_, satisfies_nonnegative, fun h => ?_⟩
  · have hclosed := close_of_closed closed_nonnegative Reg.rows
    simp only [Dbm.close]
    exact hclosed
  have hcell := (satisfies_close_iff _ _).1 h .zero .r1
  exact absurd hcell (by decide +kernel)

def allZero : Valuation := fun _ => 0

theorem increment_of_zero_sound : Satisfies (addImm nonnegative .r1 1)
    (update allZero .r1 (allZero .r1 + BitVec.ofInt 64 1)) := by
  have hsat : Satisfies nonnegative allZero := by
    unfold Satisfies Sat
    decide +kernel
  have hz : signedOf allZero .zero = 0 := by decide
  have hval : signedOf allZero .r1 + 1 = 1 := by decide
  have hcov : AddImmCovered nonnegative .r1 allZero 1 := by
    unfold AddImmCovered MoveCovered
    rw [hval]
    exact ⟨fun h => absurd h (by decide), fun h => absurd h (by decide)⟩
  exact (@zone_arith_sound_iff nonnegative .r1 .r2 allZero hsat hz (by decide) 1 (by decide)).1.2
    hcov

end ZoneVerifier.Zone
