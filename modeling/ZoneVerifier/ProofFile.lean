import ZoneVerifier.ByteCode
import ZoneVerifier.CanonicalHash

/-!
# Proof files

The on-disk form of a proof (`refinement/bcf.rs`): a header with a magic number
and the sizes of two tables in 32-bit slots, the table of expressions and the
table of proof steps. The counts in the heads are bytes and those in the header
are words; within these limits writing and reading are inverse to each other, and
the reader accepts nothing that the writer does not produce.
-/

set_option autoImplicit false

namespace ZoneVerifier.ProofFile
open ByteCode CanonicalHash Fallible SlotTable

structure BcfProofStep where
  rule : UInt16
  premiseCnt : UInt8
  args : List UInt32
  deriving DecidableEq, Repr

structure BcfProof where
  exprs : List BcfExpr
  steps : List BcfProofStep
  deriving DecidableEq, Repr

inductive BcfError where
  | badMagic (m : UInt32)
  | truncated (expected got : Nat)
  | inconsistent (s : String)
  deriving DecidableEq, Repr

def bcfMagic : UInt32 := 0x0BCF

def headerSize : Nat := 12

section Heads
variable {k : UInt32} (h : UInt32) (as : List UInt32)

/-- `[code:u8 | vlen:u8 | params:u16]`. -/
def exprHead (e : BcfExpr) : UInt32 :=
  let vlen := UInt8.ofNat e.args.length
  e.code.toUInt32 ||| (vlen.toUInt32 <<< 8) ||| (e.params.toUInt32 <<< 16)

def exprCount (head : UInt32) : Nat := ((head >>> 8) &&& 0xff).toNat

def makeExpr (head : UInt32) (args : List UInt32) : BcfExpr :=
  ⟨(head &&& 0xff).toUInt8, ((head >>> 16) &&& 0xffff).toUInt16, args⟩

/-- `[rule:u16 | premise_cnt:u8 | param_cnt:u8]`. -/
def stepHead (s : BcfProofStep) : UInt32 :=
  let total := UInt32.ofNat s.args.length
  let paramCnt := total - s.premiseCnt.toUInt32
  s.rule.toUInt32 ||| (s.premiseCnt.toUInt32 <<< 16) ||| (paramCnt <<< 24)

def stepCount (head : UInt32) : Nat :=
  ((head >>> 16) &&& 0xff).toUInt8.toNat + ((head >>> 24) &&& 0xff).toUInt8.toNat

def makeStep (head : UInt32) (args : List UInt32) : BcfProofStep :=
  ⟨(head &&& 0xffff).toUInt16, ((head >>> 16) &&& 0xff).toUInt8, args⟩

theorem toNat_or_shiftLeft {x y : UInt32} (hk : k.toNat < 32) (hx : x.toNat < 2^k.toNat)
    (hy : y.toNat < 2^(32 - k.toNat)) :
    (x ||| (y <<< k)).toNat = x.toNat + 2^k.toNat * y.toNat := by
  have hfit : y.toNat <<< k.toNat < 2^32 := by
    rw [Nat.shiftLeft_eq]
    calc y.toNat * 2^k.toNat < 2^(32 - k.toNat) * 2^k.toNat :=
          Nat.mul_lt_mul_of_pos_right hy (Nat.two_pow_pos _)
      _ = 2^32 := by rw [← Nat.pow_add, Nat.sub_add_cancel hk.le]
  rw [UInt32.toNat_or, UInt32.toNat_shiftLeft, Nat.mod_eq_of_lt hk, Nat.mod_eq_of_lt hfit,
    Nat.or_comm, ← Nat.shiftLeft_add_eq_or_of_lt hx, Nat.shiftLeft_eq, Nat.mul_comm, Nat.add_comm]

theorem toNat_pack {x y z j : UInt32} (hj : j.toNat < 32) (hk : k.toNat < 32)
    (hx : x.toNat < 2^j.toNat) (hy : x.toNat + 2^j.toNat * y.toNat < 2^k.toNat)
    (hz : z.toNat < 2^(32 - k.toNat)) (hy' : y.toNat < 2^(32 - j.toNat)) :
    (x ||| (y <<< j) ||| (z <<< k)).toNat =
      x.toNat + 2^j.toNat * y.toNat + 2^k.toNat * z.toNat := by
  have hlow := toNat_or_shiftLeft hj hx hy'
  rw [toNat_or_shiftLeft hk (by rw [hlow]; exact hy) hz, hlow]

theorem toNat_exprHead (e : BcfExpr) : (exprHead e).toNat =
    e.code.toNat + 256 * (e.args.length % 256) + 65536 * e.params.toNat := by
  have hc := e.code.toNat_lt
  have hp := e.params.toNat_lt
  have hlen : (UInt8.ofNat e.args.length).toUInt32.toNat = e.args.length % 256 := by
    rw [UInt8.toNat_toUInt32, UInt8.toNat_ofNat']
  have hcode : e.code.toUInt32.toNat = e.code.toNat := UInt8.toNat_toUInt32 _
  have hparams : e.params.toUInt32.toNat = e.params.toNat := UInt16.toNat_toUInt32 _
  have h8 : (8 : UInt32).toNat = 8 := rfl
  have h16 : (16 : UInt32).toNat = 16 := rfl
  rw [exprHead, toNat_pack] <;> simp only [h8, h16, hlen, hcode, hparams] <;> omega

theorem toNat_stepHead (s : BcfProofStep) (hp : s.premiseCnt.toNat ≤ s.args.length)
    (hq : s.args.length - s.premiseCnt.toNat ≤ 255) : (stepHead s).toNat =
      s.rule.toNat + 65536 * s.premiseCnt.toNat +
        16777216 * (s.args.length - s.premiseCnt.toNat) := by
  have hr := s.rule.toNat_lt
  have hpl := s.premiseCnt.toNat_lt
  have hrule : s.rule.toUInt32.toNat = s.rule.toNat := UInt16.toNat_toUInt32 _
  have hprem : s.premiseCnt.toUInt32.toNat = s.premiseCnt.toNat := UInt8.toNat_toUInt32 _
  have htotal : (UInt32.ofNat s.args.length).toNat = s.args.length := by
    rw [UInt32.toNat_ofNat']
    omega
  have hcnt : (UInt32.ofNat s.args.length - s.premiseCnt.toUInt32).toNat =
      s.args.length - s.premiseCnt.toNat := by
    rw [UInt32.toNat_sub_of_le _ _ (by rw [UInt32.le_iff_toNat_le, htotal, hprem]; exact hp),
      htotal, hprem]
  have h16 : (16 : UInt32).toNat = 16 := rfl
  have h24 : (24 : UInt32).toNat = 24 := rfl
  rw [stepHead, toNat_pack] <;> simp only [h16, h24, hrule, hprem, hcnt] <;> omega

theorem toNat_field {h m : UInt32} {n : Nat} (hk : k.toNat < 32) (hm : m.toNat = 2^n - 1) :
    ((h >>> k) &&& m).toNat = h.toNat / 2^k.toNat % 2^n := by
  rw [UInt32.toNat_and, UInt32.toNat_shiftRight, hm, Nat.and_two_pow_sub_one_eq_mod,
    Nat.mod_eq_of_lt hk, Nat.shiftRight_eq_div_pow]

theorem toNat_lowField {h m : UInt32} {n : Nat} (hm : m.toNat = 2^n - 1) :
    (h &&& m).toNat = h.toNat % 2^n := by
  rw [UInt32.toNat_and, hm, Nat.and_two_pow_sub_one_eq_mod]

theorem exprCount_eq : exprCount h = h.toNat / 256 % 256 :=
  toNat_field (k := 8) (m := 0xff) (n := 8) (by decide) rfl

theorem toNat_code : (makeExpr h as).code.toNat = h.toNat % 256 := by
  have hlow : (h &&& 0xff).toNat = h.toNat % 256 := toNat_lowField (n := 8) rfl
  rw [makeExpr, UInt32.toNat_toUInt8, hlow]
  omega

theorem toNat_params : (makeExpr h as).params.toNat = h.toNat / 65536 := by
  have hf : ((h >>> 16) &&& 0xffff).toNat = h.toNat / 65536 % 65536 :=
    toNat_field (k := 16) (m := 0xffff) (n := 16) (by decide) rfl
  have hh := h.toNat_lt
  rw [makeExpr, UInt32.toNat_toUInt16, hf]
  omega

theorem toNat_rule : (makeStep h as).rule.toNat = h.toNat % 65536 := by
  have hlow : (h &&& 0xffff).toNat = h.toNat % 65536 := toNat_lowField (n := 16) rfl
  rw [makeStep, UInt32.toNat_toUInt16, hlow]
  omega

theorem toNat_premiseCnt : (makeStep h as).premiseCnt.toNat = h.toNat / 65536 % 256 := by
  have hf : ((h >>> 16) &&& 0xff).toNat = h.toNat / 65536 % 256 :=
    toNat_field (k := 16) (m := 0xff) (n := 8) (by decide) rfl
  rw [makeStep, UInt32.toNat_toUInt8, hf]
  omega

theorem stepCount_eq : stepCount h = h.toNat / 65536 % 256 + h.toNat / 16777216 := by
  have hf : ((h >>> 16) &&& 0xff).toNat = h.toNat / 65536 % 256 :=
    toNat_field (k := 16) (m := 0xff) (n := 8) (by decide) rfl
  have hg : ((h >>> 24) &&& 0xff).toNat = h.toNat / 16777216 % 256 :=
    toNat_field (k := 24) (m := 0xff) (n := 8) (by decide) rfl
  have hh := h.toNat_lt
  rw [stepCount, UInt32.toNat_toUInt8, UInt32.toNat_toUInt8, hf, hg]
  omega

end Heads

section Layouts

def exprLayout : Layout BcfExpr where
  head := exprHead
  args := BcfExpr.args
  count := exprCount
  make := makeExpr
  head_make := by
    intro h as hlen
    apply UInt32.toNat_inj.1
    have hargs : (makeExpr h as).args = as := rfl
    have hh := h.toNat_lt
    rw [toNat_exprHead, hargs, toNat_code, toNat_params, hlen, exprCount_eq]
    omega
  args_make := fun _ _ => rfl

def stepLayout : Layout BcfProofStep where
  head := stepHead
  args := BcfProofStep.args
  count := stepCount
  make := makeStep
  head_make := by
    intro h as hlen
    have hargs : (makeStep h as).args = as := rfl
    have hh := h.toNat_lt
    have hprem := toNat_premiseCnt h as
    rw [stepCount_eq] at hlen
    apply UInt32.toNat_inj.1
    rw [toNat_stepHead _ (by rw [hargs]; omega) (by rw [hargs]; omega), hargs, toNat_rule, hprem]
    omega
  args_make := fun _ _ => rfl

theorem fits_expr {e : BcfExpr} (h : e.args.length ≤ 255) : exprLayout.Fits e := by
  have hc := e.code.toNat_lt
  have hhead := toNat_exprHead e
  refine ⟨?_, ?_⟩
  · show exprCount (exprHead e) = e.args.length
    rw [exprCount_eq, hhead]
    omega
  · have hcode : (makeExpr (exprHead e) e.args).code = e.code := by
      apply UInt8.toNat_inj.1
      rw [toNat_code, hhead]
      omega
    have hparams : (makeExpr (exprHead e) e.args).params = e.params := by
      apply UInt16.toNat_inj.1
      rw [toNat_params, hhead]
      omega
    cases e with
    | mk code params args => exact congrArg₂ (BcfExpr.mk · · args) hcode hparams

theorem fits_step_iff {s : BcfProofStep} : stepLayout.Fits s ↔
    s.premiseCnt.toNat ≤ s.args.length ∧ s.args.length - s.premiseCnt.toNat ≤ 255 := by
  constructor
  · rintro ⟨hcount, hmake⟩
    have hprem := toNat_premiseCnt (stepHead s) s.args
    have hh := (stepHead s).toNat_lt
    have hlen : stepCount (stepHead s) = s.args.length := hcount
    have hs : makeStep (stepHead s) s.args = s := hmake
    rw [hs] at hprem
    rw [stepCount_eq] at hlen
    omega
  · rintro ⟨hp, hq⟩
    have hr := s.rule.toNat_lt
    have hpl := s.premiseCnt.toNat_lt
    have hhead := toNat_stepHead s hp hq
    refine ⟨?_, ?_⟩
    · show stepCount (stepHead s) = s.args.length
      rw [stepCount_eq, hhead]
      omega
    · have hrule : (makeStep (stepHead s) s.args).rule = s.rule := by
        apply UInt16.toNat_inj.1
        rw [toNat_rule, hhead]
        omega
      have hprem : (makeStep (stepHead s) s.args).premiseCnt = s.premiseCnt := by
        apply UInt8.toNat_inj.1
        rw [toNat_premiseCnt, hhead]
        omega
      cases s with
      | mk rule premiseCnt args => exact congrArg₂ (BcfProofStep.mk · · args) hrule hprem

end Layouts

section Files

def exprSlots (p : BcfProof) : Nat := exprLayout.slots p.exprs

def stepSlots (p : BcfProof) : Nat := stepLayout.slots p.steps

/-- The counts are sums of 32-bit words. -/
def header (p : BcfProof) : List UInt8 :=
  wordBytes bcfMagic ++ wordBytes (UInt32.ofNat (exprSlots p)) ++
    wordBytes (UInt32.ofNat (stepSlots p))

/-- There is no file if a step has more premises than arguments: the writer
asserts that it has not. -/
def toBytes (p : BcfProof) : Option (List UInt8) :=
  if ∀ s ∈ p.steps, s.premiseCnt.toUInt32 ≤ UInt32.ofNat s.args.length then
    some (header p ++ exprLayout.table p.exprs ++ stepLayout.table p.steps)
  else none

def truncatedAt (e : Nat × Nat) : BcfError := .truncated e.1 e.2

def fromBytes (buf : List UInt8) : Except BcfError BcfProof :=
  if buf.length < headerSize then .error (.truncated headerSize buf.length)
  else
    let magic := wordAt buf 0
    if magic ≠ bcfMagic then .error (.badMagic magic)
    else
      let exprCnt := (wordAt buf 4).toNat
      let stepCnt := (wordAt buf 8).toNat
      let expected := headerSize + 4 * (exprCnt + stepCnt)
      if buf.length ≠ expected then
        .error (.inconsistent
          s!"expected {expected} bytes (header + 4×({exprCnt}+{stepCnt})), got {buf.length}")
      else do
        let exprEnd := headerSize + 4 * exprCnt
        let stepEnd := exprEnd + 4 * stepCnt
        let exprs ← (exprLayout.read buf exprEnd headerSize).mapError truncatedAt
        let steps ← (stepLayout.read buf stepEnd exprs.2).mapError truncatedAt
        .ok ⟨exprs.1, steps.1⟩

variable {b : List UInt8} {p : BcfProof}

/-- The counts of a proof file can be written down. -/
structure Encodable (p : BcfProof) : Prop where
  args_le : ∀ e ∈ p.exprs, e.args.length ≤ 255
  premises_le : ∀ s ∈ p.steps, s.premiseCnt.toNat ≤ s.args.length
  params_le : ∀ s ∈ p.steps, s.args.length - s.premiseCnt.toNat ≤ 255

theorem Encodable.fits_steps (h : Encodable p) : ∀ s ∈ p.steps, stepLayout.Fits s :=
  fun s hs => fits_step_iff.2 ⟨h.premises_le s hs, h.params_le s hs⟩

theorem toBytes_of_fits (h : ∀ s ∈ p.steps, stepLayout.Fits s) :
    toBytes p = some (header p ++ exprLayout.table p.exprs ++ stepLayout.table p.steps) := by
  apply if_pos
  intro s hs
  obtain ⟨hp, hq⟩ := fits_step_iff.1 (h s hs)
  have hpl := s.premiseCnt.toNat_lt
  rw [UInt32.le_iff_toNat_le, UInt8.toNat_toUInt32, UInt32.toNat_ofNat']
  omega

theorem length_header (p : BcfProof) : (header p).length = headerSize := by
  simp [header, length_wordBytes, headerSize]

theorem fromBytes_cases (h : fromBytes b = .ok p) :
    ∃ m n, m = (wordAt b 4).toNat ∧ n = (wordAt b 8).toNat ∧ wordAt b 0 = bcfMagic ∧
      b.length = headerSize + 4 * (m + n) ∧
      ∃ q r, exprLayout.read b (headerSize + 4 * m) headerSize = .ok (p.exprs, q) ∧
        stepLayout.read b (headerSize + 4 * m + 4 * n) q = .ok (p.steps, r) := by
  unfold fromBytes at h
  dsimp only at h
  split_ifs at h with hshort hmagic hlen
  obtain ⟨exprs, hexprs, h⟩ := bind_mapError_ok h
  obtain ⟨steps, hsteps, h⟩ := bind_mapError_ok h
  obtain rfl := Except.ok.inj h
  exact ⟨_, _, rfl, rfl, not_not.1 hmagic, not_not.1 hlen, exprs.2, steps.2, hexprs, hsteps⟩

theorem parts_of_fromBytes (h : fromBytes b = .ok p) :
    wordAt b 0 = bcfMagic ∧ (wordAt b 4).toNat = exprSlots p ∧ (wordAt b 8).toNat = stepSlots p ∧
      b.length = headerSize + 4 * (exprSlots p + stepSlots p) ∧
      exprLayout.table p.exprs = (b.drop headerSize).take (4 * exprSlots p) ∧
      stepLayout.table p.steps =
        (b.drop (headerSize + 4 * exprSlots p)).take (4 * stepSlots p) ∧
      ∀ s ∈ p.steps, stepLayout.Fits s := by
  obtain ⟨m, n, hm, hn, hmagic, hlen, q, r, hexprs, hsteps⟩ := fromBytes_cases h
  obtain ⟨hq, htable, -⟩ := Layout.table_of_read (by omega) (by omega) hexprs
  dsimp only at hq htable
  rw [hq] at hsteps
  obtain ⟨-, htable', hfits⟩ := Layout.table_of_read (by omega) (by omega) hsteps
  dsimp only at htable' hfits
  have hm' : exprSlots p = m := by
    have hl := congrArg List.length htable
    rw [Layout.length_table, List.length_take, List.length_drop] at hl
    rw [exprSlots]
    omega
  have hn' : stepSlots p = n := by
    have hl := congrArg List.length htable'
    rw [Layout.length_table, List.length_take, List.length_drop] at hl
    rw [stepSlots]
    omega
  rw [Nat.add_sub_cancel_left] at htable htable'
  rw [hm', hn']
  exact ⟨hmagic, hm.symm, hn.symm, hlen, htable, htable', hfits⟩

theorem toBytes_fromBytes (h : fromBytes b = .ok p) : toBytes p = some b := by
  obtain ⟨hmagic, hm, hn, hlen, hexprs, hsteps, hfits⟩ := parts_of_fromBytes h
  have hheader : header p = (b.drop 0).take headerSize := by
    rw [header, ← hm, ← hn, ← hmagic, UInt32.ofNat_toNat, UInt32.ofNat_toNat,
      wordBytes_wordAt (by rw [hlen, headerSize]; omega),
      wordBytes_wordAt (by rw [hlen, headerSize]; omega),
      wordBytes_wordAt (by rw [hlen, headerSize]; omega),
      take_drop_append b 0 4 4, take_drop_append b 0 8 4]
    rfl
  have hall : header p ++ exprLayout.table p.exprs ++ stepLayout.table p.steps = b := by
    rw [hheader, hexprs, hsteps]
    have h1 := take_drop_append b 0 headerSize (4 * exprSlots p)
    rw [Nat.zero_add] at h1
    have h2 := take_drop_append b 0 (headerSize + 4 * exprSlots p) (4 * stepSlots p)
    rw [Nat.zero_add] at h2
    rw [h1, h2, List.drop_zero, List.take_of_length_le (by omega)]
  rw [toBytes_of_fits hfits, hall]

theorem words_of_header (h : At b 0 (header p)) :
    wordAt b 0 = bcfMagic ∧ wordAt b 4 = UInt32.ofNat (exprSlots p) ∧
      wordAt b 8 = UInt32.ofNat (stepSlots p) := by
  have hexpr := h.left.right
  have hstep := h.right
  exact ⟨wordAt_of_at h.left.left, wordAt_of_at hexpr, wordAt_of_at hstep⟩

theorem fromBytes_layout (h : Encodable p) (hm : exprSlots p < 2^32) (hn : stepSlots p < 2^32)
    (hall : At b 0 (header p ++ exprLayout.table p.exprs ++ stepLayout.table p.steps))
    (hlen : b.length = headerSize + 4 * (exprSlots p + stepSlots p)) : fromBytes b = .ok p := by
  have hexprs := hall.left.right
  have hsteps := hall.right
  rw [length_header, Nat.zero_add] at hexprs
  rw [List.length_append, length_header, Layout.length_table, Nat.zero_add] at hsteps
  have hread := Layout.read_table (fun e he => fits_expr (h.args_le e he)) hexprs rfl
  have hread' := Layout.read_table h.fits_steps hsteps rfl
  rw [Layout.length_table] at hread hread'
  obtain ⟨hmagic, hexpr, hstep⟩ := words_of_header hall.left.left
  have hexpr' : (wordAt b 4).toNat = exprSlots p := by
    rw [hexpr, UInt32.toNat_ofNat', Nat.mod_eq_of_lt hm]
  have hstep' : (wordAt b 8).toNat = stepSlots p := by
    rw [hstep, UInt32.toNat_ofNat', Nat.mod_eq_of_lt hn]
  unfold fromBytes
  dsimp only
  rw [if_neg (by omega), if_neg (not_not.2 hmagic), hexpr', hstep', if_neg (not_not.2 hlen),
    exprSlots, hread]
  show (do
    let steps ← (stepLayout.read b _ (headerSize + 4 * exprLayout.slots p.exprs)).mapError
      truncatedAt
    Except.ok (⟨p.exprs, steps.1⟩ : BcfProof)) = _
  rw [stepSlots, hread']
  rfl

theorem length_layout (p : BcfProof) :
    (header p ++ exprLayout.table p.exprs ++ stepLayout.table p.steps).length =
      headerSize + 4 * (exprSlots p + stepSlots p) := by
  rw [List.length_append, List.length_append, length_header, Layout.length_table,
    Layout.length_table, exprSlots, stepSlots]
  omega

theorem exists_fromBytes_toBytes_iff (h : Encodable p) :
    (∃ b, toBytes p = some b ∧ fromBytes b = .ok p) ↔
      exprSlots p < 2^32 ∧ stepSlots p < 2^32 := by
  constructor
  · rintro ⟨b, -, hread⟩
    obtain ⟨-, hm, hn, -⟩ := parts_of_fromBytes hread
    rw [← hm, ← hn]
    exact ⟨(wordAt b 4).toNat_lt, (wordAt b 8).toNat_lt⟩
  · rintro ⟨hm, hn⟩
    exact ⟨_, toBytes_of_fits h.fits_steps,
      fromBytes_layout h hm hn (at_zero _) (length_layout p)⟩

/-- Files round-trip as far as their tables can be counted in the header, and the
reader accepts only what the writer produces. -/
theorem file_round_trip :
    (∀ p : BcfProof, Encodable p →
      ((∃ b, toBytes p = some b ∧ fromBytes b = .ok p) ↔
        exprSlots p < 2^32 ∧ stepSlots p < 2^32)) ∧
      ∀ (b : List UInt8) (p : BcfProof), fromBytes b = .ok p → toBytes p = some b :=
  ⟨fun _ => exists_fromBytes_toBytes_iff, fun _ _ => toBytes_fromBytes⟩

def sampleProof : BcfProof :=
  ⟨[⟨0x08, 64, [5, 0]⟩], [⟨1, 1, [0, 0]⟩]⟩

theorem file_round_trip_sample :
    ∃ b, toBytes sampleProof = some b ∧ fromBytes b = .ok sampleProof :=
  (file_round_trip.1 sampleProof ⟨by decide, by decide, by decide⟩).2 (by decide)

def hugeProof : BcfProof := ⟨List.replicate (2^24) ⟨0x01, 0, List.replicate 255 0⟩, []⟩

theorem exprSlots_hugeProof : exprSlots hugeProof = 2^32 := by
  have hargs (e : BcfExpr) : exprLayout.args e = e.args := rfl
  rw [exprSlots, hugeProof, Layout.slots, List.map_replicate, List.sum_replicate_nat, hargs,
    List.length_replicate]
  decide

theorem encodable_hugeProof : Encodable hugeProof where
  args_le := by
    intro e he
    rw [List.eq_of_mem_replicate he, List.length_replicate]
  premises_le := fun s hs => absurd hs List.not_mem_nil
  params_le := fun s hs => absurd hs List.not_mem_nil

theorem hugeProof_not_read :
    Encodable hugeProof ∧ ¬ ∃ b, toBytes hugeProof = some b ∧ fromBytes b = .ok hugeProof := by
  refine ⟨encodable_hugeProof, fun h => ?_⟩
  have hslots := ((exists_fromBytes_toBytes_iff encodable_hugeProof).1 h).1
  rw [exprSlots_hugeProof] at hslots
  exact absurd hslots (lt_irrefl _)

end Files

end ZoneVerifier.ProofFile
