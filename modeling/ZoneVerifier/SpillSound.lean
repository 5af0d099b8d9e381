import ZoneVerifier.Assign
import ZoneVerifier.ByteMemory
import ZoneVerifier.StackSlots

/-!
# Stack entries against memory

An entry is sound when the bytes it covers hold a value it describes. The
machine has a concrete memory for the frame beside the abstract state and
remembers its stores, newest first. A store leaves every entry sound that it
writes or that does not reach into its range; `Op.Kept` lists the stores
for which the remaining entries stay sound as well.
-/

set_option autoImplicit false

namespace ZoneVerifier.SpillSound
open Word Ast RegTypes Tristate Stack Machine Concrete ByteMemory StackOps

/-- A store as the run remembers it: a spill with the type of its source. -/
structure Write where
  offset : Int
  size : MemSize
  source : Option RegType
  deriving DecidableEq, Repr

def Write.touches (b : Int) (w : Write) : Bool :=
  decide (w.offset < b + 8 ∧ b < w.offset + w.size.bytes)

def lastWrite (log : List Write) (b : Int) : Option Write := log.find? (Write.touches b)

def loadWord (m : Memory) (o : Int) (n : Nat) : BitVec 64 := BitVec.ofNat 64 (readLe m o n)

/-- An entry that a read at a higher offset may use. -/
def Usable (b : Int) (sp : SpilledReg) : Prop :=
  b % 8 = 0 ∨ (sp.tnum.isConst = true ∧ sp.tnum.value = 0)

instance (b : Int) (sp : SpilledReg) : Decidable (Usable b sp) :=
  inferInstanceAs (Decidable (_ ∨ _))

/-- Recorded distances between a word and a packet anchor. -/
def Related (ρ : Valuation) (v : BitVec 64) (anchor : Option Reg) (lo hi : Option Int) : Prop :=
  ∀ a, anchor = some a → a.isAnchor = true ∧
    (∀ h, hi = some h → signed v - signedOf ρ a ≤ h) ∧
    (∀ l, lo = some l → signedOf ρ a - signed v ≤ l)

def RelatedBounds (ρ : Valuation) (v : BitVec 64) : Option PointerBounds → Prop
  | some (.zone a lo hi ea elo ehi) => Related ρ v a lo hi ∧ Related ρ v ea elo ehi
  | _ => True

/-- What an entry with a source says about the word it covers. -/
structure Recorded (ivl : Bool) (ρ : Valuation) (v : BitVec 64) (sp : SpilledReg) : Prop where
  kind : sp.kind = .spill
  min_le : sp.bounds.min ≤ signed v
  le_max : signed v ≤ sp.bounds.max
  range : ivl = true → I64 sp.bounds.min ∧ I64 sp.bounds.max
  related : RelatedBounds ρ v sp.ptrBounds

structure SlotOk (ivl : Bool) (ρ : Valuation) (m : Memory) (log : List Write) (b : Int)
    (sp : SpilledReg) : Prop where
  tnum : Usable b sp → sp.tnum.Has (loadWord m b sp.size.bytes)
  plain : b % 8 = 0 → sp.sourceReg = none → sp.tnum = Tnum.unknown
  spilled : sp.sourceReg.isSome = true →
    b % 8 = 0 ∧ Recorded ivl ρ (loadWord m b sp.size.bytes) sp
  pointer : sp.regType ≠ .scalarValue → sp.sourceReg.isSome = true ∧ sp.size = .u64 ∧
    ∀ w, lastWrite log b = some w → w = ⟨b, .u64, some sp.regType⟩

section Slots
variable {ivl : Bool} {ρ ρ' : Valuation} {m m' : Memory} {log : List Write} {b o : Int}
  {sp : SpilledReg} {n : Nat} {v : Nat} {w : Write}

theorem slotOk_plain (size : MemSize) (kind : StackSlotKind) :
    SlotOk ivl ρ m log b (plainEntry size kind) :=
  ⟨fun _ => Tnum.has_unknown _, fun _ _ => rfl, fun h => absurd h Bool.false_ne_true,
    fun h => absurd rfl h⟩

theorem loadWord_congr (h : ∀ q, b ≤ q → q < b + n → m q = m' q) :
    loadWord m b n = loadWord m' b n := by
  unfold loadWord
  rw [readLe_congr h]

theorem lastWrite_cons (w : Write) (log : List Write) (b : Int) :
    lastWrite (w :: log) b = if w.touches b then some w else lastWrite log b := by
  unfold lastWrite
  rw [List.find?_cons]
  cases w.touches b <;> rfl

theorem size_le (size : MemSize) : 0 < size.bytes ∧ size.bytes ≤ 8 := by
  cases size <;> decide

theorem SlotOk.of_disjoint (h : SlotOk ivl ρ m log b sp)
    (hd : w.offset + w.size.bytes ≤ b ∨ b + 8 ≤ w.offset ∨
      (b + sp.size.bytes ≤ w.offset ∧ sp.size ≠ .u64)) :
    SlotOk ivl ρ (writeLe m w.offset w.size.bytes v) (w :: log) b sp := by
  have hsize := size_le sp.size
  have hload : loadWord (writeLe m w.offset w.size.bytes v) b sp.size.bytes =
      loadWord m b sp.size.bytes :=
    loadWord_congr fun q h1 h2 => writeLe_of_notMem (by omega)
  refine ⟨fun hu => hload ▸ h.tnum hu, h.plain, fun hs => hload ▸ h.spilled hs, fun hp => ?_⟩
  obtain ⟨hs, hz, hl⟩ := h.pointer hp
  refine ⟨hs, hz, fun w' hw' => hl w' ?_⟩
  have hno : w.touches b = false := by
    apply decide_eq_false
    rcases hd with hd | hd | hd
    · omega
    · omega
    · exact absurd hz hd.2
  rwa [lastWrite_cons, hno] at hw'

/-- The anchors' values are all an entry needs of the registers. -/
theorem SlotOk.congr_regs (h : SlotOk ivl ρ m log b sp)
    (ha : ∀ a : Reg, a.isAnchor = true → ρ' a = ρ a) : SlotOk ivl ρ' m log b sp := by
  refine ⟨h.tnum, h.plain, fun hs => ?_, h.pointer⟩
  obtain ⟨hb, hr⟩ := h.spilled hs
  have hrel : ∀ {v a lo hi}, Related ρ v a lo hi → Related ρ' v a lo hi := by
    intro v a lo hi hrel x hx
    obtain ⟨h1, h2, h3⟩ := hrel x hx
    have he : signedOf ρ' x = signedOf ρ x := congrArg signed (ha x h1)
    exact ⟨h1, fun h hh => he ▸ h2 h hh, fun l hl => he ▸ h3 l hl⟩
  refine ⟨hb, hr.kind, hr.min_le, hr.le_max, hr.range, ?_⟩
  have hold := hr.related
  cases hp : sp.ptrBounds with
  | none => trivial
  | some pb =>
    rw [hp] at hold
    cases pb with
    | zone a lo hi ea elo ehi => exact ⟨hrel hold.1, hrel hold.2⟩
    | interval off varOff range id => trivial

theorem SlotOk.of_unknown (ht : sp.tnum = Tnum.unknown) (hs : sp.sourceReg = none)
    (hty : sp.regType = .scalarValue) : SlotOk ivl ρ m log b sp := by
  refine ⟨fun _ => ht ▸ Tnum.has_unknown _, fun _ _ => ht, fun h => ?_, fun h => absurd hty h⟩
  rw [hs] at h
  cases h

theorem SlotOk.scalar_of_none (h : SlotOk ivl ρ m log b sp) (hs : sp.sourceReg = none) :
    sp.regType = .scalarValue := by
  by_contra hne
  have := (h.pointer hne).1
  rw [hs] at this
  cases this

theorem loadWord_eq_zero_iff (hn : n ≤ 8) :
    loadWord m b n = 0 ↔ ∀ q, b ≤ q → q < b + n → m q = 0 := by
  have hlt : readLe m b n < 2^64 :=
    lt_of_lt_of_le (readLe_lt m b n) (Nat.pow_le_pow_right (by decide) hn)
  rw [← readLe_eq_zero_iff]
  unfold loadWord
  constructor
  · intro h
    have := congrArg BitVec.toNat h
    rw [BitVec.toNat_ofNat, Nat.mod_eq_of_lt hlt] at this
    exact this
  · intro h
    rw [h]
    rfl

theorem has_iff_zero {t : Tnum} {x : BitVec 64} (ht : t.isConst = true ∧ t.value = 0) :
    t.Has x ↔ x = 0 := by
  have : t = Tnum.constant 0 := by
    obtain ⟨value, mask⟩ := t
    have hm : mask = 0 := by simpa [Tnum.isConst] using ht.1
    rw [hm, show value = 0 from ht.2]
    rfl
  rw [this, Tnum.has_constant_iff]

end Slots

structure Config where
  state : State
  regs : Valuation
  mem : Memory
  log : List Write

namespace Config

def stack (c : Config) : StackState := c.state.stack

/-- The entries of the current frame describe its memory, and every byte
stored to has one. -/
structure Sound (c : Config) : Prop where
  represents : c.state.Represents c.regs
  range : c.state.InRange
  slots : ∀ b sp, c.stack.slots.find b = some sp →
    SlotOk c.state.domain.isInterval c.regs c.mem c.log b sp
  written : ∀ w ∈ c.log, ∀ q, w.offset ≤ q → q < w.offset + w.size.bytes →
    (c.stack.slots.find q).isSome = true

end Config

/-- Stores to the current frame; between two of them the registers change in
any way the state still represents. -/
inductive Op where
  | spill (reg : Reg) (offset : Int) (size : MemSize) (fresh : Nat)
  | storeImm (imm : Int) (offset : Int) (size : MemSize)
  | setRegs (state : State) (regs : Valuation)

namespace Op

def exec (c : Config) : Op → Config
  | spill reg o size fresh =>
    { c with
      state := spillAt c.state c.state.frames.currentLevel reg o size fresh
      mem := writeLe c.mem o size.bytes (c.regs reg).toNat
      log := ⟨o, size, some (c.state.types.get reg)⟩ :: c.log }
  | storeImm imm o size =>
    { c with
      state := storeImmToStackAt c.state c.state.frames.currentLevel imm o size
      mem := writeLe c.mem o size.bytes (BitVec.ofInt 64 imm).toNat
      log := ⟨o, size, none⟩ :: c.log }
  | setRegs s ρ => { c with state := s, regs := ρ }

def InFrame (o : Int) (size : MemSize) : Prop :=
  o % size.bytes = 0 ∧ -512 ≤ o ∧ o + size.bytes ≤ 0

def Valid (c : Config) : Op → Prop
  | spill reg o size _ => reg.isProgram = true ∧ InFrame o size
  | storeImm imm o size => I64 imm ∧ InFrame o size
  | setRegs s ρ => s.frames = c.state.frames ∧ s.Represents ρ ∧ s.InRange ∧
      s.domain.isInterval = c.state.domain.isInterval ∧
      ∀ a : Reg, a.isAnchor = true → ρ a = c.regs a

/-- The slot of `o` holds a spill, which a store at `o` clobbers as a whole. -/
def ClobbersSlot (stack : StackState) (o q : Int) : Prop :=
  StackState.slotBase q = StackState.slotBase o ∧
    stack.getSlotKind (StackState.slotBase o) = some .spill

/-- No zero recorded at a lower byte and reaching into the store outlives it,
unless the bytes written are zero as well. -/
def ZeroesKept (c : Config) (o : Int) (n v : Nat) : Prop :=
  ∀ q sp, c.stack.slots.find q = some sp → q % 8 ≠ 0 → q < o → o < q + sp.size.bytes →
    sp.tnum.isConst = true ∧ sp.tnum.value = 0 →
    (o % 8 ≠ 0 ∧ ClobbersSlot c.stack o q) ∨
      ∀ a, o ≤ a → a < o + n → a < q + sp.size.bytes → writeLe c.mem o n v a = 0

/-- A narrow spill keeps the bounds of the whole register. -/
def NarrowKept (c : Config) (reg : Reg) (size : MemSize) : Prop :=
  let v := BitVec.ofNat 64 ((c.regs reg).toNat % 256^size.bytes)
  (c.state.domain.getInterval reg).1 ≤ signed v ∧ signed v ≤ (c.state.domain.getInterval reg).2 ∧
    (rawTnum c.state reg).Has v

/-- A zero kept for each of the `n` bytes claims `n` bytes from there on. -/
def TailZero (c : Config) (o : Int) (n : Nat) : Prop :=
  ∀ a, o + n ≤ a → a < o + n + (n - 1 : Nat) → c.mem a = 0

def Kept (c : Config) : Op → Prop
  | spill reg o size _ => ZeroesKept c o size.bytes (c.regs reg).toNat ∧
      (isSpill c.state reg o size = true → NarrowKept c reg size) ∧
      (isSpill c.state reg o size = false → isNullScalar c.state reg = true →
        TailZero c o size.bytes)
  | storeImm imm o size => ZeroesKept c o size.bytes (BitVec.ofInt 64 imm).toNat
  | setRegs _ _ => True

end Op

section Stores
variable {c : Config} {stack' : StackState} {o b : Int} {size : MemSize} {v : Nat} {w : Write}
  {entry : Nat → SpilledReg} {sp : SpilledReg}

section
variable (hst : Stored c.stack stack' w.offset w.size.bytes entry)
include hst

theorem slotOk_kept
    (hz : Op.ZeroesKept c w.offset w.size.bytes v)
    (hold : SlotOk c.state.domain.isInterval c.regs c.mem c.log b sp)
    (hout : ¬ (w.offset ≤ b ∧ b < w.offset + w.size.bytes))
    (hf : c.stack.slots.find b = some sp) (hf' : stack'.slots.find b = some sp) :
    SlotOk c.state.domain.isInterval c.regs (writeLe c.mem w.offset w.size.bytes v)
      (w :: c.log) b sp := by
  have hsize := size_le sp.size
  -- a clobbered entry records nothing
  have hclobber : w.offset % 8 ≠ 0 → Op.ClobbersSlot c.stack w.offset b →
      SlotOk c.state.domain.isInterval c.regs (writeLe c.mem w.offset w.size.bytes v)
        (w :: c.log) b sp := by
    intro ho hcl
    have hplain := hst.scrubbed b hout ho hcl.1 hcl.2 (by rw [hf]; rfl)
    rw [hf', Option.some_inj] at hplain
    rw [hplain]
    exact slotOk_plain _ _
  by_cases hreach : w.offset + w.size.bytes ≤ b ∨ b + 8 ≤ w.offset
  · exact hold.of_disjoint (by omega)
  · have hb : b < w.offset ∧ w.offset < b + 8 := by omega
    cases hs : sp.sourceReg with
    | some r =>
      have hsome : sp.sourceReg.isSome = true := by rw [hs]; rfl
      obtain ⟨hmod, hrec⟩ := hold.spilled hsome
      have hbase : StackState.slotBase w.offset = b := (slotBase_eq_iff hmod).2 (by omega)
      have hself : StackState.slotBase b = b := (slotBase_eq_iff hmod).2 (by omega)
      refine hclobber (by omega) ⟨hself.trans hbase.symm, ?_⟩
      rw [hbase]
      unfold StackState.getSlotKind
      rw [hf, Option.map_some, hrec.kind]
    | none =>
      have hty := hold.scalar_of_none hs
      by_cases hmod : b % 8 = 0
      · exact SlotOk.of_unknown (hold.plain hmod hs) hs hty
      by_cases hu : sp.tnum.isConst = true ∧ sp.tnum.value = 0
      · by_cases hreach : b + sp.size.bytes ≤ w.offset
        · refine hold.of_disjoint (Or.inr (Or.inr ⟨hreach, fun h8 => ?_⟩))
          rw [h8] at hreach
          have : (MemSize.u64.bytes : Int) = 8 := rfl
          omega
        rcases hz b sp hf hmod hb.1 (by omega) hu with ⟨h8, hcl⟩ | hzero
        · exact hclobber h8 hcl
        · refine ⟨fun _ => ?_, fun h => absurd h hmod, fun h => ?_, fun h => absurd hty h⟩
          · rw [has_iff_zero hu, loadWord_eq_zero_iff hsize.2]
            have h0 := (loadWord_eq_zero_iff hsize.2).1 ((has_iff_zero hu).1 (hold.tnum (Or.inr hu)))
            intro q h1 h2
            by_cases hq : w.offset ≤ q ∧ q < w.offset + w.size.bytes
            · exact hzero q hq.1 hq.2 h2
            · rw [writeLe_of_notMem hq]
              exact h0 q h1 h2
          · rw [hs] at h
            cases h
      · refine ⟨fun h => ?_, fun h => absurd h hmod, fun h => ?_, fun h => absurd hty h⟩
        · exact absurd h (not_or.2 ⟨hmod, hu⟩)
        · rw [hs] at h
          cases h

theorem slots_of_stored
    (hz : Op.ZeroesKept c w.offset w.size.bytes v) (hc : c.Sound)
    (hnew : ∀ q, w.offset ≤ q → q < w.offset + w.size.bytes →
      SlotOk c.state.domain.isInterval c.regs (writeLe c.mem w.offset w.size.bytes v)
        (w :: c.log) q (entry (q - w.offset).toNat))
    (hf : stack'.slots.find b = some sp) :
    SlotOk c.state.domain.isInterval c.regs (writeLe c.mem w.offset w.size.bytes v)
      (w :: c.log) b sp := by
  by_cases hin : w.offset ≤ b ∧ b < w.offset + w.size.bytes
  · have := hst.inside b hin.1 hin.2
    rw [hf, Option.some_inj] at this
    rw [this]
    exact hnew b hin.1 hin.2
  · rcases hst.outside b hin with hsame | ⟨_, size, hplain⟩
    · have hold := hsame ▸ hf
      exact slotOk_kept hst hz (hc.slots b sp hold) hin hold hf
    · rw [hf, Option.some_inj] at hplain
      rw [hplain]
      exact slotOk_plain _ _

theorem written_of_stored
    (hc : c.Sound) : ∀ w' ∈ w :: c.log, ∀ q, w'.offset ≤ q → q < w'.offset + w'.size.bytes →
      (stack'.slots.find q).isSome = true := by
  intro w' hw' q h1 h2
  by_cases hin : w.offset ≤ q ∧ q < w.offset + w.size.bytes
  · rw [hst.inside q hin.1 hin.2]
    rfl
  · rcases List.mem_cons.1 hw' with rfl | hmem
    · exact absurd ⟨h1, h2⟩ hin
    · rcases hst.outside q hin with hsame | ⟨_, size, hplain⟩
      · rw [hsame]
        exact hc.written w' hmem q h1 h2
      · rw [hplain]
        rfl

end

end Stores
end ZoneVerifier.SpillSound
