import ZoneVerifier.SpillSound
import Mathlib.Logic.Relation

/-!
# Runs of stores

One lemma per store: the entries it writes are sound. By induction every run
of stores that `Op.Kept` allows ends in a sound configuration.
-/

set_option autoImplicit false

namespace ZoneVerifier.SpillSound
open Word Ast RegTypes Tristate Stack Machine Concrete ByteMemory Numeric StackOps

section States
variable {s s' : State} {ρ : Valuation} {reg : Reg}

theorem stack_modifyStackAt (s : State) (f : StackState → StackState) :
    (modifyStackAt s s.frames.currentLevel f).stack = f s.stack := by
  unfold modifyStackAt FrameStack.modifyAt
  rw [if_pos rfl]
  rfl

theorem represents_of_same (hd : s'.domain = s.domain) (ht : s'.tnums = s.tnums)
    (h : s.Represents ρ) : s'.Represents ρ := by
  refine ⟨hd ▸ h.domain, fun r => ?_⟩
  have : s'.getTnum r = s.getTnum r := by
    unfold State.getTnum
    rw [ht]
  rw [this]
  exact h.tnum r

theorem getTnum_of_isProgram (s : State) (h : reg.isProgram = true) :
    s.getTnum reg = rawTnum s reg := by
  cases reg <;> first | rfl | cases h

/-- The registers apart from their links: what a spill reads and keeps. -/
structure SameRegs (s s' : State) : Prop where
  domain : s'.domain = s.domain
  tnums : s'.tnums = s.tnums
  types : s'.types = s.types
  frames : s'.frames = s.frames

theorem sameRegs_linkSpill (s : State) (reg : Reg) (size : MemSize) (fresh : Nat) :
    SameRegs s (linkSpill s reg size fresh).1 := by
  unfold linkSpill
  dsimp only
  split
  · have h1 : SameRegs s (if (s.scalarIdOffs reg).isSome then
        putScalarIdOff (putScalarId s reg none) reg none else s) := by
      split_ifs <;> exact ⟨rfl, rfl, rfl, rfl⟩
    generalize (if (s.scalarIdOffs reg).isSome then
      putScalarIdOff (putScalarId s reg none) reg none else s) = s1 at h1 ⊢
    split
    · exact h1
    · split_ifs
      · exact h1
      · exact ⟨h1.domain, h1.tnums, h1.types, h1.frames⟩
  · exact ⟨rfl, rfl, rfl, rfl⟩

/-- The state a spill takes its snapshot in, and the identity of the slot. -/
def linkedSource (s : State) (reg : Reg) (size : MemSize) (fresh : Nat) : State × Option Nat :=
  if size = .u64 ∧ s.types.get reg ≠ .scalarValue then (s, s.scalarIds reg)
  else linkSpill s reg size fresh

theorem sameRegs_linkedSource (s : State) (reg : Reg) (size : MemSize) (fresh : Nat) :
    SameRegs s (linkedSource s reg size fresh).1 := by
  unfold linkedSource
  split_ifs
  · exact ⟨rfl, rfl, rfl, rfl⟩
  · exact sameRegs_linkSpill s reg size fresh

end States

section SpillStep
variable {s : State} {reg : Reg} {o : Int} {size : MemSize} {fresh : Nat}

def spillEntries (s : State) (reg : Reg) (size : MemSize) (fresh i : Nat) : SpilledReg :=
  let source := linkedSource s reg size fresh
  if i = 0 then spillEntry source.1 reg size source.2 else plainEntry size .spill

theorem spillAt_of_isSpill (level : Nat) (h : isSpill s reg o size = true) :
    spillAt s level reg o size fresh =
      modifyStackAt (linkedSource s reg size fresh).1 level fun stack =>
        if size.bytes < 8 then
          scrubRemainder (spillBytes stack o size (spillEntries s reg size fresh 0) .spill) o size
        else spillBytes stack o size (spillEntries s reg size fresh 0) .spill := by
  unfold spillAt
  rw [if_pos h]
  rfl

theorem spillAt_of_not_isSpill (level : Nat) (h : isSpill s reg o size = false) :
    spillAt s level reg o size fresh =
      modifyStackAt (if isNullScalar s reg then putPrecise s reg true else s) level fun stack =>
        writeEntries (stack.scrubSpilledSlotsForWrite o size.bytes) o size.bytes
          fun _ => clobberEntry (isNullScalar s reg) size := by
  unfold spillAt
  rw [if_neg (by rw [h]; exact Bool.false_ne_true)]

theorem stored_spillAt_spill (h : isSpill s reg o size = true) :
    Stored s.stack (spillAt s s.frames.currentLevel reg o size fresh).stack o size.bytes
      (spillEntries s reg size fresh) := by
  have ho : o % 8 = 0 := by
    unfold isSpill at h
    rw [Bool.and_eq_true] at h
    exact of_decide_eq_true h.1
  have hframes := (sameRegs_linkedSource s reg size fresh).frames
  have hstack : (linkedSource s reg size fresh).1.stack = s.stack := by
    unfold State.stack
    rw [hframes]
  rw [spillAt_of_isSpill _ h, ← hframes, stack_modifyStackAt, hstack]
  exact stored_aligned s.stack o size ho _ _

theorem stored_spillAt_clobber (h : isSpill s reg o size = false) :
    Stored s.stack (spillAt s s.frames.currentLevel reg o size fresh).stack o size.bytes
      (fun _ => clobberEntry (isNullScalar s reg) size) := by
  have hstack : (spillAt s s.frames.currentLevel reg o size fresh).stack =
      writeEntries (s.stack.scrubSpilledSlotsForWrite o size.bytes) o size.bytes
        fun _ => clobberEntry (isNullScalar s reg) size := by
    rw [spillAt_of_not_isSpill _ h]
    cases isNullScalar s reg
    · exact stack_modifyStackAt s _
    · exact stack_modifyStackAt (putPrecise s reg true) _
  rw [hstack]
  exact stored_clobber s.stack o size.bytes (size_le size).1 _

theorem domain_spillAt (s : State) (level : Nat) (reg : Reg) (o : Int) (size : MemSize)
    (fresh : Nat) : (spillAt s level reg o size fresh).domain = s.domain ∧
      (spillAt s level reg o size fresh).tnums = s.tnums := by
  cases h : isSpill s reg o size with
  | true =>
    rw [spillAt_of_isSpill _ h]
    have hsame := sameRegs_linkedSource s reg size fresh
    exact ⟨hsame.domain, hsame.tnums⟩
  | false =>
    rw [spillAt_of_not_isSpill _ h]
    cases isNullScalar s reg <;> exact ⟨rfl, rfl⟩

end SpillStep

variable {d : NumericDomain} {log : List Write}

section SpilledEntry
variable {s : State} {ρ : Valuation} {reg : Reg} {m : Memory} {o : Int} {size : MemSize}

theorem related_relationTo (h : d.Represents ρ) {anchor : Option Reg}
    (ha : ∀ a, anchor = some a → a.isAnchor = true) :
    Related ρ (ρ reg) (relationTo d reg anchor).1 (relationTo d reg anchor).2.1
      (relationTo d reg anchor).2.2 := by
  have hfinite : ∀ i j c, finite (d.get i j) = some c → signedOf ρ i - signedOf ρ j ≤ c := by
    intro i j c hc
    unfold finite at hc
    split_ifs at hc with hi
    rw [Option.some_inj] at hc
    cases d with
    | zone d =>
      rw [← hc]
      exact h.sat i j (Int.not_le.1 hi)
    | interval s => exact absurd (Int.le_refl _) hi
  cases anchor with
  | none =>
    intro a h
    cases h
  | some a =>
    intro x hx
    rw [← Option.some_inj.1 hx]
    exact ⟨ha a rfl, fun c hc => hfinite _ _ c hc, fun c hc => hfinite _ _ c hc⟩

theorem isAnchor_packetAnchor {ty : RegType} : ∀ a, packetAnchor ty = some a → a.isAnchor = true := by
  intro a h
  cases ty <;> cases h <;> rfl

theorem isAnchor_secondaryAnchor {ty : RegType} :
    ∀ a, secondaryAnchor ty = some a → a.isAnchor = true := by
  intro a h
  cases ty <;> cases h <;> rfl

theorem relatedBounds_savePtrBounds (h : s.domain.Represents ρ) :
    RelatedBounds ρ (ρ reg) (savePtrBounds s reg) := by
  unfold savePtrBounds
  dsimp only
  split_ifs
  · trivial
  · exact ⟨related_relationTo h isAnchor_packetAnchor, related_relationTo h isAnchor_secondaryAnchor⟩
  · trivial

theorem loadWord_writeLe (m : Memory) (o : Int) (n v : Nat) :
    loadWord (writeLe m o n v) o n = BitVec.ofNat 64 (v % 256^n) := by
  unfold loadWord
  rw [readLe_writeLe_self]

theorem ofNat_mod_u64 (v : BitVec 64) : BitVec.ofNat 64 (v.toNat % 256^MemSize.u64.bytes) = v := by
  have hv : v.toNat % 256^MemSize.u64.bytes = v.toNat := Nat.mod_eq_of_lt v.isLt
  rw [hv]
  exact BitVec.eq_of_toNat_eq (by rw [BitVec.toNat_ofNat, Nat.mod_eq_of_lt v.isLt])

theorem getInterval_range (h : d.InRange) (hi : d.isInterval = true) (x : Reg) :
    I64 (d.getInterval x).1 ∧ I64 (d.getInterval x).2 := by
  cases d with
  | zone d => cases hi
  | interval s => exact ⟨(h x).smin, (h x).smax⟩

theorem lastWrite_self {w : Write} :
    lastWrite (w :: log) w.offset = some w := by
  have hsize := size_le w.size
  have ht : w.touches w.offset = true := decide_eq_true (by omega)
  rw [lastWrite_cons, ht]
  rfl

theorem slotOk_spillEntry {c : Config} {id : Option Nat} (hc : c.Sound)
    (hs : SameRegs c.state s) (ho : o % 8 = 0) (hk : Op.NarrowKept c reg size) :
    SlotOk c.state.domain.isInterval c.regs
      (writeLe c.mem o size.bytes (c.regs reg).toNat)
      (⟨o, size, some (c.state.types.get reg)⟩ :: c.log) o (spillEntry s reg size id) := by
  have hload := loadWord_writeLe c.mem o size.bytes (c.regs reg).toNat
  have hraw : rawTnum s reg = rawTnum c.state reg := by
    unfold rawTnum
    rw [hs.tnums]
  obtain ⟨hmin, hmax, htnum⟩ := hk
  refine ⟨fun _ => ?_, fun _ h => absurd h (Option.some_ne_none reg), fun _ => ⟨ho, ?_⟩, fun hp => ?_⟩
  · show (rawTnum s reg).Has (loadWord _ o size.bytes)
    rw [hraw, hload]
    exact htnum
  · refine ⟨rfl, ?_, ?_, fun hi => ?_, ?_⟩
    · show (s.domain.getInterval reg).1 ≤ signed (loadWord _ o size.bytes)
      rw [hs.domain, hload]
      exact hmin
    · show signed (loadWord _ o size.bytes) ≤ (s.domain.getInterval reg).2
      rw [hs.domain, hload]
      exact hmax
    · show I64 (s.domain.getInterval reg).1 ∧ I64 (s.domain.getInterval reg).2
      rw [hs.domain]
      exact getInterval_range hc.range hi reg
    · show RelatedBounds c.regs (loadWord _ o size.bytes)
        (if size = .u64 then savePtrBounds s reg else none)
      by_cases h64 : size = .u64
      · rw [if_pos h64, hload, h64, ofNat_mod_u64]
        exact relatedBounds_savePtrBounds (hs.domain ▸ hc.represents.domain)
      · rw [if_neg h64]
        trivial
  · have hty : (spillEntry s reg size id).regType =
        if size = .u64 then c.state.types.get reg else .scalarValue := by
      rw [← hs.types]
      rfl
    rw [hty] at hp ⊢
    by_cases h64 : size = .u64
    · rw [if_pos h64]
      refine ⟨rfl, h64, fun w hw => ?_⟩
      rw [lastWrite_self, Option.some_inj] at hw
      rw [← hw, h64]
    · rw [if_neg h64] at hp
      exact absurd rfl hp

end SpilledEntry

section Steps
variable {c : Config} {reg : Reg} {o : Int} {size : MemSize} {fresh : Nat} {imm : Int}

theorem provenZero_sound {ρ : Valuation} (h : d.Represents ρ)
    (hz : signedOf ρ .zero = 0) (hp : d.provenZero reg = true) : ρ reg = 0 := by
  obtain ⟨h1, h2⟩ := NumericDomain.getInterval_sound h hz reg
  have hval : signedOf ρ reg = 0 := by
    cases d with
    | zone d =>
      have hp' : Zone.getInterval d reg = (0, 0) := of_decide_eq_true hp
      simp only [NumericDomain.getInterval, hp'] at h1 h2
      omega
    | interval s =>
      have hp' : (s.getBounds reg).smin = 0 ∧ (s.getBounds reg).smax = 0 := of_decide_eq_true hp
      have h1' : (s.getBounds reg).smin ≤ signedOf ρ reg := h1
      have h2' : signedOf ρ reg ≤ (s.getBounds reg).smax := h2
      omega
  exact eq_of_signed_eq hval

theorem unaligned_of_null (h : isSpill c.state reg o size = false)
    (hnull : isNullScalar c.state reg = true) : o % 8 ≠ 0 := by
  intro ho
  unfold isNullScalar at hnull
  rw [Bool.and_eq_true, decide_eq_true_eq] at hnull
  unfold isSpill at h
  rw [hnull.1, decide_eq_true ho] at h
  cases h

theorem unaligned_in_store {q : Int} (hf : o % size.bytes = 0) (ho : o % 8 ≠ 0) (h1 : o ≤ q)
    (h2 : q < o + size.bytes) : q % 8 ≠ 0 := by
  cases size <;> simp only [MemSize.bytes] at hf h2 <;> omega

/-- The zero recorded for a byte of a null register covers the bytes of the
store from there on and as many behind it. -/
theorem slotOk_null {q : Int} (hc : c.Sound) (hf : o % size.bytes = 0)
    (hspill : isSpill c.state reg o size = false) (hnull : isNullScalar c.state reg = true)
    (htail : Op.TailZero c o size.bytes) (h1 : o ≤ q) (h2 : q < o + size.bytes) :
    SlotOk c.state.domain.isInterval c.regs (writeLe c.mem o size.bytes (c.regs reg).toNat) log q
      (clobberEntry true size) := by
  have hq := unaligned_in_store hf (unaligned_of_null hspill hnull) h1 h2
  have hsize := size_le size
  have hreg : c.regs reg = 0 := by
    unfold isNullScalar at hnull
    rw [Bool.and_eq_true] at hnull
    exact provenZero_sound hc.represents.domain hc.represents.zero hnull.2
  refine ⟨fun _ => ?_, fun h => absurd h hq, fun h => absurd h Bool.false_ne_true,
    fun h => absurd rfl h⟩
  show (Tnum.constant 0).Has (loadWord _ q size.bytes)
  rw [Tnum.has_constant_iff, loadWord_eq_zero_iff hsize.2, hreg]
  intro a ha1 ha2
  by_cases hin : o ≤ a ∧ a < o + size.bytes
  · unfold writeLe
    rw [if_pos hin]
    simp
  · rw [writeLe_of_notMem hin]
    exact htail a (by omega) (by omega)

theorem sound_spill (hc : c.Sound) (hv : (Op.spill reg o size fresh).Valid c)
    (hk : (Op.spill reg o size fresh).Kept c) : ((Op.spill reg o size fresh).exec c).Sound := by
  obtain ⟨hzero, hnarrow, htail⟩ := hk
  obtain ⟨hdom, htn⟩ := domain_spillAt c.state c.state.frames.currentLevel reg o size fresh
  have hentries : ∃ entry, Stored c.stack
      (spillAt c.state c.state.frames.currentLevel reg o size fresh).stack o size.bytes entry ∧
      ∀ q, o ≤ q → q < o + size.bytes → SlotOk c.state.domain.isInterval c.regs
        (writeLe c.mem o size.bytes (c.regs reg).toNat)
        (⟨o, size, some (c.state.types.get reg)⟩ :: c.log) q (entry (q - o).toNat) := by
    cases h : isSpill c.state reg o size with
    | true =>
      have ho : o % 8 = 0 := by
        unfold isSpill at h
        rw [Bool.and_eq_true] at h
        exact of_decide_eq_true h.1
      refine ⟨_, stored_spillAt_spill h, fun q h1 h2 => ?_⟩
      unfold spillEntries
      by_cases hq : q = o
      · rw [hq, if_pos (by omega)]
        exact slotOk_spillEntry hc (sameRegs_linkedSource c.state reg size fresh) ho (hnarrow h)
      · rw [if_neg (by omega)]
        exact slotOk_plain _ _
    | false =>
      refine ⟨_, stored_spillAt_clobber h, fun q h1 h2 => ?_⟩
      cases hnull : isNullScalar c.state reg with
      | false => exact slotOk_plain _ _
      | true =>
        exact slotOk_null hc hv.2.1 h hnull (htail h hnull) h1 h2
  obtain ⟨entry, hst, hnew⟩ := hentries
  refine ⟨represents_of_same hdom htn hc.represents, ?_, fun b sp hf => ?_, ?_⟩
  · show (spillAt c.state c.state.frames.currentLevel reg o size fresh).domain.InRange
    rw [hdom]
    exact hc.range
  · show SlotOk (spillAt c.state c.state.frames.currentLevel reg o size fresh).domain.isInterval
      _ _ _ _ _
    rw [hdom]
    exact slots_of_stored (w := ⟨o, size, some (c.state.types.get reg)⟩) hst hzero hc hnew hf
  · exact written_of_stored (w := ⟨o, size, some (c.state.types.get reg)⟩) hst hc

def immEntries (imm : Int) (o : Int) (size : MemSize) (i : Nat) : SpilledReg :=
  let aligned := decide (o % 8 = 0)
  if i = 0 then immEntry aligned (maskImm imm size) size
  else plainEntry size (storeKind aligned (maskImm imm size))

theorem stored_storeImm (s : State) (imm o : Int) (size : MemSize) :
    Stored s.stack (storeImmToStackAt s s.frames.currentLevel imm o size).stack o size.bytes
      (immEntries imm o size) := by
  have hstack : (storeImmToStackAt s s.frames.currentLevel imm o size).stack = _ :=
    stack_modifyStackAt s _
  rw [hstack]
  by_cases ho : o % 8 = 0
  · simp only [decide_eq_true ho, true_and, if_true]
    have hst := stored_aligned s.stack o size ho (immEntries imm o size 0)
      (storeKind (decide (o % 8 = 0)) (maskImm imm size))
    unfold immEntries at hst ⊢
    rw [decide_eq_true ho] at hst ⊢
    exact hst
  · simp only [decide_eq_false ho, Bool.false_eq_true, false_and, if_false]
    have hst := stored_clobber s.stack o size.bytes (size_le size).1 (immEntries imm o size)
    unfold immEntries at hst ⊢
    rw [decide_eq_false ho] at hst ⊢
    exact hst

theorem loadWord_imm (m : Memory) (o imm : Int) (size : MemSize) :
    loadWord (writeLe m o size.bytes (BitVec.ofInt 64 imm).toNat) o size.bytes =
      BitVec.ofInt 64 (maskImm imm size) := by
  rw [loadWord_writeLe]
  apply BitVec.eq_of_toNat_eq
  rw [BitVec.toNat_ofNat, toNat_ofInt, toNat_ofInt]
  cases size <;> simp only [MemSize.bytes, maskImm, toU64] <;> omega

theorem signed_maskImm (h : I64 imm) (size : MemSize) :
    signed (BitVec.ofInt 64 (maskImm imm size)) = maskImm imm size := by
  apply signed_ofInt
  unfold I64 at h ⊢
  cases size <;> simp only [maskImm] <;> omega

theorem slotOk_immEntry {ivl : Bool} {ρ : Valuation} {m : Memory}
    (hi : I64 imm) : SlotOk ivl ρ (writeLe m o size.bytes (BitVec.ofInt 64 imm).toNat) log o
      (immEntry (decide (o % 8 = 0)) (maskImm imm size) size) := by
  have hload := loadWord_imm m o imm size
  have hsigned := signed_maskImm hi size
  have hrange : I64 (maskImm imm size) := hsigned ▸ signed_range _
  by_cases ho : o % 8 = 0
  · rw [decide_eq_true ho]
    refine ⟨fun _ => ?_, fun _ h => absurd h (Option.some_ne_none Reg.r0), fun _ => ⟨ho, ?_⟩,
      fun h => absurd rfl h⟩
    · show (Tnum.constant (BitVec.ofInt 64 (maskImm imm size))).Has (loadWord _ o size.bytes)
      rw [hload, Tnum.has_constant_iff]
    · refine ⟨rfl, ?_, ?_, fun _ => ⟨hrange, hrange⟩, trivial⟩
      · show maskImm imm size ≤ signed (loadWord _ o size.bytes)
        rw [hload, hsigned]
      · show signed (loadWord _ o size.bytes) ≤ maskImm imm size
        rw [hload, hsigned]
  · rw [decide_eq_false ho]
    by_cases hz : maskImm imm size = 0
    · rw [hz] at hload ⊢
      refine ⟨fun _ => ?_, fun h => absurd h ho, fun h => absurd h Bool.false_ne_true,
        fun h => absurd rfl h⟩
      show (Tnum.constant (BitVec.ofInt 64 0)).Has (loadWord _ o size.bytes)
      rw [hload, Tnum.has_constant_iff]
    · have hmisc : storeKind false (maskImm imm size) = .misc := if_neg hz
      unfold immEntry
      rw [hmisc]
      exact slotOk_plain _ _

theorem sound_storeImm (hc : c.Sound) (hv : (Op.storeImm imm o size).Valid c)
    (hk : (Op.storeImm imm o size).Kept c) : ((Op.storeImm imm o size).exec c).Sound := by
  have hst := stored_storeImm c.state imm o size
  refine ⟨represents_of_same (s := c.state) rfl rfl hc.represents, hc.range, fun b sp hf => ?_, ?_⟩
  · refine slots_of_stored (w := ⟨o, size, none⟩) hst hk hc (fun q h1 h2 => ?_) hf
    unfold immEntries
    by_cases hq : q = o
    · rw [hq, if_pos (Int.toNat_eq_zero.2 (by simp))]
      exact slotOk_immEntry hv.1
    · have hne : (q - o).toNat ≠ 0 := by
        have : o ≤ q := h1
        omega
      rw [if_neg hne]
      exact slotOk_plain _ _
  · exact written_of_stored (w := ⟨o, size, none⟩) hst hc

theorem sound_setRegs {s : State} {ρ : Valuation} (hc : c.Sound)
    (hv : (Op.setRegs s ρ).Valid c) : ((Op.setRegs s ρ).exec c).Sound := by
  obtain ⟨hframes, hrep, hrange, hivl, hanchors⟩ := hv
  have hstack : ((Op.setRegs s ρ).exec c).stack = c.stack := by
    show s.frames.current.stack = c.state.frames.current.stack
    rw [hframes]
  refine ⟨hrep, hrange, fun b sp hf => ?_, fun w hw q h1 h2 => ?_⟩
  · rw [hstack] at hf
    show SlotOk s.domain.isInterval ρ c.mem c.log b sp
    rw [hivl]
    exact (hc.slots b sp hf).congr_regs hanchors
  · rw [hstack]
    exact hc.written w hw q h1 h2

theorem sound_exec {op : Op} (hc : c.Sound) (hv : op.Valid c) (hk : op.Kept c) :
    (op.exec c).Sound := by
  cases op with
  | spill reg o size fresh => exact sound_spill hc hv hk
  | storeImm imm o size => exact sound_storeImm hc hv hk
  | setRegs s ρ => exact sound_setRegs hc hv

/-- One store that leaves no unsound entry behind. -/
def Step (c c' : Config) : Prop := ∃ op : Op, op.Valid c ∧ op.Kept c ∧ op.exec c = c'

theorem sound_of_reaches {c' : Config} (h : Relation.ReflTransGen Step c c') (hc : c.Sound) :
    c'.Sound := by
  induction h with
  | refl => exact hc
  | tail _ hstep ih =>
    obtain ⟨op, hv, hk, rfl⟩ := hstep
    exact sound_exec ih hv hk

end Steps
end ZoneVerifier.SpillSound
