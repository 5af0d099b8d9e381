import ZoneVerifier.KfuncTransfer
import ZoneVerifier.PacketSweep

/-!
# Memory sized by an argument

`bpf_ringbuf_reserve`, `bpf_dynptr_data`, the two slice kfuncs and
`bpf_arena_alloc_pages` return as much memory as an argument asks for. The size
that is recorded for the result is read off the largest signed value of the
argument, and the checks of the argument only look at its smallest one, so the
record is right for a known size and too large for a size that may be smaller.
-/

set_option autoImplicit false

namespace ZoneVerifier.SizedAlloc
open Ast RegTypes Machine Numeric Concrete Signatures CallTypes CallTransfer KfuncTransfer
open PacketSweep (noTable)

section Calls

inductive SizedCall where
  | ringbufReserve | dynptrData | dynptrSlice | dynptrSliceRdwr | arenaAllocPages
  deriving DecidableEq, Repr

def dynptrSliceProto : CallProto :=
  { CallProto.withArgs [.dynptrArg false false, .anything, .ptrToUninitMemOrNull, .constSize] with
    ret := .ptrToAllocMemFromArgRdonly 3, flags := .retNull
    memSizePairs := [.newOptional .r3 .r4] }

def dynptrSliceRdwrProto : CallProto :=
  { CallProto.withArgs [.dynptrArg false true, .anything, .ptrToUninitMemOrNull, .constSize] with
    ret := .ptrToAllocMemFromArg 3, flags := .retNull
    memSizePairs := [.newOptional .r3 .r4] }

/-- The map type 33 is the arena. -/
def arenaAllocPagesProto : CallProto :=
  { CallProto.withArgs [.constMapPtrOfType 33, .anything, .anything, .anything, .anything] with
    ret := .ptrToArenaFromArg 2, flags := .retNull }

def SizedCall.successor (env : CallEnv) (s : State) (ids : Nat → Nat) : SizedCall → State
  | ringbufReserve => normalCall env s.types s Helper.ringbufReserve ids
  | dynptrData => normalCall env s.types s Helper.dynptrData ids
  | dynptrSlice => normalKfunc env s.types s dynptrSliceProto .none ids
  | dynptrSliceRdwr => normalKfunc env s.types s dynptrSliceRdwrProto .none ids
  | arenaAllocPages => normalKfunc env s.types s arenaAllocPagesProto .none ids

def SizedCall.sizeReg : SizedCall → Reg
  | ringbufReserve => .r2
  | dynptrData | arenaAllocPages => .r3
  | dynptrSlice | dynptrSliceRdwr => .r4

def SizedCall.provided : SizedCall → Nat → Nat
  | arenaAllocPages, n => 4096 * n
  | _, n => n

def SizedCall.sizeKind : SizedCall → ArgKind
  | ringbufReserve => .constAllocSizeOrZero
  | arenaAllocPages => .anything
  | _ => .constSize

/-- `validate_const_size` and `validate_const_size_or_zero`. -/
def sizeArgAccepted (d : NumericDomain) (r : Reg) : ArgKind → Bool
  | .constSize => decide (0 < (d.getInterval r).1)
  | .constSizeOrZero | .constAllocSizeOrZero => decide (0 ≤ (d.getInterval r).1)
  | _ => true

def memSize : RegType → Option Nat
  | .ptrToAllocMem _ n _ _ _ | .ptrToAllocMemOrNull _ n _ _ _ => some n
  | .ptrToArena _ n | .ptrToArenaOrNull _ n => some n
  | _ => none

/-- The size that is recorded, from the largest signed value of the argument. -/
def SizedCall.recorded (d : NumericDomain) (call : SizedCall) : Nat :=
  let hi := (d.getInterval call.sizeReg).2
  match call with
  | ringbufReserve => Word.toU64 hi
  | arenaAllocPages => min (hi.toNat * 4096) (2^64 - 1)
  | _ => hi.toNat

theorem memSize_successor (env : CallEnv) (s : State) (ids : Nat → Nat) (call : SizedCall) :
    memSize ((call.successor env s ids).types.get .r0) = some (call.recorded s.domain) := by
  cases call <;> rfl

theorem provided_mono (call : SizedCall) {m n : Nat} (h : m ≤ n) :
    call.provided m ≤ call.provided n := by
  cases call <;> simp only [SizedCall.provided] <;> omega

end Calls

/-- The recorded size is at most what the callee provides, for every value the
state allows for the size argument. -/
def SizeSound (env : CallEnv) (s : State) (ids : Nat → Nat) (call : SizedCall) : Prop :=
  ∀ n ∈ memSize ((call.successor env s ids).types.get .r0), ∀ ρ, s.Represents ρ →
    n ≤ call.provided (ρ call.sizeReg).toNat

/-- The largest signed value of the size argument is no more than its smallest
unsigned one; pages are compared up to the size that saturates. -/
def SizeKnown (d : NumericDomain) (call : SizedCall) : Prop :=
  let hi := (d.getInterval call.sizeReg).2
  let min₀ := (d.getU64Bounds call.sizeReg).1
  match call with
  | .ringbufReserve => Word.toU64 hi ≤ min₀
  | .arenaAllocPages => min (hi.toNat * 4096) (2^64 - 1) ≤ 4096 * min₀
  | _ => hi.toNat ≤ min₀

theorem sizeKnown_iff (d : NumericDomain) (call : SizedCall) :
    SizeKnown d call ↔ call.recorded d ≤ call.provided (d.getU64Bounds call.sizeReg).1 := by
  cases call <;> exact Iff.rfl

theorem sizeSound_of_sizeKnown {env : CallEnv} {s : State} {ids : Nat → Nat}
    {call : SizedCall} (h : SizeKnown s.domain call) : SizeSound env s ids call := by
  intro n hn ρ hρ
  rw [memSize_successor] at hn
  cases hn
  have hmin := (NumericDomain.getU64Bounds_sound hρ.domain call.sizeReg).1
  exact ((sizeKnown_iff s.domain call).1 h).trans (provided_mono call hmin)

/-- The recorded size is sound if the size is known, and only then if the
smallest size is attained. -/
theorem sizeSound_iff_sizeKnown (env : CallEnv) (s : State) (ids : Nat → Nat)
    (call : SizedCall) :
    (SizeKnown s.domain call → SizeSound env s ids call) ∧
      ∀ ρ, s.Represents ρ → (ρ call.sizeReg).toNat = (s.domain.getU64Bounds call.sizeReg).1 →
        (SizeSound env s ids call ↔ SizeKnown s.domain call) := by
  refine ⟨sizeSound_of_sizeKnown, fun ρ hρ hmin => ⟨fun h => ?_, sizeSound_of_sizeKnown⟩⟩
  have hle := h _ (memSize_successor env s ids call) ρ hρ
  rw [hmin] at hle
  exact (sizeKnown_iff s.domain call).2 hle

section Example

def sizedBetween (lo hi : Int) : State :=
  { State.new (.interval (Interval.assignInterval Interval.IntervalState.new .r2 lo hi)) 0 with
    types := (TypeState.newNotInit.set .r1 (.ptrToMapObject 0)).set .r2 .scalarValue }

def reserving : State := sizedBetween 8 64

def eightBytes : Valuation := fun r => if r = .r2 then 8 else 0

theorem reserving_represents : reserving.Represents eightBytes :=
  .of_unlinked rfl (by decide) (by decide) (by decide)

/-- The size is accepted, 64 bytes are recorded, and the callee may be asked for
8. -/
theorem ringbufReserve_records_largest :
    sizeArgAccepted reserving.domain SizedCall.ringbufReserve.sizeReg
        SizedCall.ringbufReserve.sizeKind = true ∧
      reserving.Represents eightBytes ∧
      memSize ((SizedCall.ringbufReserve.successor noTable reserving id).types.get .r0) = some 64 ∧
      SizedCall.ringbufReserve.provided (eightBytes SizedCall.ringbufReserve.sizeReg).toNat = 8 ∧
      ¬ SizeSound noTable reserving id .ringbufReserve := by
  have hsize : memSize ((SizedCall.ringbufReserve.successor noTable reserving id).types.get .r0) =
      some 64 := by
    rw [memSize_successor]
    decide
  refine ⟨by decide, reserving_represents, hsize, by decide, fun h => ?_⟩
  have hle := h 64 hsize eightBytes reserving_represents
  revert hle
  decide

/-- A reservation of 16 bytes is recorded with 16 bytes. -/
theorem ringbufReserve_sound_of_constant :
    SizeKnown (sizedBetween 16 16).domain .ringbufReserve ∧
      SizeSound noTable (sizedBetween 16 16) id .ringbufReserve := by
  have hknown : SizeKnown (sizedBetween 16 16).domain .ringbufReserve :=
    show Word.toU64 _ ≤ _ by decide
  exact ⟨hknown, (sizeSound_iff_sizeKnown noTable _ id _).1 hknown⟩

end Example

end ZoneVerifier.SizedAlloc
