import Mathlib.Logic.Relation
import ZoneVerifier.Concrete

/-!
# Executing one instruction on the registers

The effect of an instruction on the register file: the registers it may
change, and the words it may leave in them. Arithmetic is determined by the
operands; a load or a fetching atomic leaves some word of its width, and a
call leaves anything in the caller-saved registers. A segment of a program is
run from its first point until control leaves it at its end.
-/

set_option autoImplicit false

namespace ZoneVerifier.RegExec
open Word Ast Concrete
variable {instr : Instr} {z : Int} {ρ : Valuation} (w : Width)

/-- Division by zero yields zero, and the remainder by zero the dividend. -/
def aluWord {n : Nat} (op : AluOp) (x y : BitVec n) : BitVec n :=
  match op with
  | .add => x + y
  | .sub => x - y
  | .and => x &&& y
  | .or => x ||| y
  | .xor => x ^^^ y
  | .mov => y
  | .shl | .lsh => x <<< (y.toNat % n)
  | .shr | .rsh => x >>> (y.toNat % n)
  | .arsh => x.sshiftRight (y.toNat % n)
  | .mul => x * y
  | .mod => if y = 0 then x else x % y
  | .div => if y = 0 then 0 else x / y
  | .neg => -x

/-- A 32-bit operation works on the low halves and clears the upper half. -/
def aluResult (w : Width) (op : AluOp) (x y : BitVec 64) : BitVec 64 :=
  match w with
  | .w64 => aluWord op x y
  | .w32 => (aluWord op (x.setWidth 32) (y.setWidth 32)).setWidth 64

theorem aluResult_w32_lt (op : AluOp) (x y : BitVec 64) :
    (aluResult .w32 op x y).toNat < 2^32 := by
  rw [aluResult, BitVec.toNat_setWidth]
  omega

def sxBits : SxWidth → Nat
  | .b8 => 8
  | .b16 => 16
  | .b32 => 32

def movSxResult (w : Width) (srcBits : SxWidth) (y : BitVec 64) : BitVec 64 :=
  let low := y.setWidth (sxBits srcBits)
  match w with
  | .w64 => low.signExtend 64
  | .w32 => (low.signExtend 32).setWidth 64

def writtenRegs : Instr → List Reg
  | .alu _ _ dst _ => [dst]
  | .movSx _ _ dst _ => [dst]
  | .endian dst _ _ _ => [dst]
  | .load _ dst _ _ => [dst]
  | .loadSx _ dst _ _ => [dst]
  | .loadAcq _ dst _ _ => [dst]
  | .loadMap dst _ _ _ => [dst]
  | .atomic op _ fetch _ _ src =>
    if op = .cmpXchg then [.r0] else if fetch then [src] else []
  | .call _ => callerSaved
  | .callRel _ => callerSaved
  | .loadPacket .. => callerSaved
  | .ifCmp .. => []
  | .jmp _ => []
  | .mayGoto _ => []
  | .store .. => []
  | .storeRel .. => []
  | .exit => []

/-- The words an instruction may leave in a register it changes. -/
def Outcome (instr : Instr) (ρ : Valuation) (x : BitVec 64) : Prop :=
  match instr with
  | .alu w op dst src => x = aluResult w op (ρ dst) (operandValue ρ src)
  | .movSx w srcBits _ src => x = movSxResult w srcBits (operandValue ρ src)
  | .load size .. => x.toNat < 2^(8 * size.bytes)
  | .loadAcq size .. => x.toNat < 2^(8 * size.bytes)
  | .atomic _ size .. => x.toNat < 2^(8 * size.bytes)
  | .loadSx size .. => ∃ y : BitVec (8 * size.bytes), x = y.signExtend 64
  | _ => True

def Exec (instr : Instr) (ρ ρ' : Valuation) : Prop :=
  (∀ r, r ∉ writtenRegs instr → ρ' r = ρ r) ∧
    ∀ r, r ∈ writtenRegs instr → Outcome instr ρ (ρ' r)

variable {ρ' : Valuation}

theorem Exec.frame (h : Exec instr ρ ρ') {r : Reg} (hr : r ∉ writtenRegs instr) :
    signedOf ρ' r = signedOf ρ r := by
  rw [signedOf, h.1 r hr, signedOf]

theorem exec_of_outcomes (f : Reg → BitVec 64)
    (h : ∀ r, r ∈ writtenRegs instr → Outcome instr ρ (f r)) :
    Exec instr ρ fun r => if r ∈ writtenRegs instr then f r else ρ r := by
  constructor
  · intro r hr
    exact if_neg hr
  · intro r hr
    simpa only [if_pos hr] using h r hr

theorem exists_exec {x : BitVec 64} (hx : Outcome instr ρ x) :
    ∃ ρ', Exec instr ρ ρ' ∧ ∀ r, r ∈ writtenRegs instr → ρ' r = x :=
  ⟨_, exec_of_outcomes (fun _ => x) fun _ _ => hx, fun _ hr => if_pos hr⟩

theorem exec_alu_iff {w : Width} {op : AluOp} {dst : Reg} {src : Operand} :
    Exec (.alu w op dst src) ρ ρ' ↔
      ρ' = Function.update ρ dst (aluResult w op (ρ dst) (operandValue ρ src)) := by
  rw [Function.eq_update_iff]
  simp only [Exec, writtenRegs, List.mem_singleton, forall_eq, Outcome]
  exact and_comm

/-- The signed reading of an integer result of the given width. -/
def wrapTo : Width → Int → Int
  | .w64, z => wrapI64 z
  | .w32, z => z % 2^32

/-- The least result an operation of the given width leaves unchanged. -/
def lowest : Width → Int
  | .w64 => -2^63
  | .w32 => 0

/-- The least result too large for an operation of the given width. -/
def beyond : Width → Int
  | .w64 => 2^63
  | .w32 => 2^32

theorem wrapTo_le_iff (z : Int) : wrapTo w z ≤ z ↔ lowest w ≤ z := by
  cases w with
  | w64 =>
    simp only [wrapTo, lowest, wrapI64, toI64, toU64]
    split_ifs <;> omega
  | w32 =>
    simp only [wrapTo, lowest]
    omega

theorem le_wrapTo_iff (z : Int) : z ≤ wrapTo w z ↔ z < beyond w := by
  cases w with
  | w64 =>
    simp only [wrapTo, beyond, wrapI64, toI64, toU64]
    split_ifs <;> omega
  | w32 =>
    simp only [wrapTo, beyond]
    omega

theorem wrapTo_congr {w : Width} {y : Int} (h : y % 2^64 = z % 2^64) : wrapTo w y = wrapTo w z := by
  cases w with
  | w64 => simp only [wrapTo, wrapI64, toU64, h]
  | w32 =>
    simp only [wrapTo]
    omega

theorem signed_emod (v : BitVec 64) : signed v % 2^64 = v.toNat % 2^64 := by
  unfold signed toI64
  split_ifs <;> omega

theorem signed_eq_wrapI64 {v : BitVec 64} (h : (v.toNat : Int) % 2^64 = z % 2^64) :
    signed v = wrapI64 z := by
  unfold signed wrapI64 toI64 toU64
  split_ifs <;> omega

theorem signed_setWidth (v : BitVec 32) (h : (v.toNat : Int) = z % 2^32) :
    signed (v.setWidth 64) = z % 2^32 := by
  rw [signed, BitVec.toNat_setWidth, Nat.mod_eq_of_lt (by omega), toI64_of_lt (by omega), h]

theorem signed_mov (x y : BitVec 64) : signed (aluResult w .mov x y) = wrapTo w (signed y) := by
  have hy := signed_emod y
  cases w with
  | w64 => exact signed_eq_wrapI64 hy.symm
  | w32 =>
    apply signed_setWidth
    simp only [aluWord, BitVec.toNat_setWidth]
    omega

theorem signed_add (x y : BitVec 64) :
    signed (aluResult w .add x y) = wrapTo w (signed x + signed y) := by
  have hx := signed_emod x
  have hy := signed_emod y
  cases w with
  | w64 =>
    apply signed_eq_wrapI64
    simp only [aluResult, aluWord, BitVec.toNat_add]
    omega
  | w32 =>
    apply signed_setWidth
    simp only [aluWord, BitVec.toNat_add, BitVec.toNat_setWidth]
    omega

section Segments

/-- Where control may go after the instruction at `pc`; a call comes back behind itself. -/
def Next (instr : Instr) (ρ : Valuation) (pc pc' : Nat) : Prop :=
  match instr with
  | .ifCmp w left op right target =>
    pc' = if CmpHolds w op (ρ left) (operandValue ρ right) then target else pc + 1
  | .jmp target => pc' = target
  | .mayGoto target => pc' = target ∨ pc' = pc + 1
  | .exit => False
  | _ => pc' = pc + 1

theorem Next.cases {pc pc' : Nat} (h : Next instr ρ pc pc') :
    pc' = pc + 1 ∨ jumpTarget? instr = some pc' := by
  cases instr with
  | ifCmp w left op right target =>
    simp only [Next] at h
    split_ifs at h with hholds
    · exact .inr (by rw [jumpTarget?, h])
    · exact .inl h
  | jmp target => exact .inr (by rw [jumpTarget?, h])
  | mayGoto target =>
    rcases h with rfl | h
    · exact .inr rfl
    · exact .inl h
  | exit => exact h.elim
  | _ => exact .inl h

def Step (prog : List Instr) (a b : Nat × Valuation) : Prop :=
  ∃ instr, prog[a.1]? = some instr ∧ Exec instr a.2 b.2 ∧ Next instr a.2 a.1 b.1

def SegmentStep (prog : List Instr) (first last : Nat) (a b : Nat × Valuation) : Prop :=
  first ≤ a.1 ∧ a.1 ≤ last ∧ Step prog a b

def SegmentRun (prog : List Instr) (first last : Nat) (ρ ρ' : Valuation) : Prop :=
  Relation.ReflTransGen (SegmentStep prog first last) (first, ρ) (last + 1, ρ')

/-- No jump of the segment leads to another point of it, or to its end. -/
def Straight (prog : List Instr) (first last : Nat) : Prop :=
  ∀ pc instr, first ≤ pc → pc ≤ last → prog[pc]? = some instr →
    ∀ target, jumpTarget? instr = some target →
      target = pc + 1 ∨ target < first ∨ last + 1 < target

def ExecSeq : List Instr → Valuation → Valuation → Prop
  | [], ρ, ρ' => ρ' = ρ
  | instr :: rest, ρ, ρ' => ∃ mid, Exec instr ρ mid ∧ ExecSeq rest mid ρ'

theorem execSeq_append {xs ys : List Instr} (h : ExecSeq (xs ++ ys) ρ ρ') :
    ∃ mid, ExecSeq xs ρ mid ∧ ExecSeq ys mid ρ' := by
  induction xs generalizing ρ with
  | nil => exact ⟨ρ, rfl, h⟩
  | cons x xs ih =>
    obtain ⟨next, hx, h⟩ := h
    obtain ⟨mid, hxs, hys⟩ := ih h
    exact ⟨mid, ⟨next, hx, hxs⟩, hys⟩

theorem execSeq_of_run {prog : List Instr} {first last : Nat} (hs : Straight prog first last)
    {a : Nat × Valuation}
    (h : Relation.ReflTransGen (SegmentStep prog first last) a (last + 1, ρ'))
    (hfirst : first ≤ a.1) (hlast : a.1 ≤ last + 1) :
    ExecSeq ((prog.drop a.1).take (last + 1 - a.1)) a.2 ρ' := by
  induction h using Relation.ReflTransGen.head_induction_on with
  | refl => simp [ExecSeq]
  | head hstep hrest ih =>
    rename_i a b
    obtain ⟨_, hle, instr, hinstr, hexec, hnext⟩ := hstep
    -- Control goes on to the next point: from outside the segment the end is not reached.
    have hpc : b.1 = a.1 + 1 := by
      obtain hpc | hjump := hnext.cases
      · exact hpc
      · obtain hpc | hout := hs _ _ hfirst hle hinstr _ hjump
        · exact hpc
        · obtain hend | ⟨_, hinside, _⟩ := Relation.ReflTransGen.cases_head hrest
          · rw [hend] at hout
            omega
          · have := hinside.1
            have := hinside.2.1
            omega
    have hlt := (List.getElem?_eq_some_iff.1 hinstr).1
    have hget := (List.getElem?_eq_some_iff.1 hinstr).2
    have hrest := ih (by omega) (by omega)
    rw [hpc] at hrest
    rw [List.drop_eq_getElem_cons hlt, hget, show last + 1 - a.1 = last + 1 - (a.1 + 1) + 1 by omega,
      List.take_succ_cons]
    exact ⟨b.2, hexec, hrest⟩

end Segments

end ZoneVerifier.RegExec
