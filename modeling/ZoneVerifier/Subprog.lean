import Mathlib.Tactic.IntervalCases
import ZoneVerifier.Ast
import ZoneVerifier.CallTypes
import ZoneVerifier.Cuts
import ZoneVerifier.Fallible
import ZoneVerifier.GraphSearch

/-!
# Function boundaries and functions that may sleep

`check_subprogs` and `analyze_subprograms` (`analysis/flow/subprog.rs`) divide
a program into functions, each on its own: the first cuts at the targets of
subprogram calls, the second also at callbacks. `get_local_successors`
(`analysis/flow/liveness.rs`) keeps the successors inside a function and drops
the others without notice, so it matters that none is dropped.
`compute_may_sleep_subprogs` marks the functions that call a sleepable helper or
kfunc, and then in passes those that call a marked one or take its address.
`compute_tainted_cb_subprogs` looks for calls that a graph callback must not make
in the callback's own instructions only.
-/

set_option autoImplicit false

namespace ZoneVerifier.Subprog
open Ast Cuts Fallible
variable (instrs : List Instr)

/-- The errors of `check_subprogs`. Indexing past the end of the program panics. -/
inductive SubprogError where
  | jumpOutOfRange (pc target start stop : Nat)
  | callOutOfBounds (pc target : Nat)
  | invalidTerminator (pc : Nat)
  | panic (pc : Nat)
  deriving DecidableEq, Repr

def callTarget? : Instr → Option Nat
  | .callRel target => some target
  | _ => none

def callbackTarget? : Instr → Option Nat
  | .loadMap _ (.pseudoFunc subprogPc) _ _ => some subprogPc
  | _ => none

/-- The entry points `check_subprogs` collects in a `BTreeSet`. -/
def funcStarts : List Nat :=
  insertAll (instrs.filterMap callTarget?) [0]

def fetch (pc : Nat) : Except SubprogError Instr :=
  (instrs[pc]?).elim (.error (.panic pc)) .ok

def isLocal (start stop t : Nat) : Bool := decide (start ≤ t) && decide (t < stop)

def checkInsn (len start stop pc : Nat) : Instr → Except SubprogError Unit
  | .jmp target | .ifCmp _ _ _ _ target =>
    if isLocal start stop target then .ok () else .error (.jumpOutOfRange pc target start stop)
  | .callRel target => if len ≤ target then .error (.callOutOfBounds pc target) else .ok ()
  | _ => .ok ()

def isTerminator : Instr → Bool
  | .jmp _ | .exit => true
  | _ => false

def checkTerminator (stop : Nat) : Except SubprogError Unit :=
  if 0 < stop then do
    let lastInsn ← fetch instrs (stop - 1)
    if isTerminator lastInsn then .ok () else .error (.invalidTerminator (stop - 1))
  else .ok ()

def checkBody (start stop : Nat) : Except SubprogError Unit :=
  (List.range' start (stop - start)).forM fun pc => do
    let insn ← fetch instrs pc
    checkInsn instrs.length start stop pc insn

def checkFunction (f : Nat × Nat) : Except SubprogError Unit := do
  checkBody instrs f.1 f.2
  checkTerminator instrs f.2

def checkSubprogs : Except SubprogError Unit :=
  (ranges instrs.length (funcStarts instrs)).forM (checkFunction instrs)

def pushEntry (entries : List Nat) (pc : Nat) : List Nat :=
  if pc ∈ entries then entries else entries ++ [pc]

def entryOf (insn : Instr) : Option Nat := (callTarget? insn).or (callbackTarget? insn)

/-- The entry points of `analyze_subprograms`: call targets and callbacks. -/
def entries : List Nat :=
  ((instrs.filterMap entryOf).foldl pushEntry [0]).insertionSort (· ≤ ·)

/-- The `(start_pc, end_pc)` of every function `analyze_subprograms` finds. -/
def analyzeSubprograms : List (Nat × Nat) :=
  ranges instrs.length (entries instrs)

/-- Where control can go next without entering or leaving a function. -/
def successors (pc : Nat) : Instr → List Nat
  | .exit => []
  | .jmp target => [target]
  | .ifCmp _ _ _ _ target | .mayGoto target => [pc + 1, target]
  | _ => [pc + 1]

def getLocalSuccessors (pc : Nat) (insn : Instr) (start stop : Nat) : List Nat :=
  (successors pc insn).filter (isLocal start stop)

/-- Every transfer of control other than a call stays among the instructions
of the function it is in. -/
def StaysInside : Prop :=
  ∀ f ∈ analyzeSubprograms instrs, ∀ pc insn, f.1 ≤ pc → pc < f.2 → instrs[pc]? = some insn →
    getLocalSuccessors pc insn f.1 (min f.2 instrs.length) = successors pc insn

theorem fetch_bind_ok_iff {instrs : List Instr} {pc : Nat} {f : Instr → Except SubprogError Unit} :
    (fetch instrs pc >>= f) = .ok () ↔ ∃ insn, instrs[pc]? = some insn ∧ f insn = .ok () := by
  unfold fetch
  cases instrs[pc]? <;> simp [bind, Except.bind]

theorem isLocal_iff {start stop t : Nat} : isLocal start stop t = true ↔ start ≤ t ∧ t < stop := by
  simp [isLocal]

section Entries
variable {instrs : List Instr} {c : Nat}

theorem mem_funcStarts : c ∈ funcStarts instrs ↔ c = 0 ∨ .callRel c ∈ instrs := by
  have hcall : c ∈ instrs.filterMap callTarget? ↔ .callRel c ∈ instrs := by
    rw [List.mem_filterMap]
    constructor
    · rintro ⟨insn, hmem, h⟩
      cases insn <;> simp [callTarget?] at h
      exact h ▸ hmem
    · exact fun h => ⟨_, h, rfl⟩
  rw [funcStarts, mem_insertAll, hcall, List.mem_singleton]

theorem pairwise_funcStarts (instrs : List Instr) : (funcStarts instrs).Pairwise (· < ·) :=
  pairwise_insertAll _ (List.pairwise_singleton _ _)

theorem mem_foldl_pushEntry {targets es : List Nat} :
    c ∈ targets.foldl pushEntry es ↔ c ∈ es ∨ c ∈ targets := by
  induction targets generalizing es with
  | nil => simp
  | cons t targets ih =>
    rw [List.foldl_cons, ih, pushEntry, List.mem_cons]
    split_ifs with h
    · constructor
      · exact Or.imp_right Or.inr
      · rintro (hc | rfl | hc)
        exacts [Or.inl hc, Or.inl h, Or.inr hc]
    · rw [List.mem_append, List.mem_singleton, or_assoc]

theorem nodup_foldl_pushEntry (targets : List Nat) {es : List Nat} (h : es.Nodup) :
    (targets.foldl pushEntry es).Nodup := by
  induction targets generalizing es with
  | nil => exact h
  | cons t targets ih =>
    refine ih ?_
    unfold pushEntry
    split_ifs with ht
    · exact h
    · exact List.nodup_append.2 ⟨h, List.nodup_singleton t, by
        intro a ha b hb hab
        exact ht (List.mem_singleton.1 hb ▸ hab ▸ ha)⟩

/-- A callback is loaded by an instruction of the program. -/
def IsCallback (instrs : List Instr) (c : Nat) : Prop :=
  ∃ insn ∈ instrs, callbackTarget? insn = some c

theorem mem_entries : c ∈ entries instrs ↔ c ∈ funcStarts instrs ∨ IsCallback instrs c := by
  rw [entries, (List.perm_insertionSort _ _).mem_iff, mem_foldl_pushEntry, List.mem_filterMap,
    mem_funcStarts, List.mem_singleton, or_assoc]
  refine or_congr_right ?_
  constructor
  · rintro ⟨insn, hmem, h⟩
    rcases Option.or_eq_some_iff.1 h with h | ⟨_, h⟩
    · cases insn <;> simp [callTarget?] at h
      exact Or.inl (h ▸ hmem)
    · exact Or.inr ⟨insn, hmem, h⟩
  · rintro (h | ⟨insn, hmem, h⟩)
    · exact ⟨_, h, rfl⟩
    · refine ⟨insn, hmem, Option.or_eq_some_iff.2 (Or.inr ⟨?_, h⟩)⟩
      cases insn <;> first | rfl | cases h

theorem pairwise_entries (instrs : List Instr) : (entries instrs).Pairwise (· < ·) := by
  have hsorted := List.pairwise_insertionSort (r := (· ≤ ·))
    ((instrs.filterMap entryOf).foldl pushEntry [0])
  have hnodup : (entries instrs).Nodup := (List.perm_insertionSort _ _).nodup_iff.2
    (nodup_foldl_pushEntry _ (List.nodup_singleton 0))
  exact hsorted.imp₂ (fun _ _ hle hne => Nat.lt_of_le_of_ne hle hne) hnodup

end Entries

theorem mem_successors {pc t : Nat} {insn : Instr} :
    t ∈ successors pc insn ↔
      (t = pc + 1 ∧ isTerminator insn = false) ∨ jumpTarget? insn = some t := by
  cases insn <;> simp [successors, isTerminator, jumpTarget?, eq_comm]

/-- The transfer from `pc` to `t` ends at an instruction and crosses no cut point. -/
def Lands (instrs : List Instr) (cs : List Nat) (pc t : Nat) : Prop :=
  t < instrs.length ∧ ∀ c ∈ cs, ¬ Separates c pc t

section Ranges
variable {instrs : List Instr} {pc t : Nat} {insn : Instr}

theorem lt_length_of_getElem? (h : instrs[pc]? = some insn) : pc < instrs.length :=
  (List.getElem?_eq_some_iff.1 h).1

theorem staysInside_iff : StaysInside instrs ↔ ∀ pc insn, instrs[pc]? = some insn →
    ∀ t ∈ successors pc insn, Lands instrs (entries instrs) pc t := by
  have hkept : ∀ f ∈ analyzeSubprograms instrs, ∀ pc, f.1 ≤ pc → pc < f.2 → ∀ t,
      (isLocal f.1 (min f.2 instrs.length) t = true ↔ Lands instrs (entries instrs) pc t) := by
    intro f hf pc h1 h2 t
    rw [isLocal_iff, Nat.lt_min, Lands]
    constructor
    · rintro ⟨hlo, hhi, ht⟩
      exact ⟨ht, (mem_range_iff_not_separated (pairwise_entries instrs) hf h1 h2 ht).1 ⟨hlo, hhi⟩⟩
    · rintro ⟨ht, hsep⟩
      have h := (mem_range_iff_not_separated (pairwise_entries instrs) hf h1 h2 ht).2 hsep
      exact ⟨h.1, h.2, ht⟩
  constructor
  · intro h pc insn hpc t ht
    have hzero : 0 ∈ entries instrs := mem_entries.2 (Or.inl (mem_funcStarts.2 (Or.inl rfl)))
    obtain ⟨f, hf, h1, h2⟩ := exists_mem_ranges hzero (Nat.zero_le pc) (lt_length_of_getElem? hpc)
    have hall := List.filter_eq_self.1 (h f hf pc insn h1 h2 hpc)
    exact (hkept f hf pc h1 h2 t).1 (hall t ht)
  · intro h f hf pc insn h1 h2 hpc
    exact List.filter_eq_self.2 fun t ht => (hkept f hf pc h1 h2 t).2 (h pc insn hpc t ht)

structure Accepted (instrs : List Instr) (f : Nat × Nat) : Prop where
  insn : ∀ pc, f.1 ≤ pc → pc < f.2 → ∃ insn, instrs[pc]? = some insn ∧
    checkInsn instrs.length f.1 f.2 pc insn = .ok ()
  last : 0 < f.2 → ∃ insn, instrs[f.2 - 1]? = some insn ∧ isTerminator insn = true

theorem accepted_of_checkFunction {f : Nat × Nat} (h : checkFunction instrs f = .ok ()) :
    Accepted instrs f := by
  obtain ⟨hbody, hlast⟩ := seq_ok_iff.1 h
  constructor
  · intro pc h1 h2
    have hpc := (forM_ok_iff _ _).1 hbody pc (List.mem_range'_1.2 ⟨h1, by omega⟩)
    exact fetch_bind_ok_iff.1 hpc
  · intro h0
    rw [checkTerminator, if_pos h0] at hlast
    obtain ⟨insn, hfetch, hterm⟩ := fetch_bind_ok_iff.1 hlast
    refine ⟨insn, hfetch, ?_⟩
    by_contra hne
    simp [hne] at hterm

theorem Accepted.stop_le {f : Nat × Nat} (h : Accepted instrs f) (hf : f.1 < f.2) :
    f.2 ≤ instrs.length := by
  obtain ⟨insn, hlast, -⟩ := h.last (by omega)
  have := lt_length_of_getElem? hlast
  omega

section Checked
variable (hok : checkSubprogs instrs = .ok ())
include hok

theorem exists_accepted (hpc : pc < instrs.length) :
    ∃ f ∈ ranges instrs.length (funcStarts instrs), f.1 ≤ pc ∧ pc < f.2 ∧ Accepted instrs f := by
  have hzero : 0 ∈ funcStarts instrs := mem_funcStarts.2 (Or.inl rfl)
  obtain ⟨f, hf, h1, h2⟩ := exists_mem_ranges hzero (Nat.zero_le pc) hpc
  exact ⟨f, hf, h1, h2, accepted_of_checkFunction ((forM_ok_iff _ _).1 hok f hf)⟩

/-- Jumps and branches are checked against the calls' function boundaries. -/
theorem lands_of_checked (hpc : instrs[pc]? = some insn) (ht : jumpTarget? insn = some t)
    (hgoto : insn ≠ .mayGoto t) : Lands instrs (funcStarts instrs) pc t := by
  obtain ⟨f, hf, h1, h2, hacc⟩ := exists_accepted hok (lt_length_of_getElem? hpc)
  obtain ⟨insn', hpc', hcheck⟩ := hacc.insn pc h1 h2
  cases hpc.symm.trans hpc'
  have hlocal : f.1 ≤ t ∧ t < f.2 := by
    rw [← isLocal_iff]
    by_contra hne
    cases insn <;> simp_all [jumpTarget?, checkInsn]
  have hlen : t < instrs.length := Nat.lt_of_lt_of_le hlocal.2 (hacc.stop_le (by omega))
  exact ⟨hlen, (mem_range_iff_not_separated (pairwise_funcStarts instrs) hf h1 h2 hlen).1 hlocal⟩

/-- Control does not fall off the end of a function that `check_subprogs` knows. -/
theorem lands_next_of_checked (hpc : instrs[pc]? = some insn) (hfall : isTerminator insn = false) :
    Lands instrs (funcStarts instrs) pc (pc + 1) := by
  have hlen := lt_length_of_getElem? hpc
  obtain ⟨f, hf, h1, h2, hacc⟩ := exists_accepted hok hlen
  have hinside : pc + 1 < f.2 := by
    by_contra hge
    obtain ⟨insn', hlast, hterm⟩ := hacc.last (by omega)
    have heq : f.2 - 1 = pc := by omega
    rw [heq] at hlast
    cases hpc.symm.trans hlast
    exact Bool.noConfusion (hfall.symm.trans hterm)
  have hnext : pc + 1 < instrs.length := Nat.lt_of_lt_of_le hinside (hacc.stop_le (by omega))
  exact ⟨hnext, (mem_range_iff_not_separated (pairwise_funcStarts instrs) hf h1 h2 hnext).1
    ⟨by omega, hinside⟩⟩

end Checked

/-- The two things `check_subprogs` does not look at: a `may_goto` stays in
its function, and a callback is entered by no jump and by no instruction
before it. -/
structure Guarded (instrs : List Instr) : Prop where
  mayGoto : ∀ pc t, instrs[pc]? = some (.mayGoto t) → Lands instrs (funcStarts instrs) pc t
  jumpsAround : ∀ c, IsCallback instrs c → ∀ pc insn t, instrs[pc]? = some insn →
    jumpTarget? insn = some t → ¬ Separates c pc t
  closedBefore : ∀ c, IsCallback instrs c → ∀ pc insn, c = pc + 1 → instrs[pc]? = some insn →
    isTerminator insn = true

/-- In an accepted program control stays inside its function exactly when the
program is guarded. -/
theorem staysInside_iff_guarded (hok : checkSubprogs instrs = .ok ()) :
    StaysInside instrs ↔ Guarded instrs := by
  rw [staysInside_iff]
  constructor
  · intro h
    constructor
    · intro pc t hpc
      have hl := h pc _ hpc t (mem_successors.2 (Or.inr rfl))
      exact ⟨hl.1, fun c hc => hl.2 c (mem_entries.2 (Or.inl hc))⟩
    · intro c hc pc insn t hpc ht
      exact (h pc insn hpc t (mem_successors.2 (Or.inr ht))).2 c (mem_entries.2 (Or.inr hc))
    · rintro c hc pc insn rfl hpc
      by_contra hne
      have hmem : pc + 1 ∈ successors pc insn :=
        mem_successors.2 (Or.inl ⟨rfl, Bool.eq_false_iff.2 hne⟩)
      refine (h pc insn hpc _ hmem).2 _ (mem_entries.2 (Or.inr hc)) ?_
      exact Or.inl ⟨Nat.lt_succ_self pc, Nat.le_refl _⟩
  · intro h pc insn hpc t ht
    rcases mem_successors.1 ht with ⟨rfl, hfall⟩ | ht
    · have hl := lands_next_of_checked hok hpc hfall
      refine ⟨hl.1, fun c hc hsep => ?_⟩
      rcases mem_entries.1 hc with hc | hc
      · exact hl.2 c hc hsep
      · have heq : c = pc + 1 := by
          unfold Separates at hsep
          omega
        exact Bool.noConfusion (hfall.symm.trans (h.closedBefore c hc pc insn heq hpc))
    · have hl : Lands instrs (funcStarts instrs) pc t := by
        by_cases hgoto : insn = .mayGoto t
        · exact h.mayGoto pc t (hgoto ▸ hpc)
        · exact lands_of_checked hok hpc ht hgoto
      refine ⟨hl.1, fun c hc => ?_⟩
      rcases mem_entries.1 hc with hc | hc
      · exact hl.2 c hc
      · exact h.jumpsAround c hc pc insn t hpc ht

end Ranges

/-- The `may_goto` at pc 2 leads into the function at pc 4 and falls through
into the callback at pc 3. -/
def straying : List Instr :=
  [.loadMap .r2 (.pseudoFunc 3) 0 0, .callRel 4, .mayGoto 4, .exit, .exit]

theorem straying_accepted : checkSubprogs straying = .ok () ∧ ¬ StaysInside straying := by
  refine ⟨rfl, fun h => ?_⟩
  have hkept := h (0, 3) (by decide) 2 (.mayGoto 4) (by decide) (by decide) rfl
  exact absurd hkept (by decide)

/-- A loop that leaves through its own exit, and a callback after it. -/
def confined : List Instr :=
  [.loadMap .r2 (.pseudoFunc 4) 0 0, .callRel 6, .mayGoto 1, .exit, .mayGoto 4, .exit, .exit]

theorem callback_confined {c : Nat} (h : IsCallback confined c) : c = 4 := by
  obtain ⟨insn, hmem, hc⟩ := h
  simp only [confined, List.mem_cons, List.not_mem_nil, or_false] at hmem
  rcases hmem with rfl | rfl | rfl | rfl | rfl | rfl | rfl <;> simp [callbackTarget?] at hc
  exact hc.symm

theorem confined_guarded : Guarded confined := by
  constructor
  · intro pc t hpc
    have hlen : pc < 7 := lt_length_of_getElem? hpc
    interval_cases pc <;> simp [confined] at hpc <;> subst hpc <;> exact ⟨by decide, by decide⟩
  · intro c hc pc insn t hpc ht
    rw [callback_confined hc]
    have hlen : pc < 7 := lt_length_of_getElem? hpc
    interval_cases pc <;> simp [confined] at hpc <;> subst hpc <;> simp [jumpTarget?] at ht <;>
      subst ht <;> decide
  · intro c hc pc insn heq hpc
    obtain rfl : pc = 3 := by
      have := callback_confined hc
      omega
    simp [confined] at hpc
    subst hpc
    rfl

theorem confined_staysInside : checkSubprogs confined = .ok () ∧ StaysInside confined :=
  ⟨rfl, (staysInside_iff_guarded rfl).2 confined_guarded⟩

end ZoneVerifier.Subprog

namespace ZoneVerifier.MaySleep
open Ast Cuts Signatures CallTypes Subprog GraphSearch

def kfuncNameMightSleep (name : String) : Bool :=
  decide (name ∈ ["bpf_copy_from_user_str", "bpf_copy_from_user_task",
    "bpf_copy_from_user_task_str"])

/-- The kfuncs of the program by their BTF id, and their prototypes by name. -/
structure Kfuncs where
  name : Nat → Option String
  proto : String → Option CallProto

section Walk
variable (env : CallEnv) (kfuncs : Kfuncs) (instrs : List Instr) (subprogs : List (Nat × Nat))

def callMightSleep : Instr → Bool
  | .call (.helper id) => (getHelperProto env id).any fun p => p.flags.contains .mightSleep
  | .call (.kfunc btfId _) => (kfuncs.name btfId).any fun name =>
    ((kfuncs.proto name).any fun p => p.flags.contains .mightSleep) || kfuncNameMightSleep name
  | _ => false

/-- `analyze_subprograms` has already taken the same slice, so it is in range. -/
def bodyOf (f : Nat × Nat) : List Instr := (instrs.drop f.1).take (f.2 - f.1)

def isDirect (f : Nat × Nat) : Bool := (bodyOf instrs f).any (callMightSleep env kfuncs)

def edgesOf (f : Nat × Nat) : Nat × List Nat :=
  (f.1, insertAll ((bodyOf instrs f).filterMap entryOf) [])

def directSubprogs : Finset Nat :=
  ((subprogs.filter (isDirect env kfuncs instrs)).map Prod.fst).toFinset

/-- One pass more than there are functions is enough. -/
def computeMaySleepSubprogs : Option (Finset Nat) :=
  close (subprogs.map (edgesOf instrs)) (subprogs.length + 1)
    (directSubprogs env kfuncs instrs subprogs)

/-- The function at `a` calls the one at `b` or takes its address. -/
def Calls (a b : Nat) : Prop :=
  ∃ f ∈ subprogs, f.1 = a ∧ ∃ insn ∈ bodyOf instrs f, entryOf insn = some b

theorem edge_edgesOf : Edge (subprogs.map (edgesOf instrs)) = Calls instrs subprogs := by
  ext a b
  simp [Edge, Calls, edgesOf, mem_insertAll]

theorem mem_directSubprogs {a : Nat} : a ∈ directSubprogs env kfuncs instrs subprogs ↔
    ∃ f ∈ subprogs, isDirect env kfuncs instrs f = true ∧ f.1 = a := by
  simp [directSubprogs, and_assoc]

/-- A function may sleep exactly if a chain of calls and callbacks leads from it
to one that calls a sleepable helper or kfunc itself. -/
theorem maySleep_iff_chain : ∃ r, computeMaySleepSubprogs env kfuncs instrs subprogs = some r ∧
    ∀ pc, pc ∈ r ↔ ∃ f ∈ subprogs, isDirect env kfuncs instrs f = true ∧
      Relation.ReflTransGen (Calls instrs subprogs) pc f.1 := by
  have hcard : (directSubprogs env kfuncs instrs subprogs ∪
      ((subprogs.map (edgesOf instrs)).map Prod.fst).toFinset).card ≤ subprogs.length := by
    rw [Finset.union_eq_right.2]
    · exact (List.toFinset_card_le _).trans (by simp)
    · intro a ha
      obtain ⟨f, hf, -, rfl⟩ := (mem_directSubprogs ..).1 ha
      simp only [List.mem_toFinset, List.map_map, List.mem_map]
      exact ⟨f, hf, rfl⟩
  obtain ⟨r, hr, hmem⟩ := close_spec (Nat.lt_add_left _ (Nat.lt_succ_of_le hcard))
  refine ⟨r, hr, fun pc => (hmem pc).trans ?_⟩
  simp only [Reaches, edge_edgesOf, mem_directSubprogs]
  constructor
  · rintro ⟨_, ⟨f, hf, hdirect, rfl⟩, hreach⟩
    exact ⟨f, hf, hdirect, hreach⟩
  · rintro ⟨f, hf, hdirect, hreach⟩
    exact ⟨_, ⟨f, hf, hdirect, rfl⟩, hreach⟩

end Walk
end ZoneVerifier.MaySleep

namespace ZoneVerifier.TaintedCallbacks
open Ast Cuts Signatures CallTypes Subprog
open MaySleep (Kfuncs bodyOf)
open RegTypes (RegType)

def isForbiddenKfunc (name : String) : Bool :=
  decide (name ∈ ["bpf_throw", "bpf_rbtree_add_impl", "bpf_rbtree_remove", "bpf_rbtree_first",
    "bpf_list_push_front_impl", "bpf_list_push_back_impl", "bpf_list_pop_front",
    "bpf_list_pop_back", "bpf_obj_drop_impl", "bpf_obj_new_impl", "bpf_refcount_acquire_impl",
    "bpf_rcu_read_lock", "bpf_rcu_read_unlock"])

section Scan
variable (kfuncs : Kfuncs) (instrs : List Instr)

def isForbidden : Instr → Bool
  | .call (.helper id) => decide (id = Helper.spinLock ∨ id = Helper.spinUnlock)
  | .call (.kfunc btfId _) => (kfuncs.name btfId).any isForbiddenKfunc
  | _ => false

def callbacks : List Nat := insertAll (instrs.filterMap callbackTarget?) []

def cbEnd (start : Nat) : Nat :=
  ((entries instrs).find? fun pc => decide (start < pc)).getD instrs.length

def cbBody (start : Nat) : List Instr := bodyOf instrs (start, cbEnd instrs start)

/-- A callback past the end of the program panics. -/
def computeTaintedCbSubprogs : Option (List Nat) :=
  if (callbacks instrs).all fun start => decide (start ≤ instrs.length) then
    some ((callbacks instrs).filter fun start => (cbBody instrs start).any (isForbidden kfuncs))
  else none

/-- `transfer_kfunc_proto` looks for the callback of a graph-add in R3. -/
def failsCallback (tainted : List Nat) (flags : CallFlags) (r3 : RegType) : Bool :=
  flags.contains .releaseNonOwn &&
    match r3 with
    | .ptrToCallback subprogPc => decide (subprogPc ∈ tainted)
    | _ => false

/-- Control with the return addresses of the calls made; an exit without one ends the callback. -/
inductive Moves : Nat × List Nat → Nat × List Nat → Prop
  | inside {pc t : Nat} {insn : Instr} {returns : List Nat} (h : instrs[pc]? = some insn)
      (hc : callTarget? insn = none) (ht : t ∈ successors pc insn) : Moves (pc, returns) (t, returns)
  | call {pc t : Nat} {returns : List Nat} (h : instrs[pc]? = some (.callRel t)) :
      Moves (pc, returns) (t, (pc + 1) :: returns)
  | ret {pc back : Nat} {returns : List Nat} (h : instrs[pc]? = some .exit) :
      Moves (pc, back :: returns) (back, returns)

/-- An execution that starts at `c` makes the forbidden call at `pc`, inside the
calls that have not returned. -/
def MakesCall (c pc : Nat) (returns : List Nat) : Prop :=
  ∃ insn, instrs[pc]? = some insn ∧ isForbidden kfuncs insn = true ∧
    Relation.ReflTransGen (Moves instrs) (c, []) (pc, returns)

def Rejected (c : Nat) : Prop :=
  ∃ tainted, computeTaintedCbSubprogs kfuncs instrs = some tainted ∧ c ∈ tainted ∧
    ∀ flags : CallFlags, flags.contains .releaseNonOwn = true →
      failsCallback tainted flags (.ptrToCallback c) = true

variable {instrs} {c : Nat}

theorem mem_callbacks : c ∈ callbacks instrs ↔ IsCallback instrs c := by
  simp [callbacks, mem_insertAll, IsCallback]

theorem cbEnd_cases (instrs : List Instr) (c : Nat) : cbEnd instrs c = instrs.length ∨
    cbEnd instrs c ∈ entries instrs ∧ c < cbEnd instrs c := by
  unfold cbEnd
  cases hend : (entries instrs).find? fun pc => decide (c < pc) with
  | none => exact Or.inl rfl
  | some e =>
    have hlt := List.find?_some hend
    exact Or.inr ⟨List.mem_of_find?_eq_some hend, of_decide_eq_true hlt⟩

theorem rejected_iff (hc : IsCallback instrs c) : Rejected kfuncs instrs c ↔
    (∀ c', IsCallback instrs c' → c' ≤ instrs.length) ∧
      ∃ insn ∈ cbBody instrs c, isForbidden kfuncs insn = true := by
  have hrange : ((callbacks instrs).all fun start => decide (start ≤ instrs.length)) = true ↔
      ∀ c', IsCallback instrs c' → c' ≤ instrs.length := by simp [mem_callbacks]
  have hmem : c ∈ (callbacks instrs).filter (fun start =>
      (cbBody instrs start).any (isForbidden kfuncs)) ↔
      ∃ insn ∈ cbBody instrs c, isForbidden kfuncs insn = true := by simp [mem_callbacks, hc]
  rw [← hrange, ← hmem]
  unfold Rejected computeTaintedCbSubprogs
  constructor
  · rintro ⟨tainted, h, hmem', -⟩
    split_ifs at h with hall
    cases h
    exact ⟨hall, hmem'⟩
  · rintro ⟨hall, hmem'⟩
    refine ⟨_, if_pos hall, hmem', fun flags hflags => ?_⟩
    simp only [failsCallback, hflags, hmem', decide_true, Bool.and_self]

theorem mem_cbBody {insn : Instr} : insn ∈ cbBody instrs c ↔
    ∃ pc, c ≤ pc ∧ pc < cbEnd instrs c ∧ instrs[pc]? = some insn := by
  rw [cbBody, bodyOf, List.mem_iff_getElem?]
  constructor
  · rintro ⟨i, hi⟩
    rw [List.getElem?_take, List.getElem?_drop] at hi
    split_ifs at hi with hlt
    exact ⟨c + i, by omega, by omega, hi⟩
  · rintro ⟨pc, h1, h2, h⟩
    refine ⟨pc - c, ?_⟩
    rw [List.getElem?_take_of_lt (by omega), List.getElem?_drop, Nat.add_sub_of_le h1, h]

/-- Where control stays inside functions, it comes back to the callback's own
instructions when the calls made from there have returned. -/
theorem bottom_in_body (hin : StaysInside instrs) (hc : IsCallback instrs c)
    (hlt : c < instrs.length) {m : Nat × List Nat}
    (h : Relation.ReflTransGen (Moves instrs) (c, []) m) :
    c ≤ m.2.getLastD m.1 ∧ m.2.getLastD m.1 < cbEnd instrs c := by
  -- a successor of an instruction of the body is an instruction of the body
  have hnext : ∀ pc insn t, instrs[pc]? = some insn → t ∈ successors pc insn →
      c ≤ pc ∧ pc < cbEnd instrs c → c ≤ t ∧ t < cbEnd instrs c := by
    intro pc insn t hpc ht hbody
    obtain ⟨hlen, hsep⟩ := staysInside_iff.1 hin pc insn hpc t ht
    have hlow := hsep c (mem_entries.2 (Or.inr hc))
    unfold Separates at hlow hsep
    rcases cbEnd_cases instrs c with hend | ⟨hmem, -⟩
    · omega
    · have hhigh := hsep _ hmem
      omega
  induction h with
  | refl =>
    refine ⟨le_rfl, ?_⟩
    rcases cbEnd_cases instrs c with hend | ⟨-, hend⟩
    · exact hend ▸ hlt
    · exact hend
  | tail _ hstep ih =>
    cases hstep with
    | @inside pc t insn returns hpc hcall ht =>
      cases returns with
      | nil => exact hnext pc insn t hpc ht ih
      | cons back returns => exact ih
    | @call pc t returns hpc =>
      cases returns with
      | nil => exact hnext pc _ (pc + 1) hpc List.mem_cons_self ih
      | cons back returns => exact ih
    | @ret pc back returns hpc =>
      cases returns with
      | nil => exact ih
      | cons back' returns => exact ih

/-- A callback is rejected exactly when a forbidden call stands between its entry
and the next function entry. In a program whose control stays inside functions
every such call that an execution of the callback makes itself, and not a
function it has called, stands there. -/
theorem taint_complete (hin : StaysInside instrs) (hc : IsCallback instrs c)
    (hrange : ∀ c', IsCallback instrs c' → c' < instrs.length) :
    (Rejected kfuncs instrs c ↔ ∃ pc insn, c ≤ pc ∧ pc < cbEnd instrs c ∧
      instrs[pc]? = some insn ∧ isForbidden kfuncs insn = true) ∧
    ∀ pc, MakesCall kfuncs instrs c pc [] → Rejected kfuncs instrs c := by
  have hiff : Rejected kfuncs instrs c ↔ ∃ pc insn, c ≤ pc ∧ pc < cbEnd instrs c ∧
      instrs[pc]? = some insn ∧ isForbidden kfuncs insn = true := by
    rw [rejected_iff kfuncs hc]
    constructor
    · rintro ⟨-, insn, hmem, hbad⟩
      obtain ⟨pc, h1, h2, hpc⟩ := mem_cbBody.1 hmem
      exact ⟨pc, insn, h1, h2, hpc, hbad⟩
    · rintro ⟨pc, insn, h1, h2, hpc, hbad⟩
      exact ⟨fun c' h => (hrange c' h).le, insn, mem_cbBody.2 ⟨pc, h1, h2, hpc⟩, hbad⟩
  refine ⟨hiff, fun pc ⟨insn, hpc, hbad, hrun⟩ => hiff.2 ?_⟩
  obtain ⟨h1, h2⟩ := bottom_in_body hin hc (hrange c hc) hrun
  exact ⟨pc, insn, h1, h2, hpc, hbad⟩

end Scan

/-- A callback at pc 2 that runs `body`. -/
def callbackProgram (body : List Instr) : List Instr :=
  [.loadMap .r3 (.pseudoFunc 2) 0 0, .exit] ++ body

def noKfuncs : Kfuncs := ⟨fun _ => none, fun _ => none⟩

theorem callback_two (body : List Instr) : IsCallback (callbackProgram body) 2 :=
  ⟨_, List.mem_cons_self, rfl⟩

/-- The lock is taken after a call of another function has returned. -/
theorem later_lock_rejected : Rejected noKfuncs
    (callbackProgram [.callRel 5, .call (.helper Helper.spinLock), .exit, .exit]) 2 := by
  refine (taint_complete _ (staysInside_iff.2 fun pc insn hpc t ht => ?_) (callback_two _)
    fun c' h => ?_).2 3 ⟨_, rfl, rfl, .tail (.single (.call rfl)) (.ret rfl)⟩
  · have hlen : pc < 6 := lt_length_of_getElem? hpc
    interval_cases pc <;> simp [callbackProgram] at hpc <;> subst hpc <;>
      simp [successors] at ht <;> subst ht <;> exact ⟨by decide, by decide⟩
  · have hmem : c' ∈ [2] := mem_callbacks.2 h
    rw [List.mem_singleton.1 hmem]
    decide

/-- The lock is taken by the function that the callback calls. -/
theorem indirect_lock_missed :
    let prog := callbackProgram [.callRel 4, .exit, .call (.helper Helper.spinLock), .exit]
    checkSubprogs prog = .ok () ∧ IsCallback prog 2 ∧ MakesCall noKfuncs prog 2 4 [3] ∧
      computeTaintedCbSubprogs noKfuncs prog = some [] ∧ ¬ Rejected noKfuncs prog 2 := by
  intro prog
  have hnone : computeTaintedCbSubprogs noKfuncs prog = some [] := by decide
  refine ⟨rfl, callback_two _, ⟨_, rfl, rfl, .single (.call rfl)⟩, hnone, ?_⟩
  rintro ⟨tainted, h, hmem, -⟩
  rw [hnone] at h
  cases h
  cases hmem

end ZoneVerifier.TaintedCallbacks
