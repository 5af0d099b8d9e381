import ZoneVerifier.CanonicalHash

/-!
# The canonical encoding is a canonical form

A record says how long it is, labels in post-order determine the ranked tree, and
numbering by first occurrence is canonical up to renaming. So two expressions
have one encoding exactly when their trees are equal up to a bijective renaming
of variables.
-/

set_option autoImplicit false

namespace ZoneVerifier.CanonicalHash
open ByteCode FiniteMap RankedTree RankedTree.Rose FirstOccurrence
variable {seen : List UInt32} {t : Rose (Label UInt32)}

section Labels
variable {ι κ τ : Type}

def ids (ls : List (Label ι)) : List ι := ls.filterMap Label.id?

def shape (l : Label ι) : Label Unit := l.map fun _ => ()

@[simp] theorem arity_map (f : ι → κ) (l : Label ι) : (l.map f).arity = l.arity := by
  cases l <;> rfl

theorem valid_map {f : ι → κ} {l : Label ι} (h : l.Valid) : (l.map f).Valid := by
  cases l <;> exact h

theorem map_eq_map_iff (g : ι → τ) (h : κ → τ) (l : Label ι) (k : Label κ) :
    l.map g = k.map h ↔ shape l = shape k ∧ l.id?.map g = k.id?.map h := by
  cases l <;> cases k <;> simp [shape, Label.map, Label.id?]
  tauto

theorem map_labels_eq_iff (g : ι → τ) (h : κ → τ) (ls : List (Label ι)) (ks : List (Label κ)) :
    ls.map (Label.map g) = ks.map (Label.map h) ↔
      ls.map shape = ks.map shape ∧ (ids ls).map g = (ids ks).map h := by
  induction ls generalizing ks with
  | nil =>
    cases ks with
    | nil => simp [ids]
    | cons k ks => simp
  | cons l ls ih =>
    cases ks with
    | nil => simp
    | cons k ks =>
      rw [List.map_cons, List.map_cons, List.cons.injEq, map_eq_map_iff, ih, List.map_cons,
        List.map_cons, List.cons.injEq]
      by_cases hs : shape l = shape k
      · have hsome : l.id?.isSome = k.id?.isSome := by cases l <;> cases k <;> first | rfl | cases hs
        simp only [ids] at ih ⊢
        cases hl : l.id? with
        | none =>
          have hk : k.id? = none := by
            rw [hl] at hsome
            exact Option.isNone_iff_eq_none.1 (by simpa using hsome.symm)
          simp [hs, hl, hk]
        | some i =>
          obtain ⟨j, hk⟩ : ∃ j, k.id? = some j := by
            rw [hl] at hsome
            exact Option.isSome_iff_exists.1 hsome.symm
          simp [hs, hl, hk]
          tauto
      · simp [hs]

end Labels

theorem leBytes_uint32_inj {a b : UInt32} (h : leBytes 4 a.toNat = leBytes 4 b.toNat) : a = b :=
  UInt32.toNat_inj.1 (leBytes_inj a.toNat_lt b.toNat_lt h)

theorem header_append_inj {tag tag' code code' vlen vlen' : UInt8} {params params' : UInt16}
    {r s : List UInt8}
    (h : header tag code vlen params ++ r = header tag' code' vlen' params' ++ s) :
    tag = tag' ∧ code = code' ∧ vlen = vlen' ∧ params = params' ∧ r = s := by
  simp only [header, List.cons_append, List.nil_append, List.cons.injEq] at h
  obtain ⟨htag, hcode, hvlen, hrest⟩ := h
  obtain ⟨hp, hr⟩ := List.append_inj hrest (by rw [length_leBytes, length_leBytes])
  exact ⟨htag, hcode, hvlen, UInt16.toNat_inj.1 (leBytes_inj (UInt16.toNat_lt _) (UInt16.toNat_lt _) hp), hr⟩

def Label.tag {ι : Type} : Label ι → UInt8
  | var _ _ _ _ => tagVar
  | const _ _ _ _ => tagLeafConst
  | op _ _ _ => tagInternal

theorem tag_eq_of_append {l k : Label UInt32} {r s : List UInt8}
    (h : record l ++ r = record k ++ s) : l.tag = k.tag := by
  cases l <;> cases k <;> simp only [record, List.append_assoc] at h <;>
    exact (header_append_inj h).1

theorem selfDelimiting_record : SelfDelimiting Label.Valid record where
  ne_nil := by
    intro l
    cases l <;> simp [record, header]
  append_inj := by
    intro l k r s hl hk h
    have htag := tag_eq_of_append h
    cases l with
    | var idx code vlen params =>
      cases k with
      | var idx' code' vlen' params' =>
        simp only [record, List.append_assoc] at h
        obtain ⟨-, rfl, rfl, rfl, hrest⟩ := header_append_inj h
        obtain ⟨hidx, hr⟩ := List.append_inj hrest (by rw [length_leBytes, length_leBytes])
        exact ⟨by rw [leBytes_uint32_inj hidx], hr⟩
      | const | op => exact absurd htag (by simp [Label.tag, tagVar, tagLeafConst, tagInternal])
    | const code vlen params args =>
      cases k with
      | const code' vlen' params' args' =>
        obtain ⟨-, rfl, rfl, rfl, hrest⟩ := header_append_inj h
        obtain ⟨rfl, hr⟩ := flatMap_append_inj (fun _ => length_leBytes 4 _)
          (fun _ _ => leBytes_uint32_inj) (hl.symm.trans hk) hrest
        exact ⟨rfl, hr⟩
      | var | op => exact absurd htag (by simp [Label.tag, tagVar, tagLeafConst, tagInternal])
    | op code vlen params =>
      cases k with
      | op code' vlen' params' =>
        obtain ⟨-, rfl, rfl, rfl, hrest⟩ := header_append_inj h
        exact ⟨rfl, hrest⟩
      | var | const => exact absurd htag (by simp [Label.tag, tagVar, tagLeafConst, tagInternal])

/-- The numbers a renamer has given are the positions in the list of the
variables seen so far. -/
structure Numbers (r : VarRenamer) (seen : List UInt32) : Prop where
  nodup : seen.Nodup
  next : r.next = UInt32.ofNat seen.length
  find : ∀ id, r.map.find id = if id ∈ seen then some (UInt32.ofNat (seen.idxOf id)) else none

theorem numbers_new : Numbers VarRenamer.new [] :=
  ⟨List.nodup_nil, rfl, fun _ => rfl⟩

theorem Numbers.intern {r : VarRenamer} (h : Numbers r seen) (id : UInt32) :
    (r.intern id).1 = UInt32.ofNat ((note seen id).idxOf id) ∧
      Numbers (r.intern id).2 (note seen id) := by
  unfold VarRenamer.intern
  rw [h.find]
  by_cases hid : id ∈ seen
  · rw [if_pos hid, note_of_mem hid]
    exact ⟨rfl, h⟩
  · rw [if_neg hid]
    have hidx : (seen ++ [id]).idxOf id = seen.length := by
      rw [List.idxOf_append_of_notMem hid]
      simp
    refine ⟨?_, nodup_note h.nodup id, ?_, fun k => ?_⟩
    · rw [note_of_not_mem hid, hidx]
      exact h.next
    · rw [note_of_not_mem hid, List.length_append, h.next]
      simp
    · rw [note_of_not_mem hid]
      by_cases hk : k = id
      · subst hk
        simp [h.next, hidx]
      · simp only [FinMap.find_insert_of_ne _ _ hk, h.find, List.mem_append, List.mem_singleton, hk,
          or_false]
        split_ifs with hmem
        · rw [List.idxOf_append_of_mem hmem]
        · rfl

def numbered (seen : List UInt32) (l : Label UInt32) : Label UInt32 :=
  l.map fun id => UInt32.ofNat (seen.idxOf id)

/-- What the walk needs of a renamer: a variable among `dom` gets its position
among the variables seen so far. -/
def Renamer {σ : Type} (intern : σ → UInt32 → Option (UInt32 × σ)) (dom : UInt32 → Prop)
    (R : σ → List UInt32 → Prop) : Prop :=
  ∀ s seen id, dom id → R s seen →
    ∃ s', intern s id = some (UInt32.ofNat ((note seen id).idxOf id), s') ∧ R s' (note seen id)

theorem renamer_varRenamer : Renamer (fun r id => some (VarRenamer.intern r id)) (fun _ => True)
    Numbers := by
  intro r seen id _ h
  obtain ⟨hidx, hnum⟩ := h.intern id
  exact ⟨(r.intern id).2, by rw [← hidx], hnum⟩

section Pass
variable {σ : Type} {intern : σ → UInt32 → Option (UInt32 × σ)} {dom : UInt32 → Prop}
variable {R : σ → List UInt32 → Prop} (hren : Renamer intern dom R)
include hren

theorem emit_of_renamer {s : σ} {seen : List UInt32} (h : R s seen) (buf : List UInt8)
    {l : Label UInt32} (hdom : ∀ id ∈ ids [l], dom id) :
    ∃ s', emit intern (s, buf) l =
        some (s', buf ++ record (numbered (orderFrom seen (ids [l])) l)) ∧
      R s' (orderFrom seen (ids [l])) := by
  cases l with
  | var id code vlen params =>
    obtain ⟨s', hidx, hnum⟩ := hren s seen id (hdom id (by simp [ids, Label.id?])) h
    refine ⟨s', ?_, hnum⟩
    show (intern s id).bind _ = _
    rw [hidx]
    rfl
  | const | op => exact ⟨s, rfl, h⟩

end Pass

theorem ids_cons (l : Label UInt32) (ls : List (Label UInt32)) : ids (l :: ls) = ids [l] ++ ids ls :=
  List.filterMap_append (l := [l])

theorem numbered_orderFrom {l : Label UInt32} (h : ∀ id ∈ ids [l], id ∈ seen) (xs : List UInt32) :
    numbered (orderFrom seen xs) l = numbered seen l := by
  cases l with
  | var id code vlen params =>
    have hid : id ∈ seen := h id (by simp [ids, Label.id?])
    simp only [numbered, Label.map, idxOf_orderFrom hid]
  | const | op => rfl

theorem foldlM_emit {σ : Type} {intern : σ → UInt32 → Option (UInt32 × σ)} {dom : UInt32 → Prop}
    {R : σ → List UInt32 → Prop} (hren : Renamer intern dom R) {s : σ} (h : R s seen)
    (buf : List UInt8) {ls : List (Label UInt32)} (hdom : ∀ id ∈ ids ls, dom id) :
    ∃ s', ls.foldlM (emit intern) (s, buf) =
        some (s', buf ++ (ls.map (numbered (orderFrom seen (ids ls)))).flatMap record) ∧
      R s' (orderFrom seen (ids ls)) := by
  induction ls generalizing s seen buf with
  | nil => exact ⟨s, by simp, h⟩
  | cons l ls ih =>
    rw [ids_cons l ls] at hdom
    obtain ⟨s₁, hemit, h₁⟩ := emit_of_renamer hren h buf
      fun id hid => hdom id (List.mem_append_left _ hid)
    obtain ⟨s₂, hrest, h₂⟩ := ih h₁ (buf ++ record (numbered (orderFrom seen (ids [l])) l))
      fun id hid => hdom id (List.mem_append_right _ hid)
    have horder : orderFrom (orderFrom seen (ids [l])) (ids ls) = orderFrom seen (ids (l :: ls)) := by
      rw [ids_cons l ls]
      exact List.foldl_append.symm
    rw [horder] at hrest h₂
    refine ⟨s₂, ?_, h₂⟩
    have hkeep : numbered (orderFrom seen (ids (l :: ls))) l =
        numbered (orderFrom seen (ids [l])) l := by
      rw [← horder]
      exact numbered_orderFrom (fun id hid => mem_orderFrom.2 (Or.inr hid)) _
    rw [List.foldlM_cons, hemit]
    show ls.foldlM _ _ = _
    rw [hrest, List.map_cons, List.flatMap_cons, hkeep, List.append_assoc]

/-- The labels of a tree with the variables numbered by first occurrence. -/
def canonical (t : Rose (Label UInt32)) : List (Label UInt32) :=
  t.postOrder.map (numbered (order (ids t.postOrder)))

def Hashes (exprs : List BcfExpr) (root : UInt32) (bytes : List UInt8) : Prop :=
  ∃ n, ∀ m, n ≤ m → hashInput exprs m root = some bytes

theorem encode_of_renamer {σ : Type} {intern : σ → UInt32 → Option (UInt32 × σ)}
    {dom : UInt32 → Prop} {R : σ → List UInt32 → Prop} (hren : Renamer intern dom R) {s : σ}
    (h : R s []) {lookup : UInt32 → Option BcfExpr} {fuel : Nat} {root : UInt32}
    (ht : unfold lookup fuel root = some t) (hdom : ∀ id ∈ ids t.postOrder, dom id) :
    (encode lookup intern fuel root (s, [])).map Prod.snd =
      some ((canonical t).flatMap record) := by
  obtain ⟨s', hfold, -⟩ := foldlM_emit hren h [] hdom
  rw [encode_eq, ht, Option.bind_some, hfold]
  rfl

theorem hashes_of_unfolds {exprs : List BcfExpr} {root : UInt32} (h : Unfolds (exprAt exprs) root t) :
    Hashes exprs root ((canonical t).flatMap record) := by
  obtain ⟨n, hn⟩ := h
  exact ⟨n, fun m hm =>
    encode_of_renamer renamer_varRenamer numbers_new (hn m hm) fun _ _ => trivial⟩

/-- Equal up to a bijective renaming of the variables. -/
def AlphaEq (t u : Rose (Label UInt32)) : Prop :=
  ∃ ρ : UInt32 → UInt32, Set.BijOn ρ {x | x ∈ ids t.postOrder} {y | y ∈ ids u.postOrder} ∧
    t.map (Label.map ρ) = u

theorem length_le_of_nodup {xs : List UInt32} (h : xs.Nodup) : xs.length ≤ 2^32 := by
  have hnodup : (xs.map UInt32.toFin).Nodup := h.map fun _ _ he => UInt32.toFin_inj.1 he
  simpa using hnodup.length_le_card

theorem ofNat_number_eq_iff {xs ys : List UInt32} :
    xs.map (fun x => UInt32.ofNat ((order xs).idxOf x)) =
        ys.map (fun y => UInt32.ofNat ((order ys).idxOf y)) ↔ number xs = number ys := by
  have hto : ∀ zs : List UInt32,
      (zs.map fun z => UInt32.ofNat ((order zs).idxOf z)).map UInt32.toNat = number zs := by
    intro zs
    rw [List.map_map, number]
    refine List.map_congr_left fun z hz => ?_
    have hlt := List.idxOf_lt_length_of_mem (mem_order.2 hz)
    have hle := length_le_of_nodup (nodup_order zs)
    show (UInt32.ofNat _).toNat = _
    rw [UInt32.toNat_ofNat']
    exact Nat.mod_eq_of_lt (by omega)
  constructor
  · intro h
    rw [← hto xs, ← hto ys, h]
  · intro h
    rw [← hto xs, ← hto ys] at h
    exact List.map_injective_iff.2 (fun _ _ he => UInt32.toNat_inj.1 he) h

theorem canonical_eq_iff {u : Rose (Label UInt32)} (ht : Ranked Label.arity t)
    (hu : Ranked Label.arity u) : canonical t = canonical u ↔ AlphaEq t u := by
  have hmap : ∀ ρ : UInt32 → UInt32, t.map (Label.map ρ) = u ↔
      t.postOrder.map shape = u.postOrder.map shape ∧
        (ids t.postOrder).map ρ = ids u.postOrder := by
    intro ρ
    have hid : u.postOrder.map (Label.map id) = u.postOrder := by
      rw [List.map_congr_left (g := id) fun l _ => by cases l <;> rfl, List.map_id]
    rw [map_eq_iff ht hu (fun l => arity_map ρ l)]
    conv_lhs => rw [← hid]
    rw [map_labels_eq_iff, List.map_id]
  unfold canonical AlphaEq numbered
  rw [map_labels_eq_iff, ofNat_number_eq_iff, number_eq_iff]
  constructor
  · rintro ⟨hshape, ρ, hbij, hids⟩
    exact ⟨ρ, hbij, (hmap ρ).2 ⟨hshape, hids⟩⟩
  · rintro ⟨ρ, hbij, htu⟩
    obtain ⟨hshape, hids⟩ := (hmap ρ).1 htu
    exact ⟨hshape, ρ, hbij, hids⟩

/-- Two expressions of well-formed tables have one encoding exactly when their
trees are equal up to a bijective renaming of the variables. -/
theorem hashes_eq_iff_alphaEq {exprsA exprsB : List BcfExpr} {a b : UInt32}
    (hA : WellFormed (exprAt exprsA)) (hB : WellFormed (exprAt exprsB))
    (ha : (exprAt exprsA a).isSome = true) (hb : (exprAt exprsB b).isSome = true) :
    ∃ t u bytesA bytesB, Unfolds (exprAt exprsA) a t ∧ Unfolds (exprAt exprsB) b u ∧
      Hashes exprsA a bytesA ∧ Hashes exprsB b bytesB ∧ (bytesA = bytesB ↔ AlphaEq t u) := by
  obtain ⟨t, ht⟩ := hA.exists_unfolds ha
  obtain ⟨u, hu⟩ := hB.exists_unfolds hb
  obtain ⟨hrankT, hvalidT⟩ := ranked_of_unfold hA (ht.choose_spec _ le_rfl)
  obtain ⟨hrankU, hvalidU⟩ := ranked_of_unfold hB (hu.choose_spec _ le_rfl)
  refine ⟨t, u, _, _, ht, hu, hashes_of_unfolds ht, hashes_of_unfolds hu, ?_⟩
  rw [← canonical_eq_iff hrankT hrankU]
  refine ⟨fun h => selfDelimiting_record.flatMap_inj ?_ ?_ h, fun h => h ▸ rfl⟩
  · intro l hl
    obtain ⟨k, hk, rfl⟩ := List.mem_map.1 hl
    exact valid_map (hvalidT k hk)
  · intro l hl
    obtain ⟨k, hk, rfl⟩ := List.mem_map.1 hl
    exact valid_map (hvalidU k hk)

theorem wellFormed_of_lt {exprs : List BcfExpr}
    (h : ∀ id e, exprAt exprs id = some e → e.args.length ≤ 255 ∧ ∀ a ∈ e.args,
      a.toNat < id.toNat ∧ (exprAt exprs a).isSome = true) : WellFormed (exprAt exprs) := by
  have hlt : ∀ a id, Child (exprAt exprs) a id → a.toNat < id.toNat :=
    fun a id ⟨e, he, _, ha⟩ => ((h id e he).2 a ha).1
  refine ⟨fun id a ⟨e, he, _, ha⟩ => ((h id e he).2 a ha).2, fun id hcycle => ?_,
    fun id e he => (h id e he).1⟩
  have hless : ∀ a b, Relation.TransGen (Child (exprAt exprs)) a b → a.toNat < b.toNat := by
    intro a b hab
    induction hab with
    | single hc => exact hlt _ _ hc
    | tail _ hc ih => exact Nat.lt_trans ih (hlt _ _ hc)
  exact Nat.lt_irrefl _ (hless id id hcycle)

def doubled : List BcfExpr := [⟨bcfVar, 64, []⟩, ⟨0x00, 64, [0, 0]⟩]

def summed : List BcfExpr := [⟨bcfVar, 64, []⟩, ⟨bcfVar, 64, []⟩, ⟨0x00, 64, [0, 1]⟩]

theorem exprAt_doubled (id : UInt32) : exprAt doubled id =
    if id = 1 then some ⟨0x00, 64, [0, 0]⟩ else if id = 0 then some ⟨bcfVar, 64, []⟩ else none := by
  simp only [exprAt, doubled, slotIndex, slotIndexFrom, FinMap.find_insert, FinMap.find_empty]
  split_ifs <;> first | rfl | (exfalso; simp_all)

theorem exprAt_summed (id : UInt32) : exprAt summed id =
    if id = 2 then some ⟨0x00, 64, [0, 1]⟩ else if id = 1 then some ⟨bcfVar, 64, []⟩
    else if id = 0 then some ⟨bcfVar, 64, []⟩ else none := by
  simp only [exprAt, summed, slotIndex, slotIndexFrom, FinMap.find_insert, FinMap.find_empty]
  split_ifs <;> first | rfl | (exfalso; simp_all)

theorem wellFormed_doubled : WellFormed (exprAt doubled) := by
  refine wellFormed_of_lt fun id e he => ?_
  rw [exprAt_doubled] at he
  split_ifs at he with h1 h2
  · cases he
    subst h1
    exact ⟨by decide, by simp [exprAt_doubled]⟩
  · cases he
    exact ⟨by decide, by simp⟩

theorem wellFormed_summed : WellFormed (exprAt summed) := by
  refine wellFormed_of_lt fun id e he => ?_
  rw [exprAt_summed] at he
  split_ifs at he with h1 h2 h3
  · cases he
    subst h1
    exact ⟨by decide, by simp [exprAt_summed]⟩
  · cases he
    exact ⟨by decide, by simp⟩
  · cases he
    exact ⟨by decide, by simp⟩

theorem doubled_and_summed : ∃ t u bytesA bytesB, Unfolds (exprAt doubled) 1 t ∧
    Unfolds (exprAt summed) 2 u ∧ Hashes doubled 1 bytesA ∧ Hashes summed 2 bytesB ∧
    (bytesA = bytesB ↔ AlphaEq t u) :=
  hashes_eq_iff_alphaEq wellFormed_doubled wellFormed_summed (by simp [exprAt_doubled])
    (by simp [exprAt_summed])

end ZoneVerifier.CanonicalHash
