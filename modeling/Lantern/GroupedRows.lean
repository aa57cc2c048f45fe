import Mathlib.Tactic
import Mathlib.Data.List.Dedup

set_option autoImplicit false

/-!
# Rows with keys

One row for each key, sums kept by key, and the best rows of a list. `SumMap` is a
map that adds to what it has under a key; what it has in the end is the sum of what
was added. `keepBest` goes through scored rows with a bounded heap.
-/
namespace Lantern.GroupedRows

section Distinct
variable {α κ : Type} [DecidableEq κ] (key : α → κ)

def distinctOn (rows : List α) : List α := rows.pwFilter fun a b => key a ≠ key b

variable {key} {rows : List α}

theorem distinctOn_nodup : ((distinctOn key rows).map key).Nodup :=
  List.pairwise_map.mpr (List.pairwise_pwFilter rows)

theorem mem_distinctOn (hkey : ∀ a ∈ rows, ∀ b ∈ rows, key a = key b → a = b) {a : α} :
    a ∈ distinctOn key rows ↔ a ∈ rows := by
  constructor
  · exact fun h => List.pwFilter_subset rows h
  · intro ha
    by_contra hnot
    have hne : ∀ b ∈ distinctOn key rows, key a ≠ key b := by
      intro b hb heq
      exact hnot (hkey a ha b (List.pwFilter_subset rows hb) heq ▸ hb)
    have htrans : ∀ x y z : α, key x ≠ key z → key x ≠ key y ∨ key y ≠ key z := by
      intro x y z h
      by_cases hxy : key x = key y
      · exact Or.inr (hxy ▸ h)
      · exact Or.inl hxy
    exact (List.forall_mem_pwFilter (fun {x y z} => htrans x y z) a rows).mp hne a ha rfl

end Distinct

section Sums
variable {κ M : Type} [DecidableEq κ]

def addAt [Add M] (key : κ) (x : M) : List (κ × M) → List (κ × M)
  | [] => [(key, x)]
  | (k, y) :: rest => if k = key then (k, y + x) :: rest else (k, y) :: addAt key x rest

theorem mem_keys_addAt [Add M] {key k : κ} {x : M} {entries : List (κ × M)} :
    k ∈ (addAt key x entries).map Prod.fst ↔ k ∈ entries.map Prod.fst ∨ k = key := by
  induction entries with
  | nil => simp [addAt]
  | cons e rest ih =>
    obtain ⟨j, y⟩ := e
    unfold addAt
    split_ifs with hj
    · simp [hj]
      tauto
    · simp only [List.map_cons, List.mem_cons, ih]
      tauto

theorem nodup_addAt [Add M] {key : κ} {x : M} {entries : List (κ × M)}
    (h : (entries.map Prod.fst).Nodup) :
    ((addAt key x entries).map Prod.fst).Nodup := by
  induction entries with
  | nil => exact List.nodup_singleton key
  | cons e rest ih =>
    obtain ⟨j, y⟩ := e
    rw [List.map_cons, List.nodup_cons] at h
    unfold addAt
    split_ifs with hj
    · exact List.nodup_cons.mpr h
    · refine List.nodup_cons.mpr ⟨fun hmem => ?_, ih h.2⟩
      rcases mem_keys_addAt.mp hmem with hmem | heq
      · exact h.1 hmem
      · exact hj heq

structure SumMap (κ M : Type) where
  entries : List (κ × M)
  nodup : (entries.map Prod.fst).Nodup

namespace SumMap

def empty : SumMap κ M := ⟨[], List.nodup_nil⟩

def size (m : SumMap κ M) : ℕ := m.entries.length

def add [Add M] (m : SumMap κ M) (key : κ) (x : M) : SumMap κ M :=
  ⟨addAt key x m.entries, nodup_addAt m.nodup⟩

def get [Zero M] (m : SumMap κ M) (key : κ) : M := (m.entries.lookup key).getD 0

theorem get_of_mem [Zero M] {m : SumMap κ M} {key : κ} {x : M} (h : (key, x) ∈ m.entries) :
    m.get key = x := by
  obtain ⟨entries, hnodup⟩ := m
  unfold get
  induction entries with
  | nil => exact absurd h List.not_mem_nil
  | cons e rest ih =>
    rw [List.map_cons, List.nodup_cons] at hnodup
    rcases List.mem_cons.mp h with rfl | hrest
    · rw [List.lookup_cons_self]
      rfl
    · have hne : key ≠ e.1 := by
        intro heq
        exact hnodup.1 (List.mem_map.mpr ⟨(key, x), hrest, heq⟩)
      rw [List.lookup_cons, beq_eq_false_iff_ne.mpr hne]
      exact ih hnodup.2 hrest

variable [AddCommMonoid M]

theorem get_add (m : SumMap κ M) (key k : κ) (x : M) :
    (m.add key x).get k = m.get k + if key = k then x else 0 := by
  change ((addAt key x m.entries).lookup k).getD 0 = (m.entries.lookup k).getD 0 + _
  generalize m.entries = entries
  induction entries with
  | nil =>
    unfold addAt
    by_cases h : k = key
    · rw [h, if_pos rfl, List.lookup_cons_self, List.lookup_nil]
      simp
    · rw [if_neg (Ne.symm h), List.lookup_cons, beq_eq_false_iff_ne.mpr h]
      simp
  | cons e rest ih =>
    obtain ⟨j, y⟩ := e
    unfold addAt
    by_cases hj : j = key
    · subst hj
      rw [if_pos rfl, List.lookup_cons, List.lookup_cons]
      by_cases hk : k = j
      · simp [hk]
      · simp [beq_eq_false_iff_ne.mpr hk, Ne.symm hk]
    · rw [if_neg hj, List.lookup_cons, List.lookup_cons]
      by_cases hk : k = j
      · have hne : key ≠ k := fun h => hj (h.trans hk).symm
        simp [hk, hk ▸ hne]
      · rw [beq_eq_false_iff_ne.mpr hk]
        exact ih

def addAll (m : SumMap κ M) (rows : List (κ × M)) : SumMap κ M :=
  rows.foldl (fun m row => m.add row.1 row.2) m

theorem get_addAll (m : SumMap κ M) (rows : List (κ × M)) (k : κ) :
    (m.addAll rows).get k = m.get k + ((rows.filter fun row => row.1 = k).map Prod.snd).sum := by
  induction rows generalizing m with
  | nil => simp [addAll]
  | cons row rows ih =>
    change ((m.add row.1 row.2).addAll rows).get k = _
    rw [ih, get_add, add_assoc]
    congr 1
    by_cases h : row.1 = k
    · simp [h]
    · simp [h]

theorem mem_keys_addAll {m : SumMap κ M} {rows : List (κ × M)} {k : κ} :
    k ∈ (m.addAll rows).entries.map Prod.fst ↔ k ∈ m.entries.map Prod.fst ∨
      k ∈ rows.map Prod.fst := by
  induction rows generalizing m with
  | nil => simp [addAll]
  | cons row rows ih =>
    change k ∈ ((m.add row.1 row.2).addAll rows).entries.map Prod.fst ↔ _
    rw [ih]
    change k ∈ (addAt row.1 row.2 m.entries).map Prod.fst ∨ _ ↔ _
    rw [mem_keys_addAt, List.map_cons, List.mem_cons, or_assoc]

theorem mem_entries {m : SumMap κ M} {e : κ × M} : e ∈ m.entries ↔ e.1 ∈ m.entries.map Prod.fst ∧
      e.2 = m.get e.1 := by
  constructor
  · exact fun he => ⟨List.mem_map_of_mem he, (get_of_mem he).symm⟩
  · rintro ⟨hkey, hget⟩
    obtain ⟨other, hother, hfst⟩ := List.mem_map.mp hkey
    have hsnd : other.2 = e.2 := by rw [hget, ← hfst, get_of_mem hother]
    rwa [← Prod.ext hfst hsnd]

theorem addAll_perm (m : SumMap κ M) {rows rows' : List (κ × M)} (h : rows.Perm rows') :
    (m.addAll rows).entries.Perm (m.addAll rows').entries := by
  refine (List.perm_ext_iff_of_nodup (List.Nodup.of_map _ (m.addAll rows).nodup)
    (List.Nodup.of_map _ (m.addAll rows').nodup)).mpr fun e => ?_
  rw [mem_entries, mem_entries, mem_keys_addAll, mem_keys_addAll, get_addAll, get_addAll,
    (h.map _).mem_iff, ((h.filter _).map _).sum_eq]

theorem addAll_append (m : SumMap κ M) (xs ys : List (κ × M)) :
    m.addAll (xs ++ ys) = (m.addAll xs).addAll ys :=
  List.foldl_append

end SumMap

end Sums

section Best
variable {κ K : Type} [LinearOrder K]

def pushHeap (heap : List (κ × K)) (e : κ × K) : List (κ × K) :=
  heap.orderedInsert (fun a b => a.2 ≤ b.2) e

/-- One row goes to a heap of bounded size. A full heap gives up its least row for a
    better one; `none` if there is nothing to compare with. -/
def keepBest (bound : ℕ) (heap : List (κ × K)) (e : κ × K) : Option (List (κ × K)) :=
  if heap.length < bound then some (pushHeap heap e)
  else
    match heap with
    | [] => none
    | least :: rest => if least.2 < e.2 then some (pushHeap rest e) else some heap

structure Selects (number : ℕ) (rows selection : List (κ × K)) : Prop where
  length : selection.length = min number rows.length
  rest : ∃ dropped, rows.Perm (selection ++ dropped) ∧ ∀ d ∈ dropped, ∀ e ∈ selection, d.2 ≤ e.2

variable {selection : List (κ × K)} {number : ℕ}

theorem Selects.subset {rows : List (κ × K)} (h : Selects number rows selection) :
    selection ⊆ rows := by
  obtain ⟨dropped, hperm, -⟩ := h.rest
  exact fun e he => hperm.mem_iff.mpr (List.mem_append_left dropped he)

theorem Selects.mem_or_full {rows : List (κ × K)} (h : Selects number rows selection) {e : κ × K}
    (he : e ∈ rows) :
    e ∈ selection ∨ selection.length = number ∧ ∀ other ∈ selection, e.2 ≤ other.2 := by
  obtain ⟨hlength, dropped, hperm, hdropped⟩ := h
  rcases List.mem_append.mp (hperm.mem_iff.mp he) with hin | hout
  · exact Or.inl hin
  · have hcount := hperm.length_eq
    have hpos := List.length_pos_of_mem hout
    rw [List.length_append] at hcount
    exact Or.inr ⟨by omega, hdropped e hout⟩

theorem Selects.of_perm {rows rows' : List (κ × K)} (h : Selects number rows selection)
    (hperm : rows.Perm rows') : Selects number rows' selection := by
  obtain ⟨dropped, hrows, hdropped⟩ := h.rest
  exact ⟨hperm.length_eq ▸ h.length, dropped, hperm.symm.trans hrows, hdropped⟩

theorem Selects.scores_eq {number : ℕ} {rows selection selection' : List (κ × K)}
    (h : Selects number rows selection) (h' : Selects number rows selection')
    (hfalling : selection.Pairwise fun a b => b.2 ≤ a.2)
    (hfalling' : selection'.Pairwise fun a b => b.2 ≤ a.2) :
    selection.map Prod.snd = selection'.map Prod.snd := by
  have hfirst : ∀ {chosen : List (κ × K)}, Selects number rows chosen →
      (chosen.Pairwise fun a b => b.2 ≤ a.2) →
      chosen.map Prod.snd =
      ((rows.map Prod.snd).insertionSort (· ≥ ·)).take (min number rows.length) := by
    intro chosen hchosen hsorted
    obtain ⟨hlength, dropped, hperm, hdropped⟩ := hchosen
    have hall : ((rows.map Prod.snd).insertionSort (· ≥ ·)) =
        chosen.map Prod.snd ++ (dropped.map Prod.snd).insertionSort (· ≥ ·) := by
      refine List.Perm.eq_of_pairwise' (List.pairwise_insertionSort _ _) ?_ ?_
      · refine List.pairwise_append.mpr ⟨List.pairwise_map.mpr hsorted,
          List.pairwise_insertionSort _ _, ?_⟩
        intro x hx y hy
        obtain ⟨e, he, rfl⟩ := List.mem_map.mp hx
        obtain ⟨d, hd, rfl⟩ := List.mem_map.mp ((List.mem_insertionSort _).mp hy)
        exact hdropped d hd e he
      · refine (List.perm_insertionSort _ _).trans ((hperm.map Prod.snd).trans ?_)
        rw [List.map_append]
        exact (List.perm_insertionSort _ _).symm.append_left _
    rw [hall, List.take_left' (by rw [List.length_map, hlength])]
  rw [hfirst h hfalling, hfirst h' hfalling']

theorem perm_pushHeap (heap : List (κ × K)) (e : κ × K) : (pushHeap heap e).Perm (e :: heap) :=
  List.perm_orderedInsert _ e heap

theorem sorted_pushHeap {heap : List (κ × K)} (h : heap.Pairwise fun a b => a.2 ≤ b.2) (e : κ × K) :
    (pushHeap heap e).Pairwise fun a b => a.2 ≤ b.2 := by
  let r : κ × K → κ × K → Prop := fun a b => a.2 ≤ b.2
  have : Std.Total r := ⟨fun a b => le_total a.2 b.2⟩
  have : IsTrans (κ × K) r := ⟨fun _ _ _ => le_trans⟩
  exact List.Pairwise.orderedInsert (r := r) e heap h

variable {bound : ℕ} {rows heap : List (κ × K)}

theorem keepBest_selects (hbound : 0 < bound) (hsorted : heap.Pairwise fun a b => a.2 ≤ b.2)
    (h : Selects bound rows heap) (e : κ × K) :
    ∃ heap', keepBest bound heap e = some heap' ∧ heap'.Pairwise (fun a b => a.2 ≤ b.2) ∧
      Selects bound (rows ++ [e]) heap' := by
  obtain ⟨hlength, dropped, hperm, hdropped⟩ := h
  have hrows : (rows ++ [e]).Perm (e :: (heap ++ dropped)) :=
    (List.perm_append_singleton e rows).trans (hperm.cons e)
  have hcount := hperm.length_eq
  rw [List.length_append] at hcount
  unfold keepBest
  by_cases hroom : heap.length < bound
  · -- nothing has been dropped yet
    have hnone : dropped = [] := List.length_eq_zero_iff.mp (by omega)
    subst hnone
    refine ⟨pushHeap heap e, if_pos hroom, sorted_pushHeap hsorted e, ?_, [], ?_, by simp⟩
    · rw [(perm_pushHeap heap e).length_eq, List.length_cons, List.length_append,
        List.length_singleton]
      omega
    · rw [List.append_nil] at hrows ⊢
      exact hrows.trans (perm_pushHeap heap e).symm
  · rw [if_neg hroom]
    cases heap with
    | nil => exact absurd hbound hroom
    | cons least rest =>
      rw [List.pairwise_cons] at hsorted
      rw [List.length_cons] at hlength hroom hcount
      dsimp only
      by_cases hbetter : least.2 < e.2
      · rw [if_pos hbetter]
        refine ⟨_, rfl, sorted_pushHeap hsorted.2 e, ?_, least :: dropped, ?_, ?_⟩
        · rw [(perm_pushHeap rest e).length_eq, List.length_cons, List.length_append,
            List.length_singleton]
          omega
        · calc (rows ++ [e]).Perm (e :: least :: (rest ++ dropped)) := hrows
            List.Perm _ (least :: (e :: rest ++ dropped)) := List.Perm.swap least e _
            List.Perm _ (e :: rest ++ least :: dropped) := List.perm_middle.symm
            List.Perm _ (pushHeap rest e ++ least :: dropped) :=
              (perm_pushHeap rest e).symm.append_right _
        · intro d hd x hx
          have hleast : least.2 ≤ x.2 := by
            rcases List.mem_cons.mp ((perm_pushHeap rest e).mem_iff.mp hx) with rfl | hx
            · exact hbetter.le
            · exact hsorted.1 x hx
          rcases List.mem_cons.mp hd with rfl | hd
          · exact hleast
          · exact (hdropped d hd least List.mem_cons_self).trans hleast
      · rw [if_neg hbetter]
        refine ⟨_, rfl, List.pairwise_cons.mpr hsorted, ?_, e :: dropped,
          hrows.trans List.perm_middle.symm, ?_⟩
        · rw [List.length_cons, List.length_append, List.length_singleton]
          omega
        · intro d hd x hx
          rcases List.mem_cons.mp hd with rfl | hd
          · rcases List.mem_cons.mp hx with rfl | hx
            · exact not_lt.mp hbetter
            · exact (not_lt.mp hbetter).trans (hsorted.1 x hx)
          · exact hdropped d hd x hx

theorem foldlM_keepBest (hbound : 0 < bound) (rows : List (κ × K)) :
    ∃ heap, rows.foldlM (keepBest bound) [] = some heap ∧ heap.Pairwise (fun a b => a.2 ≤ b.2) ∧
      Selects bound rows heap := by
  induction rows using List.reverseRecOn with
  | nil => exact ⟨[], rfl, List.Pairwise.nil, by simp, [], by simp, by simp⟩
  | append_singleton rows e ih =>
    obtain ⟨heap, hrun, hsorted, hselects⟩ := ih
    obtain ⟨heap', hstep, hsorted', hselects'⟩ := keepBest_selects hbound hsorted hselects e
    refine ⟨heap', ?_, hsorted', hselects'⟩
    rw [List.foldlM_append, hrun]
    simpa using hstep

theorem Selects.take (hnumber : number ≤ bound) (h : Selects bound rows heap)
    {ordered : List (κ × K)} (hperm : ordered.Perm heap)
    (hfalling : ordered.Pairwise fun a b => b.2 ≤ a.2) :
    Selects number rows (ordered.take number) := by
  obtain ⟨hlength, dropped, hrows, hdropped⟩ := h
  have hsplit : (ordered.take number ++ ordered.drop number).Pairwise fun a b => b.2 ≤ a.2 := by
    rwa [List.take_append_drop]
  refine ⟨?_, ordered.drop number ++ dropped, ?_, ?_⟩
  · rw [List.length_take, hperm.length_eq, hlength]
    omega
  · rw [← List.append_assoc, List.take_append_drop]
    exact hrows.trans (hperm.symm.append_right dropped)
  · intro d hd e he
    rcases List.mem_append.mp hd with hd | hd
    · exact (List.pairwise_append.mp hsplit).2.2 e he d hd
    · exact hdropped d hd e (hperm.mem_iff.mp (List.mem_of_mem_take he))

theorem falling_insertionSort (rows : List (κ × K)) :
    (rows.insertionSort fun a b => b.2 ≤ a.2).Pairwise fun a b => b.2 ≤ a.2 := by
  let r : κ × K → κ × K → Prop := fun a b => b.2 ≤ a.2
  have : Std.Total r := ⟨fun a b => le_total b.2 a.2⟩
  have : IsTrans (κ × K) r := ⟨fun _ _ _ hab hbc => le_trans hbc hab⟩
  exact List.pairwise_insertionSort r rows

end Best

end Lantern.GroupedRows
