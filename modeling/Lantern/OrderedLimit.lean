import Mathlib.Tactic

set_option autoImplicit false

/-!
# The first rows in an order

What a query for the `k` rows with the smallest keys may answer. A key may fail to be
computed, and then the query has no answer; rows with equal keys may come in any order. If
no two keys are equal, then a row is in the answer exactly if fewer than `k` keys are
smaller than its own.
-/
namespace Lantern.OrderedLimit

section Order
variable {α ε κ : Type}

def NoTies (key : α → Except ε κ) (rows : List α) : Prop := rows.Pairwise fun x y => key x ≠ key y

theorem NoTies.perm {key : α → Except ε κ} {rows rows' : List α} (h : NoTies key rows)
    (hperm : rows.Perm rows') :
    NoTies key rows' :=
  List.Pairwise.perm h hperm fun hne => Ne.symm hne

variable [LinearOrder κ]

def before : Except ε κ → Except ε κ → Bool
  | .ok a, .ok b => decide (a < b)
  | _, _ => false

def rank (key : α → Except ε κ) (rows : List α) (x : α) : ℕ :=
  rows.countP fun y => before (key y) (key x)

/-- An answer to `ORDER BY key LIMIT k`. -/
def Answers (key : α → Except ε κ) (rows : List α) (k : ℕ) (answer : List α) : Prop :=
  ∃ sorted : List (κ × α), (sorted.map Prod.snd).Perm rows ∧ (∀ p ∈ sorted, key p.2 = .ok p.1) ∧
    sorted.Pairwise (fun p q => p.1 ≤ q.1) ∧ answer = (sorted.take k).map Prod.snd

/-- The rows in the order of their keys, all of which differ. -/
structure Ranked (key : α → Except ε κ) (rows : List α) (sorted : List (κ × α)) : Prop where
  perm : (sorted.map Prod.snd).Perm rows
  keys : ∀ p ∈ sorted, key p.2 = .ok p.1
  strict : sorted.Pairwise fun p q => p.1 < q.1

variable {key : α → Except ε κ} {rows : List α} {k : ℕ} {answer : List α}

theorem Ranked.answers {sorted : List (κ × α)} (h : Ranked key rows sorted) (k : ℕ) :
    Answers key rows k ((sorted.take k).map Prod.snd) :=
  ⟨sorted, h.perm, h.keys, h.strict.imp fun hlt => hlt.le, rfl⟩

theorem Ranked.noTies {sorted : List (κ × α)} (h : Ranked key rows sorted) : NoTies key rows := by
  refine NoTies.perm (List.pairwise_map.mpr ?_) h.perm
  refine h.strict.imp_of_mem fun hp hq hlt heq => hlt.ne ?_
  rw [h.keys _ hp, h.keys _ hq] at heq
  exact Except.ok.inj heq

theorem Answers.ranked (h : Answers key rows k answer) (hties : NoTies key rows) :
    ∃ sorted, Ranked key rows sorted ∧ answer = (sorted.take k).map Prod.snd := by
  obtain ⟨sorted, hperm, hkeys, hsorted, rfl⟩ := h
  have hne : sorted.Pairwise fun p q => p.1 ≠ q.1 := by
    have hties' := List.pairwise_map.mp (hties.perm hperm.symm)
    refine hties'.imp_of_mem fun hp hq hkey heq => hkey ?_
    rw [hkeys _ hp, hkeys _ hq, heq]
  exact ⟨sorted, ⟨hperm, hkeys, hsorted.imp₂ (fun _ _ hle hne => lt_of_le_of_ne hle hne) hne⟩, rfl⟩

theorem rank_perm {rows' : List α} (hperm : rows.Perm rows') (x : α) :
    rank key rows x = rank key rows' x :=
  hperm.countP_eq _

section Heads
variable {p : κ × α} {sorted : List (κ × α)}

theorem rank_head (hkeys : ∀ q ∈ p :: sorted, key q.2 = .ok q.1)
    (hfirst : ∀ q ∈ sorted, p.1 < q.1) :
    rank key ((p :: sorted).map Prod.snd) p.2 = 0 := by
  obtain ⟨hp, hkeys⟩ := List.forall_mem_cons.mp hkeys
  apply List.countP_eq_zero.mpr
  intro y hy
  obtain ⟨q, hq, rfl⟩ := List.mem_map.mp hy
  rcases List.mem_cons.mp hq with rfl | hq
  · simp only [hp, before, lt_irrefl, decide_false, Bool.false_eq_true, not_false_eq_true]
  · simp only [hp, hkeys q hq, before, decide_eq_true_eq]
    exact (hfirst q hq).not_gt

theorem rank_tail (hkeys : ∀ q ∈ p :: sorted, key q.2 = .ok q.1)
    (hfirst : ∀ q ∈ sorted, p.1 < q.1) {q : κ × α} (hq : q ∈ sorted) :
    rank key ((p :: sorted).map Prod.snd) q.2 = rank key (sorted.map Prod.snd) q.2 + 1 := by
  obtain ⟨hp, hkeys⟩ := List.forall_mem_cons.mp hkeys
  have hbefore : before (key p.2) (key q.2) = true := by
    simp only [hp, hkeys q hq, before, decide_eq_true_eq]
    exact hfirst q hq
  rw [rank, List.map_cons, List.countP_cons, if_pos hbefore, rank]

end Heads

theorem mem_take_iff {sorted : List (κ × α)} (hkeys : ∀ p ∈ sorted, key p.2 = .ok p.1)
    (hsorted : sorted.Pairwise fun p q => p.1 < q.1) (x : α) :
    x ∈ (sorted.take k).map Prod.snd ↔ x ∈ sorted.map Prod.snd ∧
      rank key (sorted.map Prod.snd) x < k := by
  induction sorted generalizing k with
  | nil => simp only [List.take_nil, List.map_nil, List.not_mem_nil, false_and]
  | cons p sorted ih =>
    obtain ⟨hfirst, hsorted⟩ := List.pairwise_cons.mp hsorted
    cases k with
    | zero => simp only [List.take_zero, List.map_nil, List.not_mem_nil, Nat.not_lt_zero, and_false]
    | succ k =>
      rw [List.take_succ_cons, List.map_cons, List.mem_cons,
        ih (List.forall_mem_cons.mp hkeys).2 hsorted]
      constructor
      · rintro (rfl | ⟨hx, hrank⟩)
        · exact ⟨List.mem_cons_self, rank_head hkeys hfirst ▸ Nat.succ_pos k⟩
        · obtain ⟨q, hq, rfl⟩ := List.mem_map.mp hx
          exact ⟨List.mem_cons_of_mem _ hx, rank_tail hkeys hfirst hq ▸ Nat.succ_lt_succ hrank⟩
      · rintro ⟨hx, hrank⟩
        rcases List.mem_cons.mp hx with rfl | hx
        · exact .inl rfl
        · obtain ⟨q, hq, rfl⟩ := List.mem_map.mp hx
          rw [rank_tail hkeys hfirst hq] at hrank
          exact .inr ⟨hx, Nat.lt_of_succ_lt_succ hrank⟩

theorem Answers.mem_iff (h : Answers key rows k answer) (hties : NoTies key rows) (x : α) :
    x ∈ answer ↔ x ∈ rows ∧ rank key rows x < k := by
  obtain ⟨sorted, hranked, rfl⟩ := h.ranked hties
  rw [mem_take_iff hranked.keys hranked.strict, hranked.perm.mem_iff, rank_perm hranked.perm]

theorem Answers.subset (h : Answers key rows k answer) : answer ⊆ rows := by
  obtain ⟨sorted, hperm, _, _, rfl⟩ := h
  exact fun x hx => hperm.mem_iff.mp (List.map_subset _ (List.take_subset k sorted) hx)

theorem Answers.ne_nil (h : Answers key rows k answer) (hrows : rows ≠ []) (hk : 0 < k) :
    answer ≠ [] := by
  obtain ⟨sorted, hperm, _, _, rfl⟩ := h
  have hlength : 0 < sorted.length := by
    rw [← List.length_map Prod.snd, hperm.length_eq]
    exact List.length_pos_of_ne_nil hrows
  apply List.ne_nil_of_length_pos
  rw [List.length_map, List.length_take]
  exact Nat.lt_min.mpr ⟨hk, hlength⟩

theorem Answers.le_of_not_mem (h : Answers key rows k answer) {x y : α} (hy : y ∈ answer)
    (hx : x ∈ rows) (hout : x ∉ answer) : ∃ a b, key y = .ok a ∧ key x = .ok b ∧ a ≤ b := by
  obtain ⟨sorted, hperm, hkeys, hsorted, rfl⟩ := h
  obtain ⟨p, hp, rfl⟩ := List.mem_map.mp hy
  obtain ⟨q, hq, rfl⟩ := List.mem_map.mp (hperm.mem_iff.mpr hx)
  have hdrop : q ∈ sorted.drop k := by
    rw [← List.take_append_drop k sorted] at hq
    exact (List.mem_append.mp hq).resolve_left fun hin => hout (List.mem_map_of_mem hin)
  rw [← List.take_append_drop k sorted] at hsorted
  exact ⟨p.1, q.1, hkeys p (List.mem_of_mem_take hp), hkeys q hq,
    (List.pairwise_append.mp hsorted).2.2 p hp q hdrop⟩

theorem Answers.length_eq (h : Answers key rows k answer) : answer.length = min k rows.length := by
  obtain ⟨sorted, hperm, _, _, rfl⟩ := h
  rw [List.length_map, List.length_take, ← hperm.length_eq, List.length_map]

theorem Answers.perm_of_length_le (h : Answers key rows k answer) (hle : rows.length ≤ k) :
    answer.Perm rows := by
  obtain ⟨sorted, hperm, _, _, rfl⟩ := h
  rw [List.take_of_length_le]
  · exact hperm
  · rwa [← List.length_map Prod.snd, hperm.length_eq]

theorem Answers.subperm (h : Answers key rows k answer) : answer.Subperm rows := by
  obtain ⟨sorted, hperm, _, _, rfl⟩ := h
  exact ((List.take_sublist k sorted).map Prod.snd).subperm.trans hperm.subperm

end Order

section Arranged
variable {α κ : Type} [LinearOrder κ]

structure Arranged (key : α → κ) (rows answer : List α) : Prop where
  perm : answer.Perm rows
  ordered : answer.Pairwise fun x y => key x ≤ key y

variable {key : α → κ} {rows rows' answer answer' : List α}

theorem Arranged.keys_ordered (h : Arranged key rows answer) : (answer.map key).Pairwise (· ≤ ·) :=
  List.pairwise_map.mpr h.ordered

theorem getElem_le_of_sublist {part whole : List κ} (hsub : part.Sublist whole)
    (hwhole : whole.Pairwise (· ≤ ·)) {i : ℕ} {a b : κ} (ha : part[i]? = some a)
    (hb : whole[i]? = some b) : b ≤ a := by
  obtain ⟨f, hf⟩ := List.sublist_iff_exists_orderEmbedding_getElem?_eq.mp hsub
  have hi : i ≤ f i := f.strictMono.id_le i
  rw [hf i] at ha
  obtain ⟨hlt, rfl⟩ := List.getElem?_eq_some_iff.mp hb
  obtain ⟨hlt', rfl⟩ := List.getElem?_eq_some_iff.mp ha
  rcases hi.eq_or_lt with heq | hless
  · exact le_of_eq (by simp only [← heq])
  · exact List.pairwise_iff_getElem.mp hwhole i (f i) hlt hlt' hless

theorem Arranged.getElem_le (h : Arranged key rows answer) (h' : Arranged key rows' answer')
    (hsub : answer.Subperm answer') {i : ℕ} {x y : α} (hx : answer[i]? = some x)
    (hy : answer'[i]? = some y) :
    key y ≤ key x := by
  obtain ⟨part, hpart, hsub⟩ := hsub
  have hkeys : (answer.map key).Sublist (answer'.map key) :=
    List.sublist_of_subperm_of_pairwise ⟨part.map key, hpart.map key,
      hsub.map key⟩ h.keys_ordered h'.keys_ordered
  refine getElem_le_of_sublist hkeys h'.keys_ordered (i := i) ?_ ?_
  · rw [List.getElem?_map, hx]
    rfl
  · rw [List.getElem?_map, hy]
    rfl

theorem Arranged.keys_below (h : Arranged key rows answer)
    (h' : Arranged key rows' answer') {bound : κ}
    (hsame : (answer.filter fun x => key x < bound).Perm (answer'.filter fun x => key x < bound)) :
    (answer.map key).filter (· < bound) = (answer'.map key).filter (· < bound) := by
  have hmap : ∀ rows : List α,
      (rows.map key).filter (· < bound) = (rows.filter fun x => key x < bound).map key := by
    intro rows
    exact List.filter_map
  refine List.Perm.eq_of_pairwise' (h.keys_ordered.filter _) (h'.keys_ordered.filter _) ?_
  rw [hmap, hmap]
  exact hsame.map key

end Arranged

end Lantern.OrderedLimit
