import Lantern.BulkDelete

set_option autoImplicit false

/-!
# Scanning the index

A scan asks usearch for `init_k` entries and then, batch by batch, for twice as
many as it was given last. Entries whose label was reset by a deletion are
skipped. Search itself is a parameter.
-/
namespace Lantern.IndexScan
open FuelLoop NodeLayout IndexRelation BulkDelete

structure Entry where
  slot : ItemPointerData
  label : ℕ
  deriving DecidableEq, Repr

structure Usearch (Query σ : Type) where
  size : σ → ℕ
  searchEf : σ → Query → (k : ℕ) → (streaming : Bool) → List Entry × σ

/-- What a scan relies on. `returned` are the entries handed back since the last
    search that was not a streaming one. -/
structure SearchSpec {Query σ : Type} (us : Usearch Query σ) (content : List Entry)
    (returned : σ → List Entry) : Prop where
  size_eq : ∀ s, us.size s = content.length
  first_length : ∀ s q k, (us.searchEf s q k false).1.length = min k content.length
  first_nodup : ∀ s q k, (us.searchEf s q k false).1.Nodup
  first_returned : ∀ s q k, returned (us.searchEf s q k false).2 = (us.searchEf s q k false).1
  stream_length : ∀ s q k, (us.searchEf s q k true).1.length ≤ k
  stream_nodup : ∀ s q k, (us.searchEf s q k true).1.Nodup
  stream_new : ∀ s q k, ∀ e ∈ (us.searchEf s q k true).1, e ∉ returned s
  stream_short : ∀ s q k, (us.searchEf s q k true).1.length < k →
    ∀ e ∈ content, e ∈ returned (us.searchEf s q k true).2
  stream_returned : ∀ s q k,
    returned (us.searchEf s q k true).2 = returned s ++ (us.searchEf s q k true).1
  search_content : ∀ s q k streaming, (us.searchEf s q k streaming).1 ⊆ content

structure HnswScanState (σ : Type) where
  first : Bool
  labels : List ℕ
  count : ℕ
  current : ℕ
  usearchIndex : σ

inductive OrderBy (Query : Type) where
  | missing
  | null
  | value (q : Query)

section Scan
variable {Query σ : Type} (us : Usearch Query σ)

def ambeginscan (s : σ) : HnswScanState σ := ⟨true, [], 0, 0, s⟩

def loadBatch (q : Query) (k : ℕ) (streaming : Bool) (st : HnswScanState σ) : HnswScanState σ :=
  let (entries, s) := us.searchEf st.usearchIndex q k streaming
  ⟨false, entries.map (·.label), entries.length, 0, s⟩

def emitLoop : ℕ → HnswScanState σ → Option ItemPointerData × HnswScanState σ
  | 0, st => (none, st)
  | n + 1, st =>
    let label := st.labels.getD st.current INVALID_ELEMENT_LABEL
    let st' := { st with current := st.current + 1 }
    if label = INVALID_ELEMENT_LABEL then emitLoop n st'
    else (some (label2ItemPointer label), st')

def nextLive (st : HnswScanState σ) : Option ItemPointerData × HnswScanState σ :=
  emitLoop (st.count - st.current) st

def fetch (orderBy : OrderBy Query) (st : HnswScanState σ) :
    Outcome Fault (Option ItemPointerData × HnswScanState σ) :=
  if st.current = st.count then
    if 1000 ≤ st.count then .done (none, st)
    else if us.size st.usearchIndex = st.current then .done (none, st)
    else match orderBy with
      | .value q => .done (nextLive (loadBatch us q (st.count * 2) true st))
      | _ => .fault .nullDereference
  else .done (nextLive st)

def amgettuple (initK : ℕ) (orderBy : OrderBy Query) (st : HnswScanState σ) :
    Outcome Fault (Option ItemPointerData × HnswScanState σ) :=
  if st.first then
    match orderBy with
    | .missing => .fault (.elog "cannot scan hnsw index without order")
    | .null => .done (none, st)
    | .value q => fetch us orderBy (loadBatch us q initK false st)
  else fetch us orderBy st

def scanAll (initK : ℕ) (orderBy : OrderBy Query) :
    ℕ → HnswScanState σ → Outcome Fault (List ItemPointerData × HnswScanState σ)
  | 0, _ => .unfinished
  | fuel + 1, st => (amgettuple us initK orderBy st).bind fun r =>
      match r.1 with
      | none => .done ([], r.2)
      | some tid => (scanAll initK orderBy fuel r.2).map fun t => (tid :: t.1, t.2)

def batchAfter (q : Query) (initK : ℕ) (s : σ) : ℕ → List Entry × σ
  | 0 => us.searchEf s q initK false
  | i + 1 => us.searchEf (batchAfter q initK s i).2 q ((batchAfter q initK s i).1.length * 2) true

def EndsDeleted (batch : List Entry) : Prop :=
  batch.getLast?.map (·.label) = some INVALID_ELEMENT_LABEL

instance (batch : List Entry) : Decidable (EndsDeleted batch) :=
  inferInstanceAs (Decidable (_ = _))

end Scan

def liveTids (labels : List ℕ) : List ItemPointerData :=
  (labels.filter (· ≠ INVALID_ELEMENT_LABEL)).map label2ItemPointer

theorem liveTids_append (xs ys : List ℕ) : liveTids (xs ++ ys) = liveTids xs ++ liveTids ys := by
  simp [liveTids]

theorem liveTids_deleted {xs : List ℕ} (h : ∀ x ∈ xs, x = INVALID_ELEMENT_LABEL) :
    liveTids xs = [] := by
  simp only [liveTids, List.map_eq_nil_iff, List.filter_eq_nil_iff]
  intro x hx
  simpa using h x hx

theorem liveTids_cons {l : ℕ} (h : l ≠ INVALID_ELEMENT_LABEL) (xs : List ℕ) :
    liveTids (l :: xs) = label2ItemPointer l :: liveTids xs := by
  simp [liveTids, h]

section Call
variable {Query σ : Type} {us : Usearch Query σ} {content : List Entry} {returned : σ → List Entry}

def HnswScanState.pending (st : HnswScanState σ) : List ℕ := st.labels.drop st.current

theorem emitLoop_spec (n : ℕ) (st : HnswScanState σ) (h : st.labels.length = st.current + n) :
    ((∀ l ∈ st.pending, l = INVALID_ELEMENT_LABEL) ∧
      emitLoop n st = (none, { st with current := st.current + n })) ∨
    ∃ dead l rest, st.pending = dead ++ l :: rest ∧ (∀ x ∈ dead, x = INVALID_ELEMENT_LABEL) ∧
      l ≠ INVALID_ELEMENT_LABEL ∧
      emitLoop n st =
        (some (label2ItemPointer l), { st with current := st.current + dead.length + 1 }) := by
  induction n generalizing st with
  | zero =>
    refine .inl ⟨?_, rfl⟩
    rw [HnswScanState.pending, List.drop_eq_nil_of_le (by omega)]
    simp
  | succ n ih =>
    have hlt : st.current < st.labels.length := by omega
    have hpend : st.pending = st.labels[st.current] ::
        HnswScanState.pending { st with current := st.current + 1 } := List.drop_eq_getElem_cons hlt
    have hget : st.labels.getD st.current INVALID_ELEMENT_LABEL = st.labels[st.current] := by
      simp [List.getD_eq_getElem?_getD, hlt]
    rw [emitLoop, hget, hpend]
    by_cases hl : st.labels[st.current] = INVALID_ELEMENT_LABEL
    · simp only [if_pos hl]
      rcases ih { st with current := st.current + 1 } (by simp only; omega) with
        ⟨hall, he⟩ | ⟨dead, l, rest, hp, hdead, hne, he⟩
      · refine .inl ⟨?_, ?_⟩
        · intro x hx
          rcases List.mem_cons.mp hx with rfl | hx
          · exact hl
          · exact hall x hx
        · rw [he]
          simp only [Prod.mk.injEq, HnswScanState.mk.injEq, true_and, and_true]
          omega
      · refine .inr ⟨st.labels[st.current] :: dead, l, rest, by rw [hp]; rfl, ?_, hne, ?_⟩
        · intro x hx
          rcases List.mem_cons.mp hx with rfl | hx
          · exact hl
          · exact hdead x hx
        · rw [he]
          simp only [Prod.mk.injEq, HnswScanState.mk.injEq, true_and, and_true, List.length_cons]
          omega
    · simp only [if_neg hl]
      exact .inr ⟨[], _, _, rfl, by simp, hl, rfl⟩

end Call

section Batches
variable {Query σ : Type} {us : Usearch Query σ} {content : List Entry} {returned : σ → List Entry}
variable {q : Query} {initK : ℕ} {s0 : σ}

def loaded (us : Usearch Query σ) (q : Query) (initK : ℕ) (s0 : σ) (i : ℕ) : List Entry :=
  (List.range (i + 1)).flatMap fun j => (batchAfter us q initK s0 j).1

theorem loaded_zero : loaded us q initK s0 0 = (batchAfter us q initK s0 0).1 := by
  simp [loaded]

theorem loaded_succ (i : ℕ) :
    loaded us q initK s0 (i + 1) = loaded us q initK s0 i ++
      (batchAfter us q initK s0 (i + 1)).1 := by
  rw [loaded, List.range_succ, List.flatMap_append, List.flatMap_singleton]
  rfl

theorem returned_batchAfter (h : SearchSpec us content returned) (i : ℕ) :
    returned (batchAfter us q initK s0 i).2 = loaded us q initK s0 i := by
  induction i with
  | zero =>
    rw [loaded_zero]
    exact h.first_returned s0 q initK
  | succ i ih =>
    rw [loaded_succ, ← ih]
    exact h.stream_returned _ q _

theorem loaded_nodup (h : SearchSpec us content returned) (i : ℕ) :
    (loaded us q initK s0 i).Nodup ∧ loaded us q initK s0 i ⊆ content := by
  induction i with
  | zero =>
    rw [loaded_zero]
    exact ⟨h.first_nodup _ _ _, h.search_content _ _ _ _⟩
  | succ i ih =>
    rw [loaded_succ]
    refine ⟨List.nodup_append'.mpr ⟨ih.1, h.stream_nodup _ _ _, ?_⟩,
      List.append_subset.mpr ⟨ih.2, h.search_content _ _ _ _⟩⟩
    intro e he hb
    rw [← returned_batchAfter h] at he
    exact h.stream_new _ _ _ e hb he

theorem loaded_length_le (h : SearchSpec us content returned) (i : ℕ) :
    (loaded us q initK s0 i).length ≤ content.length :=
  (List.subperm_of_subset (loaded_nodup h i).1 (loaded_nodup h i).2).length_le

theorem loaded_mono {i j : ℕ} (hij : i ≤ j) :
    ∃ more, loaded us q initK s0 j = loaded us q initK s0 i ++ more := by
  induction hij with
  | refl => exact ⟨[], by simp⟩
  | step _ ih =>
    obtain ⟨more, hm⟩ := ih
    exact ⟨more ++ _, by rw [loaded_succ, hm, List.append_assoc]⟩

theorem batch_length_le (i : ℕ) :
    (batchAfter us q initK s0 i).1.length ≤ (loaded us q initK s0 i).length := by
  cases i with
  | zero => rw [loaded_zero]
  | succ i => rw [loaded_succ, List.length_append]; omega

theorem covers_of_empty (h : SearchSpec us content returned) (hk : 0 < initK) {i : ℕ}
    (he : (batchAfter us q initK s0 i).1 = []) : content ⊆ loaded us q initK s0 i := by
  induction i with
  | zero =>
    have hlen := h.first_length s0 q initK
    have hnil : (us.searchEf s0 q initK false).1 = [] := he
    rw [hnil, List.length_nil] at hlen
    obtain rfl : content = [] := List.length_eq_zero_iff.mp (by omega)
    exact List.nil_subset _
  | succ i ih =>
    by_cases hprev : (batchAfter us q initK s0 i).1 = []
    · rw [loaded_succ]
      exact List.subset_append_of_subset_left _ (ih hprev)
    · have hpos := List.length_pos_iff.mpr hprev
      rw [← returned_batchAfter h]
      refine h.stream_short _ q ((batchAfter us q initK s0 i).1.length * 2) ?_
      have hnil : (us.searchEf (batchAfter us q initK s0 i).2 q
          ((batchAfter us q initK s0 i).1.length * 2) true).1 = [] := he
      rw [hnil, List.length_nil]
      omega

theorem covers_of_full (h : SearchSpec us content returned) {i : ℕ}
    (he : (batchAfter us q initK s0 i).1.length = content.length) :
    content ⊆ loaded us q initK s0 i := by
  have hsub :=
    List.subperm_of_subset (loaded_nodup h i).1 (@loaded_nodup _ _ us _ _ q initK s0 h i).2
  have hle := @batch_length_le _ _ us q initK s0 i
  exact (hsub.perm_of_length_le (by omega)).symm.subset

structure AtBatch (us : Usearch Query σ) (q : Query) (initK : ℕ) (s0 : σ) (i : ℕ)
    (st : HnswScanState σ) : Prop where
  not_first : st.first = false
  labels_eq : st.labels = (batchAfter us q initK s0 i).1.map (·.label)
  count_eq : st.count = (batchAfter us q initK s0 i).1.length
  current_le : st.current ≤ st.count
  index_eq : st.usearchIndex = (batchAfter us q initK s0 i).2

/-- Between calls the scan is at the end of a batch only if the last label of
    the batch was a live one. -/
def Open (us : Usearch Query σ) (q : Query) (initK : ℕ) (s0 : σ) (i : ℕ) (st : HnswScanState σ) :
    Prop :=
  AtBatch us q initK s0 i st ∧
    (st.current = st.count → ¬ EndsDeleted (batchAfter us q initK s0 i).1)

theorem AtBatch.length_eq {i : ℕ} {st : HnswScanState σ} (h : AtBatch us q initK s0 i st) :
    st.labels.length = st.count := by
  rw [h.labels_eq, List.length_map, h.count_eq]

theorem atBatch_loaded {i : ℕ} {st : HnswScanState σ} (h : AtBatch us q initK s0 i st) :
    AtBatch us q initK s0 (i + 1) (loadBatch us q (st.count * 2) true st) := by
  have he : us.searchEf st.usearchIndex q (st.count * 2) true =
      batchAfter us q initK s0 (i + 1) := by
    rw [h.index_eq, h.count_eq]
    rfl
  refine ⟨rfl, ?_, ?_, Nat.zero_le _, ?_⟩ <;> simp only [loadBatch, he]

theorem endsDeleted_of_pending {i : ℕ} {st : HnswScanState σ} (h : AtBatch us q initK s0 i st)
    {dead : List ℕ} {l : ℕ} (hp : st.pending = dead ++ [l]) :
    EndsDeleted (batchAfter us q initK s0 i).1 ↔ l = INVALID_ELEMENT_LABEL := by
  have hlabels : st.labels = st.labels.take st.current ++ (dead ++ [l]) := by
    rw [← hp, HnswScanState.pending, List.take_append_drop]
  have hlast : st.labels.getLast? = some l := by
    rw [hlabels]
    simp
  rw [EndsDeleted, ← List.getLast?_map, ← h.labels_eq, hlast, Option.some.injEq]

structure NextLive (us : Usearch Query σ) (q : Query) (initK : ℕ) (s0 : σ) (i : ℕ)
    (st : HnswScanState σ) (r : Option ItemPointerData) (st' : HnswScanState σ) : Prop where
  index_eq : st'.usearchIndex = (batchAfter us q initK s0 i).2
  tids : liveTids st.pending = r.toList ++ liveTids st'.pending
  stops : r = none → liveTids st'.pending = [] ∧
    (st.pending = [] ∨ EndsDeleted (batchAfter us q initK s0 i).1)
  goes_on : r ≠ none → Open us q initK s0 i st' ∧ st'.pending.length < st.pending.length

theorem nextLive_spec {i : ℕ} {st : HnswScanState σ} (h : AtBatch us q initK s0 i st) :
    NextLive us q initK s0 i st (nextLive st).1 (nextLive st).2 := by
  have hlen := h.length_eq
  have hle := h.current_le
  rcases emitLoop_spec (st.count - st.current) st (by omega) with
    ⟨hall, he⟩ | ⟨dead, l, rest, hp, hdead, hl, he⟩
  · rw [nextLive, he]
    have hend : HnswScanState.pending { st with
        current := st.current + (st.count - st.current) } = [] :=
      List.drop_eq_nil_of_le (by simp only; omega)
    refine ⟨h.index_eq, ?_, fun _ => ⟨?_, ?_⟩, fun hr => absurd rfl hr⟩
    · rw [liveTids_deleted hall, hend]
      rfl
    · rw [hend]
      rfl
    · rcases List.eq_nil_or_concat st.pending with hnil | ⟨dead, l, hp⟩
      · exact .inl hnil
      · rw [List.concat_eq_append] at hp
        refine .inr ((endsDeleted_of_pending h hp).mpr (hall l ?_))
        simp [hp]
  · rw [nextLive, he]
    have hpend :
        HnswScanState.pending { st with current := st.current + dead.length + 1 } = rest := by
      have hdrop : (st.labels.drop st.current).drop (dead.length + 1) = rest := by
        rw [show st.labels.drop st.current = dead ++ l :: rest from hp, List.drop_append,
          List.drop_eq_nil_of_le (by omega)]
        simp
      rw [← hdrop, List.drop_drop]
      rfl
    have hcount : st.current + dead.length + 1 + rest.length = st.count := by
      have := congrArg List.length hp
      simp only [HnswScanState.pending, List.length_drop, List.length_append,
        List.length_cons] at this
      omega
    refine ⟨h.index_eq, ?_, fun hr => absurd hr (by simp), fun _ => ⟨⟨⟨h.not_first, h.labels_eq,
      h.count_eq, by simp only; omega, h.index_eq⟩, ?_⟩, ?_⟩⟩
    · rw [hp, liveTids_append, liveTids_deleted hdead, hpend, liveTids_cons hl]
      rfl
    · intro hend hdel
      obtain rfl : rest = [] := List.length_eq_zero_iff.mp (by simp only at hend; omega)
      exact hl ((endsDeleted_of_pending h hp).mp hdel)
    · rw [hpend, hp, List.length_append, List.length_cons]
      omega

def StopsAt (us : Usearch Query σ) (content : List Entry) (q : Query) (initK : ℕ) (s0 : σ)
    (i : ℕ) : Prop :=
  1000 ≤ (loaded us q initK s0 i).length ∨ content ⊆ loaded us q initK s0 i ∨
    EndsDeleted (batchAfter us q initK s0 i).1

/-- What a call does: it stays in the batch or goes to the next, of which
    `more` are the entries. -/
structure Fetched (us : Usearch Query σ) (content : List Entry) (q : Query) (initK : ℕ) (s0 : σ)
    (i : ℕ) (st : HnswScanState σ) (r : Option ItemPointerData) (st' : HnswScanState σ) (j : ℕ)
    (more : List Entry) : Prop where
  moves : j = i ∨ j = i + 1 ∧ ¬ EndsDeleted (batchAfter us q initK s0 i).1
  loaded_eq : loaded us q initK s0 j = loaded us q initK s0 i ++ more
  index_eq : st'.usearchIndex = (batchAfter us q initK s0 j).2
  tids : liveTids (st.pending ++ more.map (·.label)) = r.toList ++ liveTids st'.pending
  stops : r = none → liveTids st'.pending = [] ∧ StopsAt us content q initK s0 j
  goes_on : r ≠ none → Open us q initK s0 j st' ∧
    st'.pending.length < st.pending.length + more.length

theorem fetch_spec (h : SearchSpec us content returned) (hk : 0 < initK) {i : ℕ}
    {st : HnswScanState σ} (ho : Open us q initK s0 i st) :
    ∃ r st' j more, fetch us (.value q) st = .done (r, st') ∧
      Fetched us content q initK s0 i st r st' j more := by
  obtain ⟨hat, hend⟩ := ho
  unfold fetch
  split
  · rename_i hcur
    have hpend : st.pending = [] := by
      rw [HnswScanState.pending, List.drop_eq_nil_of_le (by rw [hat.length_eq, hcur])]
    have halt : StopsAt us content q initK s0 i → ∃ r st' j more,
        (.done (none, st) : Outcome Fault _) = .done (r, st') ∧
          Fetched us content q initK s0 i st r st' j more := by
      intro hs
      refine ⟨none, st, i, [], rfl, .inl rfl, by simp, hat.index_eq, by simp, fun _ => ⟨?_, hs⟩,
        fun hr => absurd rfl hr⟩
      rw [hpend]
      rfl
    split
    · rename_i hbig
      refine halt (.inl ?_)
      have := @batch_length_le _ _ us q initK s0 i
      rw [hat.count_eq] at hbig
      omega
    split
    · rename_i hsize
      refine halt (.inr (.inl (covers_of_full h ?_)))
      rw [h.size_eq, hcur, hat.count_eq] at hsize
      exact hsize.symm
    · have hnext := atBatch_loaded hat
      have hpn : (loadBatch us q (st.count * 2) true st).pending =
          (batchAfter us q initK s0 (i + 1)).1.map (·.label) := by
        rw [← hnext.labels_eq]
        rfl
      have hs := nextLive_spec hnext
      refine ⟨(nextLive (loadBatch us q (st.count * 2) true st)).1,
        (nextLive (loadBatch us q (st.count * 2) true st)).2, i + 1,
        (batchAfter us q initK s0 (i + 1)).1, rfl, .inr ⟨rfl, hend hcur⟩, loaded_succ i,
        hs.index_eq, ?_, fun hr => ⟨(hs.stops hr).1, ?_⟩, fun hr => ?_⟩
      · rw [hpend, List.nil_append, ← hpn]
        exact hs.tids
      · rcases (hs.stops hr).2 with hnil | hdel
        · rw [hpn, List.map_eq_nil_iff] at hnil
          exact .inr (.inl (covers_of_empty h hk hnil))
        · exact .inr (.inr hdel)
      · obtain ⟨hopen, hlt⟩ := hs.goes_on hr
        refine ⟨hopen, ?_⟩
        rw [hpn, List.length_map] at hlt
        omega
  · rename_i hcur
    have hs := nextLive_spec hat
    have hle := hat.current_le
    refine ⟨(nextLive st).1, (nextLive st).2, i, [], rfl, .inl rfl, by simp, hs.index_eq,
      by simpa using hs.tids,
      fun hr => ⟨(hs.stops hr).1, ?_⟩, fun hr => by simpa using hs.goes_on hr⟩
    rcases (hs.stops hr).2 with hnil | hdel
    · have hlen := hat.length_eq
      have := List.drop_eq_nil_iff.mp hnil
      omega
    · exact .inr (.inr hdel)

theorem scanAll_succ {i fuel : ℕ} {st : HnswScanState σ} (h : AtBatch us q initK s0 i st) :
    scanAll us initK (.value q) (fuel + 1) st = (fetch us (.value q) st).bind fun r =>
      match r.1 with
      | none => .done ([], r.2)
      | some tid => (scanAll us initK (.value q) fuel r.2).map fun t => (tid :: t.1, t.2) := by
  rw [scanAll, amgettuple, if_neg (by simp [h.not_first])]

/-- A run ends in some batch `j`; no batch before it ended with a deleted
    entry, and the live entries of all of them have been emitted. -/
structure Scanned (us : Usearch Query σ) (content : List Entry) (q : Query) (initK : ℕ)
    (s0 : σ) (i : ℕ) (st : HnswScanState σ) (tids : List ItemPointerData)
    (st' : HnswScanState σ) (j : ℕ) (more : List Entry) : Prop where
  le : i ≤ j
  index_eq : st'.usearchIndex = (batchAfter us q initK s0 j).2
  passed : ∀ m, i ≤ m → m < j → ¬ EndsDeleted (batchAfter us q initK s0 m).1
  loaded_eq : loaded us q initK s0 j = loaded us q initK s0 i ++ more
  tids_eq : tids = liveTids (st.pending ++ more.map (·.label))
  stops : StopsAt us content q initK s0 j

theorem scanAll_spec (h : SearchSpec us content returned) (hk : 0 < initK) {fuel i : ℕ}
    {st : HnswScanState σ} (ho : Open us q initK s0 i st)
    (hf : content.length + st.pending.length < fuel + (loaded us q initK s0 i).length) :
    ∃ tids st' j more, scanAll us initK (.value q) fuel st = .done (tids, st') ∧
      Scanned us content q initK s0 i st tids st' j more := by
  induction fuel generalizing i st with
  | zero =>
    have := @loaded_length_le _ _ us _ _ q initK s0 h i
    omega
  | succ fuel ih =>
    obtain ⟨r, st1, j, more, hfetch, hs⟩ := fetch_spec h hk ho
    rw [scanAll_succ ho.1, hfetch, Outcome.bind_done]
    have hij : i ≤ j := by
      rcases hs.moves with rfl | ⟨rfl, -⟩
      · exact le_refl _
      · exact Nat.le_succ _
    have hpassed : ∀ m, i ≤ m → m < j → ¬ EndsDeleted (batchAfter us q initK s0 m).1 := by
      intro m him hmj
      rcases hs.moves with rfl | ⟨rfl, hnot⟩
      · omega
      · obtain rfl : m = i := by omega
        exact hnot
    cases r with
    | none =>
      obtain ⟨hnone, hstop⟩ := hs.stops rfl
      refine ⟨[], st1, j, more, rfl, hij, hs.index_eq, hpassed, hs.loaded_eq, ?_, hstop⟩
      rw [hs.tids, hnone]
      rfl
    | some tid =>
      obtain ⟨hopen, hlt⟩ := hs.goes_on (by simp)
      have hlen := congrArg List.length hs.loaded_eq
      rw [List.length_append] at hlen
      obtain ⟨tids, st', j', more', hrun, hr⟩ := ih hopen (by omega)
      refine ⟨tid :: tids, st', j', more ++ more', by simp only [hrun]; rfl,
        hij.trans hr.le, hr.index_eq, ?_, ?_, ?_, hr.stops⟩
      · intro m him hmj
        rcases Nat.lt_or_ge m j with hlt' | hge
        · exact hpassed m him hlt'
        · exact hr.passed m hge hmj
      · rw [hr.loaded_eq, hs.loaded_eq, List.append_assoc]
      · rw [List.map_append, ← List.append_assoc, liveTids_append, hs.tids, hr.tids_eq,
          liveTids_append]
        simp

theorem open_first : Open us q initK s0 0 (loadBatch us q initK false (ambeginscan s0)) := by
  refine ⟨⟨rfl, rfl, rfl, Nat.zero_le _, rfl⟩, fun hend hdel => ?_⟩
  have hnil : (batchAfter us q initK s0 0).1 = [] := List.length_eq_zero_iff.mp hend.symm
  rw [EndsDeleted, hnil] at hdel
  cases hdel

/-- A scan that ends in the `n`-th batch is complete when it has emitted every
    live entry or was given 1000 entries. -/
def Complete (us : Usearch Query σ) (content : List Entry) (q : Query) (initK : ℕ) (s0 : σ)
    (n : ℕ) : Prop :=
  (∀ e ∈ content, e.label ≠ INVALID_ELEMENT_LABEL → e ∈ loaded us q initK s0 n) ∨
    1000 ≤ (loaded us q initK s0 n).length

/-- The scan emits the live entries of the batches it asked for, once and in
    order. It is complete if and only if no batch that ends with a deleted entry
    leaves a live entry to later batches before 1000 entries are loaded. -/
theorem scanAll_complete_iff (h : SearchSpec us content returned) (hk : 1 ≤ initK ∧ initK ≤ 1000)
    {fuel : ℕ} (hf : content.length < fuel) :
    ∃ tids st' n, scanAll us initK (.value q) fuel (ambeginscan s0) = .done (tids, st') ∧
      st'.usearchIndex = (batchAfter us q initK s0 n).2 ∧
      (loaded us q initK s0 n).Nodup ∧
      tids = liveTids ((loaded us q initK s0 n).map (·.label)) ∧
      (Complete us content q initK s0 n ↔
        ∀ i, (loaded us q initK s0 i).length < 1000 → EndsDeleted (batchAfter us q initK s0 i).1 →
          ∀ e ∈ content, e.label ≠ INVALID_ELEMENT_LABEL → e ∈ loaded us q initK s0 i) := by
  obtain ⟨fuel, rfl⟩ : ∃ f, fuel = f + 1 := ⟨fuel - 1, by omega⟩
  have hpend : (loadBatch us q initK false (ambeginscan s0)).pending =
      (loaded us q initK s0 0).map (·.label) := by
    rw [loaded_zero]
    rfl
  obtain ⟨tids, st', n, more, hrun, hs⟩ := scanAll_spec h hk.1 (@open_first _ _ us q initK s0)
    (show _ < fuel + 1 + _ by rw [hpend, List.length_map]; omega)
  refine ⟨tids, st', n, hrun, hs.index_eq, (loaded_nodup h n).1, ?_, ?_, ?_⟩
  · rw [hs.tids_eq, hpend, hs.loaded_eq, List.map_append]
  · intro hc i hlt hdel e he hlive
    -- the scan did not get past batch `i`
    have hni : n ≤ i := by
      by_contra hin
      exact hs.passed i (Nat.zero_le _) (by omega) hdel
    obtain ⟨rest, hrest⟩ := @loaded_mono _ _ us q initK s0 n i hni
    rcases hc with hall | hbig
    · rw [hrest]
      exact List.mem_append_left _ (hall e he hlive)
    · rw [hrest, List.length_append] at hlt
      omega
  · intro hc
    rcases hs.stops with hbig | hcov | hdel
    · exact .inr hbig
    · exact .inl fun e he _ => hcov he
    · rcases Nat.lt_or_ge (loaded us q initK s0 n).length 1000 with hlt | hge
      · exact .inl (hc n hlt hdel)
      · exact .inr hge

end Batches

def orderedSearch (order : List Entry) : Usearch Unit ℕ where
  size := fun _ => order.length
  searchEf := fun n _ k streaming =>
    if streaming then ((order.drop n).take k, n + ((order.drop n).take k).length)
    else (order.take k, k)

theorem orderedSearch_spec {order : List Entry} (h : order.Nodup) :
    SearchSpec (orderedSearch order) order (fun n => order.take n) where
  size_eq := fun _ => rfl
  first_length := fun _ _ k => List.length_take
  first_nodup := fun _ _ k => h.sublist (List.take_sublist k order)
  first_returned := fun _ _ _ => rfl
  stream_length := fun _ _ _ => List.length_take_le _ _
  stream_nodup := fun n _ k => h.sublist ((List.take_sublist k _).trans (List.drop_sublist n order))
  stream_new := by
    intro n _ k e he hn
    rw [← List.take_append_drop n order] at h
    exact (List.nodup_append'.mp h).2.2 hn (List.mem_of_mem_take he)
  stream_short := by
    intro n _ k hlt e he
    change ((order.drop n).take k).length < k at hlt
    change e ∈ order.take (n + ((order.drop n).take k).length)
    rw [List.length_take, List.length_drop] at hlt ⊢
    rw [List.take_of_length_le (by omega)]
    exact he
  stream_returned := by
    intro n _ k
    change order.take (n + ((order.drop n).take k).length) = order.take n ++ (order.drop n).take k
    rw [List.take_add, List.length_take]
    congr 1
    simp [List.take_eq_take_iff]
  search_content := by
    rintro n _ k (_ | _) e he
    · exact List.mem_of_mem_take he
    · exact List.mem_of_mem_drop (List.mem_of_mem_take he)

theorem scan_stops_at_deleted_entry :
    ¬ ∀ (Query σ : Type) (us : Usearch Query σ) (content : List Entry) (returned : σ → List Entry)
      (q : Query) (initK : ℕ) (s0 : σ) (fuel : ℕ) (tids : List ItemPointerData)
        (st' : HnswScanState σ),
      SearchSpec us content returned → 1 ≤ initK → initK ≤ 1000 →
      scanAll us initK (.value q) fuel (ambeginscan s0) = .done (tids, st') →
      (∀ e ∈ content, e.label ≠ INVALID_ELEMENT_LABEL → e ∈ returned st'.usearchIndex) ∨
        1000 ≤ (returned st'.usearchIndex).length := by
  intro h
  have hrun := h Unit ℕ (orderedSearch [⟨⟨1, 1⟩, 0⟩, ⟨⟨1, 2⟩, 65536⟩]) _ _ () 1 0 1 []
    ⟨false, [0], 1, 1, 1⟩ (orderedSearch_spec (by decide)) (by decide) (by decide) rfl
  revert hrun
  decide

def threeEntries : List Entry := [⟨⟨1, 1⟩, 0⟩, ⟨⟨1, 2⟩, 65536⟩, ⟨⟨1, 3⟩, 131072⟩]

theorem scan_past_deleted_entry :
    ∃ st' n, scanAll (orderedSearch threeEntries) 2 (.value ()) 4 (ambeginscan 0) =
        .done ([label2ItemPointer 65536, label2ItemPointer 131072], st') ∧
      (Complete (orderedSearch threeEntries) threeEntries () 2 0 n ↔
        ∀ i, (loaded (orderedSearch threeEntries) () 2 0 i).length < 1000 →
          EndsDeleted (batchAfter (orderedSearch threeEntries) () 2 0 i).1 →
          ∀ e ∈ threeEntries, e.label ≠ INVALID_ELEMENT_LABEL →
            e ∈ loaded (orderedSearch threeEntries) () 2 0 i) := by
  obtain ⟨tids, st', n, hrun, -, -, -, hiff⟩ :=
    @scanAll_complete_iff Unit ℕ (orderedSearch threeEntries) threeEntries _ () 2 0
      (orderedSearch_spec (by decide)) ⟨by decide, by decide⟩ 4 (by decide)
  refine ⟨st', n, ?_, hiff⟩
  cases hrun
  rfl

end Lantern.IndexScan
