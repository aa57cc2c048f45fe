import Lantern.RowLocks

set_option autoImplicit false

/-!
# The batch collector of the embedding daemon

Rows that were locked are pushed into the batching map, under their job. Every ten
seconds the collector drains the map and makes one batch for each job it found; of a job
with more rows than its model takes at once it puts the rest back. Rows are pushed while
it does so.
-/
namespace Lantern.BatchCollector
open SystemRuns RowLocks
open EmbeddingDaemon (splitBatch)

def getDefaultBatchSize (model : String) : ℕ :=
  match model with
  | "clip/ViT-B-32-textual" => 2000
  | "clip/ViT-B-32-visual" => 50
  | "BAAI/bge-small-en" => 300
  | "BAAI/bge-base-en" => 100
  | "BAAI/bge-large-en" => 60
  | "jinaai/jina-embeddings-v2-small-en" => 500
  | "jinaai/jina-embeddings-v2-base-en" => 80
  | "intfloat/e5-base-v2" => 300
  | "intfloat/e5-large-v2" => 100
  | "llmrails/ember-v1" => 100
  | "thenlper/gte-base" => 1000
  | "thenlper/gte-large" => 800
  | "microsoft/all-MiniLM-L12-v2" => 1000
  | "naver/splade-v3" => 150
  | "microsoft/all-mpnet-base-v2" => 400
  | "transformers/multi-qa-mpnet-base-dot-v1" => 300
  | "text-embedding-ada-002" | "text-embedding-3-small" | "text-embedding-3-large" => 500
  | "embed-english-v3.0" | "embed-multilingual-v3.0" | "embed-english-light-v3.0"
    | "embed-multilingual-light-v3.0"
  | "embed-english-v2.0" | "embed-english-light-v2.0" | "embed-multilingual-v2.0" => 5000
  | "gpt-4" | "gpt-4o" | "gpt-4-turbo" => 2
  | "gpt-4o-mini" => 10
  | _ => 100

theorem two_le_getDefaultBatchSize (model : String) : 2 ≤ getDefaultBatchSize model := by
  unfold getDefaultBatchSize
  split <;> decide

variable {Job Row : Type}

structure Batch (Job Row : Type) extends RowLocks.Batch Job Row where
  model : String
  deriving DecidableEq

def Batch.pairs (b : Batch Job Row) : List (Job × Row) := b.toBatch.pairs

structure Handling (Job Row : Type) where
  batch : Batch Job Row
  extraIds : List Row
  deriving DecidableEq

/-- The map, what the collector has drained and works on, and the batches sent; besides, all
    rows that were pushed and those that were lost. -/
structure Collector (Job Row : Type) where
  batching : List (Job × List Row)
  drained : List (Job × List Row)
  handling : Option (Handling Job Row)
  sent : List (Batch Job Row)
  pushed : Multiset (Job × Row)
  lost : Multiset (Job × Row)

inductive Action (Job Row : Type) where
  | push (p : Job × Row)
  | drain (jobs : List (Job × List Row))
  | readJob (model : String)
  | readError
  | putBack
  | send
  | cancelJob (j : Job)

section Machine
variable [DecidableEq Job] [DecidableEq Row]

def step (s : Collector Job Row) : Action Job Row → Option (Collector Job Row)
  | .push p => some { s with batching := addRows s.batching p.1 [p.2], pushed := p ::ₘ s.pushed }
  | .drain jobs =>
    -- a round starts when the last one is over; the map is drained in any order
    if s.drained = [] ∧ s.handling = none ∧ jobs.Perm s.batching then
      some { s with drained := jobs, batching := [] }
    else none
  | .readJob model =>
    match s.handling, s.drained with
    | none, (j, ids) :: rest =>
      let (ids, extraIds) := splitBatch (getDefaultBatchSize model) ids
      some { s with drained := rest, handling := some ⟨⟨⟨j, ids, true, false⟩, model⟩, extraIds⟩ }
    | _, _ => none
  | .readError =>
    match s.handling, s.drained with
    | none, e :: rest => some { s with drained := rest, lost := s.lost + pairs e }
    | _, _ => none
  | .putBack =>
    -- the collector waits for the lock of the map
    match s.handling with
    | some ⟨b, extraIds⟩ =>
      if extraIds = [] then none
      else some { s with batching := addRows s.batching b.job extraIds, handling := some ⟨b, []⟩ }
    | none => none
  | .send =>
    match s.handling with
    | some ⟨b, extraIds⟩ =>
      if extraIds = [] then some { s with handling := none, sent := s.sent ++ [b] } else none
    | none => none
  | .cancelJob j => some { s with
      batching := s.batching.filter fun e => e.1 ≠ j
      lost := s.lost + ↑((s.batching.filter fun e => e.1 = j).flatMap pairs) }

def Action.Undisturbed : Action Job Row → Prop
  | .readError => False
  | .cancelJob _ => False
  | _ => True

structure Started (s : Collector Job Row) : Prop where
  places : s.batching = [] ∧ s.drained = [] ∧ s.handling = none ∧ s.sent = []
  rows : s.pushed = 0 ∧ s.lost = 0

def collector : System (Collector Job Row) := actionSystem Started step fun _ _ => True

def undisturbedCollector : System (Collector Job Row) :=
  actionSystem Started step fun _ a => a.Undisturbed

end Machine

def Handling.pairs (h : Handling Job Row) : List (Job × Row) :=
  h.batch.pairs ++ RowLocks.pairs (h.batch.job, h.extraIds)

def mapRows (s : Collector Job Row) : List (Job × Row) := s.batching.flatMap pairs

def collectorRows (s : Collector Job Row) : List (Job × Row) :=
  s.drained.flatMap pairs ++ (s.handling.map Handling.pairs).getD []

def places (s : Collector Job Row) : List (List (Job × Row)) :=
  mapRows s :: collectorRows s :: s.sent.map Batch.pairs

def Conserved (s : Collector Job Row) : Prop := s.pushed = ↑(places s).flatten + s.lost

theorem coe_places (s : Collector Job Row) : (↑(places s).flatten : Multiset (Job × Row)) =
    ↑(s.batching.flatMap pairs) + ↑(s.drained.flatMap pairs) +
      ↑((s.handling.map Handling.pairs).getD []) +
      ↑(s.sent.flatMap Batch.pairs) := by
  simp only [places, mapRows, collectorRows, List.flatten_cons, List.flatMap_def,
    ← Multiset.coe_add]
  abel

theorem existsUnique_of_count {α : Type} [DecidableEq α] {xss : List (List α)} {a : α}
    (h : xss.flatten.count a = 1) :
    ∃! i : ℕ, ∃ xs, xss[i]? = some xs ∧ a ∈ xs := by
  induction xss with
  | nil => cases h
  | cons xs xss ih =>
    rw [List.flatten_cons, List.count_append] at h
    by_cases ha : a ∈ xs
    · have hpos := List.count_pos_iff.mpr ha
      have hnone : a ∉ xss.flatten := List.count_eq_zero.mp (by omega)
      refine ⟨0, ⟨xs, rfl, ha⟩, ?_⟩
      rintro (_ | i) ⟨ys, hys, hmem⟩
      · rfl
      · rw [List.getElem?_cons_succ] at hys
        exact absurd (List.mem_flatten.mpr ⟨ys, List.mem_of_getElem? hys, hmem⟩) hnone
    · obtain ⟨i, hi, hunique⟩ := ih (by rw [List.count_eq_zero.mpr ha] at h; omega)
      refine ⟨i + 1, hi, ?_⟩
      rintro (_ | k) ⟨ys, hys, hmem⟩
      · cases hys
        exact absurd hmem ha
      · rw [hunique k ⟨ys, hys, hmem⟩]

def Batch.Fits (b : Batch Job Row) : Prop :=
  b.rows ≠ [] ∧ b.rows.length ≤ getDefaultBatchSize b.model

structure Sized (s : Collector Job Row) : Prop where
  batching : ∀ e ∈ s.batching, e.2 ≠ []
  drained : ∀ e ∈ s.drained, e.2 ≠ []
  handling : ∀ h, s.handling = some h → h.batch.Fits
  sent : ∀ b ∈ s.sent, b.Fits

theorem fits_splitBatch (j : Job) (model : String) {ids : List Row} (hids : ids ≠ []) :
    (⟨⟨j, (splitBatch (getDefaultBatchSize model) ids).1, true, false⟩,
      model⟩ : Batch Job Row).Fits := by
  have hsize := two_le_getDefaultBatchSize model
  unfold Batch.Fits splitBatch
  split_ifs with hlarge
  · have hlength :
        (ids.splitAt (getDefaultBatchSize model - 1)).1.length = getDefaultBatchSize model - 1 := by
      rw [List.splitAt_eq, List.length_take]
      omega
    refine ⟨List.length_pos_iff.mp ?_, ?_⟩
    · rw [hlength]
      omega
    · rw [hlength]
      exact Nat.sub_le _ _
  · exact ⟨hids, not_lt.mp hlarge⟩

section Start
variable {s : Collector Job Row}

theorem conserved_started (h : Started s) : Conserved s := by
  obtain ⟨⟨hbatching, hdrained, hhandling, hsent⟩, hpushed, hlost⟩ := h
  unfold Conserved
  rw [coe_places, hbatching, hdrained, hhandling, hsent, hpushed, hlost]
  rfl

theorem sized_started (h : Started s) : Sized s := by
  obtain ⟨⟨hbatching, hdrained, hhandling, hsent⟩, -⟩ := h
  refine ⟨?_, ?_, ?_, ?_⟩
  · rw [hbatching]
    exact fun e he => absurd he List.not_mem_nil
  · rw [hdrained]
    exact fun e he => absurd he List.not_mem_nil
  · rw [hhandling]
    rintro _ ⟨⟩
  · rw [hsent]
    exact fun b hb => absurd hb List.not_mem_nil

end Start

variable {a : Action Job Row}

section Steps
variable [DecidableEq Job] {s t : Collector Job Row}

theorem addRows_ne_nil {m : List (Job × List Row)} (hm : ∀ e ∈ m, e.2 ≠ []) (j : Job)
    {rows : List Row} (hrows : rows ≠ []) :
    ∀ e ∈ addRows m j rows, e.2 ≠ [] := by
  induction m with
  | nil => exact List.forall_mem_singleton.mpr hrows
  | cons e m ih =>
    obtain ⟨k, ks⟩ := e
    obtain ⟨hks, hm⟩ := List.forall_mem_cons.mp hm
    unfold addRows
    split_ifs
    · exact List.forall_mem_cons.mpr ⟨List.append_ne_nil_of_right_ne_nil ks hrows, hm⟩
    · exact List.forall_mem_cons.mpr ⟨hks, ih hm⟩

variable [DecidableEq Row]

theorem step_drain {jobs : List (Job × List Row)} (h : step s (.drain jobs) = some t) :
    s.drained = [] ∧ s.handling = none ∧ jobs.Perm s.batching ∧ t =
      { s with drained := jobs, batching := [] } := by
  rw [step] at h
  split_ifs at h with hround
  exact ⟨hround.1, hround.2.1, hround.2.2, (Option.some.inj h).symm⟩

theorem step_readJob {model : String} (h : step s (.readJob model) = some t) :
    ∃ j ids rest, s.handling = none ∧ s.drained = (j, ids) :: rest ∧
      t = { s with
        drained := rest
        handling := some ⟨⟨⟨j, (splitBatch (getDefaultBatchSize model) ids).1, true, false⟩, model⟩,
          (splitBatch (getDefaultBatchSize model) ids).2⟩ } := by
  rw [step] at h
  split at h
  next j ids rest hhandling hdrained =>
    exact ⟨j, ids, rest, hhandling, hdrained, (Option.some.inj h).symm⟩
  next => cases h

theorem step_readError (h : step s .readError = some t) :
    ∃ e rest, s.handling = none ∧ s.drained = e :: rest ∧ t =
      { s with drained := rest, lost := s.lost + pairs e } := by
  rw [step] at h
  split at h
  next e rest hhandling hdrained => exact ⟨e, rest, hhandling, hdrained, (Option.some.inj h).symm⟩
  next => cases h

theorem step_putBack (h : step s .putBack = some t) :
    ∃ b extraIds, s.handling = some ⟨b, extraIds⟩ ∧ extraIds ≠ [] ∧
      t = { s with batching := addRows s.batching b.job extraIds, handling := some ⟨b, []⟩ } := by
  rw [step] at h
  split at h
  next b extraIds hhandling =>
    split_ifs at h with hextra
    exact ⟨b, extraIds, hhandling, hextra, (Option.some.inj h).symm⟩
  next => cases h

theorem step_send (h : step s .send = some t) :
    ∃ b, s.handling = some ⟨b, []⟩ ∧ t = { s with handling := none, sent := s.sent ++ [b] } := by
  rw [step] at h
  split at h
  next b extraIds hhandling =>
    split_ifs at h with hextra
    exact ⟨b, hextra ▸ hhandling, (Option.some.inj h).symm⟩
  next => cases h

theorem conserved_step (h : Conserved s) (ht : step s a = some t) : Conserved t := by
  unfold Conserved at h ⊢
  rw [coe_places] at h ⊢
  cases a with
  | push p =>
    cases ht
    dsimp only
    rw [h, coe_flatMap_addRows, pairs, List.map_singleton, Prod.mk.eta, ← Multiset.singleton_add,
      Multiset.coe_singleton]
    abel
  | drain jobs =>
    obtain ⟨hdrained, -, hperm, rfl⟩ := step_drain ht
    have hrows : (↑(jobs.flatMap pairs) : Multiset (Job × Row)) = ↑(s.batching.flatMap pairs) :=
      Multiset.coe_eq_coe.mpr (hperm.flatMap_right pairs)
    rw [hdrained] at h
    dsimp only
    rw [h, hrows]
    simp only [List.flatMap_nil, Multiset.coe_nil]
    abel
  | readJob model =>
    obtain ⟨j, ids, rest, hhandling, hdrained, rfl⟩ := step_readJob ht
    rw [hhandling, hdrained] at h
    dsimp only
    rw [h, Option.map_some, Option.getD_some, Handling.pairs, Batch.pairs, RowLocks.Batch.pairs,
      pairs_splitBatch, List.flatMap_cons, ← Multiset.coe_add]
    simp only [Option.map_none, Option.getD_none, Multiset.coe_nil]
    abel
  | readError =>
    obtain ⟨e, rest, -, hdrained, rfl⟩ := step_readError ht
    rw [hdrained] at h
    dsimp only
    rw [h, List.flatMap_cons, ← Multiset.coe_add]
    abel
  | putBack =>
    obtain ⟨b, extraIds, hhandling, -, rfl⟩ := step_putBack ht
    rw [hhandling] at h
    dsimp only
    rw [h, coe_flatMap_addRows]
    simp only [Option.map_some, Option.getD_some, Handling.pairs, ← Multiset.coe_add, pairs,
      List.map_nil, Multiset.coe_nil]
    abel
  | send =>
    obtain ⟨b, hhandling, rfl⟩ := step_send ht
    rw [hhandling] at h
    dsimp only
    rw [h, List.flatMap_append, List.flatMap_singleton, ← Multiset.coe_add]
    simp only [Option.map_some, Option.map_none, Option.getD_some, Option.getD_none, Handling.pairs,
      pairs, List.map_nil, List.append_nil, Multiset.coe_nil]
    abel
  | cancelJob j =>
    cases ht
    dsimp only
    rw [h, coe_flatMap_filter s.batching j]
    abel

/-- Whatever happens, rows that were pushed are at one of the places or lost. -/
theorem reachable_conserved (h : Reachable collector s) : Conserved s := by
  refine h.invariant Conserved (fun s hs => conserved_started hs) ?_
  rintro s t hs ⟨a, -, ht⟩
  exact conserved_step hs ht

theorem lost_step (ha : a.Undisturbed) (ht : step s a = some t) : t.lost = s.lost := by
  cases a with
  | push p =>
    cases ht
    rfl
  | drain jobs =>
    obtain ⟨-, -, -, rfl⟩ := step_drain ht
    rfl
  | readJob model =>
    obtain ⟨j, ids, rest, -, -, rfl⟩ := step_readJob ht
    rfl
  | putBack =>
    obtain ⟨b, extraIds, -, -, rfl⟩ := step_putBack ht
    rfl
  | send =>
    obtain ⟨b, -, rfl⟩ := step_send ht
    rfl
  | readError | cancelJob => exact ha.elim

theorem sized_step (h : Sized s) (ht : step s a = some t) : Sized t := by
  cases a with
  | push p =>
    cases ht
    exact { h with batching := addRows_ne_nil h.batching p.1 (List.cons_ne_nil _ _) }
  | drain jobs =>
    obtain ⟨-, -, hperm, rfl⟩ := step_drain ht
    exact { h with
      batching := fun e he => absurd he List.not_mem_nil
      drained := fun e he => h.batching e (hperm.mem_iff.mp he) }
  | readJob model =>
    obtain ⟨j, ids, rest, -, hdrained, rfl⟩ := step_readJob ht
    obtain ⟨hids, hrest⟩ := List.forall_mem_cons.mp (hdrained ▸ h.drained)
    refine { h with drained := hrest, handling := ?_ }
    rintro _ ⟨⟩
    exact fits_splitBatch j model hids
  | readError =>
    obtain ⟨e, rest, -, hdrained, rfl⟩ := step_readError ht
    exact { h with drained := (List.forall_mem_cons.mp (hdrained ▸ h.drained)).2 }
  | putBack =>
    obtain ⟨b, extraIds, hhandling, hextra, rfl⟩ := step_putBack ht
    refine { h with batching := addRows_ne_nil h.batching b.job hextra, handling := ?_ }
    rintro _ ⟨⟩
    exact h.handling ⟨b, extraIds⟩ hhandling
  | send =>
    obtain ⟨b, hhandling, rfl⟩ := step_send ht
    refine { h with handling := ?_, sent := ?_ }
    · rintro _ ⟨⟩
    · intro other hother
      rcases List.mem_append.mp hother with hold | hnew
      · exact h.sent other hold
      · rw [List.mem_singleton.mp hnew]
        exact h.handling _ hhandling
  | cancelJob j =>
    cases ht
    exact { h with batching := fun e he => h.batching e (List.mem_of_mem_filter he) }

theorem reachable_undisturbed (h : Reachable undisturbedCollector s) : Conserved s ∧
      s.lost = 0 ∧ Sized s := by
  refine h.invariant (fun s => Conserved s ∧ s.lost = 0 ∧ Sized s) ?_ ?_
  · exact fun s hs => ⟨conserved_started hs, hs.rows.2, sized_started hs⟩
  · rintro s t ⟨hconserved, hlost, hsized⟩ ⟨a, ha, ht⟩
    exact ⟨conserved_step hconserved ht, (lost_step ha ht).trans hlost, sized_step hsized ht⟩

/-- The places hold the rows that were pushed, each as often as it was pushed, and one that was
    pushed once is at one place only. Batches have rows, and not more than their model takes. -/
theorem rows_in_one_place (h : Reachable undisturbedCollector s) :
    s.pushed = ↑(places s).flatten ∧
      (∀ p, s.pushed.count p = 1 → ∃! i : ℕ, ∃ rows, (places s)[i]? = some rows ∧ p ∈ rows) ∧
        ∀ b ∈ s.sent, b.rows ≠ [] ∧ b.rows.length ≤ getDefaultBatchSize b.model := by
  obtain ⟨hconserved, hlost, hsized⟩ := reachable_undisturbed h
  have hpushed : s.pushed = ↑(places s).flatten := by
    rw [hconserved, hlost, add_zero]
  -- a row that was pushed once occurs once in all the places together
  refine ⟨hpushed, fun p hp => existsUnique_of_count ?_, hsized.sent⟩
  rw [← Multiset.coe_count, ← hpushed, hp]

end Steps

def empty : Collector ℕ ℕ := ⟨[], [], none, [], 0, 0⟩

theorem started_empty : Started empty := ⟨⟨rfl, rfl, rfl, rfl⟩, rfl, rfl⟩

/-- Three rows for a model that takes two; the second round begins with what was put back. -/
def threeRows : List (Action ℕ ℕ) :=
  [.push (1, 5), .push (1, 6), .push (1, 7), .drain [(1, [5, 6, 7])], .readJob "gpt-4",
    .push (1, 8), .putBack, .send, .drain [(1, [8, 6, 7])]]

theorem threeRows_in_one_place : ∃ s, runActions step empty threeRows = some s ∧
    s.sent.map (fun b => b.rows) = [[5]] ∧ s.pushed = ↑(places s).flatten := by
  have hundisturbed : ∀ a ∈ threeRows, ∀ _ : Collector ℕ ℕ, a.Undisturbed := by
    simp [threeRows, Action.Undisturbed]
  have hrun : ∃ s, runActions step empty threeRows = some s ∧
      s.sent.map (fun b => b.rows) = [[5]] := ⟨_, rfl, rfl⟩
  obtain ⟨s, hs, hsent⟩ := hrun
  exact ⟨s, hs, hsent,
    (rows_in_one_place (reachable_runActions (.start started_empty) hundisturbed hs)).1⟩

def lostRows : List (Action ℕ ℕ) :=
  [.push (1, 5), .push (2, 6), .cancelJob 2, .drain [(1, [5])], .readError, .push (3, 7)]

theorem lostRows_conserved : ∃ s, runActions step empty lostRows = some s ∧
      s.lost = {(1, 5), (2, 6)} ∧ Conserved s := by
  have hrun : ∃ s, runActions step empty lostRows = some s ∧ s.lost = {(1, 5), (2, 6)} :=
    ⟨_, rfl, by decide⟩
  obtain ⟨s, hs, hlost⟩ := hrun
  exact ⟨s, hs, hlost,
    reachable_conserved (reachable_runActions (.start started_empty) (fun _ _ _ => trivial) hs)⟩

end Lantern.BatchCollector
