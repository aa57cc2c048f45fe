import Lantern.EmbeddingDaemon
import Lantern.LockLedger

set_option autoImplicit false

/-!
# Row locks of the embedding daemon

A row that a client inserts is locked for its job, goes into the batching map and from
there, with the collector, into a batch for the embedding worker, which unlocks the rows
of the batch when it is done with it. Batches that `stream_job` sends name no rows and
take no locks.
-/
namespace Lantern.RowLocks
open SystemRuns LockLedger
open EmbeddingDaemon (splitBatch splitBatch_append)

variable {Job Row : Type}

/-- A job in the worker's queue. `rowIds` tells whether it names its rows; a streamed
    one has them in its filter only. -/
structure Batch (Job Row : Type) where
  job : Job
  rows : List Row
  rowIds : Bool
  isInit : Bool
  deriving DecidableEq

inductive Phase where
  | processing
  | processed
  deriving DecidableEq

structure Daemon (Job Row : Type) where
  lockTasks : List (Job × Row)
  locks : Job × Row → Bool
  pushTasks : List (Job × Row)
  batching : List (Job × List Row)
  collecting : List (Job × List Row)
  queue : List (Batch Job Row)
  worker : Option (Batch Job Row × Phase)
  retries : List (Batch Job Row)
  canceled : Job → Bool
  initFinished : Job → Bool

inductive Action (Job Row : Type) where
  | notifyRow (p : Job × Row)
  | lockRow (p : Job × Row)
  | lockError (p : Job × Row)
  | pushRow (p : Job × Row)
  | drain
  | collect (fails : Bool)
  | sendError (i : ℕ)
  | stream (j : Job) (rows : List Row) (isInit : Bool)
  | receive (i : ℕ)
  | process (ok : Bool)
  | unlockRows
  | unlockError
  | retry (i : ℕ)
  | setCanceled (j : Job) (canceled : Bool)
  | finishInit (j : Job)
  | updateJob (j : Job)

def pairs (e : Job × List Row) : List (Job × Row) := e.2.map fun r => (e.1, r)

def Batch.pairs (b : Batch Job Row) : List (Job × Row) := RowLocks.pairs (b.job, b.rows)

section Machine
variable [DecidableEq Job] [DecidableEq Row]

def addRows : List (Job × List Row) → Job → List Row → List (Job × List Row)
  | [], j, rows => [(j, rows)]
  | (k, ks) :: m, j, rows => if k = j then (k, ks ++ rows) :: m else (k, ks) :: addRows m j rows

def step (maxBatchSize : Job → ℕ) (labelsMatch : Job → Bool) (s : Daemon Job Row) :
    Action Job Row → Option (Daemon Job Row)
  | .notifyRow p => some { s with lockTasks := p :: s.lockTasks }
  | .lockRow p =>
    if p ∈ s.lockTasks then
      if s.locks p then some { s with lockTasks := s.lockTasks.erase p }
      else some { s with
        lockTasks := s.lockTasks.erase p
        locks := Function.update s.locks p true
        pushTasks := p :: s.pushTasks }
    else none
  | .lockError p =>
    if p ∈ s.lockTasks then some { s with lockTasks := s.lockTasks.erase p } else none
  | .pushRow p =>
    if p ∈ s.pushTasks then
      some { s with pushTasks := s.pushTasks.erase p, batching := addRows s.batching p.1 [p.2] }
    else none
  | .drain =>
    if s.collecting = [] then some { s with collecting := s.batching, batching := [] } else none
  | .collect fails =>
    match s.collecting with
    | [] => none
    | (j, ids) :: rest =>
      -- the query fails, or it finds the job canceled
      if fails || s.canceled j then some { s with collecting := rest }
      else
        let (ids, extraIds) := splitBatch (maxBatchSize j) ids
        some { s with
          collecting := rest
          batching := if extraIds.isEmpty then s.batching else addRows s.batching j extraIds
          queue := s.queue ++ [⟨j, ids, true, false⟩] }
  | .sendError i => if i < s.queue.length then some { s with queue := s.queue.eraseIdx i } else none
  | .stream j rows isInit => some { s with queue := s.queue ++ [⟨j, rows, false, isInit⟩] }
  | .receive i =>
    match s.worker, s.queue[i]? with
    | none, some b => some { s with queue := s.queue.eraseIdx i, worker := some (b, .processing) }
    | _, _ => none
  | .process ok =>
    match s.worker with
    | some (b, .processing) => some { s with
        worker := some (b, .processed)
        retries := if ok || b.isInit then s.retries else s.retries ++ [b] }
    | _ => none
  | .unlockRows =>
    match s.worker with
    | some (b, .processed) => some { s with
        worker := none
        locks := if b.rowIds then fun p => s.locks p && decide (p ∉ b.pairs) else s.locks }
    | _ => none
  | .unlockError =>
    match s.worker with
    | some (b, .processed) => if b.rowIds then some { s with worker := none } else none
    | _ => none
  | .retry i =>
    match s.retries[i]? with
    | some b => some { s with retries := s.retries.eraseIdx i, queue := s.queue ++ [b] }
    | none => none
  | .setCanceled j canceled => some { s with canceled := Function.update s.canceled j canceled }
  | .finishInit j => some { s with initFinished := Function.update s.initFinished j true }
  | .updateJob j =>
    if s.initFinished j && labelsMatch j then some s
    else if s.canceled j then some { s with batching := s.batching.filter fun e => e.1 ≠ j }
    else some s

def workerPairs (w : Option (Batch Job Row × Phase)) : List (Job × Row) :=
  match w with
  | none => []
  | some (b, _) => b.pairs

def Pending (s : Daemon Job Row) (p : Job × Row) : Prop :=
  p ∈ s.batching.flatMap pairs ∨ p ∈ s.collecting.flatMap pairs ∨ p ∈ s.queue.flatMap Batch.pairs ∨
    p ∈ workerPairs s.worker ∨ p ∈ s.retries.flatMap Batch.pairs

def held (s : Daemon Job Row) : Multiset (Job × Row) :=
  (↑s.pushTasks : Multiset (Job × Row)) + ↑(s.batching.flatMap pairs) +
    ↑(s.collecting.flatMap pairs) +
    ↑(s.queue.flatMap Batch.pairs) + ↑(workerPairs s.worker) + ↑(s.retries.flatMap Batch.pairs)

structure Started (s : Daemon Job Row) : Prop where
  idle : s.lockTasks = [] ∧ s.pushTasks = [] ∧ s.batching = [] ∧ s.collecting = [] ∧ s.queue = [] ∧
    s.worker = none ∧ s.retries = []
  unlocked : ∀ p, s.locks p = false

/-- The rows that a step lets go of without unlocking them, or takes on without
    locking them or a second time. -/
def unaccounted (labelsMatch : Job → Bool) (s : Daemon Job Row) : Action Job Row → List (Job × Row)
  | .collect fails =>
    match s.collecting with
    | [] => []
    | (j, ids) :: _ => if fails || s.canceled j then pairs (j, ids) else []
  | .sendError i => ((s.queue[i]?).map Batch.pairs).getD []
  | .stream j rows _ => pairs (j, rows)
  | .process ok =>
    match s.worker with
    | none => []
    | some (b, _) => if ok || b.isInit then [] else b.pairs
  | .unlockRows =>
    match s.worker with
    | none => []
    | some (b, _) => if b.rowIds then [] else b.pairs
  | .unlockError => workerPairs s.worker
  | .updateJob j =>
    if s.initFinished j && labelsMatch j then []
    else if s.canceled j then (s.batching.filter fun e => e.1 = j).flatMap pairs
    else []
  | _ => []

def daemon (maxBatchSize : Job → ℕ) (labelsMatch : Job → Bool) : System (Daemon Job Row) :=
  actionSystem Started (step maxBatchSize labelsMatch) fun _ _ => True

def accountingDaemon (maxBatchSize : Job → ℕ) (labelsMatch : Job → Bool) :
    System (Daemon Job Row) :=
  actionSystem Started (step maxBatchSize labelsMatch) fun s a => unaccounted labelsMatch s a = []

end Machine

theorem pairs_splitBatch (j : Job) (n : ℕ) (ids : List Row) :
    pairs (j, (splitBatch n ids).1) ++ pairs (j, (splitBatch n ids).2) = pairs (j, ids) := by
  unfold pairs
  rw [← List.map_append]
  exact congrArg _ (splitBatch_append n ids)

theorem coe_flatMap_eraseIdx {α : Type} (f : α → List (Job × Row)) {xs : List α} {i : ℕ} {x : α}
    (h : xs[i]? = some x) :
    (↑(xs.flatMap f) : Multiset (Job × Row)) = ↑(f x) + ↑((xs.eraseIdx i).flatMap f) := by
  obtain ⟨hi, rfl⟩ := List.getElem?_eq_some_iff.mp h
  rw [Multiset.coe_add, Multiset.coe_eq_coe, ← List.flatMap_cons]
  exact ((List.getElem_cons_eraseIdx_perm hi).flatMap_right f).symm

def Accounted (s : Daemon Job Row) : Prop := Balanced s.locks (held s)

variable {b : Batch Job Row} {p : Job × Row}

section Steps
variable {s t : Daemon Job Row}

theorem Accounted.moved (h : Accounted s) (hlocks : t.locks = s.locks) (hheld : held t = held s) :
    Accounted t := by
  unfold Accounted
  rw [hlocks, hheld]
  exact h

theorem Accounted.leak_iff {gone : List (Job × Row)} (h : Accounted s) (hlocks : t.locks = s.locks)
    (hheld : held s = gone + held t) : Accounted t ↔ gone = [] := by
  unfold Accounted at h ⊢
  rw [hheld] at h
  rw [hlocks]
  exact h.leak_iff

theorem Accounted.copy_iff {new : List (Job × Row)} (h : Accounted s) (hlocks : t.locks = s.locks)
    (hheld : held t = new + held s) : Accounted t ↔ new = [] := by
  unfold Accounted
  rw [hlocks, hheld]
  exact Balanced.copy_iff h

theorem held_drain (hc : s.collecting = []) :
    held { s with collecting := s.batching, batching := [] } = held s := by
  simp only [held, hc, List.flatMap_nil, Multiset.coe_nil]
  abel

theorem held_received {i : ℕ} (hw : s.worker = none) (hb : s.queue[i]? = some b) :
    held { s with queue := s.queue.eraseIdx i, worker := some (b, .processing) } = held s := by
  simp only [held, hw, workerPairs, coe_flatMap_eraseIdx Batch.pairs hb, Multiset.coe_nil]
  abel

theorem held_retried {i : ℕ} (hb : s.retries[i]? = some b) :
    held { s with retries := s.retries.eraseIdx i, queue := s.queue ++ [b] } = held s := by
  simp only [held, coe_flatMap_eraseIdx Batch.pairs hb, List.flatMap_append, List.flatMap_singleton,
    ← Multiset.coe_add]
  abel

theorem accounted_started (h : Started s) : Accounted s := by
  obtain ⟨-, hpush, hbatching, hcollecting, hqueue, hworker, hretries⟩ := h.idle
  have hheld : held s = 0 := by
    simp [held, hpush, hbatching, hcollecting, hqueue, hworker, hretries, workerPairs]
  unfold Accounted
  rw [hheld]
  exact balanced_empty h.unlocked

variable [DecidableEq Job]

theorem coe_flatMap_addRows (m : List (Job × List Row)) (j : Job) (rows : List Row) :
    (↑((addRows m j rows).flatMap pairs) : Multiset (Job × Row)) = ↑(m.flatMap pairs) +
    ↑(pairs (j, rows)) := by
  induction m with
  | nil => simp [addRows]
  | cons e m ih =>
    obtain ⟨k, ks⟩ := e
    unfold addRows
    split_ifs with hk
    · subst hk
      simp only [List.flatMap_cons, ← Multiset.coe_add, pairs, List.map_append]
      abel
    · simp only [List.flatMap_cons, ← Multiset.coe_add, ih]
      abel

theorem coe_flatMap_filter (m : List (Job × List Row)) (j : Job) :
    (↑(m.flatMap pairs) : Multiset (Job × Row)) =
      ↑((m.filter fun e => e.1 = j).flatMap pairs) +
        ↑((m.filter fun e => e.1 ≠ j).flatMap pairs) := by
  induction m with
  | nil => rfl
  | cons e m ih =>
    by_cases he : e.1 = j
    · simp only [List.filter_cons, he, List.flatMap_cons, ← Multiset.coe_add, ih, decide_true,
        ne_eq, not_true, decide_false, if_true, Bool.false_eq_true, if_false]
      abel
    · simp only [List.filter_cons, he, List.flatMap_cons, ← Multiset.coe_add, ih, decide_true,
        ne_eq, not_false_eq_true, decide_false, if_true, Bool.false_eq_true, if_false]
      abel

theorem held_collect {j : Job} {ids : List Row} {rest : List (Job × List Row)}
    (hc : s.collecting = (j, ids) :: rest) (n : ℕ) :
    held { s with
      collecting := rest
      batching := if (splitBatch n ids).2.isEmpty then s.batching else addRows s.batching j
        (splitBatch n ids).2
      queue := s.queue ++ [⟨j, (splitBatch n ids).1, true, false⟩] } = held s := by
  have hextra : (↑((if (splitBatch n ids).2.isEmpty then s.batching
      else addRows s.batching j (splitBatch n ids).2).flatMap pairs) : Multiset (Job × Row)) =
      ↑(s.batching.flatMap pairs) + ↑(pairs (j, (splitBatch n ids).2)) := by
    split_ifs with hempty
    · rw [List.isEmpty_iff.mp hempty]
      exact (add_zero _).symm
    · exact coe_flatMap_addRows _ _ _
  simp only [held, hextra, hc, List.flatMap_cons, List.flatMap_append, List.flatMap_nil,
    List.append_nil, ← pairs_splitBatch j n ids, ← Multiset.coe_add, Batch.pairs]
  abel

variable [DecidableEq Row]

theorem held_pushRow (hp : p ∈ s.pushTasks) :
    held { s with pushTasks := s.pushTasks.erase p, batching := addRows s.batching p.1 [p.2] } =
      held s := by
  have hpush : (↑s.pushTasks : Multiset (Job × Row)) = ↑(s.pushTasks.erase p) + ↑[p] := by
    rw [Multiset.coe_add, Multiset.coe_eq_coe]
    exact (List.perm_cons_erase hp).trans (List.perm_append_singleton p _).symm
  simp only [held, coe_flatMap_addRows, hpush, pairs, List.map_singleton, Prod.mk.eta]
  abel

theorem accounted_lockRow (h : Accounted s) (hp : s.locks p = false) (tasks : List (Job × Row)) :
    Accounted { s with
      lockTasks := tasks, locks := Function.update s.locks p true,
        pushTasks := p :: s.pushTasks } := by
  have hheld : held { s with
      lockTasks := tasks, locks := Function.update s.locks p true, pushTasks := p :: s.pushTasks } =
      p ::ₘ held s := by
    simp only [held, ← Multiset.cons_coe, Multiset.cons_add]
  unfold Accounted
  rw [hheld]
  exact Balanced.take h hp

theorem accounted_unlockRows {phase : Phase} (h : Accounted s) (hw : s.worker = some (b, phase)) :
    Accounted { s with worker := none, locks := fun p => s.locks p && decide (p ∉ b.pairs) } := by
  have hheld : held s = b.pairs + held { s with
      worker := none, locks := fun p => s.locks p && decide (p ∉ b.pairs) } := by
    simp only [held, hw, workerPairs, Multiset.coe_nil]
    abel
  unfold Accounted at h ⊢
  rw [hheld] at h
  exact h.release fun p => by simp

variable {maxBatchSize : Job → ℕ} {labelsMatch : Job → Bool}

theorem accounted_step_iff (h : Accounted s) {a : Action Job Row}
    (hstep : step maxBatchSize labelsMatch s a = some t) : Accounted t ↔
      unaccounted labelsMatch s a = [] := by
  cases a with
  | notifyRow p =>
    cases hstep
    exact iff_of_true (h.moved rfl rfl) rfl
  | lockRow p =>
    simp only [step] at hstep
    split_ifs at hstep with hmem hlocked <;> cases hstep
    · exact iff_of_true (h.moved rfl rfl) rfl
    · exact iff_of_true (accounted_lockRow h (Bool.eq_false_of_not_eq_true hlocked) _) rfl
  | lockError p =>
    simp only [step] at hstep
    split_ifs at hstep
    cases hstep
    exact iff_of_true (h.moved rfl rfl) rfl
  | pushRow p =>
    simp only [step] at hstep
    split_ifs at hstep with hmem
    cases hstep
    exact iff_of_true (h.moved rfl (held_pushRow hmem)) rfl
  | drain =>
    simp only [step] at hstep
    split_ifs at hstep with hempty
    cases hstep
    exact iff_of_true (h.moved rfl (held_drain hempty)) rfl
  | collect fails =>
    match hc : s.collecting with
    | [] => simp [step, hc] at hstep
    | (j, ids) :: rest =>
      simp only [step, unaccounted, hc] at hstep ⊢
      by_cases hfails : (fails || s.canceled j) = true
      · -- the rows of the entry are dropped with their locks
        rw [if_pos hfails] at hstep ⊢
        cases hstep
        refine h.leak_iff rfl ?_
        simp only [held, hc, List.flatMap_cons, ← Multiset.coe_add]
        abel
      · rw [if_neg hfails] at hstep ⊢
        cases hstep
        exact iff_of_true (h.moved rfl (held_collect hc _)) rfl
  | sendError i =>
    simp only [step] at hstep
    split_ifs at hstep with hi
    cases hstep
    have hb : s.queue[i]? = some s.queue[i] := List.getElem?_eq_getElem hi
    simp only [unaccounted, hb, Option.map_some, Option.getD_some]
    refine h.leak_iff rfl ?_
    simp only [held, coe_flatMap_eraseIdx Batch.pairs hb]
    abel
  | stream j rows isInit =>
    cases hstep
    refine h.copy_iff rfl ?_
    simp only [unaccounted, held, List.flatMap_append, List.flatMap_singleton,
      ← Multiset.coe_add, Batch.pairs]
    abel
  | receive i =>
    simp only [step] at hstep
    split at hstep <;> cases hstep
    rename_i b hw hb
    exact iff_of_true (h.moved rfl (held_received hw hb)) rfl
  | process ok =>
    simp only [step] at hstep
    split at hstep <;> cases hstep
    rename_i b hw
    simp only [unaccounted, hw]
    split_ifs with hretry
    · refine iff_of_true (h.moved rfl ?_) rfl
      simp only [held, hw, workerPairs]
    · -- the batch is with the worker and scheduled again
      refine h.copy_iff rfl ?_
      simp only [held, hw, workerPairs, List.flatMap_append, List.flatMap_singleton,
        ← Multiset.coe_add]
      abel
  | unlockRows =>
    simp only [step] at hstep
    split at hstep <;> cases hstep
    rename_i b hw
    simp only [unaccounted, hw]
    split_ifs with hids
    · exact iff_of_true (accounted_unlockRows h hw) rfl
    · refine h.leak_iff rfl ?_
      simp only [held, hw, workerPairs, Multiset.coe_nil]
      abel
  | unlockError =>
    simp only [step] at hstep
    split at hstep
    · rename_i b hw
      split_ifs at hstep
      cases hstep
      refine h.leak_iff rfl ?_
      simp only [unaccounted, held, hw, workerPairs, Multiset.coe_nil]
      abel
    · cases hstep
  | retry i =>
    simp only [step] at hstep
    split at hstep <;> cases hstep
    rename_i b hb
    exact iff_of_true (h.moved rfl (held_retried hb)) rfl
  | setCanceled j canceled =>
    cases hstep
    exact iff_of_true (h.moved rfl rfl) rfl
  | finishInit j =>
    cases hstep
    exact iff_of_true (h.moved rfl rfl) rfl
  | updateJob j =>
    simp only [step, unaccounted] at hstep ⊢
    split_ifs at hstep ⊢ with htoggle hcanceled <;> cases hstep
    · exact iff_of_true h rfl
    · refine h.leak_iff rfl ?_
      simp only [held, coe_flatMap_filter s.batching j]
      abel
    · exact iff_of_true h rfl

theorem reachable_accounted (h : Reachable (accountingDaemon maxBatchSize labelsMatch) s) :
    Accounted s := by
  apply Reachable.invariant Accounted _ _ h
  · exact fun s hs => accounted_started hs
  · rintro s t hs ⟨a, hok, hstep⟩
    exact (accounted_step_iff hs hstep).mpr hok

end Steps

theorem mem_held {s : Daemon Job Row} : p ∈ held s ↔ p ∈ s.pushTasks ∨ Pending s p := by
  simp only [held, Pending, Multiset.mem_add, Multiset.mem_coe, or_assoc]

theorem Accounted.locked_iff {s : Daemon Job Row} (h : Accounted s) (p : Job × Row) :
    s.locks p = true ↔ p ∈ s.pushTasks ∨ Pending s p :=
  (h.marked_iff p).trans mem_held

theorem Accounted.not_pending {s : Daemon Job Row} (h : Accounted s) (hp : p ∈ s.pushTasks) :
    ¬ Pending s p := by
  intro hpending
  have hheld :
      held s = ↑s.pushTasks + (↑(s.batching.flatMap pairs) + ↑(s.collecting.flatMap pairs) +
      ↑(s.queue.flatMap Batch.pairs) + ↑(workerPairs s.worker) +
      ↑(s.retries.flatMap Batch.pairs)) := by
    unfold held
    abel
  have hnodup := h.nodup
  rw [hheld] at hnodup
  refine Multiset.disjoint_left.mp (Multiset.nodup_add.mp hnodup).2.2 (Multiset.mem_coe.mpr hp) ?_
  simp only [Multiset.mem_add, Multiset.mem_coe, or_assoc]
  exact hpending

/-- In every run whose steps account for all rows, the locked rows are those that are
    pending or between their lock and the batching map; so the locked rows are the
    pending ones exactly when no task stands between the two. -/
theorem locked_iff_pending [DecidableEq Job] [DecidableEq Row] {maxBatchSize : Job → ℕ}
    {labelsMatch : Job → Bool} {s : Daemon Job Row}
    (h : Reachable (accountingDaemon maxBatchSize labelsMatch) s) :
    (∀ p, s.locks p = true ↔ p ∈ s.pushTasks ∨ Pending s p) ∧
      ((∀ p, s.locks p = true ↔ Pending s p) ↔ s.pushTasks = []) := by
  have hs := reachable_accounted h
  refine ⟨hs.locked_iff, fun hiff => ?_, fun hempty p => ?_⟩
  · apply List.eq_nil_iff_forall_not_mem.mpr
    intro p hp
    exact hs.not_pending hp ((hiff p).mp ((hs.locked_iff p).mpr (Or.inl hp)))
  · rw [hs.locked_iff, hempty]
    exact or_iff_right List.not_mem_nil

instance [DecidableEq Job] [DecidableEq Row] (s : Daemon Job Row) (p : Job × Row) :
    Decidable (Pending s p) :=
  inferInstanceAs (Decidable (_ ∨ _ ∨ _ ∨ _ ∨ _))

def idle : Daemon ℕ ℕ where
  lockTasks := []
  locks _ := false
  pushTasks := []
  batching := []
  collecting := []
  queue := []
  worker := none
  retries := []
  canceled _ := false
  initFinished _ := true

theorem started_idle : Started idle := ⟨⟨rfl, rfl, rfl, rfl, rfl, rfl, rfl⟩, fun _ => rfl⟩

def oneRow : List (Action ℕ ℕ) := [.notifyRow (1, 7), .lockRow (1, 7), .pushRow (1, 7), .drain]

theorem queued_row_locked :
    ∃ s, Reachable (accountingDaemon (fun _ => 2) fun _ => true) s ∧ s.queue =
      [⟨1, [7], true, false⟩] ∧
      s.locks (1, 7) = true ∧ ∀ p, s.locks p = true ↔ Pending s p := by
  have h : Reachable (accountingDaemon (fun _ => 2) fun _ => true) _ :=
    reachable_admitted (.start started_idle)
      (show runActions (admittedStep (step (fun _ => 2) fun _ => true)
      fun s a => unaccounted (fun _ => true) s a = []) idle (oneRow ++ [.collect false]) =
      some _ from rfl)
  exact ⟨_, h, rfl, rfl, (locked_iff_pending h).2.mpr rfl⟩

/-- A job is canceled after its row was drained: the row stays locked. A batch that
    fails is scheduled again: its row is unlocked all the same. -/
theorem locks_and_pending_differ :
    (∃ s, Reachable (daemon (fun _ => 2) fun _ => true) s ∧ s.locks (1, 7) = true ∧
      s.pushTasks = [] ∧
      ¬ Pending s (1, 7)) ∧
    (∃ s, Reachable (daemon (fun _ => 2) fun _ => true) s ∧ s.locks (1, 7) = false ∧
      Pending s (1, 7) ∧
      s.retries = [⟨1, [7], true, false⟩]) := by
  have hall : ∀ acts : List (Action ℕ ℕ), ∀ a ∈ acts, ∀ _ : Daemon ℕ ℕ, True :=
    fun _ _ _ _ => trivial
  constructor
  · refine ⟨_,
      reachable_runActions (.start started_idle)
      (hall (oneRow ++ [.setCanceled 1 true, .collect false]))
      rfl, rfl, rfl, by decide⟩
  · refine ⟨_, reachable_runActions (.start started_idle)
      (hall (oneRow ++ [.collect false, .receive 0, .process false, .unlockRows])) rfl, rfl,
      by decide, rfl⟩

end Lantern.RowLocks
