import Lantern.BatchCollector
import Lantern.InitStreaming
import Lantern.JobFleet

set_option autoImplicit false

/-!
# The machines of the embedding daemon are views of one daemon

`EmbeddingDaemon` follows the texts of one job, `RowLocks` the locks of all jobs,
`BatchCollector` a round of the collector, `InitStreaming` the events of one initial
job, and `JobFleet` the job table. Each run of the first is a run of the second; what
the second does with its map is a run of the third; and the batches of the fourth go
through the queue of the second.
-/
namespace Lantern.DaemonViews
open SystemRuns

section Locks
variable {Row Emb : Type}

def entry (rows : List Row) : List (Unit × List Row) := if rows = [] then [] else [((), rows)]

def batchOf (ids : List Row) : RowLocks.Batch Unit Row := ⟨(), ids, true, false⟩

@[simp] theorem batchOf_rowIds (ids : List Row) : (batchOf ids).rowIds = true := rfl

@[simp] theorem batchOf_isInit (ids : List Row) : (batchOf ids).isInit = false := rfl

variable [DecidableEq Row]

variable {embed : CharText.Text → Option Emb} {maxBatchSize : ℕ} {labelsMatch : Unit → Bool}
  {s t : EmbeddingDaemon.Daemon Row Emb}

end Locks

section Collector
variable {Job Row : Type} [DecidableEq Job] [DecidableEq Row]

def Collects (s : RowLocks.Daemon Job Row) (c : BatchCollector.Collector Job Row) : Prop :=
  c.batching = s.batching ∧ c.drained = s.collecting ∧ c.handling = none

variable {model : Job → String} {labelsMatch : Job → Bool} {s t : RowLocks.Daemon Job Row}
  {c : BatchCollector.Collector Job Row}

theorem collect_run {fails : Bool} (hc : Collects s c)
    (h : RowLocks.step (fun j => BatchCollector.getDefaultBatchSize (model j)) labelsMatch s
      (.collect fails) = some t) :
    ∃ as c', runActions BatchCollector.step c as = some c' ∧ Collects t c' := by
  obtain ⟨hb, hd, hh⟩ := hc
  obtain ⟨batching, drained, handling, sent, pushed, lost⟩ := c
  simp only at hb hd hh
  subst hb hd hh
  simp only [RowLocks.step] at h
  split at h
  · cases h
  · rename_i j ids rest hcollecting
    rw [hcollecting]
    set split :=
      EmbeddingDaemon.splitBatch (BatchCollector.getDefaultBatchSize (model j)) ids with hsplit
    split_ifs at h with hlost hextra
    · cases h
      exact ⟨[.readError], _, rfl, rfl, rfl, rfl⟩
    · cases h
      refine ⟨[.readJob (model j), .send],
        ⟨s.batching, rest, none, sent ++ [⟨⟨j, split.1, true, false⟩, model j⟩], pushed, lost⟩, ?_,
        rfl, rfl, rfl⟩
      simp [runActions, BatchCollector.step, ← hsplit, List.isEmpty_iff.mp hextra]
    · cases h
      refine ⟨[.readJob (model j), .putBack, .send],
        ⟨RowLocks.addRows s.batching j split.2, rest, none,
        sent ++ [⟨⟨j, split.1, true, false⟩, model j⟩], pushed, lost⟩, ?_, rfl, rfl, rfl⟩
      simp [runActions, BatchCollector.step, ← hsplit, mt List.isEmpty_iff.mpr hextra]

theorem step_collects {a : RowLocks.Action Job Row} (hc : Collects s c)
    (h : RowLocks.step
      (fun j => BatchCollector.getDefaultBatchSize (model j)) labelsMatch s a = some t) :
    ∃ as c', runActions BatchCollector.step c as = some c' ∧ Collects t c' := by
  have hstill : t.batching = s.batching → t.collecting = s.collecting →
      ∃ as c', runActions BatchCollector.step c as = some c' ∧ Collects t c' :=
    fun hb hd => ⟨[], c, rfl, hc.1.trans hb.symm, hc.2.1.trans hd.symm, hc.2.2⟩
  cases a with
  | collect fails => exact collect_run hc h
  | pushRow p =>
    obtain ⟨hb, hd, hh⟩ := hc
    simp only [RowLocks.step] at h
    split_ifs at h
    cases h
    exact ⟨[.push p], _, rfl, congrArg (RowLocks.addRows · p.1 [p.2]) hb, hd, hh⟩
  | drain =>
    obtain ⟨hb, hd, hh⟩ := hc
    simp only [RowLocks.step] at h
    split_ifs at h with hempty
    cases h
    refine ⟨[.drain s.batching], { c with drained := s.batching, batching := [] }, ?_, rfl, rfl, hh⟩
    simp [runActions, BatchCollector.step, hb, hd, hh, hempty]
  | updateJob j =>
    obtain ⟨hb, hd, hh⟩ := hc
    simp only [RowLocks.step] at h
    split_ifs at h
    · cases h
      exact hstill rfl rfl
    · cases h
      exact ⟨[.cancelJob j], _, rfl, congrArg (List.filter _) hb, hd, hh⟩
    · cases h
      exact hstill rfl rfl
  | lockRow p | lockError p | sendError i | unlockRows | unlockError | process ok | receive i
  | retry i =>
    simp only [RowLocks.step] at h
    repeat' split at h
    all_goals first | (cases h; exact hstill rfl rfl) | cases h
  | notifyRow p | stream j rows isInit | setCanceled j canceled | finishInit j =>
    cases h
    exact hstill rfl rfl

theorem reachable_collects
    (h : Reachable (RowLocks.daemon
      (fun j => BatchCollector.getDefaultBatchSize (model j)) labelsMatch) s) :
    ∃ c, Collects s c ∧ Reachable BatchCollector.collector c := by
  refine h.simulated Collects (fun s hs => ?_) ?_
  · obtain ⟨-, -, hb, hc, -⟩ := hs.idle
    exact ⟨⟨[], [], none, [], 0, 0⟩, ⟨hb.symm, hc.symm, rfl⟩,
      .start ⟨⟨rfl, rfl, rfl, rfl⟩, rfl, rfl⟩⟩
  · rintro s t c hc ⟨a, -, hstep⟩
    exact step_collects hc hstep

end Collector

section Streams

/-- A streamed batch names no rows; its failure is not tried again. -/
def originBatch (o : InitStreaming.Origin) : RowLocks.Batch Unit Unit :=
  ⟨(), [], false, o = .streamed⟩

def Queues (s : InitStreaming.Daemon) (d : RowLocks.Daemon Unit Unit) : Prop :=
  d.queue = s.queue.map originBatch ∧ d.worker = s.worker.map fun o => (originBatch o, .processing)

variable {maxBatchSize : Unit → ℕ}
  {labelsMatch : Unit → Bool} {s t : InitStreaming.Daemon} {d : RowLocks.Daemon Unit Unit}

theorem step_queues {a : InitStreaming.Action} (hd : Queues s d)
    (h : InitStreaming.step s a = some t) :
    ∃ as d', runActions (RowLocks.step maxBatchSize labelsMatch) d as = some d' ∧ Queues t d' := by
  obtain ⟨hq, hw⟩ := hd
  cases a with
  | sendBatch =>
    simp only [InitStreaming.step] at h
    split at h
    · cases h
      exact ⟨[.stream () [] true], _, rfl, by simp [hq, originBatch], hw⟩
    · cases h
  | enqueueOther =>
    cases h
    exact ⟨[.stream () [] false], _, rfl, by simp [hq, originBatch], hw⟩
  | takeBatch =>
    simp only [InitStreaming.step] at h
    split at h
    · rename_i o rest hworker hqueue
      cases h
      rw [hworker] at hw
      rw [hqueue] at hq
      refine ⟨[.receive 0],
        { d with queue := rest.map originBatch, worker := some (originBatch o, .processing) }, ?_,
        rfl, rfl⟩
      simp [runActions, RowLocks.step, hw, hq]
    · cases h
  | process ok =>
    simp only [InitStreaming.step] at h
    split at h
    · cases h
    · rename_i o hworker
      cases h
      rw [hworker] at hw
      refine ⟨[.process ok, .unlockRows],
        { d with
            worker := none
            retries := if ok || (originBatch o).isInit then d.retries
            else d.retries ++ [originBatch o] }, ?_, hq, rfl⟩
      cases o <;> simp [runActions, RowLocks.step, hw, originBatch]
  | removeHandle | setHandle | streamError | finishStream | receiveEvent | cancelJob | deliver i
    | finishJob =>
    simp only [InitStreaming.step] at h
    repeat' split at h
    all_goals first | (cases h; exact ⟨[], d, rfl, hq, hw⟩) | cases h

theorem streams_queue (origins : List InitStreaming.Origin) (d : RowLocks.Daemon Unit Unit) :
    runActions (RowLocks.step maxBatchSize labelsMatch) d
      (origins.map fun o => .stream () [] (o = .streamed)) =
      some { d with queue := d.queue ++ origins.map originBatch } := by
  induction origins generalizing d with
  | nil => simp [runActions]
  | cons o origins ih => simp [runActions, RowLocks.step, ih, originBatch]

theorem reachable_queues (h : Reachable InitStreaming.daemon s) :
    ∃ d, Queues s d ∧ Reachable (RowLocks.daemon maxBatchSize labelsMatch) d := by
  refine h.simulated Queues (fun s _ => ?_) ?_
  · -- the batches that the queue starts with, and the one that the worker has, are of other streams
    have hidle : RowLocks.Started (⟨[], fun _ => false, [], [], [], [], none, [], fun _ => false,
        fun _ => false⟩ : RowLocks.Daemon Unit Unit) :=
      ⟨⟨rfl, rfl, rfl, rfl, rfl, rfl, rfl⟩, fun _ => rfl⟩
    cases hw : s.worker with
    | none =>
      exact ⟨_, ⟨rfl, by rw [hw]; rfl⟩,
        reachable_runActions (.start hidle) (fun _ _ _ => trivial) (streams_queue s.queue _)⟩
    | some o =>
      refine ⟨_, ⟨?_, ?_⟩, reachable_runActions (.start hidle) (fun _ _ _ => trivial)
        (runActions_append (streams_queue (o :: s.queue) _)
        (show runActions _ _ [.receive 0] = some _ from rfl))⟩
      · rfl
      · rw [hw]
        rfl
  · rintro s t d hd ⟨a, -, hstep⟩
    exact step_queues hd hstep

/-- The columns at the end of `stream_job` are those that the end of a stream sets. -/
theorem finishJob_recorded {row : JobFleet.JobRow} {reason : String}
    (h : InitStreaming.step s .finishJob = some t)
    (hfinished : row.initFinishedAt = s.initFinishedAt)
    (hfailed : row.initFailedAt = s.initFailedAt) :
    ∃ record ∈ [JobFleet.finishRow, JobFleet.failRow reason],
      (record row).initFinishedAt = t.initFinishedAt ∧
        (record row).initFailedAt = t.initFailedAt := by
  simp only [InitStreaming.step] at h
  split at h
  · cases h
    exact ⟨_, .head _, rfl, hfailed⟩
  · cases h
    refine ⟨_, .tail _ (.head _), ?_⟩
    unfold JobFleet.failRow
    split_ifs with hrow
    · simp [← hfinished, hrow, hfailed]
    · simp [← hfinished, hrow]
  · cases h

end Streams

end Lantern.DaemonViews
