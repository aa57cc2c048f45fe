import Lantern.SystemRuns

set_option autoImplicit false

/-!
# Daemons that share a job table

Embedding jobs are rows of one table, which any number of daemons watch. A daemon hears
of inserted and changed jobs through notifications, and it goes through the pending jobs
once when it starts. The daemon that sets `init_started_at` streams the initial rows of
a job. Daemons may stop at any point and be started again.
-/
namespace Lantern.JobFleet
open SystemRuns

/-- A row of `embedding_generation_jobs`; of a time it is only kept whether it is set. -/
structure JobRow where
  label : Option String
  canceledAt : Bool
  initStartedAt : Bool
  initFinishedAt : Bool
  initFailedAt : Bool
  initFailureReason : Option String
  initProgress : ℕ
  deriving DecidableEq, Repr

def newRow (label : Option String) : JobRow := ⟨label, false, false, false, false, none, 0⟩

inductive Status where
  | failed | canceled | enabled | inProgress | queued
  deriving DecidableEq, Repr

/-- The first column of `get_embedding_job_status`; the others are `initProgress` and
    `initFailureReason`. -/
def JobRow.status (row : JobRow) : Status :=
  if row.initFailedAt then .failed
  else if row.canceledAt then .canceled
  else if row.initFinishedAt then .enabled
  else if row.initStartedAt then .inProgress
  else .queued

structure Insert (Job : Type) where
  id : Job
  generateMissing : Bool
  deriving DecidableEq, Repr

structure Reading (Job : Type) where
  id : Job
  generateMissing : Bool
  isInit : Bool
  deriving DecidableEq, Repr

structure Stream (Job : Type) where
  id : Job
  isInit : Bool
  progress : ℕ
  deriving DecidableEq, Repr

/-- `claimed` is the stream that is spawned when the answer to the update comes back. -/
structure Daemon (Job : Type) where
  running : Bool
  listening : Bool
  collected : Bool
  inserts : List (Insert Job)
  updates : List Job
  reading : Option (Reading Job)
  updating : Option Job
  claimed : Option (Stream Job)
  streams : List (Stream Job)

def Daemon.off {Job : Type} : Daemon Job := ⟨false, false, false, [], [], none, none, none, []⟩

structure Begun (Job Host : Type) where
  id : Job
  host : Host
  generateMissing : Bool
  isInit : Bool
  claimed : Bool
  deriving DecidableEq, Repr

/-- The table with its ids in their order, the daemons, the streams begun so far, and the jobs
    whose initial stream ended, or was not spawned any more, without a record of it. -/
structure Fleet (Job Host : Type) where
  jobs : Job → Option JobRow
  ids : List Job
  daemons : Host → Daemon Job
  begun : List (Begun Job Host)
  interrupted : List Job

inductive Change where
  | cancel
  | resume
  | relabel (label : Option String)
  deriving DecidableEq, Repr

inductive Own where
  | start
  | listen
  | collect
  | takeInsert
  | spawn
  | takeUpdate
  | requestMissing
  deriving DecidableEq, Repr

/-- How a stream ends; it is abandoned if it panics or if the update at its end fails. -/
inductive End where
  | finished
  | failed (reason : String)
  | abandoned
  deriving DecidableEq, Repr

inductive Action (Job Host : Type) where
  | insertJob (job : Job) (label : Option String)
  | change (job : Job) (change : Change)
  | own (host : Host) (own : Own)
  | claim (host : Host)
  | crash (host : Host)
  | progress (host : Host) (i progress : ℕ)
  | endStream (host : Host) (i : ℕ) (result : End)
  deriving DecidableEq, Repr

/-- The labels of the daemons, and the jobs of whose columns `EmbeddingJob::new` makes a job. -/
structure Config (Job Host : Type) where
  label : Host → String
  accepts : Job → Bool

/-- `NEW.label != OLD.label`, which is not true where one of them is null. -/
def labelsDiffer : Option String → Option String → Bool
  | some new, some old => new ≠ old
  | _, _ => false

def Change.apply : Change → JobRow → JobRow
  | .cancel, row => { row with canceledAt := true }
  | .resume, row => { row with canceledAt := false }
  | .relabel label, row => { row with label := label }

def Change.announced (change : Change) (row : JobRow) : Bool :=
  (row.canceledAt != (change.apply row).canceledAt) ||
    labelsDiffer (change.apply row).label row.label

section Steps
variable {Job Host : Type} [DecidableEq Job] [DecidableEq Host] (cfg : Config Job Host)

def Config.labelsMatch (host : Host) (row : JobRow) : Bool := row.label.getD "" = cfg.label host

def Fleet.setDaemon (s : Fleet Job Host) (host : Host) (d : Daemon Job) : Fleet Job Host :=
  { s with daemons := Function.update s.daemons host d }

def Fleet.updateJob (s : Fleet Job Host) (job : Job) (f : JobRow → JobRow) : Fleet Job Host :=
  { s with jobs := Function.update s.jobs job ((s.jobs job).map f) }

def Daemon.hearInsert (job : Job) (d : Daemon Job) : Daemon Job :=
  if d.listening then { d with inserts := d.inserts ++ [⟨job, false⟩] } else d

def Daemon.hearUpdate (job : Job) (d : Daemon Job) : Daemon Job :=
  if d.listening then { d with updates := d.updates ++ [job] } else d

def Fleet.insertJob (s : Fleet Job Host) (job : Job) (label : Option String) : Fleet Job Host :=
  { s with
    jobs := Function.update s.jobs job (some (newRow label))
    ids := s.ids ++ [job]
    daemons := fun host => (s.daemons host).hearInsert job }

def Fleet.notifyUpdate (s : Fleet Job Host) (job : Job) (announced : Bool) : Fleet Job Host :=
  if announced then { s with daemons := fun host => (s.daemons host).hearUpdate job } else s

def Fleet.pendingJobs (s : Fleet Job Host) : List Job :=
  s.ids.filter fun job => (s.jobs job).any fun row => !row.initFailedAt && !row.canceledAt

/-- The first query of `job_insert_processor`: the job is dropped if it is canceled, if its row
    makes no job, or if it is meant for another daemon. -/
def readJob (host : Host) (s : Fleet Job Host) (n : Insert Job) : Option (Reading Job) :=
  match s.jobs n.id with
  | some row =>
    if row.canceledAt || !cfg.accepts n.id || !cfg.labelsMatch host row then none
    else some ⟨n.id, n.generateMissing, !row.initFinishedAt⟩
  | none => none

/-- The query of `job_update_processor`: missing rows are asked for unless the job is canceled
    or meant for another daemon. -/
def readUpdate (host : Host) (s : Fleet Job Host) (job : Job) : Option Job :=
  if (s.jobs job).any fun row => !row.canceledAt && cfg.labelsMatch host row then some job else none

def ownStep (s : Fleet Job Host) (host : Host) : Own → Option (Daemon Job)
  | .start => let d := s.daemons host
    if d.running then none else some { d with running := true }
  | .listen => let d := s.daemons host
    if d.running && !d.listening then some { d with listening := true } else none
  | .collect => let d := s.daemons host
    if d.running && !d.collected then
      some { d with collected := true, updates := d.updates ++ s.pendingJobs } else none
  | .takeInsert => let d := s.daemons host
    match d.reading, d.claimed, d.inserts with
    | none, none, n :: rest => some { d with inserts := rest, reading := readJob cfg host s n }
    | _, _, _ => none
  | .spawn => let d := s.daemons host
    d.claimed.map fun st => { d with claimed := none, streams := d.streams ++ [st] }
  | .takeUpdate => let d := s.daemons host
    match d.updating, d.updates with
    | none, job :: rest => some { d with updates := rest, updating := readUpdate cfg host s job }
    | _, _ => none
  | .requestMissing => let d := s.daemons host
    d.updating.map fun job => { d with updating := none, inserts := d.inserts ++ [⟨job, true⟩] }

def Fleet.beginStream (s : Fleet Job Host) (host : Host) (n : Reading Job) (claimed : Bool) :
    Fleet Job Host :=
  { s.setDaemon host { s.daemons host with
    reading := none, claimed := some ⟨n.id, n.isInit, 0⟩ } with
    begun := s.begun ++ [⟨n.id, host, n.generateMissing, n.isInit, claimed⟩] }

def startRow (row : JobRow) : JobRow := { row with initStartedAt := true }

/-- `UPDATE … SET init_started_at=NOW() WHERE init_started_at IS NULL AND id=$1`. -/
def Fleet.claim (s : Fleet Job Host) (host : Host) (n : Reading Job) : Fleet Job Host :=
  if n.isInit then
    let updated := (s.jobs n.id).any fun row => !row.initStartedAt
    if !updated && !n.generateMissing then s.setDaemon host { s.daemons host with reading := none }
    else (s.beginStream host n updated).updateJob n.id startRow
  else s.beginStream host n false

def Daemon.begun (d : Daemon Job) : List (Stream Job) := d.streams ++ d.claimed.toList

def Fleet.crash (s : Fleet Job Host) (host : Host) : Fleet Job Host :=
  { s.setDaemon host Daemon.off with
    interrupted := s.interrupted ++ ((s.daemons host).begun.filter fun st =>
    st.isInit).map Stream.id }

def Daemon.without (d : Daemon Job) (i : ℕ) : Daemon Job :=
  { d with streams := d.streams.eraseIdx i }

def finishRow (row : JobRow) : JobRow := { row with initFinishedAt := true, initProgress := 100 }

/-- `… WHERE id=$2 AND init_finished_at IS NULL` -/
def failRow (reason : String) (row : JobRow) : JobRow :=
  if row.initFinishedAt then row
    else { row with initFailedAt := true, initFailureReason := some reason }

/-- The end of a stream; the table is changed for initial streams only. -/
def Fleet.endStream (s : Fleet Job Host) (host : Host) (i : ℕ) (st : Stream Job) (result : End) :
    Fleet Job Host :=
  let s' := s.setDaemon host ((s.daemons host).without i)
  if st.isInit then
    match result with
    | .finished => s'.updateJob st.id finishRow
    | .failed reason => s'.updateJob st.id (failRow reason)
    | .abandoned => { s' with interrupted := s.interrupted ++ [st.id] }
  else s'

def Fleet.progress (s : Fleet Job Host) (host : Host) (i : ℕ) (st : Stream Job) (progress : ℕ) :
    Fleet Job Host :=
  let d := s.daemons host
  (s.setDaemon host { d with
    streams := d.streams.set i { st with progress := progress } }).updateJob st.id
    fun row => { row with initProgress := progress }

def step (s : Fleet Job Host) : Action Job Host → Option (Fleet Job Host)
  | .insertJob job label => if (s.jobs job).isSome then none else some (s.insertJob job label)
  | .change job change => (s.jobs job).map fun row =>
      (s.notifyUpdate job (change.announced row)).updateJob job change.apply
  | .own host own => (ownStep cfg s host own).map (s.setDaemon host)
  | .claim host =>
    if (s.daemons host).claimed.isNone then (s.daemons host).reading.map (s.claim host) else none
  | .crash host => if (s.daemons host).running then some (s.crash host) else none
  | .progress host i progress => (s.daemons host).streams[i]?.bind fun st =>
      if st.isInit && decide (st.progress < progress) && decide (progress ≤ 100) then
        some (s.progress host i st progress)
      else none
  | .endStream host i result =>
    (s.daemons host).streams[i]?.map fun st => s.endStream host i st result

def Fleet.empty : Fleet Job Host := ⟨fun _ => none, [], fun _ => Daemon.off, [], []⟩

def fleet : System (Fleet Job Host) := actionSystem (· = Fleet.empty) (step cfg) fun _ _ => True

def after (s : Fleet Job Host) : System (Fleet Job Host) :=
  actionSystem (· = s) (step cfg) fun _ _ => True

end Steps

/-- The ways in which one step changes the row of one job. -/
inductive RowStep : Option JobRow → Option JobRow → Prop where
  | same (row : Option JobRow) : RowStep row row
  | inserted (label : Option String) : RowStep none (some (newRow label))
  | changed (row : JobRow) (change : Change) : RowStep (some row) (some (change.apply row))
  | started (row : JobRow) : RowStep (some row) (some (startRow row))
  | progressed (row : JobRow) (progress : ℕ) :
    RowStep (some row) (some { row with initProgress := progress })
  | finished (row : JobRow) : RowStep (some row) (some (finishRow row))
  | failed (row : JobRow) (reason : String) : RowStep (some row) (some (failRow reason row))

section Rows
variable {Job Host : Type} {s t : Fleet Job Host}

theorem jobs_notifyUpdate (job : Job) (announced : Bool) :
    (s.notifyUpdate job announced).jobs = s.jobs := by
  unfold Fleet.notifyUpdate
  split_ifs <;> rfl

variable [DecidableEq Job]

theorem rowStep_updateJob {f : JobRow → JobRow} (hf : ∀ row, RowStep (some row) (some (f row)))
    (job k : Job) :
    RowStep (s.jobs k) ((s.updateJob job f).jobs k) := by
  unfold Fleet.updateJob
  dsimp only
  by_cases hk : k = job
  · subst hk
    rw [Function.update_self]
    cases s.jobs k with
    | none => exact .same none
    | some row => exact hf row
  · rw [Function.update_of_ne hk]
    exact .same _

theorem rowStep_insertJob {job : Job} (hnew : s.jobs job = none) (label : Option String) (k : Job) :
    RowStep (s.jobs k) ((s.insertJob job label).jobs k) := by
  unfold Fleet.insertJob
  dsimp only
  by_cases hk : k = job
  · rw [hk, Function.update_self, hnew]
    exact .inserted label
  · rw [Function.update_of_ne hk]
    exact .same _

variable [DecidableEq Host] {cfg : Config Job Host}

theorem rowStep_claim (host : Host) (n : Reading Job) (k : Job) :
    RowStep (s.jobs k) ((s.claim host n).jobs k) := by
  unfold Fleet.claim
  dsimp only
  split_ifs
  · exact .same _
  · exact rowStep_updateJob (s := s.beginStream host n _) (fun row => .started row) n.id k
  · exact .same _

theorem rowStep_endStream (host : Host) (i : ℕ) (st : Stream Job) (result : End) (k : Job) :
    RowStep (s.jobs k) ((s.endStream host i st result).jobs k) := by
  unfold Fleet.endStream
  dsimp only
  split_ifs
  · cases result with
    | finished =>
      exact rowStep_updateJob (s := s.setDaemon host _) (fun row => .finished row) st.id k
    | failed reason =>
      exact rowStep_updateJob (s := s.setDaemon host _) (fun row => .failed row reason) st.id k
    | abandoned => exact .same _
  · exact .same _

theorem rowStep_progress (host : Host) (i : ℕ) (st : Stream Job) (progress : ℕ) (k : Job) :
    RowStep (s.jobs k) ((s.progress host i st progress).jobs k) :=
  rowStep_updateJob (s := s.setDaemon host _) (fun row => .progressed row progress) st.id k

theorem step_progress {host : Host} {i progress : ℕ}
    (h : step cfg s (.progress host i progress) = some t) :
    ∃ st, (s.daemons host).streams[i]? = some st ∧ st.isInit = true ∧
      t = s.progress host i st progress := by
  obtain ⟨st, hst, h⟩ := Option.bind_eq_some_iff.mp h
  split_ifs at h with hguard
  simp only [Bool.and_eq_true] at hguard
  exact ⟨st, hst, hguard.1.1, (Option.some.inj h).symm⟩

theorem step_claim {host : Host} (h : step cfg s (.claim host) = some t) :
    ∃ n, (s.daemons host).reading = some n ∧
      (s.daemons host).claimed = none ∧ t = s.claim host n := by
  simp only [step] at h
  split_ifs at h with hfree
  obtain ⟨n, hn, rfl⟩ := Option.map_eq_some_iff.mp h
  exact ⟨n, hn, Option.isNone_iff_eq_none.mp hfree, rfl⟩

theorem step_rows {a : Action Job Host} (h : step cfg s a = some t) (k : Job) :
    RowStep (s.jobs k) (t.jobs k) := by
  cases a with
  | insertJob job label =>
    simp only [step] at h
    split_ifs at h with hnew
    cases h
    exact rowStep_insertJob (Option.not_isSome_iff_eq_none.mp hnew) label k
  | change job change =>
    obtain ⟨row, -, rfl⟩ := Option.map_eq_some_iff.mp h
    exact jobs_notifyUpdate (s := s) job _ ▸
      rowStep_updateJob (fun row => .changed row change) job k
  | own host own =>
    obtain ⟨d, -, rfl⟩ := Option.map_eq_some_iff.mp h
    exact .same _
  | claim host =>
    obtain ⟨n, -, -, rfl⟩ := step_claim h
    exact rowStep_claim host n k
  | crash host =>
    simp only [step] at h
    split_ifs at h
    cases h
    exact .same _
  | progress host i progress =>
    obtain ⟨st, -, -, rfl⟩ := step_progress h
    exact rowStep_progress host i st progress k
  | endStream host i result =>
    obtain ⟨st, -, rfl⟩ := Option.map_eq_some_iff.mp h
    exact rowStep_endStream host i st result k

structure Lasts (row row' : JobRow) : Prop where
  started : row.initStartedAt = true → row'.initStartedAt = true
  finished : row.initFinishedAt = true → row'.initFinishedAt = true
  failed : row.initFailedAt = true → row'.initFailedAt = true
  safe : row.initFinishedAt = true → row'.initFailedAt = true → row.initFailedAt = true

theorem Lasts.trans {row row' row'' : JobRow} (h : Lasts row row') (h' : Lasts row' row'') :
    Lasts row row'' where
  started := fun hrow => h'.started (h.started hrow)
  finished := fun hrow => h'.finished (h.finished hrow)
  failed := fun hrow => h'.failed (h.failed hrow)
  safe := fun hfinished hfailed => h.safe hfinished (h'.safe (h.finished hfinished) hfailed)

theorem lasts_failRow (row : JobRow) (reason : String) : Lasts row (failRow reason row) := by
  unfold failRow
  split_ifs with hfinished
  · exact ⟨id, id, id, fun _ => id⟩
  · exact ⟨id, id, fun _ => rfl, fun h => absurd h hfinished⟩

theorem lasts_change (row : JobRow) (change : Change) : Lasts row (change.apply row) := by
  cases change <;> exact ⟨id, id, id, fun _ => id⟩

theorem RowStep.lasts {row : JobRow} {next : Option JobRow} (h : RowStep (some row) next) :
    ∃ row', next = some row' ∧ Lasts row row' := by
  cases h with
  | same => exact ⟨row, rfl, ⟨id, id, id, fun _ => id⟩⟩
  | changed _ change => exact ⟨_, rfl, lasts_change row change⟩
  | started => exact ⟨_, rfl, ⟨fun _ => rfl, id, id, fun _ => id⟩⟩
  | progressed _ progress => exact ⟨_, rfl, ⟨id, id, id, fun _ => id⟩⟩
  | finished => exact ⟨_, rfl, ⟨id, fun _ => rfl, id, fun _ => id⟩⟩
  | failed _ reason => exact ⟨_, rfl, lasts_failRow row reason⟩

theorem lasts_of_after (h : Reachable (after cfg s) t) {job : Job} {row : JobRow}
    (hrow : s.jobs job = some row) :
    ∃ row', t.jobs job = some row' ∧ Lasts row row' := by
  induction h with
  | start hs =>
    cases hs
    exact ⟨row, hrow, ⟨id, id, id, fun _ => id⟩⟩
  | next _ hstep ih =>
    obtain ⟨a, -, hstep⟩ := hstep
    obtain ⟨row', hrow', hlasts⟩ := ih
    have hnext := step_rows hstep job
    rw [hrow'] at hnext
    obtain ⟨row'', hrow'', hlasts'⟩ := hnext.lasts
    exact ⟨row'', hrow'', hlasts.trans hlasts'⟩

theorem reachable_after (hs : Reachable (fleet cfg) s) (h : Reachable (after cfg s) t) :
    Reachable (fleet cfg) t := by
  induction h with
  | start h =>
    cases h
    exact hs
  | next _ hstep ih => exact .next ih hstep

end Rows

section Status
variable {row row' : JobRow}

theorem status_eq_failed : row.status = .failed ↔ row.initFailedAt = true := by
  unfold JobRow.status
  split_ifs <;> simp_all

theorem status_eq_enabled :
    row.status = .enabled ↔ row.initFailedAt = false ∧ row.canceledAt = false ∧
      row.initFinishedAt = true := by
  unfold JobRow.status
  split_ifs <;> simp_all

theorem status_eq_inProgress :
    row.status = .inProgress ↔
      row.initFailedAt = false ∧ row.canceledAt = false ∧ row.initFinishedAt = false ∧
        row.initStartedAt = true := by
  unfold JobRow.status
  split_ifs <;> simp_all

theorem status_ne_queued (h : row.initStartedAt = true) : row.status ≠ .queued := by
  unfold JobRow.status
  split_ifs <;> simp_all

theorem Lasts.enabled (h : Lasts row row') (henabled : row.status = .enabled) :
    row'.status = .enabled ∨ row'.status = .canceled := by
  obtain ⟨hfailed, -, hfinished⟩ := status_eq_enabled.mp henabled
  have hfinished' := h.finished hfinished
  have hfailed' : row'.initFailedAt = false := by
    by_contra hne
    exact absurd (h.safe hfinished (Bool.not_eq_false _ ▸ hne)) (hfailed ▸ Bool.false_ne_true)
  unfold JobRow.status
  simp only [hfailed', hfinished', Bool.false_eq_true, if_false, if_true]
  split_ifs
  · exact .inr rfl
  · exact .inl rfl

end Status

end Lantern.JobFleet
