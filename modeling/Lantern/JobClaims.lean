import Lantern.JobFleet

set_option autoImplicit false

/-!
# Who streams a job

Which daemon streams the initial rows of a job is settled by the update that sets
`init_started_at`: it changes the row for one daemon only. The streams that are begun, the
columns of the row and the streams that run are kept in step with one another.
-/
namespace Lantern.JobFleet
open SystemRuns

structure Phase where
  started : Bool
  finished : Bool
  failed : Bool
  reason : Option String
  deriving DecidableEq, Repr

def phaseOf : Option JobRow → Phase
  | some row => ⟨row.initStartedAt, row.initFinishedAt, row.initFailedAt, row.initFailureReason⟩
  | none => ⟨false, false, false, none⟩

structure Phase.Ordered (p : Phase) : Prop where
  finished : p.finished = true → p.started = true
  failed : p.failed = true → p.started = true
  reason : p.reason.isSome = p.failed

def Daemon.initials {Job : Type} (d : Daemon Job) : List Job :=
  (d.begun.filter fun st => st.isInit).map Stream.id

def Fleet.Streaming {Job Host : Type} (s : Fleet Job Host) (job : Job) : Prop :=
  ∃ host, job ∈ (s.daemons host).initials

section Initials
variable {Job Host : Type} {s : Fleet Job Host}

theorem initials_hearInsert (job : Job) (d : Daemon Job) :
    (d.hearInsert job).initials = d.initials := by
  unfold Daemon.hearInsert
  split_ifs <;> rfl

theorem initials_notifyUpdate (job : Job) (changed : Bool) (host : Host) :
    ((s.notifyUpdate job changed).daemons host).initials = (s.daemons host).initials := by
  unfold Fleet.notifyUpdate
  split_ifs
  · dsimp only
    unfold Daemon.hearUpdate
    split_ifs <;> rfl
  · rfl

variable [DecidableEq Host] {host : Host} {d : Daemon Job}

theorem initials_setDaemon (h : d.initials = (s.daemons host).initials) (other : Host) :
    ((s.setDaemon host d).daemons other).initials = (s.daemons other).initials := by
  unfold Fleet.setDaemon
  dsimp only
  by_cases hother : other = host
  · rw [hother, Function.update_self, h]
  · rw [Function.update_of_ne hother]

variable {job : Job}

theorem streaming_setDaemon (h : (s.setDaemon host d).Streaming job) : job ∈ d.initials ∨
      s.Streaming job := by
  obtain ⟨other, hjob⟩ := h
  unfold Fleet.setDaemon at hjob
  dsimp only at hjob
  by_cases hother : other = host
  · rw [hother, Function.update_self] at hjob
    exact .inl hjob
  · rw [Function.update_of_ne hother] at hjob
    exact .inr ⟨other, hjob⟩

theorem Fleet.Streaming.setDaemon (h : s.Streaming job)
    (hkept : job ∈ (s.daemons host).initials → job ∈ d.initials) :
    (s.setDaemon host d).Streaming job := by
  obtain ⟨other, hjob⟩ := h
  by_cases hother : other = host
  · subst hother
    refine ⟨other, ?_⟩
    unfold Fleet.setDaemon
    dsimp only
    rw [Function.update_self]
    exact hkept hjob
  · refine ⟨other, ?_⟩
    unfold Fleet.setDaemon
    dsimp only
    rwa [Function.update_of_ne hother]

theorem mem_initials_setDaemon {job : Job} (h : job ∈ d.initials) :
    (s.setDaemon host d).Streaming job := by
  refine ⟨host, ?_⟩
  unfold Fleet.setDaemon
  dsimp only
  rwa [Function.update_self]

theorem initials_claimed (hfree : d.claimed = none) (n : Reading Job) :
    ({ d with reading := none, claimed := some ⟨n.id, n.isInit, 0⟩ } : Daemon Job).initials =
      d.initials ++ if n.isInit then [n.id] else [] := by
  unfold Daemon.initials Daemon.begun
  rw [hfree]
  cases hinit : n.isInit <;> simp [List.filter_append]

section Ends
variable {i : ℕ} {st : Stream Job}

theorem initials_set (h : d.streams[i]? = some st) (progress : ℕ) :
    ({ d with streams := d.streams.set i { st with progress := progress } } : Daemon Job).initials =
    d.initials := by
  unfold Daemon.initials Daemon.begun
  simp only [List.filter_append, List.map_append]
  congr 1
  generalize d.streams = streams at h ⊢
  induction streams generalizing i with
  | nil => rfl
  | cons other streams ih =>
    cases i with
    | zero =>
      cases h
      rw [List.set_cons_zero, List.filter_cons, List.filter_cons]
      split_ifs <;> rfl
    | succ i =>
      rw [List.getElem?_cons_succ] at h
      rw [List.set_cons_succ, List.filter_cons, List.filter_cons]
      split_ifs
      · rw [List.map_cons, List.map_cons, ih h]
      · exact ih h

theorem initials_without_subset : (d.without i).initials ⊆ d.initials :=
  List.map_subset _ (List.filter_subset _ (List.append_subset.mpr
    ⟨fun _ h => List.mem_append_left _ (List.eraseIdx_subset h), List.subset_append_right _ _⟩))

theorem mem_initials_without (h : d.streams[i]? = some st) (hjob : job ∈ d.initials) :
    job ∈ (d.without i).initials ∨ st.isInit = true ∧ job = st.id := by
  obtain ⟨other, hother, rfl⟩ := List.mem_map.mp hjob
  obtain ⟨hin, hinit⟩ := List.mem_filter.mp hother
  obtain ⟨hi, rfl⟩ := List.getElem?_eq_some_iff.mp h
  have hperm : (d.streams[i] :: (d.without i).begun).Perm d.begun :=
    (List.getElem_cons_eraseIdx_perm hi).append_right d.claimed.toList
  rcases List.mem_cons.mp (hperm.mem_iff.mpr hin) with rfl | hrest
  · exact .inr ⟨hinit, rfl⟩
  · exact .inl (List.mem_map_of_mem (List.mem_filter.mpr ⟨hrest, hinit⟩))

theorem Fleet.Streaming.without (h : s.Streaming job) (hst : (s.daemons host).streams[i]? = some st)
    (hne : st.isInit = true → job ≠ st.id) :
    (s.setDaemon host ((s.daemons host).without i)).Streaming job := by
  refine h.setDaemon fun hin => ?_
  rcases mem_initials_without hst hin with hin | ⟨hinit, heq⟩
  · exact hin
  · exact absurd heq (hne hinit)

end Ends

end Initials

section Invariant
variable {Job Host : Type} [DecidableEq Job]

def Fleet.phase (s : Fleet Job Host) (job : Job) : Phase := phaseOf (s.jobs job)

def Fleet.claims (s : Fleet Job Host) (job : Job) : ℕ :=
  s.begun.countP fun b => b.id = job && b.claimed

structure Inv (s : Fleet Job Host) : Prop where
  claims : ∀ job, s.claims job = if (s.phase job).started then 1 else 0
  plain : ∀ b ∈ s.begun, b.isInit = true → b.generateMissing = false → b.claimed = true
  streams : ∀ job, s.Streaming job → (s.phase job).started = true
  phases : ∀ job, (s.phase job).Ordered
  busy : ∀ job, (s.phase job).started = true → (s.phase job).finished = false →
    (s.phase job).failed = false →
    s.Streaming job ∨ job ∈ s.interrupted

variable {s t : Fleet Job Host}

theorem inv_empty : Inv (Fleet.empty : Fleet Job Host) where
  claims := fun _ => rfl
  plain := fun _ hb => absurd hb List.not_mem_nil
  streams := fun _ ⟨_, hjob⟩ => absurd hjob List.not_mem_nil
  phases := fun _ => ⟨id, id, rfl⟩
  busy := fun _ hstarted => absurd hstarted Bool.false_ne_true

theorem Inv.still (h : Inv s) (hphase : ∀ job, t.phase job = s.phase job)
    (hinitials : ∀ host, (t.daemons host).initials = (s.daemons host).initials)
    (hbegun : ∃ more, t.begun = s.begun ++ more ∧ ∀ b ∈ more, b.isInit = false ∧ b.claimed = false)
    (hinterrupted : t.interrupted = s.interrupted) : Inv t := by
  obtain ⟨more, hbegun, hmore⟩ := hbegun
  have hstreaming : ∀ job, t.Streaming job ↔ s.Streaming job := by
    intro job
    unfold Fleet.Streaming
    simp only [hinitials]
  constructor
  · intro job
    have hnone : more.countP (fun b => b.id = job && b.claimed) = 0 := by
      refine List.countP_eq_zero.mpr fun b hb => ?_
      simp only [(hmore b hb).2, Bool.and_false, Bool.false_eq_true, not_false_eq_true]
    rw [hphase, ← h.claims job, Fleet.claims, hbegun, List.countP_append, hnone, add_zero]
    rfl
  · intro b hb hinit hplain
    rw [hbegun, List.mem_append] at hb
    rcases hb with hb | hb
    · exact h.plain b hb hinit hplain
    · exact absurd hinit ((hmore b hb).1 ▸ Bool.false_ne_true)
  · intro job hjob
    rw [hphase]
    exact h.streams job ((hstreaming job).mp hjob)
  · intro job
    rw [hphase]
    exact h.phases job
  · intro job
    rw [hphase, hstreaming, hinterrupted]
    exact h.busy job

theorem phase_updateJob (job k : Job) (f : JobRow → JobRow) :
    (s.updateJob job f).phase k = if k = job then phaseOf ((s.jobs job).map f) else s.phase k := by
  unfold Fleet.phase Fleet.updateJob
  dsimp only
  split_ifs with hk
  · rw [hk, Function.update_self]
  · rw [Function.update_of_ne hk]

theorem phase_updateJob_same {f : JobRow → JobRow}
    (hf : ∀ row, phaseOf (some (f row)) = phaseOf (some row)) (job k : Job) :
    (s.updateJob job f).phase k = s.phase k := by
  rw [phase_updateJob]
  split_ifs with hk
  · subst hk
    unfold Fleet.phase
    cases s.jobs k with
    | none => rfl
    | some row => exact hf row
  · rfl

theorem Inv.changed (h : Inv s) (job : Job) (announced : Bool) (change : Change) :
    Inv ((s.notifyUpdate job announced).updateJob job change.apply) := by
  have hf : ∀ row, phaseOf (some (change.apply row)) = phaseOf (some row) := by
    intro row
    cases change <;> rfl
  refine h.still (fun k => ?_) (initials_notifyUpdate job announced) ⟨[], ?_, fun _ hb =>
    absurd hb List.not_mem_nil⟩ ?_
  · rw [phase_updateJob_same hf, Fleet.phase, jobs_notifyUpdate]
    rfl
  · unfold Fleet.notifyUpdate
    split_ifs <;> exact (List.append_nil _).symm
  · unfold Fleet.notifyUpdate
    split_ifs <;> rfl

theorem Inv.inserted (h : Inv s) {job : Job} {label : Option String} (hnew : s.jobs job = none) :
    Inv (s.insertJob job label) := by
  refine h.still (fun k => ?_) (fun host => initials_hearInsert job _)
    ⟨[], ?_, fun _ hb => absurd hb List.not_mem_nil⟩ rfl
  · unfold Fleet.phase Fleet.insertJob
    dsimp only
    by_cases hk : k = job
    · rw [hk, Function.update_self, hnew]
      rfl
    · rw [Function.update_of_ne hk]
  · exact (List.append_nil _).symm

section Daemons
variable [DecidableEq Host] {host : Host} {d : Daemon Job}

theorem Inv.setDaemon (h : Inv s) (hinitials : d.initials = (s.daemons host).initials) :
    Inv (s.setDaemon host d) :=
  h.still (fun _ => rfl) (initials_setDaemon hinitials)
    ⟨[], (List.append_nil _).symm, fun _ hb => absurd hb List.not_mem_nil⟩ rfl

theorem phase_beginStream (host : Host) (n : Reading Job) (claimed : Bool) (k : Job) :
    ((s.beginStream host n claimed).updateJob n.id startRow).phase k =
      if k = n.id ∧ (s.jobs n.id).isSome then
        { s.phase n.id with started := true } else s.phase k := by
  rw [phase_updateJob]
  change (if k = n.id then phaseOf ((s.jobs n.id).map _) else s.phase k) = _
  by_cases hk : k = n.id
  · subst hk
    unfold Fleet.phase
    cases s.jobs n.id <;> simp [phaseOf, startRow]
  · simp [hk]

theorem claims_beginStream (host : Host) (n : Reading Job) (claimed : Bool) (k : Job) :
    ((s.beginStream host n claimed).updateJob n.id startRow).claims k =
      s.claims k + if n.id = k && claimed then 1 else 0 := by
  change List.countP _ (s.begun ++ [_]) = _
  rw [List.countP_append, List.countP_singleton]
  rfl

theorem Inv.beginStream (h : Inv s) {n : Reading Job} {row : JobRow}
    (hfree : (s.daemons host).claimed = none) (hrow : s.jobs n.id = some row)
    (hinit : n.isInit = true) (hclaim : n.generateMissing = false → row.initStartedAt = false) :
    Inv ((s.beginStream host n !row.initStartedAt).updateJob n.id startRow) := by
  have hphase := phase_beginStream (s := s) host n !row.initStartedAt
  simp only [hrow, Option.isSome_some, and_true] at hphase
  have hstarted : (s.phase n.id).started = row.initStartedAt := by
    rw [Fleet.phase, hrow]
    rfl
  have hinitials := initials_claimed hfree n
  rw [if_pos hinit] at hinitials
  constructor
  · intro job
    rw [claims_beginStream, hphase, h.claims job]
    by_cases hjob : job = n.id
    · subst hjob
      rw [hstarted]
      cases row.initStartedAt <;> simp
    · simp [hjob, Ne.symm hjob]
  · intro b hb hbinit hbplain
    rcases List.mem_append.mp hb with hb | hb
    · exact h.plain b hb hbinit hbplain
    · rw [List.mem_singleton.mp hb] at hbplain ⊢
      change (!row.initStartedAt) = true
      rw [hclaim hbplain]
      rfl
  · intro job hjob
    rw [hphase]
    split_ifs with heq
    · rfl
    · rcases streaming_setDaemon hjob with hin | hstreaming
      · rw [hinitials, List.mem_append, List.mem_singleton] at hin
        exact h.streams job ⟨host, hin.resolve_right heq⟩
      · exact h.streams job hstreaming
  · intro job
    rw [hphase]
    split_ifs with heq
    · exact ⟨fun _ => rfl, fun _ => rfl, (h.phases n.id).reason⟩
    · exact h.phases job
  · intro job hs hf hfail
    by_cases heq : job = n.id
    · refine .inl (mem_initials_setDaemon ?_)
      rw [hinitials, heq]
      exact List.mem_append_right _ List.mem_cons_self
    · rw [hphase, if_neg heq] at hs hf hfail
      refine (h.busy job hs hf hfail).imp (fun hstreaming => ?_) id
      refine hstreaming.setDaemon fun hin => ?_
      rw [hinitials]
      exact List.mem_append_left _ hin

theorem Inv.claim (h : Inv s) {n : Reading Job} (hfree : (s.daemons host).claimed = none)
    (hrow : (s.jobs n.id).isSome) : Inv (s.claim host n) := by
  obtain ⟨row, hrow⟩ := Option.isSome_iff_exists.mp hrow
  unfold Fleet.claim
  dsimp only
  rw [hrow, Option.any_some]
  split_ifs with hinit hdrop
  · exact h.setDaemon rfl
  · refine h.beginStream hfree hrow hinit fun hplain => ?_
    simpa [hplain] using hdrop
  · refine h.still (fun _ => rfl) (initials_setDaemon ?_) ⟨_, rfl, fun b hb => ?_⟩ rfl
    · rw [initials_claimed hfree, if_neg hinit, List.append_nil]
    · rw [List.mem_singleton.mp hb]
      exact ⟨Bool.eq_false_iff.mpr hinit, rfl⟩

section Ends
variable {i : ℕ} {st : Stream Job}

theorem Inv.progress (h : Inv s) (hst : (s.daemons host).streams[i]? = some st) (progress : ℕ) :
    Inv (s.progress host i st progress) := by
  refine h.still (fun k => ?_) (initials_setDaemon (initials_set hst progress))
    ⟨[], (List.append_nil _).symm, fun _ hb => absurd hb List.not_mem_nil⟩ rfl
  unfold Fleet.progress
  rw [phase_updateJob_same]
  · rfl
  · exact fun _ => rfl

theorem Inv.ended (h : Inv s) (hst : (s.daemons host).streams[i]? = some st)
    (hdaemons : t.daemons = (s.setDaemon host ((s.daemons host).without i)).daemons)
    (hbegun : t.begun = s.begun) (hstarted : ∀ k, (t.phase k).started = (s.phase k).started)
    (hordered : ∀ k, (t.phase k).Ordered)
    (hother : ∀ k, (st.isInit = true → k ≠ st.id) → t.phase k = s.phase k)
    (hgone : st.isInit = true →
      (t.phase st.id).finished = true ∨ (t.phase st.id).failed = true ∨ st.id ∈ t.interrupted)
    (hinterrupted : s.interrupted ⊆ t.interrupted) : Inv t := by
  have hstreaming : ∀ k, t.Streaming k ↔
      (s.setDaemon host ((s.daemons host).without i)).Streaming k := by
    intro k
    unfold Fleet.Streaming
    rw [hdaemons]
  constructor
  · intro k
    rw [hstarted, ← h.claims k, Fleet.claims, hbegun]
    rfl
  · rw [hbegun]
    exact h.plain
  · intro k hk
    rw [hstarted]
    rcases streaming_setDaemon ((hstreaming k).mp hk) with hin | hin
    · exact h.streams k ⟨host, initials_without_subset hin⟩
    · exact h.streams k hin
  · exact hordered
  · intro k hs hf hfail
    by_cases hk : st.isInit = true ∧ k = st.id
    · obtain ⟨hinit, rfl⟩ := hk
      rcases hgone hinit with hfinished | hfailed | hin
      · exact absurd hf (hfinished ▸ Bool.false_ne_true.symm)
      · exact absurd hfail (hfailed ▸ Bool.false_ne_true.symm)
      · exact .inr hin
    · have hne : st.isInit = true → k ≠ st.id := fun hinit heq => hk ⟨hinit, heq⟩
      rw [hother k hne] at hs hf hfail
      refine (h.busy k hs hf hfail).imp (fun hk' => ?_) (fun hin => hinterrupted hin)
      exact (hstreaming k).mpr (hk'.without hst hne)

theorem Inv.recorded (h : Inv s) (hst : (s.daemons host).streams[i]? = some st)
    (hinit : st.isInit = true) {f : JobRow → JobRow}
    (hstarted : ∀ row, (f row).initStartedAt = row.initStartedAt)
    (hordered : ∀ row : JobRow, row.initStartedAt = true → (phaseOf (some row)).Ordered →
      (phaseOf (some (f row))).Ordered)
    (hgone : ∀ row, (f row).initFinishedAt = true ∨ (f row).initFailedAt = true) :
    Inv ((s.setDaemon host ((s.daemons host).without i)).updateJob st.id f) := by
  have hin : st.id ∈ (s.daemons host).initials :=
    List.mem_map_of_mem
      (List.mem_filter.mpr ⟨List.mem_append_left _ (List.mem_of_getElem? hst), hinit⟩)
  have hs := h.streams st.id ⟨host, hin⟩
  obtain ⟨row, hrow⟩ : ∃ row, s.jobs st.id = some row := by
    cases hcases : s.jobs st.id with
    | none =>
      rw [Fleet.phase, hcases] at hs
      exact absurd hs Bool.false_ne_true
    | some row => exact ⟨row, rfl⟩
  have hphase : ∀ k, ((s.setDaemon host ((s.daemons host).without i)).updateJob st.id f).phase k =
      if k = st.id then phaseOf (some (f row)) else s.phase k := by
    intro k
    rw [phase_updateJob]
    change (if k = st.id then phaseOf ((s.jobs st.id).map f) else s.phase k) = _
    rw [hrow]
    rfl
  have hrowPhase : s.phase st.id = phaseOf (some row) := congrArg phaseOf hrow
  refine h.ended hst rfl rfl (fun k => ?_) (fun k => ?_) (fun k hne => ?_)
    (fun _ => ?_) (fun _ hin => hin)
  · rw [hphase]
    split_ifs with hk
    · rw [hk, hrowPhase]
      exact hstarted row
    · rfl
  · rw [hphase]
    split_ifs with hk
    · rw [hrowPhase] at hs
      exact hordered row hs (hrowPhase ▸ h.phases st.id)
    · exact h.phases k
  · rw [hphase, if_neg (hne hinit)]
  · rw [hphase, if_pos rfl]
    exact (hgone row).imp id .inl

theorem Inv.finished (h : Inv s) (hst : (s.daemons host).streams[i]? = some st)
    (hinit : st.isInit = true) :
    Inv ((s.setDaemon host ((s.daemons host).without i)).updateJob st.id finishRow) :=
  h.recorded hst hinit (fun _ => rfl) (fun _ hs ho => ⟨fun _ => hs, ho.failed, ho.reason⟩) fun _ =>
    .inl rfl

theorem Inv.failed (h : Inv s) (hst : (s.daemons host).streams[i]? = some st)
    (hinit : st.isInit = true) (reason : String) :
    Inv ((s.setDaemon host ((s.daemons host).without i)).updateJob st.id (failRow reason)) := by
  refine h.recorded hst hinit (fun row => ?_) (fun row hs ho => ?_) fun row => ?_
  · unfold failRow
    split_ifs <;> rfl
  · unfold failRow
    split_ifs
    · exact ho
    · exact ⟨ho.finished, fun _ => hs, rfl⟩
  · unfold failRow
    split_ifs with hfinished
    · exact .inl hfinished
    · exact .inr rfl

theorem Inv.endStream (h : Inv s) (hst : (s.daemons host).streams[i]? = some st) (result : End) :
    Inv (s.endStream host i st result) := by
  unfold Fleet.endStream
  dsimp only
  split_ifs with hinit
  · cases result with
    | finished => exact h.finished hst hinit
    | failed reason => exact h.failed hst hinit reason
    | abandoned =>
      refine h.ended hst rfl rfl (fun _ => rfl) h.phases (fun _ _ => rfl)
        (fun _ => ?_) (List.subset_append_left _ _)
      exact .inr (.inr (List.mem_append_right _ List.mem_cons_self))
  · refine h.ended hst rfl rfl (fun _ => rfl) h.phases (fun _ _ => rfl)
      (fun htrue => ?_) (fun _ hin => hin)
    exact absurd htrue hinit

theorem Inv.crash (h : Inv s) (host : Host) : Inv (s.crash host) := by
  constructor
  · exact h.claims
  · exact h.plain
  · intro k hk
    rcases streaming_setDaemon hk with hin | hin
    · exact absurd hin List.not_mem_nil
    · exact h.streams k hin
  · exact h.phases
  · intro k hs hf hfail
    rcases h.busy k hs hf hfail with ⟨other, hin⟩ | hin
    · by_cases hother : other = host
      · subst hother
        exact .inr (List.mem_append_right _ hin)
      · refine .inl ⟨other, ?_⟩
        change k ∈ (Function.update s.daemons host Daemon.off other).initials
        rwa [Function.update_of_ne hother]
    · exact .inr (List.mem_append_left _ hin)

end Ends

end Daemons

end Invariant

section Runs
variable {Job Host : Type} {s t : Fleet Job Host}

def Fleet.Reads (s : Fleet Job Host) : Prop :=
  ∀ host n, (s.daemons host).reading = some n → (s.jobs n.id).isSome

theorem reading_notifyUpdate (job : Job) (announced : Bool) (host : Host) :
    ((s.notifyUpdate job announced).daemons host).reading = (s.daemons host).reading := by
  unfold Fleet.notifyUpdate
  split_ifs
  · dsimp only
    unfold Daemon.hearUpdate
    split_ifs <;> rfl
  · rfl

theorem isSome_of_readJob {cfg : Config Job Host} {host : Host} {n : Insert Job} {r : Reading Job}
    (h : readJob cfg host s n = some r) : (s.jobs r.id).isSome := by
  unfold readJob at h
  split at h
  · next row hrow =>
    split_ifs at h
    cases h
    rw [hrow]
    rfl
  · cases h

section Hosts
variable [DecidableEq Host] {cfg : Config Job Host}

theorem reading_setDaemon {host other : Host} {d : Daemon Job} {n : Reading Job}
    (h : ((s.setDaemon host d).daemons other).reading = some n) :
    d.reading = some n ∨ (s.daemons other).reading = some n := by
  unfold Fleet.setDaemon at h
  dsimp only at h
  by_cases hother : other = host
  · rw [hother, Function.update_self] at h
    exact .inl h
  · rw [Function.update_of_ne hother] at h
    exact .inr h

omit [DecidableEq Host] in
theorem ownStep_keeps {host : Host} {own : Own} {d : Daemon Job}
    (h : ownStep cfg s host own = some d) :
    d.begun = (s.daemons host).begun ∧
      ∀ n, d.reading = some n → (s.daemons host).reading = some n ∨ (s.jobs n.id).isSome := by
  cases own with
  | start =>
    simp only [ownStep] at h
    split_ifs at h
    cases h
    exact ⟨rfl, fun _ hn => .inl hn⟩
  | listen =>
    simp only [ownStep] at h
    split_ifs at h
    cases h
    exact ⟨rfl, fun _ hn => .inl hn⟩
  | collect =>
    simp only [ownStep] at h
    split_ifs at h
    cases h
    exact ⟨rfl, fun _ hn => .inl hn⟩
  | takeInsert =>
    simp only [ownStep] at h
    split at h
    · cases h
      exact ⟨rfl, fun _ hn => .inr (isSome_of_readJob hn)⟩
    · cases h
  | spawn =>
    obtain ⟨st, hst, rfl⟩ := Option.map_eq_some_iff.mp h
    refine ⟨?_, fun _ hn => .inl hn⟩
    simp only [Daemon.begun, hst, Option.toList_none, Option.toList_some, List.append_nil]
  | takeUpdate =>
    simp only [ownStep] at h
    split at h
    · cases h
      exact ⟨rfl, fun _ hn => .inl hn⟩
    · cases h
  | requestMissing =>
    obtain ⟨job, -, rfl⟩ := Option.map_eq_some_iff.mp h
    exact ⟨rfl, fun _ hn => .inl hn⟩

end Hosts

variable [DecidableEq Job] [DecidableEq Host] {cfg : Config Job Host}

theorem step_reads {a : Action Job Host} (h : step cfg s a = some t) {host : Host} {n : Reading Job}
    (hn : (t.daemons host).reading = some n) :
    (∃ host, (s.daemons host).reading = some n) ∨ (s.jobs n.id).isSome := by
  cases a with
  | insertJob job label =>
    simp only [step] at h
    split_ifs at h
    cases h
    unfold Fleet.insertJob at hn
    dsimp only at hn
    unfold Daemon.hearInsert at hn
    split_ifs at hn <;> exact .inl ⟨host, hn⟩
  | change job change =>
    obtain ⟨row, -, rfl⟩ := Option.map_eq_some_iff.mp h
    exact .inl ⟨host, reading_notifyUpdate (s := s) job _ host ▸ hn⟩
  | own other own =>
    obtain ⟨d, hd, rfl⟩ := Option.map_eq_some_iff.mp h
    rcases reading_setDaemon hn with hn | hn
    · exact ((ownStep_keeps hd).2 n hn).imp (fun hn => ⟨other, hn⟩) id
    · exact .inl ⟨host, hn⟩
  | claim other =>
    obtain ⟨m, -, -, rfl⟩ := step_claim h
    unfold Fleet.claim at hn
    dsimp only at hn
    split_ifs at hn
    all_goals
      rcases reading_setDaemon hn with hn | hn
      · cases hn
      · exact .inl ⟨host, hn⟩
  | crash other =>
    simp only [step] at h
    split_ifs at h
    cases h
    rcases reading_setDaemon hn with hn | hn
    · cases hn
    · exact .inl ⟨host, hn⟩
  | progress other i progress =>
    obtain ⟨st, -, -, rfl⟩ := step_progress h
    exact .inl ((reading_setDaemon hn).elim (fun h => ⟨other, h⟩) fun h => ⟨host, h⟩)
  | endStream other i result =>
    obtain ⟨st, -, rfl⟩ := Option.map_eq_some_iff.mp h
    unfold Fleet.endStream at hn
    dsimp only at hn
    split_ifs at hn
    · cases result <;>
        exact .inl ((reading_setDaemon hn).elim (fun h => ⟨other, h⟩) fun h => ⟨host, h⟩)
    · exact .inl ((reading_setDaemon hn).elim (fun h => ⟨other, h⟩) fun h => ⟨host, h⟩)

theorem reads_step {a : Action Job Host} (hreads : s.Reads) (h : step cfg s a = some t) :
    t.Reads := by
  intro host n hn
  have hsome : (s.jobs n.id).isSome := by
    rcases step_reads h hn with ⟨other, hn⟩ | hsome
    · exact hreads other n hn
    · exact hsome
  obtain ⟨row, hrow⟩ := Option.isSome_iff_exists.mp hsome
  have hnext := step_rows h n.id
  rw [hrow] at hnext
  obtain ⟨row', hrow', -⟩ := hnext.lasts
  rw [hrow']
  rfl

theorem inv_step {a : Action Job Host} (hreads : s.Reads) (hinv : Inv s)
    (h : step cfg s a = some t) : Inv t := by
  cases a with
  | insertJob job label =>
    simp only [step] at h
    split_ifs at h with hnew
    cases h
    exact hinv.inserted (Option.not_isSome_iff_eq_none.mp hnew)
  | change job change =>
    obtain ⟨row, -, rfl⟩ := Option.map_eq_some_iff.mp h
    exact hinv.changed job _ change
  | own host own =>
    obtain ⟨d, hd, rfl⟩ := Option.map_eq_some_iff.mp h
    refine hinv.setDaemon ?_
    rw [Daemon.initials, (ownStep_keeps hd).1]
    rfl
  | claim host =>
    obtain ⟨n, hn, hfree, rfl⟩ := step_claim h
    exact hinv.claim hfree (hreads host n hn)
  | crash host =>
    simp only [step] at h
    split_ifs at h
    cases h
    exact hinv.crash host
  | progress host i progress =>
    obtain ⟨st, hst, -, rfl⟩ := step_progress h
    exact hinv.progress hst progress
  | endStream host i result =>
    obtain ⟨st, hst, rfl⟩ := Option.map_eq_some_iff.mp h
    exact hinv.endStream hst result

theorem reachable_inv (h : Reachable (fleet cfg) s) : Inv s := by
  have hboth : s.Reads ∧ Inv s := by
    refine h.invariant (fun s => s.Reads ∧ Inv s) ?_ ?_
    · rintro _ rfl
      exact ⟨fun _ _ hn => absurd hn (Option.some_ne_none _).symm, inv_empty⟩
    · rintro s t ⟨hreads, hinv⟩ ⟨a, -, hstep⟩
      exact ⟨reads_step hreads hstep, inv_step hreads hinv hstep⟩
  exact hboth.2

/-- Whatever the order in which daemons hear of a job, one of them sets `init_started_at`, and
    it does so once. Of the streams of the initial rows that answer the insertion of the job,
    at most one is ever begun. -/
theorem initial_stream_claimed_once (h : Reachable (fleet cfg) s) (job : Job) :
    (s.begun.countP fun b => b.id = job && b.claimed) = (if (s.phase job).started then 1 else 0) ∧
      (s.begun.countP fun b => b.id = job && b.isInit && !b.generateMissing) ≤ 1 := by
  have hinv := reachable_inv h
  have hclaims := hinv.claims job
  refine ⟨hclaims, ?_⟩
  have hle : (s.begun.countP fun b => b.id = job && b.isInit && !b.generateMissing) ≤
      s.claims job := by
    refine List.countP_mono_left fun b hb hplain => ?_
    simp only [Bool.and_eq_true, decide_eq_true_eq, Bool.not_eq_true'] at hplain ⊢
    exact ⟨hplain.1.1, hinv.plain b hb hplain.1.2 hplain.2⟩
  refine hle.trans ?_
  rw [hclaims]
  split_ifs
  · exact le_refl 1
  · exact zero_le_one

/-- A job that is in progress is being streamed, or is about to be by the daemon that set
    `init_started_at`, unless a stream of it ended without a record. -/
theorem in_progress_streamed (h : Reachable (fleet cfg) s) {job : Job} {row : JobRow}
    (hrow : s.jobs job = some row) (hstatus : row.status = .inProgress) :
    (∃ host, ∃ st, (st ∈ (s.daemons host).streams ∨ (s.daemons host).claimed = some st) ∧
      st.id = job ∧
      st.isInit = true) ∨ job ∈ s.interrupted := by
  obtain ⟨hfailed, -, hfinished, hstarted⟩ := status_eq_inProgress.mp hstatus
  have hphase : s.phase job = phaseOf (some row) := congrArg phaseOf hrow
  have hbusy := (reachable_inv h).busy job
  rw [hphase] at hbusy
  refine (hbusy hstarted hfinished hfailed).imp (fun hstreaming => ?_) id
  obtain ⟨host, hin⟩ := hstreaming
  obtain ⟨st, hst, hid⟩ := List.mem_map.mp hin
  obtain ⟨hst, hinit⟩ := List.mem_filter.mp hst
  refine ⟨host, st, (List.mem_append.mp hst).imp id ?_, hid, hinit⟩
  exact Option.mem_toList.mp

/-- A failed job is failed for good, though its rows may be streamed again and finish; an
    enabled one is later enabled or canceled; a job that was started is never queued again.
    There is an error text exactly if the status is failed. -/
theorem status_lasts (hs : Reachable (fleet cfg) s) (h : Reachable (after cfg s) t) {job : Job}
    {row : JobRow} (hrow : s.jobs job = some row) :
    ∃ row', t.jobs job = some row' ∧ (row.status = .failed → row'.status = .failed) ∧
      (row.status = .enabled → row'.status = .enabled ∨ row'.status = .canceled) ∧
      (row.initStartedAt = true → row'.status ≠ .queued) ∧
      (row'.status = .failed ↔ row'.initFailureReason.isSome = true) := by
  obtain ⟨row', hrow', hlasts⟩ := lasts_of_after h hrow
  refine ⟨row', hrow', fun hfailed => ?_, hlasts.enabled, fun hstarted =>
    status_ne_queued (hlasts.started hstarted), ?_⟩
  · exact status_eq_failed.mpr (hlasts.failed (status_eq_failed.mp hfailed))
  · have hphase : t.phase job = phaseOf (some row') := congrArg phaseOf hrow'
    have hreason := ((reachable_inv (reachable_after hs h)).phases job).reason
    rw [hphase] at hreason
    rw [status_eq_failed]
    exact (Bool.eq_iff_iff.mp hreason).symm

end Runs

def unlabelled : Config ℕ Bool := ⟨fun _ => "", fun _ => true⟩

def bothUp : List (Action ℕ Bool) :=
  [.own false .start, .own true .start, .own false .listen, .own true .listen, .own false .collect,
    .own true .collect]

def race : List (Action ℕ Bool) :=
  bothUp ++ [.insertJob 7 none, .own false .takeInsert, .own true .takeInsert,
    .claim true, .claim false, .own true .spawn]

def startedRow : JobRow := ⟨none, false, true, false, false, none, 0⟩

theorem race_runs :
    ∃ s, runActions (step unlabelled) Fleet.empty race = some s ∧ s.jobs 7 = some startedRow ∧
      s.interrupted = [] := by
  have hrun : (runActions (step unlabelled) Fleet.empty race).any
      (fun s => decide (s.jobs 7 = some startedRow ∧ s.interrupted = [])) = true := by decide
  obtain ⟨s, hs, hfacts⟩ := (Option.any_eq_true _ _).mp hrun
  exact ⟨s, hs, of_decide_eq_true hfacts⟩

theorem reachable_run {as : List (Action ℕ Bool)} {s : Fleet ℕ Bool}
    (h : runActions (step unlabelled) Fleet.empty as = some s) : Reachable (fleet unlabelled) s :=
  reachable_runActions (.start rfl) (fun _ _ _ => trivial) h

theorem race_claimed_once :
    ∃ s, Reachable (fleet unlabelled) s ∧ (s.begun.countP fun b => b.id = 7 && b.claimed) = 1 ∧
      (s.begun.countP fun b => b.id = 7 && b.isInit && !b.generateMissing) ≤ 1 := by
  obtain ⟨s, hs, hrow, -⟩ := race_runs
  have hreach := reachable_run hs
  obtain ⟨hclaims, hplain⟩ := initial_stream_claimed_once hreach 7
  refine ⟨s, hreach, ?_, hplain⟩
  rw [hclaims, Fleet.phase, hrow]
  rfl

theorem race_streamed :
    ∃ s, Reachable (fleet unlabelled) s ∧ ∃ host, ∃ st, (st ∈ (s.daemons host).streams ∨
      (s.daemons host).claimed = some st) ∧ st.id = 7 ∧ st.isInit = true := by
  obtain ⟨s, hs, hrow, hinterrupted⟩ := race_runs
  have hreach := reachable_run hs
  refine ⟨s, hreach, (in_progress_streamed hreach hrow rfl).resolve_right ?_⟩
  rw [hinterrupted]
  exact List.not_mem_nil

def again : List (Action ℕ Bool) :=
  [.change 7 .cancel, .change 7 .resume, .own true .takeUpdate, .own true .requestMissing,
    .own true .takeInsert, .claim true, .own true .spawn, .endStream true 0 .finished]

def failedRow : JobRow := ⟨none, false, true, false, true, some "no model", 0⟩

theorem again_runs :
    ∃ s t, runActions (step unlabelled) Fleet.empty
      (race ++ [.endStream true 0 (.failed "no model")]) = some s ∧
      s.jobs 7 = some failedRow ∧ runActions (step unlabelled) s again = some t := by
  have hrun : (runActions (step unlabelled) Fleet.empty
      (race ++ [.endStream true 0 (.failed "no model")])).any
      (fun s => decide (s.jobs 7 = some failedRow ∧
        (runActions (step unlabelled) s again).isSome = true)) = true := by
    decide
  obtain ⟨s, hs, hfacts⟩ := (Option.any_eq_true _ _).mp hrun
  obtain ⟨hrow, hagain⟩ := of_decide_eq_true hfacts
  obtain ⟨t, ht⟩ := Option.isSome_iff_exists.mp hagain
  exact ⟨s, t, hs, hrow, ht⟩

theorem failed_lasts :
    ∃ s t row', Reachable (after unlabelled s) t ∧ s.jobs 7 = some failedRow ∧
      t.jobs 7 = some row' ∧
      row'.status = .failed := by
  obtain ⟨s, t, hs, hrow, ht⟩ := again_runs
  have hafter : Reachable (after unlabelled s) t :=
    reachable_runActions (.start rfl) (fun _ _ _ => trivial) ht
  obtain ⟨row', hrow', hfailed, -⟩ := status_lasts (reachable_run hs) hafter hrow
  exact ⟨s, t, row', hafter, hrow, hrow', hfailed rfl⟩

end Lantern.JobFleet
