import Lantern.ClientSessions

set_option autoImplicit false

/-!
# Notification listeners: runs

The steps of signal tasks and connections keep what the requests rely on. In the
states where nothing is in progress this gives the listeners of the job.
-/
namespace Lantern.ClientJobs
open SystemRuns

section Signals
variable {s t : ClientJob} {g l : ℕ} {session : Session} {listener : Listener}

theorem Sound.signal (hs : Sound s) (hg : s.sessions g = some session)
    (hw : session.task = .waiting) {signal : ClientJobSignal} {queue : List ClientJobSignal}
    (hq : session.queue = signal :: queue) :
    Sound (handleSignal s g session signal queue) := by
  have hopening : session.task ≠ .opening := by simp [hw]
  cases signal with
  | stop =>
    obtain ⟨listener, hbind, -⟩ := (hs.core.sound g session hg).balance (.inl hw)
    obtain ⟨l, ht, hl⟩ := Option.bind_eq_some_iff.mp hbind
    have hcancel :
        s.cancel session.target = s.setListener l { listener with cancelling := true } := by
      simp only [ClientJob.cancel, ht, hl]
    rw [handleSignal, hcancel]
    refine ⟨hs.core.handleStop hg (by simp [hq]) ht hl, hs.phased.keep rfl rfl rfl ?_⟩
    exact opening_update hg hopening (by simp)
  | restart =>
    refine ⟨hs.core.handleRestart hg hw hq, hs.phased.keep rfl rfl rfl ?_⟩
    exact opening_update hg hopening (by simp)

theorem Sound.restart (hs : Sound s) (hg : s.sessions g = some session)
    (hw : session.task = .restarting) {attempt : Attempt} (ha : attempt ≠ .listenFails) :
    Sound (ClientJobs.restart s g session attempt) := by
  cases attempt with
  | connectFails => exact hs
  | listenFails => exact absurd rfl ha
  | ok =>
    have hsound := hs.core.sound g session hg
    obtain ⟨old, hbind, -, hbalance⟩ := hsound.balance (.inr hw)
    obtain ⟨l, ht, hl⟩ := Option.bind_eq_some_iff.mp hbind
    rw [hw] at hbalance
    simp only [SignalTask.restarts] at hbalance
    have hdead : ∀ l listener, s.listeners l = some listener → listener.session = g →
        listener.alive = false := by
      intro l' listener hl' hsession
      by_contra halive
      obtain ⟨σ, hσ, ht'⟩ := hs.core.owned l' listener hl' (by simpa using halive)
      rw [hsession, hg, Option.some.injEq] at hσ
      subst hσ
      rw [ht, Option.some.injEq] at ht'
      subst ht'
      rw [hl, Option.some.injEq] at hl'
      subst hl'
      have halive' : old.alive = true := by simpa using halive
      rw [halive', Bool.toNat_true] at hbalance
      omega
    have hqueue : .restart ∉ session.queue := List.count_eq_zero.mp (by omega)
    refine ⟨hs.core.opened hg hdead hqueue ?_, hs.phased.keep rfl rfl rfl ?_⟩
    · intro hr
      rcases hsound.released hr with h' | ⟨-, h'⟩
      · rw [hw] at h'
        cases h'
      · exact h'
    · exact opening_update hg (by simp [hw]) (by simp)

theorem Sound.cancelling_ended (hs : Sound s) (hl : s.listeners l = some listener)
    (halive : listener.alive = true) (hc : listener.cancelling = true) :
    ∃ session, s.sessions listener.session = some session ∧ session.target = some l ∧
      session.task = .ended := by
  obtain ⟨session, hg, ht⟩ := hs.core.owned l listener hl halive
  have hsound := hs.core.sound _ session hg
  refine ⟨session, hg, ht, ?_⟩
  have hserving : ¬ session.task.serves := by
    intro hserves
    obtain ⟨l', hbind, hc', -⟩ := hsound.balance hserves
    rw [ht, Option.bind_some, hl, Option.some.injEq] at hbind
    subst hbind
    rw [hc' halive] at hc
    cases hc
  cases htask : session.task with
  | opening =>
    rw [(hsound.opening htask).2] at ht
    cases ht
  | waiting => exact absurd (.inl htask) hserving
  | restarting => exact absurd (.inr htask) hserving
  | ended => rfl

theorem Sound.abort (hs : Sound s) (hl : s.listeners l = some listener)
    (halive : listener.alive = true) (hc : listener.cancelling = true) :
    Sound (s.setListener l { listener with alive := false }) := by
  obtain ⟨session, hg, ht, hended⟩ := hs.cancelling_ended hl halive hc
  exact ⟨hs.core.dead hg hended hl rfl ht, hs.phased.keep rfl rfl rfl fun _ => Iff.rfl⟩

theorem Sound.connectionFails (hs : Sound s) (hl : s.listeners l = some listener)
    (halive : listener.alive = true) :
    Sound (((s.setListener l { listener with alive := false }).send listener.session .restart).getD
      (s.setListener l { listener with alive := false })) := by
  obtain ⟨session, hg, ht⟩ := hs.core.owned l listener hl halive
  have hsend : (s.setListener l { listener with alive := false }).send listener.session .restart =
      if session.task = .ended then none
        else some ((s.setListener l { listener with alive := false }).setSession
        listener.session { session with queue := session.queue ++ [.restart] }) := by
    have hg' : (s.setListener l { listener with alive := false }).sessions listener.session =
      some session := hg
    simp only [ClientJob.send, hg']
  rw [hsend]
  by_cases hended : session.task = .ended
  · rw [if_pos hended]
    exact ⟨hs.core.dead hg hended hl rfl ht, hs.phased.keep rfl rfl rfl fun _ => Iff.rfl⟩
  · rw [if_neg hended]
    have hserves : session.task.serves := by
      cases htask : session.task with
      | opening =>
        rw [((hs.core.sound _ session hg).opening htask).2] at ht
        cases ht
      | waiting => exact .inl rfl
      | restarting => exact .inr rfl
      | ended => exact absurd htask hended
    refine ⟨hs.core.connectionFails hg hl rfl ht halive hserves, hs.phased.keep rfl rfl rfl ?_⟩
    exact opening_update hg (serves_ne_opening hserves) (serves_ne_opening hserves)

theorem Sound.pingFails (hs : Sound s) (hl : s.listeners l = some listener)
    (ha : listener.alive = true → listener.cancelling = true) :
    Sound (s.setListener l { listener with cancelling := true }) := by
  by_cases halive : listener.alive = true
  · have hsame : s.setListener l { listener with cancelling := true } = s := by
      have heq : { listener with cancelling := true } = listener := by
        rw [← ha halive]
      rw [heq, ClientJob.setListener, ← hl, Function.update_eq_self]
    rw [hsame]
    exact hs
  · exact ⟨hs.core.pingFails hl (by simpa using halive),
      hs.phased.keep rfl rfl rfl fun _ => Iff.rfl⟩

theorem step_sound {a : Action} (hs : Sound s) (ha : Orderly s a) (h : step s a = some t) :
    Sound t := by
  cases a with
  | request enable =>
    cases h
    exact hs.requested ha enable
  | check r =>
    simp only [step] at h
    split at h
    · rename_i request hr
      by_cases hphase : request.phase = .checking
      · rw [if_pos hphase] at h
        cases h
        exact hs.check hr hphase
      · rw [if_neg hphase] at h
        cases h
    · cases h
  | stopOld r =>
    simp only [step] at h
    split at h
    · rename_i request hr
      by_cases hphase : request.phase = .stopping
      · rw [if_pos hphase] at h
        cases h
        exact hs.stopOld hr hphase
      · rw [if_neg hphase] at h
        cases h
    · cases h
  | connect r ok =>
    simp only [step] at h
    split at h
    · rename_i request hr
      by_cases hphase : request.phase = .connecting
      · rw [if_pos hphase] at h
        cases h
        exact hs.connect hr hphase ok
      · rw [if_neg hphase] at h
        cases h
    · cases h
  | register r =>
    simp only [step] at h
    split at h
    · rename_i request hr
      by_cases hphase : request.phase = .registering
      · rw [if_pos hphase] at h
        cases h
        exact hs.register hr hphase
      · rw [if_neg hphase] at h
        cases h
    · cases h
  | listen r attempt =>
    have hok : attempt = .ok := ha
    subst hok
    simp only [step] at h
    split at h
    · rename_i request hr
      split at h
      · rename_i g hphase
        obtain ⟨session, hg, rfl⟩ := Option.map_eq_some_iff.mp h
        exact hs.listen hr hphase hg
      · cases h
    · cases h
  | remove r =>
    simp only [step] at h
    split at h
    · rename_i request hr
      by_cases hphase : request.phase = .removing
      · rw [if_pos hphase] at h
        cases h
        exact hs.remove hr hphase
      · rw [if_neg hphase] at h
        cases h
    · cases h
  | signal g =>
    simp only [step] at h
    split at h
    · rename_i session hg
      split at h
      · rename_i signal queue hw hq
        cases h
        exact hs.signal hg hw hq
      · cases h
    · cases h
  | restart g attempt =>
    simp only [step] at h
    split at h
    · rename_i session hg
      split_ifs at h with hw
      cases h
      exact hs.restart hg hw ha
    · cases h
  | connectionFails l =>
    simp only [step] at h
    split at h
    · rename_i listener hl
      split_ifs at h with halive
      cases h
      exact hs.connectionFails hl halive
    · cases h
  | connectionCloses l =>
    simp only [step] at h
    split at h
    · rename_i listener hl
      split_ifs at h with halive
      cases h
      exact hs.abort hl halive (ha listener hl)
    · cases h
  | pingFails l =>
    simp only [step] at h
    split at h
    · rename_i listener hl
      split_ifs at h with hlistens
      cases h
      exact hs.pingFails hl (ha listener hl)
    · cases h
  | abort l =>
    simp only [step] at h
    split at h
    · rename_i listener hl
      split_ifs at h with hc
      cases h
      exact hs.abort hl hc.2 hc.1
    · cases h

theorem reachable_sound (h : Reachable orderlyJob s) : Sound s := by
  refine h.invariant Sound ?_ ?_
  · rintro s rfl
    exact sound_start
  · rintro s t hs ⟨a, ha, hstep⟩
    exact step_sound hs ha hstep

end Signals

section Quiet
variable {s : ClientJob}

theorem Sound.live_registered (hs : Sound s) (hq : s.Quiet) {l : ℕ} (hlive : s.Live l) :
    ∃ g session, s.registered = some g ∧ s.sessions g = some session ∧ session.target = some l := by
  obtain ⟨listener, hl, halive, -⟩ := hlive
  obtain ⟨session, hg, ht⟩ := hs.core.owned l listener hl halive
  have hsound := hs.core.sound _ session hg
  have hended : session.task ≠ .ended := by
    intro htask
    refine hq.aborts l listener hl ⟨halive, hsound.ended htask listener ?_ halive⟩
    rw [ht, Option.bind_some, hl]
  refine ⟨_, session, ?_, hg, ht⟩
  by_contra hr
  rcases hsound.released hr with h' | ⟨-, h'⟩
  · exact hended h'
  · exact hq.signals _ session hg hended h'

theorem Sound.last_fits (hs : Sound s) {request : Request} (hlast : s.last = some request) :
    request.Fits s := by
  have hlt := hs.phased.requests_lt _ request hlast
  exact hs.phased.fits _ request hlast (by omega)

theorem Sound.enabled (hs : Sound s) (hq : s.Quiet) (hlast : s.last = some ⟨true, .finished⟩) :
    (∃! l, s.Live l) ∨ s.RestartPending := by
  have hfits : s.registered.isSome = true := hs.last_fits hlast
  obtain ⟨g, hr⟩ := Option.isSome_iff_exists.mp hfits
  obtain ⟨session, hg⟩ := hs.core.registered g hr
  have hsound := hs.core.sound g session hg
  have hserves : session.task.serves := by
    cases htask : session.task with
    | opening =>
      obtain ⟨r, request, hreq, hphase⟩ := hs.phased.opener g session hg htask
      exact absurd (hq.requests r request hreq) (not_settled_of_phase hphase (by simp) (by simp))
    | waiting => exact .inl rfl
    | restarting => exact .inr rfl
    | ended => exact absurd htask (hsound.registered hr).1
  obtain ⟨listener, hbind, -, hbalance⟩ := hsound.balance hserves
  obtain ⟨l, ht, hl⟩ := Option.bind_eq_some_iff.mp hbind
  cases halive : listener.alive with
  | true =>
    left
    obtain ⟨listener', hl', -, hlistens⟩ := hs.core.target g session l hg ht
    rw [hl, Option.some.injEq] at hl'
    subst hl'
    refine ⟨l, ⟨listener, hl, halive, hlistens⟩, fun l' hlive => ?_⟩
    obtain ⟨g', session', hr', hg', ht'⟩ := hs.live_registered hq hlive
    rw [hr, Option.some.injEq] at hr'
    subst hr'
    rw [hg, Option.some.injEq] at hg'
    subst hg'
    rw [ht, Option.some.injEq] at ht'
    exact ht'.symm
  | false =>
    right
    refine ⟨g, session, hr, hg, ?_⟩
    rw [halive, Bool.toNat_false] at hbalance
    rcases hserves with hw | hw
    · right
      rw [hw] at hbalance
      simp only [SignalTask.restarts] at hbalance
      exact List.count_pos_iff.mp (by omega)
    · exact .inl hw

theorem Sound.disabled (hs : Sound s) (hq : s.Quiet)
    (hlast : s.last = some ⟨false, .finished⟩) (l : ℕ) :
    ¬ s.Live l := by
  intro hlive
  have hfits : s.registered.isSome = false := hs.last_fits hlast
  obtain ⟨g, -, hr, -⟩ := hs.live_registered hq hlive
  rw [hr] at hfits
  cases hfits

theorem runs_from_connecting {r : ℕ} {enable : Bool}
    (hr : s.requests r = some ⟨enable, .connecting⟩) :
    ∃ t, runActions step s [.connect r true, .register r, .listen r .ok] = some t ∧
      t.requests r = some ⟨enable, .finished⟩ ∧ t.nextRequest = s.nextRequest ∧
        t.Live s.nextListener := by
  refine ⟨ClientJobs.listen
    (({ s with registered := some s.nextSession, nextSession := s.nextSession + 1 }.setSession
      s.nextSession ⟨.opening, [], none⟩).setPhase r
      ⟨enable, .registering⟩ (.listening s.nextSession)) r
      ⟨enable, .listening s.nextSession⟩ s.nextSession ⟨.opening, [], none⟩ .ok, ?_, ?_, ?_, ?_⟩
  · simp [runActions, step, hr, ClientJob.setPhase, ClientJob.setSession, ClientJobs.listen,
      ClientJob.openListener, ClientJob.setListener]
  · simp [ClientJobs.listen, ClientJob.setPhase]
  · rfl
  · refine ⟨⟨s.nextSession, true, true, false⟩, ?_, rfl, rfl⟩
    simp [ClientJobs.listen, ClientJob.setPhase, ClientJob.setSession, ClientJob.openListener,
      ClientJob.setListener]

theorem Sound.runs_to_connecting (hs : Sound s) {r : ℕ} {enable : Bool}
    (hr : s.requests r = some ⟨enable, .checking⟩) :
    ∃ actions t, runActions step s actions = some t ∧ actions ⊆ [.check r, .stopOld r] ∧
      t.requests r = some ⟨enable, .connecting⟩ ∧ t.nextRequest = s.nextRequest ∧
        t.nextListener = s.nextListener := by
  have hcheck : step s (.check r) = some (s.setPhase r ⟨enable, .checking⟩
      (if s.registered.isSome then .stopping else .connecting)) := by
    simp only [step, hr, if_pos]
  have hsound := hs.check hr rfl
  cases hreg : s.registered with
  | none =>
    simp only [hreg, Option.isSome_none, Bool.false_eq_true, if_false] at hcheck
    refine ⟨[.check r], s.setPhase r ⟨enable, .checking⟩ .connecting, ?_, by simp, ?_, rfl, rfl⟩
    · exact Option.bind_eq_some_iff.mpr ⟨_, hcheck, rfl⟩
    · exact Function.update_self _ _ _
  | some g =>
    simp only [hreg, Option.isSome_some, if_true] at hcheck hsound
    -- the sender is alive, so that the stop succeeds
    have hr' : (s.setPhase r ⟨enable, .checking⟩ .stopping).requests r = some ⟨enable, .stopping⟩ :=
      Function.update_self _ _ _
    obtain ⟨hopen, -⟩ := Sound.fits hsound hr' rfl (by simp) (by simp)
    obtain ⟨-, hsent, -, -, hnext, hlist, -, -⟩ := stopClientJob_spec hsound.core
      fun g session hg => hsound.phased.opening hr' hopen (by simp) hg
    have hstop : step (s.setPhase r ⟨enable, .checking⟩ .stopping) (.stopOld r) =
        some ((stopClientJob (s.setPhase r ⟨enable, .checking⟩ .stopping)).1.setPhase r ⟨enable,
        .stopping⟩
          .connecting) := by
      simp only [step, hr', if_pos]
      rw [if_pos hsent]
    refine ⟨[.check r, .stopOld r],
      (stopClientJob (s.setPhase r ⟨enable, .checking⟩ .stopping)).1.setPhase r
      ⟨enable, .stopping⟩ .connecting, ?_, by simp, Function.update_self _ _ _, hnext, hlist⟩
    exact Option.bind_eq_some_iff.mpr ⟨_, hcheck, Option.bind_eq_some_iff.mpr ⟨_, hstop, rfl⟩⟩

theorem Sound.canStart (hs : Sound s) (hq : s.Quiet) : s.CanStart := by
  obtain ⟨actions, u, hrun, hsub, hreq, hnext, hlist⟩ :=
    (hs.requested hq.requests true).runs_to_connecting (Function.update_self _ _ _)
  obtain ⟨t, hrun', hfinished, hnext', hlive⟩ := runs_from_connecting hreq
  refine ⟨actions ++ [.connect s.nextRequest true, .register s.nextRequest,
    .listen s.nextRequest .ok], t, ?_, ?_, ?_, ?_⟩
  · exact Option.bind_eq_some_iff.mpr ⟨_, rfl, runActions_append hrun hrun'⟩
  · intro a ha
    rcases List.mem_append.mp ha with ha | ha
    · have hmem := hsub ha
      simp only [List.mem_cons, List.not_mem_nil, or_false] at hmem ⊢
      tauto
    · simp only [List.mem_cons, List.not_mem_nil, or_false] at ha ⊢
      tauto
  · have hn : t.nextRequest = s.nextRequest + 1 := hnext'.trans hnext
    rw [ClientJob.last, hn]
    exact hfinished
  · rw [hlist] at hlive
    exact hlive

/-- In an orderly run, once nothing is in progress, an enabled job has one listener or
    waits for its restart, a disabled one has none, and a start is possible. -/
theorem orderly_listens {s : ClientJob} (h : Reachable orderlyJob s) (hq : s.Quiet) :
    ListensAsAsked s := by
  have hs := reachable_sound h
  exact ⟨hs.enabled hq, hs.disabled hq, hs.canStart hq⟩

end Quiet

def only {α : Type} (a : α) : ℕ → Option α := Function.update (fun _ => none) 0 (some a)

theorem only_eq_some {α : Type} {a b : α} {n : ℕ} : only a n = some b ↔ n = 0 ∧ a = b := by
  by_cases h : n = 0 <;> simp [only, h]

def enabledJob (alive cancelling : Bool) : ClientJob :=
  ⟨some 0, only ⟨.waiting, [], some 0⟩, 1, only ⟨0, alive, true, cancelling⟩,
    1, only ⟨true, .finished⟩, 1⟩

def enableActions : List Action :=
  [.request true, .check 0, .connect 0 true, .register 0, .listen 0 .ok]

theorem runs_enabledJob : runActions step start enableActions = some (enabledJob true false) := by
  simp [runActions, enableActions, step, start, enabledJob, only, ClientJob.setPhase,
    ClientJob.setSession, listen, ClientJob.openListener, ClientJob.setListener]

theorem enabledJob_quiet {alive cancelling : Bool} (h : ¬ (alive = true ∧ cancelling = true)) :
    (enabledJob alive cancelling).Quiet where
  requests := by
    intro r request hr
    obtain ⟨-, rfl⟩ := only_eq_some.mp hr
    exact .inl rfl
  signals := by
    intro g session hg _
    obtain ⟨-, rfl⟩ := only_eq_some.mp hg
    simp
  aborts := by
    intro l listener hl
    obtain ⟨-, rfl⟩ := only_eq_some.mp hl
    exact h

theorem reachable_enabledJob : Reachable orderlyJob (enabledJob true false) := by
  have hordered : ∀ s, s.requests = start.requests → Orderly s (.request true) := by
    intro s hs r request hr
    rw [hs] at hr
    cases hr
  obtain ⟨s₁, h₁, hrun⟩ := Option.bind_eq_some_iff.mp runs_enabledJob
  obtain ⟨s₂, h₂, hrun⟩ := Option.bind_eq_some_iff.mp hrun
  obtain ⟨s₃, h₃, hrun⟩ := Option.bind_eq_some_iff.mp hrun
  obtain ⟨s₄, h₄, hrun⟩ := Option.bind_eq_some_iff.mp hrun
  obtain ⟨s₅, h₅, hrun⟩ := Option.bind_eq_some_iff.mp hrun
  cases hrun
  exact .next (.next (.next (.next (.next (.start rfl) ⟨.request true, hordered start rfl, h₁⟩)
    ⟨.check 0, trivial, h₂⟩) ⟨.connect 0 true, trivial, h₃⟩) ⟨.register 0, trivial,
    h₄⟩) ⟨.listen 0 .ok, rfl, h₅⟩

def restartedJob : ClientJob :=
  ⟨some 0, only ⟨.waiting, [], some 1⟩, 1,
    Function.update (only ⟨0, false, true, false⟩) 1 (some ⟨0, true, true, false⟩),
    2, only ⟨true, .finished⟩, 1⟩

theorem reachable_restartedJob : Reachable orderlyJob restartedJob := by
  refine @reachable_runActions _ _ _ _ _ _ _ [.connectionFails 0, .signal 0,
    .restart 0 .ok] reachable_enabledJob
    (by simp [Orderly]) ?_
  simp [runActions, step, enabledJob, restartedJob, only, ClientJob.send, ClientJob.setListener,
    ClientJob.setSession, handleSignal, restart, ClientJob.openListener]

theorem restartedJob_quiet : restartedJob.Quiet where
  requests := (@enabledJob_quiet true false (by simp)).requests
  signals := by
    intro g session hg _
    obtain ⟨-, rfl⟩ := only_eq_some.mp hg
    simp
  aborts := by
    intro l listener hl
    change Function.update (only ⟨0, false, true, false⟩) 1 (some ⟨0, true, true, false⟩) l =
      some listener at hl
    by_cases h1 : l = 1
    · subst h1
      cases hl
      simp
    · rw [Function.update_of_ne h1] at hl
      obtain ⟨-, rfl⟩ := only_eq_some.mp hl
      simp

theorem restarted_job_listens : restartedJob.last = some ⟨true, .finished⟩ ∧ restartedJob.Live 1 ∧
    ListensAsAsked restartedJob :=
  ⟨rfl, ⟨_, rfl, rfl, rfl⟩, orderly_listens reachable_restartedJob restartedJob_quiet⟩

theorem enabledJob_not_listening (cancelling : Bool) :
    ¬ ListensAsAsked (enabledJob false cancelling) := by
  intro h
  rcases h.enabled rfl with ⟨l, ⟨listener, hl, halive, -⟩, -⟩ | ⟨g, session, -, hg, hpending⟩
  · obtain ⟨-, rfl⟩ := only_eq_some.mp hl
    cases halive
  · obtain ⟨-, rfl⟩ := only_eq_some.mp hg
    simp at hpending

def GoesWrong (actions : List Action) : Prop :=
  ∃ s, runActions step start actions = some s ∧ s.Quiet ∧ ¬ ListensAsAsked s

theorem closed_connection : GoesWrong (enableActions ++ [.connectionCloses 0]) := by
  refine ⟨enabledJob false false, runActions_append runs_enabledJob ?_, enabledJob_quiet (by simp),
    enabledJob_not_listening false⟩
  simp [runActions, step, enabledJob, only, ClientJob.setListener]

theorem failed_ping : GoesWrong (enableActions ++ [.pingFails 0, .abort 0]) := by
  refine ⟨enabledJob false true, runActions_append runs_enabledJob ?_, enabledJob_quiet (by simp),
    enabledJob_not_listening true⟩
  simp [runActions, step, enabledJob, only, ClientJob.setListener]

def overtakenActions : List Action :=
  [.request true, .check 0, .connect 0 true, .request false, .remove 1, .register 0, .listen 0 .ok]

def overtakenJob : ClientJob :=
  ⟨some 0, only ⟨.waiting, [], some 0⟩, 1, only ⟨0, true, true, false⟩, 1,
    Function.update (only ⟨true, .finished⟩) 1 (some ⟨false, .finished⟩), 2⟩

theorem runs_overtakenJob : runActions step start overtakenActions = some overtakenJob := by
  simp [runActions, overtakenActions, step, start, overtakenJob, only, ClientJob.setPhase,
    ClientJob.setSession, listen, ClientJob.openListener, ClientJob.setListener, stopClientJob]
  rw [Function.update_comm (by decide), Function.update_idem]

theorem overtaken_disable : GoesWrong overtakenActions := by
  have hlistening := @enabledJob_quiet true false (by simp)
  refine ⟨overtakenJob, runs_overtakenJob, ⟨?_, hlistening.signals, hlistening.aborts⟩, ?_⟩
  · intro r request hr
    change Function.update (only ⟨true, .finished⟩) 1 (some ⟨false, .finished⟩) r =
      some request at hr
    by_cases h1 : r = 1
    · subst h1
      cases hr
      exact .inl rfl
    · rw [Function.update_of_ne h1] at hr
      obtain ⟨-, rfl⟩ := only_eq_some.mp hr
      exact .inl rfl
  · intro h
    exact h.disabled rfl 0 ⟨_, rfl, rfl, rfl⟩

def failedJob : ClientJob :=
  ⟨some 0, only ⟨.ended, [], none⟩, 1, fun _ => none, 0, only ⟨true, .failed⟩, 1⟩

theorem failed_start :
    runActions step start
      [.request true, .check 0, .connect 0 true, .register 0, .listen 0 .connectFails] =
        some failedJob ∧ failedJob.Quiet ∧
      ∃ t, runActions step failedJob [.request true, .check 1, .stopOld 1] = some t ∧
        t.last = some ⟨true, .failed⟩ := by
  refine ⟨?_, ⟨?_, ?_, nofun⟩, ?_⟩
  · simp [runActions, step, start, failedJob, only, ClientJob.setPhase,
      ClientJob.setSession, listen]
  · intro r request hr
    obtain ⟨-, rfl⟩ := only_eq_some.mp hr
    exact .inr rfl
  · intro g session hg hne
    obtain ⟨-, rfl⟩ := only_eq_some.mp hg
    exact absurd rfl hne
  · exact ⟨_, rfl, rfl⟩

theorem listeners_go_wrong :
    GoesWrong (enableActions ++ [.connectionCloses 0]) ∧
      GoesWrong (enableActions ++ [.pingFails 0, .abort 0]) ∧
      GoesWrong overtakenActions ∧
      (runActions step start [.request true, .check 0, .connect 0 true, .register 0,
        .listen 0 .connectFails] =
          some failedJob ∧ failedJob.Quiet ∧
        ∃ t, runActions step failedJob [.request true, .check 1, .stopOld 1] = some t ∧
          t.last = some ⟨true, .failed⟩) :=
  ⟨closed_connection, failed_ping, overtaken_disable, failed_start⟩

end Lantern.ClientJobs
