import Lantern.ClientJobs

set_option autoImplicit false

/-!
# Notification listeners: sessions and requests

In an orderly run every session that reads signals has a live listener or exactly one
restart for the listener it lost, and every session that is no longer registered has
ended or has `Stop` in its queue. Each step changes one session and at most the
listener of that session.
-/
namespace Lantern.ClientJobs
open SystemRuns

/-- Requests are made one at a time, a start that has registered its sender opens its
    listener, and a live listener ends only with an error or a stop. -/
def Orderly (s : ClientJob) : Action → Prop
  | .request _ => ∀ r request, s.requests r = some request → request.settled
  | .listen _ attempt => attempt = .ok
  | .restart _ attempt => attempt ≠ .listenFails
  | .connectionCloses l => ∀ listener, s.listeners l = some listener → listener.cancelling = true
  | .pingFails l =>
    ∀ listener, s.listeners l = some listener → listener.alive = true → listener.cancelling = true
  | _ => True

def orderlyJob : System ClientJob := actionSystem (· = start) step Orderly

def SignalTask.restarts : SignalTask → ℕ
  | .restarting => 1
  | _ => 0

def SignalTask.serves (task : SignalTask) : Prop := task = .waiting ∨ task = .restarting

/-- A session that reads signals has a live listener, or exactly one restart for the
    listener it lost. A session that is not registered has ended or will. -/
structure SessionSound (isRegistered : Prop) (target : Option Listener) (session : Session) :
    Prop where
  registered : isRegistered → session.task ≠ .ended ∧ .stop ∉ session.queue
  released : ¬ isRegistered → session.task = .ended ∨ session.task.serves ∧ .stop ∈ session.queue
  opening : session.task = .opening → session.queue = [] ∧ session.target = none
  balance : session.task.serves → ∃ l, target = some l ∧ (l.alive = true → l.cancelling = false) ∧
    session.queue.count .restart + session.task.restarts + l.alive.toNat = 1
  ended : session.task = .ended → ∀ l, target = some l → l.alive = true → l.cancelling = true

structure Core (s : ClientJob) : Prop where
  sessions_lt : ∀ g session, s.sessions g = some session → g < s.nextSession
  listeners_lt : ∀ l listener, s.listeners l = some listener → l < s.nextListener
  registered : ∀ g, s.registered = some g → ∃ session, s.sessions g = some session
  target : ∀ g session l, s.sessions g = some session → session.target = some l →
    ∃ listener, s.listeners l = some listener ∧ listener.session = g ∧ listener.listens = true
  owned : ∀ l listener, s.listeners l = some listener → listener.alive = true →
    ∃ session, s.sessions listener.session = some session ∧ session.target = some l
  sound : ∀ g session, s.sessions g = some session →
    SessionSound (s.registered = some g) (session.target.bind s.listeners) session

theorem Core.update {s t : ClientJob} (h : Core s) {g : ℕ} {session : Session} {touched : Option ℕ}
    (hsessions : t.sessions = Function.update s.sessions g (some session))
    (hreg : ∀ g', g' ≠ g → (t.registered = some g' ↔ s.registered = some g'))
    (hnext : s.nextSession ≤ t.nextSession ∧ g < t.nextSession)
    (hlisteners : ∀ l, touched ≠ some l → t.listeners l = s.listeners l)
    (hnextl : s.nextListener ≤ t.nextListener)
    (htouched : ∀ l, touched = some l → l < t.nextListener ∧ session.target = some l ∧
      (∃ listener, t.listeners l = some listener ∧ listener.session = g ∧ listener.listens = true) ∧
      ∀ g' old, g' ≠ g → s.sessions g' = some old → old.target ≠ some l)
    (htarget : touched = none → ∀ l, session.target = some l → ∃ old, s.sessions g = some old ∧
      old.target = some l)
    (hothers : ∀ l listener, touched ≠ some l → s.listeners l = some listener →
      listener.session = g →
      listener.alive = true → session.target = some l)
    (hsound : SessionSound (t.registered = some g) (session.target.bind t.listeners) session) :
    Core t := by
  have hother : ∀ g', g' ≠ g → t.sessions g' = s.sessions g' := by
    intro g' hg'
    rw [hsessions, Function.update_of_ne hg']
  have hself : t.sessions g = some session := by rw [hsessions, Function.update_self]
  refine ⟨?_, ?_, ?_, ?_, ?_, ?_⟩
  · intro g' σ hσ
    by_cases hg : g' = g
    · subst hg
      exact hnext.2
    · rw [hother g' hg] at hσ
      exact (h.sessions_lt g' σ hσ).trans_le hnext.1
  · intro l listener hl
    by_cases ht : touched = some l
    · exact (htouched l ht).1
    · rw [hlisteners l ht] at hl
      exact (h.listeners_lt l listener hl).trans_le hnextl
  · intro g' hg'
    by_cases hg : g' = g
    · subst hg
      exact ⟨session, hself⟩
    · rw [hother g' hg]
      exact h.registered g' ((hreg g' hg).mp hg')
  · intro g' σ l hσ hl
    by_cases hg : g' = g
    · subst hg
      rw [hself, Option.some.injEq] at hσ
      subst hσ
      by_cases ht : touched = some l
      · exact (htouched l ht).2.2.1
      · rw [hlisteners l ht]
        cases htc : touched with
        | none =>
          obtain ⟨old, hold, hold'⟩ := htarget htc l hl
          exact h.target g' old l hold hold'
        | some l' =>
          have hl' := (htouched l' htc).2.1
          rw [hl, Option.some.injEq] at hl'
          exact absurd (hl' ▸ htc) ht
    · rw [hother g' hg] at hσ
      have ht : touched ≠ some l := fun ht => (htouched l ht).2.2.2 g' σ hg hσ hl
      rw [hlisteners l ht]
      exact h.target g' σ l hσ hl
  · intro l listener hl halive
    by_cases ht : touched = some l
    · obtain ⟨-, htar, ⟨l', hl', hs, -⟩, -⟩ := htouched l ht
      rw [hl, Option.some.injEq] at hl'
      subst hl'
      rw [hs]
      exact ⟨session, hself, htar⟩
    · rw [hlisteners l ht] at hl
      obtain ⟨σ, hσ, hσt⟩ := h.owned l listener hl halive
      by_cases hg : listener.session = g
      · exact ⟨session, hg ▸ hself, hothers l listener ht hl hg halive⟩
      · exact ⟨σ, (hother _ hg).trans hσ, hσt⟩
  · intro g' σ hσ
    by_cases hg : g' = g
    · subst hg
      rw [hself, Option.some.injEq] at hσ
      subst hσ
      exact hsound
    · rw [hother g' hg] at hσ
      have hold := h.sound g' σ hσ
      have hbind : σ.target.bind t.listeners = σ.target.bind s.listeners := by
        cases htar : σ.target with
        | none => rfl
        | some l =>
          have ht : touched ≠ some l := fun ht => (htouched l ht).2.2.2 g' σ hg hσ htar
          exact hlisteners l ht
      rw [hbind]
      exact ⟨fun hr => hold.registered ((hreg g' hg).mp hr), fun hr => hold.released fun hr' =>
        hr ((hreg g' hg).mpr hr'), hold.opening, hold.balance, hold.ended⟩

section Steps
variable {s : ClientJob} {g l : ℕ} {session : Session} {listener : Listener}

theorem Core.other_target (h : Core s) (hl : s.listeners l = some listener)
    (hs : listener.session = g) {g' : ℕ} {old : Session} (hg : g' ≠ g)
    (hold : s.sessions g' = some old) : old.target ≠ some l := by
  intro ht
  obtain ⟨l', hl', hs', -⟩ := h.target g' old l hold ht
  rw [hl, Option.some.injEq] at hl'
  subst hl'
  exact hg (hs'.symm.trans hs)

theorem Core.stop (h : Core s) (hr : s.registered = some g) (hg : s.sessions g = some session)
    (hserves : session.task.serves) :
    Core { s.setSession g { session with queue := session.queue ++ [.stop] } with
      registered := none } := by
  have hold := h.sound g session hg
  refine @Core.update s _ h g { session with queue := session.queue ++ [.stop] } none rfl ?_
    ⟨le_refl _, h.sessions_lt g session hg⟩ (fun _ _ => rfl) (le_refl _) ?_ ?_ ?_ ?_
  · intro g' hg'
    rw [hr]
    exact ⟨nofun, fun h' => absurd (Option.some.inj h').symm hg'⟩
  · intro l h'
    cases h'
  · intro _ l hl
    exact ⟨session, hg, hl⟩
  · intro l listener _ hl hs halive
    obtain ⟨σ, hσ, ht⟩ := h.owned l listener hl halive
    rw [hs, hg, Option.some.injEq] at hσ
    subst hσ
    exact ht
  · refine ⟨nofun, fun _ => .inr ⟨hserves, by simp⟩, ?_, ?_, ?_⟩
    · intro h'
      rcases hserves with hw | hw <;> rw [hw] at h' <;> cases h'
    · intro h'
      obtain ⟨l, hl, hc, hb⟩ := hold.balance h'
      refine ⟨l, hl, hc, ?_⟩
      simpa [List.count_append] using hb
    · intro h'
      rcases hserves with hw | hw <;> rw [hw] at h' <;> cases h'

theorem Core.register (h : Core s) (hr : s.registered = none) :
    Core { s.setSession s.nextSession ⟨.opening, [], none⟩ with
      registered := some s.nextSession, nextSession := s.nextSession + 1 } := by
  refine @Core.update s _ h s.nextSession ⟨.opening, [], none⟩ none rfl ?_ ⟨Nat.le_succ _,
    Nat.lt_succ_self _⟩
    (fun _ _ => rfl) (le_refl _) ?_ ?_ ?_ ?_
  · intro g' hg'
    rw [hr]
    exact ⟨fun h' => absurd (Option.some.inj h').symm hg', nofun⟩
  · intro l h'
    cases h'
  · intro _ l hl
    cases hl
  · intro l listener _ hl hs halive
    obtain ⟨σ, hσ, -⟩ := h.owned l listener hl halive
    rw [hs] at hσ
    exact absurd (h.sessions_lt _ σ hσ) (lt_irrefl _)
  · refine ⟨fun _ => ⟨by simp, by simp⟩, fun h' => absurd rfl h', fun _ => ⟨rfl, rfl⟩, ?_, ?_⟩
    · rintro (h' | h') <;> cases h'
    · intro h'
      cases h'

theorem Core.opened (h : Core s) (hg : s.sessions g = some session)
    (hdead : ∀ l listener, s.listeners l = some listener → listener.session = g →
      listener.alive = false)
    (hqueue : .restart ∉ session.queue)
    (hstop : s.registered ≠ some g → .stop ∈ session.queue) :
    Core ((s.openListener g true).setSession g { session with
      task := .waiting, target := some s.nextListener }) := by
  have hold := h.sound g session hg
  refine @Core.update s _ h g { session with
    task := .waiting, target := some s.nextListener } (some s.nextListener) rfl
    (fun _ _ => Iff.rfl) ⟨le_refl _, h.sessions_lt g session hg⟩ ?_ (Nat.le_succ _) ?_ ?_ ?_ ?_
  · intro l hl
    exact Function.update_of_ne (fun h' => hl (by rw [h'])) _ _
  · intro l hl
    cases hl
    refine ⟨Nat.lt_succ_self _, rfl, ⟨_, Function.update_self _ _ _, rfl, rfl⟩, ?_⟩
    intro g' old _ hold' ht
    obtain ⟨l', hl', -⟩ := h.target g' old _ hold' ht
    exact absurd (h.listeners_lt _ l' hl') (lt_irrefl _)
  · intro h'
    cases h'
  · intro l listener _ hl hs halive
    rw [hdead l listener hl hs] at halive
    cases halive
  · refine ⟨fun hr => ⟨by simp, (hold.registered hr).2⟩, fun hr =>
      .inr ⟨.inl rfl, hstop hr⟩, ?_, ?_, ?_⟩
    · intro h'
      cases h'
    · intro _
      refine ⟨⟨g, true, true, false⟩, Function.update_self _ _ _, fun _ => rfl, ?_⟩
      simp [List.count_eq_zero.mpr hqueue, SignalTask.restarts]
    · intro h'
      cases h'

theorem Core.connectionFails (h : Core s) (hg : s.sessions g = some session)
    (hl : s.listeners l = some listener) (hs : listener.session = g) (ht : session.target = some l)
    (halive : listener.alive = true) (hserves : session.task.serves) :
    Core ((s.setListener l { listener with alive := false }).setSession g
      { session with queue := session.queue ++ [.restart] }) := by
  have hold := h.sound g session hg
  refine @Core.update s _ h g { session with queue := session.queue ++ [.restart] } (some l) rfl
    (fun _ _ => Iff.rfl) ⟨le_refl _, h.sessions_lt g session hg⟩ ?_ (le_refl _) ?_ ?_ ?_ ?_
  · intro l' hl'
    exact Function.update_of_ne (fun h' => hl' (by rw [h'])) _ _
  · intro l' hl'
    cases hl'
    obtain ⟨listener', hl', -, hlistens⟩ := h.target g session l hg ht
    rw [hl, Option.some.injEq] at hl'
    subst hl'
    exact ⟨h.listeners_lt l listener hl, ht, ⟨_, Function.update_self _ _ _, hs, hlistens⟩,
      fun g' old hne hold' => h.other_target hl hs hne hold'⟩
  · intro h'
    cases h'
  · intro l' listener' hne hl' hs' halive'
    obtain ⟨σ, hσ, ht'⟩ := h.owned l' listener' hl' halive'
    rw [hs', hg, Option.some.injEq] at hσ
    subst hσ
    exact ht'
  · have hbalance := hold.balance hserves
    refine ⟨fun hr => ⟨(hold.registered hr).1, by simpa using (hold.registered hr).2⟩,
      ?_, ?_, ?_, ?_⟩
    · intro hr
      rcases hold.released hr with h' | ⟨-, h'⟩
      · exact .inl h'
      · exact .inr ⟨hserves, List.mem_append_left _ h'⟩
    · intro h'
      rcases hserves with hw | hw <;> rw [hw] at h' <;> cases h'
    · intro _
      obtain ⟨l', hl', -, hb⟩ := hbalance
      rw [ht, Option.bind_some, hl, Option.some.injEq] at hl'
      subst hl'
      refine ⟨{ listener with alive := false }, ?_, nofun, ?_⟩
      · rw [ht]
        exact Function.update_self _ _ _
      · rw [halive] at hb
        simp only [List.count_append, List.count_singleton_self, Bool.toNat_true,
          Bool.toNat_false] at hb ⊢
        omega
    · intro h'
      rcases hserves with hw | hw <;> rw [hw] at h' <;> cases h'

theorem serves_ne_opening {task : SignalTask} (h : task.serves) : task ≠ .opening := by
  rcases h with rfl | rfl <;> simp

theorem serves_ne_ended {task : SignalTask} (h : task.serves) : task ≠ .ended := by
  rcases h with rfl | rfl <;> simp

theorem Core.handleStop (h : Core s) (hg : s.sessions g = some session)
    (hq : .stop ∈ session.queue) (ht : session.target = some l)
    (hl : s.listeners l = some listener) :
    Core ((s.setListener l { listener with cancelling := true }).setSession g
      { session with task := .ended, queue := [] }) := by
  have hold := h.sound g session hg
  obtain ⟨listener', hl', hs, hlistens⟩ := h.target g session l hg ht
  rw [hl, Option.some.injEq] at hl'
  subst hl'
  refine @Core.update s _ h g { session with task := .ended, queue := [] } (some l) rfl
    (fun _ _ => Iff.rfl) ⟨le_refl _, h.sessions_lt g session hg⟩ ?_ (le_refl _) ?_ nofun ?_ ?_
  · intro l' hl'
    exact Function.update_of_ne (fun h' => hl' (by rw [h'])) _ _
  · intro l' hl'
    cases hl'
    exact ⟨h.listeners_lt l listener hl, ht, ⟨_, Function.update_self _ _ _, hs, hlistens⟩,
      fun g' old hne hold' => h.other_target hl hs hne hold'⟩
  · intro l' listener' _ hl' hs' halive'
    obtain ⟨σ, hσ, ht'⟩ := h.owned l' listener' hl' halive'
    rw [hs', hg, Option.some.injEq] at hσ
    subst hσ
    exact ht'
  · refine ⟨fun hr => absurd hq (hold.registered hr).2, fun _ => .inl rfl, nofun, ?_, ?_⟩
    · rintro (h' | h') <;> cases h'
    · intro _ l' hl' _
      change session.target.bind (Function.update s.listeners l (some { listener with
        cancelling := true })) =
        some l' at hl'
      rw [ht, Option.bind_some, Function.update_self, Option.some.injEq] at hl'
      rw [← hl']

theorem Core.handleRestart (h : Core s) (hg : s.sessions g = some session)
    (hw : session.task = .waiting) {queue : List ClientJobSignal}
    (hq : session.queue = .restart :: queue) :
    Core (s.setSession g { session with task := .restarting, queue := queue }) := by
  have hold := h.sound g session hg
  refine @Core.update s _ h g { session with task := .restarting, queue := queue } none rfl
    (fun _ _ => Iff.rfl) ⟨le_refl _, h.sessions_lt g session hg⟩
      (fun _ _ => rfl) (le_refl _) nofun ?_ ?_ ?_
  · intro _ l hl
    exact ⟨session, hg, hl⟩
  · intro l listener _ hl hs halive
    obtain ⟨σ, hσ, ht⟩ := h.owned l listener hl halive
    rw [hs, hg, Option.some.injEq] at hσ
    subst hσ
    exact ht
  · refine ⟨?_, ?_, nofun, ?_, nofun⟩
    · intro hr
      refine ⟨by simp, fun hmem => (hold.registered hr).2 ?_⟩
      rw [hq]
      exact List.mem_cons_of_mem _ hmem
    · intro hr
      rcases hold.released hr with h' | ⟨-, h'⟩
      · rw [hw] at h'
        cases h'
      · rw [hq] at h'
        exact .inr ⟨.inr rfl, by simpa using h'⟩
    · intro _
      obtain ⟨l, hl, hc, hb⟩ := hold.balance (.inl hw)
      refine ⟨l, hl, hc, ?_⟩
      rw [hq, hw, List.count_cons_self] at hb
      simp only [SignalTask.restarts] at hb ⊢
      omega

theorem Core.dead (h : Core s) (hg : s.sessions g = some session) (hended : session.task = .ended)
    (hl : s.listeners l = some listener) (hs : listener.session = g)
    (ht : session.target = some l) :
    Core (s.setListener l { listener with alive := false }) := by
  have hold := h.sound g session hg
  obtain ⟨listener', hl', -, hlistens⟩ := h.target g session l hg ht
  rw [hl, Option.some.injEq] at hl'
  subst hl'
  refine @Core.update s _ h g session (some l) ?_ (fun _ _ => Iff.rfl) ⟨le_refl _,
    h.sessions_lt g session hg⟩ ?_
    (le_refl _) ?_ nofun ?_ ?_
  · rw [← hg, Function.update_eq_self]
    rfl
  · intro l' hl'
    exact Function.update_of_ne (fun h' => hl' (by rw [h'])) _ _
  · intro l' hl'
    cases hl'
    exact ⟨h.listeners_lt l listener hl, ht, ⟨_, Function.update_self _ _ _, hs, hlistens⟩,
      fun g' old hne hold' => h.other_target hl hs hne hold'⟩
  · intro l' listener' _ hl' hs' halive'
    obtain ⟨σ, hσ, ht'⟩ := h.owned l' listener' hl' halive'
    rw [hs', hg, Option.some.injEq] at hσ
    subst hσ
    exact ht'
  · refine ⟨hold.registered, hold.released, hold.opening, ?_, ?_⟩
    · intro hserves
      exact absurd hended (serves_ne_ended hserves)
    · intro _ l' hl' halive
      change session.target.bind (Function.update s.listeners l (some { listener with
        alive := false })) =
        some l' at hl'
      rw [ht, Option.bind_some, Function.update_self, Option.some.injEq] at hl'
      rw [← hl'] at halive
      cases halive

theorem Core.pingFails (h : Core s) (hl : s.listeners l = some listener)
    (hdead : listener.alive = false) :
    Core (s.setListener l { listener with cancelling := true }) := by
  have hnew : ∀ l' listener',
      Function.update s.listeners l (some { listener with cancelling := true }) l' =
      some listener' → ∃ old, s.listeners l' = some old ∧ listener'.session = old.session ∧
        listener'.listens = old.listens ∧ listener'.alive = old.alive ∧
        (old.alive = true → listener' = old) := by
    intro l' listener' hl'
    by_cases heq : l' = l
    · subst heq
      rw [Function.update_self, Option.some.injEq] at hl'
      subst hl'
      refine ⟨listener, hl, rfl, rfl, rfl, fun halive => ?_⟩
      rw [hdead] at halive
      cases halive
    · rw [Function.update_of_ne heq] at hl'
      exact ⟨listener', hl', rfl, rfl, rfl, fun _ => rfl⟩
  have hback : ∀ l' old, s.listeners l' = some old → ∃ listener',
      Function.update s.listeners l (some { listener with cancelling := true }) l' =
      some listener' := by
    intro l' old hold
    by_cases heq : l' = l
    · subst heq
      exact ⟨_, Function.update_self _ _ _⟩
    · exact ⟨old, (Function.update_of_ne heq _ _).trans hold⟩
  refine ⟨h.sessions_lt, ?_, h.registered, ?_, ?_, ?_⟩
  · intro l' listener' hl'
    obtain ⟨old, hold, -⟩ := hnew l' listener' hl'
    exact h.listeners_lt l' old hold
  · intro g σ l' hσ ht
    obtain ⟨old, hold, hsession, hlistens⟩ := h.target g σ l' hσ ht
    obtain ⟨listener', hl'⟩ := hback l' old hold
    obtain ⟨old', hold', hs', hli', -⟩ := hnew l' listener' hl'
    rw [hold, Option.some.injEq] at hold'
    subst hold'
    exact ⟨listener', hl', hs'.trans hsession, hli'.trans hlistens⟩
  · intro l' listener' hl' halive
    obtain ⟨old, hold, -, -, hsame, hkept⟩ := hnew l' listener' hl'
    rw [hsame] at halive
    rw [hkept halive]
    exact h.owned l' old hold halive
  · intro g σ hσ
    have hold := h.sound g σ hσ
    refine ⟨hold.registered, hold.released, hold.opening, ?_, ?_⟩
    · intro hserves
      obtain ⟨old, hbind, hc, hb⟩ := hold.balance hserves
      obtain ⟨l', ht, hl'⟩ := Option.bind_eq_some_iff.mp hbind
      obtain ⟨listener', hnew'⟩ := hback l' old hl'
      obtain ⟨old', hold', -, -, hsame, hkept⟩ := hnew l' listener' hnew'
      rw [hl', Option.some.injEq] at hold'
      subst hold'
      refine ⟨listener', Option.bind_eq_some_iff.mpr ⟨l', ht, hnew'⟩, ?_, by rw [hsame]; exact hb⟩
      intro halive
      rw [hsame] at halive
      rw [hkept halive]
      exact hc halive
    · intro hended listener' hbind halive
      obtain ⟨l', ht, hl'⟩ := Option.bind_eq_some_iff.mp hbind
      obtain ⟨old, hold', -, -, hsame, hkept⟩ := hnew l' listener' hl'
      rw [hsame] at halive
      rw [hkept halive]
      exact hold.ended hended old (Option.bind_eq_some_iff.mpr ⟨l', ht, hold'⟩) halive

end Steps

def Request.Fits (s : ClientJob) (request : Request) : Prop :=
  match request.phase with
  | .checking | .stopping => request.enable = true
  | .connecting | .registering => request.enable = true ∧ s.registered = none
  | .listening g => request.enable = true ∧ s.registered = some g ∧
      ∃ session, s.sessions g = some session ∧ session.task = .opening
  | .removing => request.enable = false
  | .finished => s.registered.isSome = request.enable
  | .failed => s.registered = none

structure Phased (s : ClientJob) : Prop where
  requests_lt : ∀ r request, s.requests r = some request → r < s.nextRequest
  settled : ∀ r request, s.requests r = some request → r + 1 < s.nextRequest → request.settled
  fits : ∀ r request, s.requests r = some request → r + 1 = s.nextRequest → request.Fits s
  opener : ∀ g session, s.sessions g = some session → session.task = .opening →
    ∃ r request, s.requests r = some request ∧ request.phase = .listening g

section Requests
variable {s t : ClientJob} {r : ℕ} {request : Request} {phase : Phase}

theorem Phased.last (h : Phased s) (hr : s.requests r = some request) (hopen : ¬ request.settled) :
    r + 1 = s.nextRequest := by
  have hlt := h.requests_lt r request hr
  by_contra hne
  exact hopen (h.settled r request hr (by omega))

variable {session : Session}

theorem Phased.opening (h : Phased s) (hr : s.requests r = some request) (hopen : ¬ request.settled)
    (hphase : ∀ g, request.phase ≠ .listening g) {g : ℕ} (hg : s.sessions g = some session) :
    session.task ≠ .opening := by
  intro htask
  obtain ⟨r', request', hr', hphase'⟩ := h.opener g session hg htask
  have hopen' : ¬ request'.settled := by
    rintro (h' | h') <;> rw [hphase'] at h' <;> cases h'
  have heq : r' = r := by
    have h₁ := h.last hr hopen
    have h₂ := h.last hr' hopen'
    omega
  subst heq
  rw [hr, Option.some.injEq] at hr'
  subst hr'
  exact hphase g hphase'

theorem Phased.setPhase (h : Phased s) (hr : s.requests r = some request)
    (hopen : ¬ request.settled)
    (hrequests : t.requests = Function.update s.requests r (some { request with phase := phase }))
    (hnext : t.nextRequest = s.nextRequest) (hfits : Request.Fits t { request with phase := phase })
    (hopener : ∀ g session, t.sessions g = some session → session.task = .opening →
      phase = .listening g) :
    Phased t := by
  have hlast := h.last hr hopen
  have hself : t.requests r = some { request with phase := phase } := by
    rw [hrequests, Function.update_self]
  have hother : ∀ r', r' ≠ r → t.requests r' = s.requests r' := by
    intro r' hne
    rw [hrequests, Function.update_of_ne hne]
  refine ⟨?_, ?_, ?_, ?_⟩
  · intro r' q hq
    rw [hnext]
    by_cases heq : r' = r
    · omega
    · exact h.requests_lt r' q (hother r' heq ▸ hq)
  · intro r' q hq hlt
    rw [hnext] at hlt
    have hne : r' ≠ r := by omega
    exact h.settled r' q (hother r' hne ▸ hq) hlt
  · intro r' q hq heq
    have hr' : r' = r := by omega
    subst hr'
    rw [hself, Option.some.injEq] at hq
    subst hq
    exact hfits
  · intro g session hg htask
    exact ⟨r, _, hself, hopener g session hg htask⟩

theorem Phased.keep (h : Phased s) (hreg : t.registered = s.registered)
    (hrequests : t.requests = s.requests) (hnext : t.nextRequest = s.nextRequest)
    (hopening : ∀ g, (∃ session, t.sessions g = some session ∧ session.task = .opening) ↔
      ∃ session, s.sessions g = some session ∧ session.task = .opening) : Phased t := by
  refine ⟨?_, ?_, ?_, ?_⟩
  · rw [hrequests, hnext]
    exact h.requests_lt
  · rw [hrequests, hnext]
    exact h.settled
  · intro r q hq heq
    rw [hrequests] at hq
    rw [hnext] at heq
    have hfits := h.fits r q hq heq
    unfold Request.Fits at hfits ⊢
    rw [hreg]
    simp only [hopening]
    exact hfits
  · intro g session hg htask
    obtain ⟨σ, hσ, hσt⟩ := (hopening g).mp ⟨session, hg, htask⟩
    rw [hrequests]
    exact h.opener g σ hσ hσt

theorem opening_update {sessions : ℕ → Option Session} {g : ℕ} {old new : Session}
    (hg : sessions g = some old) (hold : old.task ≠ .opening)
    (hnew : new.task ≠ .opening) (g' : ℕ) :
    (∃ session, Function.update sessions g (some new) g' = some session ∧ session.task = .opening) ↔
      ∃ session, sessions g' = some session ∧ session.task = .opening := by
  by_cases heq : g' = g
  · subst heq
    rw [Function.update_self, hg]
    constructor
    · rintro ⟨σ, hσ, ht⟩
      cases hσ
      exact absurd ht hnew
    · rintro ⟨σ, hσ, ht⟩
      cases hσ
      exact absurd ht hold
  · rw [Function.update_of_ne heq]

structure Sound (s : ClientJob) : Prop where
  core : Core s
  phased : Phased s

theorem sound_start : Sound start := by
  refine ⟨⟨?_, ?_, ?_, ?_, ?_, ?_⟩, ⟨?_, ?_, ?_, ?_⟩⟩ <;> simp [start]

theorem stopClientJob_spec (h : Core s)
    (hopening : ∀ g session, s.sessions g = some session → session.task ≠ .opening) :
    Core (stopClientJob s).1 ∧ (stopClientJob s).2 = true ∧ (stopClientJob s).1.registered = none ∧
      (stopClientJob s).1.requests = s.requests ∧ (stopClientJob s).1.nextRequest = s.nextRequest ∧
      (stopClientJob s).1.nextListener = s.nextListener ∧
        (stopClientJob s).1.nextSession = s.nextSession ∧
      ∀ g session, (stopClientJob s).1.sessions g = some session → session.task ≠ .opening := by
  cases hr : s.registered with
  | none =>
    have heq : stopClientJob s = (s, true) := by simp [stopClientJob, hr]
    rw [heq]
    exact ⟨h, rfl, hr, rfl, rfl, rfl, rfl, hopening⟩
  | some g =>
    obtain ⟨session, hg⟩ := h.registered g hr
    have hsound := h.sound g session hg
    have hended := (hsound.registered hr).1
    have hserves : session.task.serves := by
      have hopen := hopening g session hg
      cases htask : session.task with
      | opening => exact absurd htask hopen
      | waiting => exact .inl rfl
      | restarting => exact .inr rfl
      | ended => exact absurd htask hended
    have heq : stopClientJob s =
        ({ s.setSession g { session with queue := session.queue ++ [.stop] } with
        registered := none }, true) := by
      simp [stopClientJob, hr, ClientJob.send, hg, hended, ClientJob.setSession]
    rw [heq]
    refine ⟨h.stop hr hg hserves, rfl, rfl, rfl, rfl, rfl, rfl, fun g' σ hσ htask => ?_⟩
    obtain ⟨σ', hσ', ht'⟩ :=
      (@opening_update _ g session { session with queue := session.queue ++ [.stop] } hg
      (serves_ne_opening hserves) (serves_ne_opening hserves) g').mp ⟨σ, hσ, htask⟩
    exact hopening g' σ' hσ' ht'

theorem Sound.requested (h : Sound s)
    (hquiet : ∀ r request, s.requests r = some request → request.settled) (enable : Bool) :
    Sound { s with
      requests := Function.update s.requests s.nextRequest
        (some ⟨enable, if enable then .checking else .removing⟩)
      nextRequest := s.nextRequest + 1 } := by
  have hold : ∀ r q, r ≠ s.nextRequest → Function.update s.requests s.nextRequest
      (some ⟨enable, if enable then .checking else .removing⟩) r = some q →
        s.requests r = some q := by
    intro r q hne hq
    rwa [Function.update_of_ne hne] at hq
  refine ⟨⟨h.core.sessions_lt, h.core.listeners_lt, h.core.registered, h.core.target, h.core.owned,
    h.core.sound⟩, ⟨?_, ?_, ?_, ?_⟩⟩
  · intro r q hq
    by_cases heq : r = s.nextRequest
    · subst heq
      exact Nat.lt_succ_self _
    · exact Nat.lt_succ_of_lt (h.phased.requests_lt r q (hold r q heq hq))
  · intro r q hq hlt
    have hne : r ≠ s.nextRequest := by
      intro heq
      subst heq
      exact absurd hlt (lt_irrefl _)
    exact hquiet r q (hold r q hne hq)
  · intro r q hq heq
    have hr : r = s.nextRequest := Nat.succ.inj heq
    subst hr
    change Function.update s.requests s.nextRequest _ s.nextRequest = some q at hq
    rw [Function.update_self, Option.some.injEq] at hq
    subst hq
    cases enable <;> rfl
  · intro g session hg htask
    obtain ⟨r, q, hq, hphase⟩ := h.phased.opener g session hg htask
    rcases hquiet r q hq with h' | h' <;> rw [hphase] at h' <;> cases h'

theorem not_settled_of_phase {phase : Phase} (h : request.phase = phase) (h₁ : phase ≠ .finished)
    (h₂ : phase ≠ .failed) : ¬ request.settled := by
  rintro (h' | h')
  · exact h₁ (h ▸ h')
  · exact h₂ (h ▸ h')

theorem Core.setPhase (h : Core s) (r : ℕ) (request : Request) (phase : Phase) :
    Core (s.setPhase r request phase) :=
  ⟨h.sessions_lt, h.listeners_lt, h.registered, h.target, h.owned, h.sound⟩

theorem Sound.fits (hs : Sound s) (hr : s.requests r = some request)
    (hphase : request.phase = phase) (h₁ : phase ≠ .finished) (h₂ : phase ≠ .failed) :
    ¬ request.settled ∧ Request.Fits s { request with phase := phase } := by
  have hopen := not_settled_of_phase hphase h₁ h₂
  subst hphase
  exact ⟨hopen, hs.phased.fits r request hr (hs.phased.last hr hopen)⟩

theorem Sound.check (hs : Sound s) (hr : s.requests r = some request)
    (hphase : request.phase = .checking) :
    Sound (s.setPhase r request (if s.registered.isSome then .stopping else .connecting)) := by
  obtain ⟨hopen, hfits⟩ := hs.fits hr hphase (by simp) (by simp)
  refine ⟨hs.core.setPhase r request _, hs.phased.setPhase hr hopen rfl rfl ?_ ?_⟩
  · cases hreg : s.registered with
    | none => exact ⟨hfits, hreg⟩
    | some g => exact hfits
  · intro g session hg htask
    exact absurd htask (hs.phased.opening hr hopen (by simp [hphase]) hg)

theorem Sound.stopOld (hs : Sound s) (hr : s.requests r = some request)
    (hphase : request.phase = .stopping) :
    Sound ((stopClientJob s).1.setPhase r request (if (stopClientJob s).2 then .connecting
      else .failed)) := by
  obtain ⟨hopen, hfits⟩ := hs.fits hr hphase (by simp) (by simp)
  obtain ⟨hcore, hsent, hnone, hreq, hnext, -, -, hopening⟩ := stopClientJob_spec hs.core
    fun g session hg => hs.phased.opening hr hopen (by simp [hphase]) hg
  rw [hsent, if_pos rfl]
  refine ⟨hcore.setPhase r request _, hs.phased.setPhase hr hopen (by rw [← hreq]; rfl) hnext ?_ ?_⟩
  · exact ⟨hfits, hnone⟩
  · intro g session hg htask
    exact absurd htask (hopening g session hg)

theorem Sound.remove (hs : Sound s) (hr : s.requests r = some request)
    (hphase : request.phase = .removing) :
    Sound ((stopClientJob s).1.setPhase r request .finished) := by
  obtain ⟨hopen, hfits⟩ := hs.fits hr hphase (by simp) (by simp)
  obtain ⟨hcore, -, hnone, hreq, hnext, -, -, hopening⟩ := stopClientJob_spec hs.core
    fun g session hg => hs.phased.opening hr hopen (by simp [hphase]) hg
  refine ⟨hcore.setPhase r request _, hs.phased.setPhase hr hopen (by rw [← hreq]; rfl) hnext ?_ ?_⟩
  · have hdisable : request.enable = false := hfits
    change (stopClientJob s).1.registered.isSome = request.enable
    rw [hnone, hdisable]
    rfl
  · intro g session hg htask
    exact absurd htask (hopening g session hg)

theorem Sound.connect (hs : Sound s) (hr : s.requests r = some request)
    (hphase : request.phase = .connecting) (ok : Bool) :
    Sound (s.setPhase r request (if ok then .registering else .failed)) := by
  obtain ⟨hopen, hfits⟩ := hs.fits hr hphase (by simp) (by simp)
  refine ⟨hs.core.setPhase r request _, hs.phased.setPhase hr hopen rfl rfl ?_ ?_⟩
  · cases ok with
    | true => exact hfits
    | false => exact hfits.2
  · intro g session hg htask
    exact absurd htask (hs.phased.opening hr hopen (by simp [hphase]) hg)

theorem Sound.register (hs : Sound s) (hr : s.requests r = some request)
    (hphase : request.phase = .registering) :
    Sound (({ s with registered := some s.nextSession, nextSession := s.nextSession + 1 }.setSession
      s.nextSession ⟨.opening, [], none⟩).setPhase r request (.listening s.nextSession)) := by
  obtain ⟨hopen, hfits⟩ := hs.fits hr hphase (by simp) (by simp)
  refine ⟨(hs.core.register hfits.2).setPhase r request _,
    hs.phased.setPhase hr hopen rfl rfl ?_ ?_⟩
  · exact ⟨hfits.1, rfl, _, Function.update_self _ _ _, rfl⟩
  · intro g session hg htask
    by_cases heq : g = s.nextSession
    · rw [heq]
    · change Function.update s.sessions s.nextSession _ g = some session at hg
      rw [Function.update_of_ne heq] at hg
      exact absurd htask (hs.phased.opening hr hopen (by simp [hphase]) hg)

theorem Sound.only_opening (hs : Sound s) {g g' : ℕ} (hr : s.requests r = some request)
    (hphase : request.phase = .listening g) (hg : s.sessions g' = some session)
    (htask : session.task = .opening) :
    g' = g := by
  obtain ⟨r', q, hq, hphase'⟩ := hs.phased.opener g' session hg htask
  have hr' := hs.phased.last hq (not_settled_of_phase hphase' (by simp) (by simp))
  have hlast := hs.phased.last hr (not_settled_of_phase hphase (by simp) (by simp))
  have hrr : r' = r := by omega
  subst hrr
  rw [hr, Option.some.injEq] at hq
  subst hq
  rw [hphase] at hphase'
  exact (Phase.listening.inj hphase').symm

theorem Sound.listen (hs : Sound s) {g : ℕ} (hr : s.requests r = some request)
    (hphase : request.phase = .listening g) (hg : s.sessions g = some session) :
    Sound (ClientJobs.listen s r request g session .ok) := by
  obtain ⟨hopen, henable, hreg, session', hg', htask⟩ := hs.fits hr hphase (by simp) (by simp)
  rw [hg, Option.some.injEq] at hg'
  subst hg'
  obtain ⟨hqueue, htarget⟩ := (hs.core.sound g session hg).opening htask
  have hdead : ∀ l listener, s.listeners l = some listener → listener.session = g →
      listener.alive = false := by
    intro l listener hl hsession
    by_contra halive
    obtain ⟨σ, hσ, ht⟩ := hs.core.owned l listener hl (by simpa using halive)
    rw [hsession, hg, Option.some.injEq] at hσ
    subst hσ
    rw [htarget] at ht
    cases ht
  refine ⟨(hs.core.opened hg hdead (by simp [hqueue]) fun h' =>
    absurd hreg h').setPhase r request _, hs.phased.setPhase hr hopen rfl rfl ?_ ?_⟩
  · have henable' : request.enable = true := henable
    change s.registered.isSome = request.enable
    rw [hreg, henable']
    rfl
  · intro g' σ hσ ht
    exfalso
    change Function.update s.sessions g _ g' = some σ at hσ
    by_cases heq : g' = g
    · subst heq
      rw [Function.update_self, Option.some.injEq] at hσ
      subst hσ
      cases ht
    · rw [Function.update_of_ne heq] at hσ
      exact heq (hs.only_opening hr hphase hσ ht)

end Requests

end Lantern.ClientJobs
