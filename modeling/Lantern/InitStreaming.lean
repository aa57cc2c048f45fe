import Lantern.SystemRuns

set_option autoImplicit false

/-!
# Streaming an initial embedding job

`stream_job` spawns a task that streams the job's batches to the embedding worker and
waits for an event after each of them. The task registers the sender of its events under
the id of the job; `stream_job` removes what is registered under that id right after it
spawned the task. The worker's events say the job and not the batch.
-/
namespace Lantern.InitStreaming
open SystemRuns

/-- A batch that the task streamed, or another batch of the same job. -/
inductive Origin where
  | streamed
  | other
  deriving DecidableEq

inductive JobEvent where
  | done
  | errored
  deriving DecidableEq

/-- An event on its way to the handle. Nobody looks at the origin. -/
structure Notice where
  origin : Origin
  event : JobEvent
  deriving DecidableEq

/-- The spawned task: before it sets the handle, about to poll a batch, waiting for an
    event, and ended with or without an error. -/
inductive StreamTask where
  | starting
  | polling
  | waiting
  | ended (ok : Bool)
  deriving DecidableEq

def StreamTask.hasEnded : StreamTask → Bool
  | .ended _ => true
  | _ => false

inductive MainTask where
  | removing
  | awaiting
  | ended
  deriving DecidableEq

structure Daemon where
  stream : StreamTask
  main : MainTask
  registered : Bool
  channel : List Notice
  left : ℕ
  queue : List Origin
  worker : Option Origin
  notices : List Notice
  streamed : ℕ
  succeeded : ℕ
  failed : ℕ
  initFinishedAt : Bool
  initFailedAt : Bool

inductive Action where
  | removeHandle
  | setHandle
  | streamError
  | sendBatch
  | finishStream
  | receiveEvent
  | enqueueOther
  | takeBatch
  | process (ok : Bool)
  | cancelJob
  | deliver (i : ℕ)
  | finishJob
  deriving DecidableEq

def eventOf (ok : Bool) : JobEvent := if ok then .done else .errored

def step (s : Daemon) : Action → Option Daemon
  | .removeHandle =>
    if s.main = .removing then some { s with main := .awaiting, registered := false } else none
  | .setHandle =>
    if s.stream = .starting then some { s with stream := .polling, registered := true } else none
  | .streamError => if s.stream.hasEnded then none else some { s with stream := .ended false }
  | .sendBatch =>
    match s.stream, s.left with
    | .polling, n + 1 => some { s with
        stream := .waiting, left := n, queue := s.queue ++ [.streamed], streamed := s.streamed + 1 }
    | _, _ => none
  | .finishStream =>
    match s.stream, s.left with
    | .polling, 0 => some { s with stream := .ended true }
    | _, _ => none
  | .receiveEvent =>
    match s.stream, s.channel with
    | .waiting, n :: rest => some { s with
        stream := if n.event = .errored then .ended false else .polling, channel := rest }
    -- without a sender there is nothing to wait for
    | .waiting, [] => if s.registered then none else some { s with stream := .polling }
    | _, _ => none
  | .enqueueOther => some { s with queue := s.queue ++ [.other] }
  | .takeBatch =>
    match s.worker, s.queue with
    | none, o :: rest => some { s with worker := some o, queue := rest }
    | _, _ => none
  | .process ok =>
    match s.worker with
    | none => none
    | some o => some { s with
        worker := none
        notices := s.notices ++ [⟨o, eventOf ok⟩]
        succeeded := if o = .streamed ∧ ok = true then s.succeeded + 1 else s.succeeded
        failed := if o = .streamed ∧ ok = false then s.failed + 1 else s.failed }
  | .cancelJob => some { s with notices := s.notices ++ [⟨.other, .errored⟩] }
  | .deliver i =>
    match s.notices[i]? with
    | none => none
    | some n =>
      if s.registered && !s.stream.hasEnded then
        -- the channel has room for one event
        if s.channel = [] then some { s with notices := s.notices.eraseIdx i, channel := [n] }
          else none
      else some { s with notices := s.notices.eraseIdx i }
  | .finishJob =>
    match s.main, s.stream with
    | .awaiting, .ended true => some { s with main := .ended, initFinishedAt := true }
    | .awaiting, .ended false => some { s with
        main := .ended, initFailedAt := s.initFailedAt || !s.initFinishedAt }
    | _, _ => none

def unprocessed (s : Daemon) : ℕ :=
  s.queue.count .streamed + if s.worker = some .streamed then 1 else 0

def answers (s : Daemon) (e : JobEvent) : ℕ :=
  s.notices.count ⟨.streamed, e⟩ + s.channel.count ⟨.streamed, e⟩

structure Started (s : Daemon) : Prop where
  stream : s.stream = .starting
  main : s.main = .removing
  not_registered : s.registered = false
  no_event : s.channel = []
  no_batch : unprocessed s = 0
  no_answer : ∀ e, answers s e = 0
  counts : s.streamed = 0 ∧ s.succeeded = 0 ∧ s.failed = 0
  columns : s.initFinishedAt = false ∧ s.initFailedAt = false

/-- The condition on a step: the handle is removed before the task sets it or after
    the task has ended, and the success of another batch does not reach the task. -/
def Ordered (s : Daemon) : Action → Prop
  | .removeHandle => s.stream = .starting ∨ s.stream.hasEnded = true
  | .deliver i =>
    s.notices[i]? = some ⟨.other, .done⟩ → s.registered = true → s.stream.hasEnded = true
  | _ => True

instance (s : Daemon) : (a : Action) → Decidable (Ordered s a)
  | .removeHandle => inferInstanceAs (Decidable (_ ∨ _))
  | .deliver _ => inferInstanceAs (Decidable (_ → _ → _))
  | .setHandle | .streamError | .sendBatch | .finishStream | .receiveEvent
    | .enqueueOther | .takeBatch
  | .process _ | .cancelJob | .finishJob => inferInstanceAs (Decidable True)

def daemon : System Daemon := actionSystem Started step fun _ _ => True

def orderedDaemon : System Daemon := actionSystem Started step Ordered

def StreamInv (s : Daemon) : Prop :=
  match s.stream with
  | .starting => s.registered = false ∧ s.channel = [] ∧ s.streamed = 0 ∧ ∀ e, answers s e = 0
  | .polling =>
    s.registered = true ∧ s.channel.count ⟨.other, .done⟩ = 0 ∧ unprocessed s = 0 ∧ s.failed = 0 ∧
      ∀ e, answers s e = 0
  | .waiting => s.registered = true ∧ s.channel.count ⟨.other, .done⟩ = 0 ∧
      unprocessed s + answers s .done + answers s .errored = 1 ∧ s.failed = answers s .errored
  | .ended true => s.left = 0 ∧ unprocessed s = 0 ∧ s.failed = 0
  | .ended false => True

def MainInv (s : Daemon) : Prop :=
  match s.main with
  | .ended => ∃ ok, s.stream = .ended ok ∧ s.initFinishedAt = ok ∧ s.initFailedAt = !ok
  | _ => s.initFinishedAt = false ∧ s.initFailedAt = false

structure Inv (s : Daemon) : Prop where
  conserved : unprocessed s + s.succeeded + s.failed = s.streamed
  stream : StreamInv s
  main : MainInv s

theorem inv_started {s : Daemon} (h : Started s) : Inv s := by
  obtain ⟨hstreamed, hsucceeded, hfailed⟩ := h.counts
  constructor
  · rw [h.no_batch, hstreamed, hsucceeded, hfailed]
  · unfold StreamInv
    rw [h.stream]
    exact ⟨h.not_registered, h.no_event, hstreamed, h.no_answer⟩
  · unfold MainInv
    rw [h.main]
    exact h.columns

variable {i : ℕ}

section Steps
variable {s t : Daemon}

theorem StreamInv.moved (h : StreamInv s) (hstream : t.stream = s.stream)
    (hregistered : t.registered = s.registered) (hchannel : t.channel = s.channel)
    (hleft : t.left = s.left) (hstreamed : t.streamed = s.streamed) (hfailed : t.failed = s.failed)
    (hunprocessed : unprocessed t = unprocessed s) (hanswers : ∀ e, answers t e = answers s e) :
    StreamInv t := by
  unfold StreamInv at h ⊢
  rw [hstream, hregistered, hchannel, hleft, hstreamed, hfailed, hunprocessed]
  simp only [hanswers]
  exact h

theorem MainInv.moved (h : MainInv s) (hmain : t.main = s.main)
    (hstream : s.stream.hasEnded = true → t.stream = s.stream)
    (hfinished : t.initFinishedAt = s.initFinishedAt) (hfailed : t.initFailedAt = s.initFailedAt) :
    MainInv t := by
  unfold MainInv at h ⊢
  rw [hmain, hfinished, hfailed]
  cases hm : s.main with
  | removing =>
    rw [hm] at h
    exact h
  | awaiting =>
    rw [hm] at h
    exact h
  | ended =>
    rw [hm] at h
    obtain ⟨ok, hok, hcolumns⟩ := h
    have hended : s.stream.hasEnded = true := by
      rw [hok]
      rfl
    exact ⟨ok, (hstream hended).trans hok, hcolumns⟩

theorem inv_removeHandle (h : Inv s) (hok : Ordered s .removeHandle)
    (hstep : step s .removeHandle = some t) :
    Inv t := by
  simp only [step] at hstep
  split_ifs at hstep with hmain
  cases hstep
  refine ⟨h.conserved, ?_, ?_⟩
  · have hstream := h.stream
    unfold StreamInv at hstream ⊢
    rcases hok with hstart | hended
    · simp only [hstart] at hstream ⊢
      exact ⟨trivial, hstream.2⟩
    · cases hs : s.stream with
      | ended ok =>
        simp only [hs] at hstream ⊢
        cases ok <;> exact hstream
      | _ =>
        rw [hs] at hended
        cases hended
  · have hmain' := h.main
    unfold MainInv at hmain' ⊢
    rw [hmain] at hmain'
    exact hmain'

theorem inv_setHandle (h : Inv s) (hstep : step s .setHandle = some t) : Inv t := by
  simp only [step] at hstep
  split_ifs at hstep with hstart
  cases hstep
  have hstream := h.stream
  have hconserved := h.conserved
  refine ⟨hconserved, ?_, h.main.moved rfl (fun hended => ?_) rfl rfl⟩
  · unfold StreamInv at hstream ⊢
    simp only [hstart] at hstream
    obtain ⟨-, hchannel, hstreamed, hanswers⟩ := hstream
    refine ⟨rfl, ?_, ?_, ?_, hanswers⟩
    · rw [hchannel, List.count_nil]
    · change unprocessed s = 0
      omega
    · change s.failed = 0
      omega
  · rw [hstart] at hended
    cases hended

theorem inv_streamError (h : Inv s) (hstep : step s .streamError = some t) : Inv t := by
  simp only [step] at hstep
  split_ifs at hstep with hended
  cases hstep
  exact ⟨h.conserved, trivial, h.main.moved rfl (fun hended' => absurd hended' hended) rfl rfl⟩

theorem inv_sendBatch (h : Inv s) (hstep : step s .sendBatch = some t) : Inv t := by
  simp only [step] at hstep
  split at hstep <;> cases hstep
  rename_i n hpolling hleft
  have hstream := h.stream
  have hconserved := h.conserved
  unfold StreamInv at hstream
  simp only [hpolling] at hstream
  obtain ⟨hregistered, hclean, hunprocessed, hfailed, hanswers⟩ := hstream
  have hsent : (s.queue ++ [Origin.streamed]).count .streamed = s.queue.count .streamed + 1 := by
    rw [List.count_append]
    rfl
  unfold unprocessed at hconserved hunprocessed
  refine ⟨?_, ?_, h.main.moved rfl (fun hended => ?_) rfl rfl⟩
  · unfold unprocessed
    simp only [hsent]
    omega
  · have hdone := hanswers .done
    have herrored := hanswers .errored
    unfold StreamInv unprocessed
    refine ⟨hregistered, hclean, ?_, ?_⟩
    · change (s.queue ++ [Origin.streamed]).count .streamed + _ + answers s .done +
        answers s .errored = 1
      simp only [hsent]
      omega
    · change s.failed = answers s .errored
      omega
  · rw [hpolling] at hended
    cases hended

theorem inv_finishStream (h : Inv s) (hstep : step s .finishStream = some t) : Inv t := by
  simp only [step] at hstep
  split at hstep <;> cases hstep
  rename_i hpolling hleft
  have hstream := h.stream
  unfold StreamInv at hstream
  simp only [hpolling] at hstream
  obtain ⟨-, -, hunprocessed, hfailed, -⟩ := hstream
  refine ⟨h.conserved, ⟨hleft, hunprocessed, hfailed⟩, h.main.moved rfl (fun hended => ?_) rfl rfl⟩
  rw [hpolling] at hended
  cases hended

theorem inv_receiveEvent (h : Inv s) (hstep : step s .receiveEvent = some t) : Inv t := by
  simp only [step] at hstep
  have hstream := h.stream
  unfold StreamInv at hstream
  split at hstep
  · rename_i n rest hwaiting hchannel
    cases hstep
    simp only [hwaiting] at hstream
    obtain ⟨hregistered, hclean, hone, hfailed⟩ := hstream
    refine ⟨h.conserved, ?_, h.main.moved rfl (fun hended => ?_) rfl rfl⟩
    · unfold StreamInv
      split_ifs with herrored
      · trivial
      · have hn : n = ⟨.streamed, .done⟩ := by
          rw [hchannel] at hclean
          obtain ⟨origin, event⟩ := n
          cases event with
          | errored => exact absurd rfl herrored
          | done =>
            cases origin with
            | streamed => rfl
            | other => simp at hclean
        subst hn
        have hdone :
            answers s .done = s.notices.count ⟨.streamed, .done⟩ +
            (rest.count ⟨.streamed, .done⟩ + 1) := by
          unfold answers
          rw [hchannel, List.count_cons_self]
        have herr : answers s .errored = s.notices.count ⟨.streamed, .errored⟩ +
            rest.count ⟨.streamed, .errored⟩ := by
          unfold answers
          rw [hchannel, List.count_cons_of_ne (by decide)]
        rw [hchannel, List.count_cons_of_ne (by decide)] at hclean
        refine ⟨hregistered, hclean, ?_, ?_, ?_⟩
        · change unprocessed s = 0
          omega
        · change s.failed = 0
          omega
        · intro e
          change s.notices.count ⟨.streamed, e⟩ + rest.count ⟨.streamed, e⟩ = 0
          cases e <;> omega
    · rw [hwaiting] at hended
      cases hended
  · rename_i hwaiting hchannel
    simp only [hwaiting] at hstream
    rw [if_pos hstream.1] at hstep
    cases hstep
  · cases hstep

theorem inv_enqueueOther (h : Inv s) (hstep : step s .enqueueOther = some t) : Inv t := by
  cases hstep
  have hunprocessed : unprocessed { s with queue := s.queue ++ [.other] } = unprocessed s := by
    unfold unprocessed
    rw [List.count_append]
    rfl
  refine ⟨?_, h.stream.moved rfl rfl rfl rfl rfl rfl hunprocessed fun _ =>
    rfl, h.main.moved rfl (fun _ => rfl) rfl rfl⟩
  rw [hunprocessed]
  exact h.conserved

theorem inv_takeBatch (h : Inv s) (hstep : step s .takeBatch = some t) : Inv t := by
  simp only [step] at hstep
  split at hstep <;> cases hstep
  rename_i o rest hworker hqueue
  have hunprocessed : unprocessed { s with worker := some o, queue := rest } = unprocessed s := by
    unfold unprocessed
    rw [hworker, hqueue]
    cases o <;> simp
  refine ⟨?_, h.stream.moved rfl rfl rfl rfl rfl rfl hunprocessed fun _ =>
    rfl, h.main.moved rfl (fun _ => rfl) rfl rfl⟩
  rw [hunprocessed]
  exact h.conserved

theorem inv_cancelJob (h : Inv s) (hstep : step s .cancelJob = some t) : Inv t := by
  cases hstep
  have hanswers :
      ∀ e, answers { s with notices := s.notices ++ [⟨.other, .errored⟩] } e = answers s e := by
    intro e
    unfold answers
    rw [List.count_append]
    rfl
  exact ⟨h.conserved, h.stream.moved rfl rfl rfl rfl rfl rfl rfl hanswers,
    h.main.moved rfl (fun _ => rfl) rfl rfl⟩

theorem inv_processOther {ok : Bool} (h : Inv s) (hworker : s.worker = some .other) :
    Inv { s with worker := none, notices := s.notices ++ [⟨.other, eventOf ok⟩] } := by
  have hunprocessed :
      unprocessed { s with worker := none, notices := s.notices ++ [⟨.other, eventOf ok⟩] } =
      unprocessed s := by
    unfold unprocessed
    rw [hworker]
    rfl
  have hanswers :
      ∀ e, answers { s with worker := none, notices := s.notices ++ [⟨.other, eventOf ok⟩] } e =
      answers s e := by
    intro e
    unfold answers
    rw [List.count_append]
    cases ok <;> rfl
  refine ⟨?_, h.stream.moved rfl rfl rfl rfl rfl rfl hunprocessed hanswers,
    h.main.moved rfl (fun _ => rfl) rfl rfl⟩
  rw [hunprocessed]
  exact h.conserved

theorem inv_processStreamed {ok : Bool} (h : Inv s) (hworker : s.worker = some .streamed)
    (ht : t = { s with
      worker := none
      notices := s.notices ++ [⟨.streamed, eventOf ok⟩]
      succeeded := if ok = true then s.succeeded + 1 else s.succeeded
      failed := if ok = false then s.failed + 1 else s.failed }) : Inv t := by
  have hbefore : unprocessed s = unprocessed t + 1 := by
    subst ht
    simp [unprocessed, hworker]
  -- either one more success with its answer, or one more failure with its answer
  have hanswer : (t.succeeded = s.succeeded + 1 ∧ t.failed = s.failed ∧
      answers t .done = answers s .done + 1 ∧ answers t .errored = answers s .errored) ∨
      (t.succeeded = s.succeeded ∧ t.failed = s.failed + 1 ∧
      answers t .done = answers s .done ∧ answers t .errored = answers s .errored + 1) := by
    subst ht
    unfold answers
    cases ok with
    | true =>
      refine Or.inl ⟨rfl, rfl, ?_, ?_⟩
      · rw [List.count_append, Nat.add_right_comm]
        rfl
      · rw [List.count_append]
        rfl
    | false =>
      refine Or.inr ⟨rfl, rfl, ?_, ?_⟩
      · rw [List.count_append]
        rfl
      · rw [List.count_append, Nat.add_right_comm]
        rfl
  have hstreamed : t.streamed = s.streamed := by
    subst ht
    rfl
  have hconserved := h.conserved
  have hstream := h.stream
  refine ⟨by omega, ?_, ?_⟩
  · have hsame : t.stream = s.stream ∧ t.registered = s.registered ∧ t.channel = s.channel := by
      subst ht
      exact ⟨rfl, rfl, rfl⟩
    unfold StreamInv at hstream ⊢
    rw [hsame.1]
    cases hs : s.stream with
    | starting =>
      simp only [hs] at hstream
      omega
    | polling =>
      simp only [hs] at hstream
      omega
    | waiting =>
      simp only [hs, hsame] at hstream ⊢
      obtain ⟨hregistered, hclean, hone, hfailed⟩ := hstream
      exact ⟨hregistered, hclean, by omega, by omega⟩
    | ended ok' =>
      cases ok' with
      | true =>
        simp only [hs] at hstream
        omega
      | false => trivial
  · subst ht
    exact h.main.moved rfl (fun _ => rfl) rfl rfl

theorem inv_process {ok : Bool} (h : Inv s) (hstep : step s (.process ok) = some t) : Inv t := by
  simp only [step] at hstep
  split at hstep
  · cases hstep
  · rename_i o hworker
    cases hstep
    cases o with
    | other =>
      have hinv := @inv_processOther s ok h hworker
      simpa using hinv
    | streamed => exact @inv_processStreamed s _ ok h hworker (by simp)

theorem count_eraseIdx {n : Notice} {ns : List Notice} (h : ns[i]? = some n) (x : Notice) :
    ns.count x = (ns.eraseIdx i).count x + [n].count x := by
  obtain ⟨hi, rfl⟩ := List.getElem?_eq_some_iff.mp h
  rw [← (List.getElem_cons_eraseIdx_perm hi).count_eq, ← List.singleton_append,
    List.count_append, Nat.add_comm]

theorem inv_delivered {n : Notice} (h : Inv s) (hn : s.notices[i]? = some n)
    (hchannel : s.channel = []) (hregistered : s.registered = true)
    (hended : s.stream.hasEnded = false) (hother : n ≠ ⟨.other, .done⟩) :
    Inv { s with notices := s.notices.eraseIdx i, channel := [n] } := by
  have hanswers :
      ∀ e, answers { s with notices := s.notices.eraseIdx i, channel := [n] } e = answers s e := by
    intro e
    unfold answers
    rw [hchannel, count_eraseIdx hn]
    rfl
  have hclean : [n].count ⟨.other, .done⟩ = 0 := by
    rw [List.count_singleton, if_neg]
    simpa using hother
  refine ⟨h.conserved, ?_, h.main.moved rfl (fun _ => rfl) rfl rfl⟩
  have hstream := h.stream
  unfold StreamInv at hstream ⊢
  simp only [hanswers]
  cases hs : s.stream with
  | starting =>
    simp only [hs] at hstream
    rw [hregistered] at hstream
    cases hstream.1
  | polling =>
    simp only [hs] at hstream
    exact ⟨hregistered, hclean, hstream.2.2⟩
  | waiting =>
    simp only [hs] at hstream
    exact ⟨hregistered, hclean, hstream.2.2⟩
  | ended ok =>
    rw [hs] at hended
    cases hended

theorem inv_dropped {n : Notice} (h : Inv s) (hn : s.notices[i]? = some n)
    (hgone : s.registered = false ∨ s.stream.hasEnded = true) :
    Inv { s with notices := s.notices.eraseIdx i } := by
  have hanswers : ∀ e, answers { s with notices := s.notices.eraseIdx i } e ≤ answers s e := by
    intro e
    unfold answers
    rw [count_eraseIdx hn]
    dsimp only
    omega
  refine ⟨h.conserved, ?_, h.main.moved rfl (fun _ => rfl) rfl rfl⟩
  have hstream := h.stream
  unfold StreamInv at hstream ⊢
  cases hs : s.stream with
  | starting =>
    simp only [hs] at hstream
    exact ⟨hstream.1, hstream.2.1, hstream.2.2.1, fun e =>
      Nat.le_zero.mp ((hanswers e).trans_eq (hstream.2.2.2 e))⟩
  | ended ok =>
    simp only [hs] at hstream
    cases ok <;> exact hstream
  | _ =>
    simp only [hs] at hstream
    rw [hstream.1, hs] at hgone
    rcases hgone with hgone | hgone <;> cases hgone

theorem inv_deliver (h : Inv s) (hok : Ordered s (.deliver i))
    (hstep : step s (.deliver i) = some t) :
    Inv t := by
  simp only [step] at hstep
  split at hstep
  · cases hstep
  · rename_i n hn
    split_ifs at hstep with hopen hempty <;> cases hstep
    · rw [Bool.and_eq_true, Bool.not_eq_true'] at hopen
      refine inv_delivered h hn hempty hopen.1 hopen.2 fun hother => ?_
      subst hother
      rw [hok hn hopen.1] at hopen
      cases hopen.2
    · apply inv_dropped h hn
      by_contra hgone
      rw [not_or, Bool.not_eq_false, Bool.not_eq_true] at hgone
      rw [hgone.1, hgone.2] at hopen
      exact hopen rfl

theorem inv_finishJob (h : Inv s) (hstep : step s .finishJob = some t) : Inv t := by
  have hmain := h.main
  simp only [step] at hstep
  split at hstep
  · rename_i hawaiting hended
    cases hstep
    unfold MainInv at hmain
    rw [hawaiting] at hmain
    exact ⟨h.conserved, h.stream.moved rfl rfl rfl rfl rfl rfl rfl fun _ =>
      rfl, ⟨true, hended, rfl, hmain.2⟩⟩
  · rename_i hawaiting hended
    cases hstep
    unfold MainInv at hmain
    rw [hawaiting] at hmain
    refine ⟨h.conserved, h.stream.moved rfl rfl rfl rfl rfl rfl rfl fun _ =>
      rfl, ⟨false, hended, hmain.1, ?_⟩⟩
    change (s.initFailedAt || !s.initFinishedAt) = true
    rw [hmain.1, hmain.2]
    rfl
  · cases hstep

theorem inv_step {a : Action} (h : Inv s) (hok : Ordered s a) (hstep : step s a = some t) :
    Inv t := by
  cases a with
  | removeHandle => exact inv_removeHandle h hok hstep
  | setHandle => exact inv_setHandle h hstep
  | streamError => exact inv_streamError h hstep
  | sendBatch => exact inv_sendBatch h hstep
  | finishStream => exact inv_finishStream h hstep
  | receiveEvent => exact inv_receiveEvent h hstep
  | enqueueOther => exact inv_enqueueOther h hstep
  | takeBatch => exact inv_takeBatch h hstep
  | process ok => exact inv_process h hstep
  | cancelJob => exact inv_cancelJob h hstep
  | deliver i => exact inv_deliver h hok hstep
  | finishJob => exact inv_finishJob h hstep

end Steps

theorem reachable_inv {s : Daemon} (h : Reachable orderedDaemon s) : Inv s := by
  apply Reachable.invariant Inv _ _ h
  · exact fun s hs => inv_started hs
  · rintro s t hs ⟨a, hok, hstep⟩
    exact inv_step hs hok hstep

/-- In every run with ordered steps: a job is marked as finished only after it streamed
    all its batches and all succeeded, and when `stream_job` has ended and a streamed
    batch failed, the job is marked as failed and not as finished. -/
theorem init_outcome_recorded {s : Daemon} (h : Reachable orderedDaemon s) :
    (s.initFinishedAt = true → s.left = 0 ∧ s.succeeded = s.streamed ∧ s.failed = 0) ∧
      (s.main = .ended → 0 < s.failed → s.initFailedAt = true ∧ s.initFinishedAt = false) := by
  obtain ⟨hconserved, hstream, hmain⟩ := reachable_inv h
  unfold StreamInv at hstream
  unfold MainInv at hmain
  constructor
  · intro hfinished
    cases hm : s.main with
    | ended =>
      rw [hm] at hmain
      obtain ⟨ok, hended, hok, -⟩ := hmain
      rw [hfinished] at hok
      subst hok
      simp only [hended] at hstream
      omega
    | _ =>
      rw [hm, hfinished] at hmain
      cases hmain.1
  · intro hm hfailed
    rw [hm] at hmain
    obtain ⟨ok, hended, hok, hfail⟩ := hmain
    cases ok with
    | true =>
      simp only [hended] at hstream
      omega
    | false => exact ⟨hfail, hok⟩

def oneBatch : Daemon where
  stream := .starting
  main := .removing
  registered := false
  channel := []
  left := 1
  queue := []
  worker := none
  notices := []
  streamed := 0
  succeeded := 0
  failed := 0
  initFinishedAt := false
  initFailedAt := false

theorem started_oneBatch : Started oneBatch := by
  refine ⟨rfl, rfl, rfl, rfl, rfl, ?_, ⟨rfl, rfl, rfl⟩, ⟨rfl, rfl⟩⟩
  intro e
  rfl

theorem failed_batch_recorded :
    ∃ s, Reachable orderedDaemon s ∧ s.main = .ended ∧ s.failed = 1 ∧ s.initFailedAt = true ∧
      s.initFinishedAt = false := by
  have h : Reachable orderedDaemon _ :=
    reachable_admitted (.start started_oneBatch)
      (show runActions (admittedStep step Ordered) oneBatch
      [.removeHandle, .setHandle, .sendBatch, .takeBatch, .process false, .deliver 0,
      .receiveEvent, .finishJob] =
        some _ from rfl)
  exact ⟨_, h, rfl, rfl, (init_outcome_recorded h).2 rfl Nat.one_pos⟩

/-- The handle is set before it is removed: the task does not wait. Or another batch of
    the job succeeds: the task takes the event for its own. The job is marked as
    finished, and its batch fails. -/
theorem failed_batch_missed :
    (∃ s, Reachable daemon s ∧ s.main = .ended ∧ s.failed = 1 ∧ s.initFinishedAt = true ∧
      s.initFailedAt = false) ∧
      ∃ acts s, .removeHandle ∈ acts.takeWhile (· ≠ .setHandle) ∧
        runActions step oneBatch acts = some s ∧
        s.main = .ended ∧ s.failed = 1 ∧ s.initFinishedAt = true ∧ s.initFailedAt = false := by
  have hall : ∀ acts : List Action, ∀ a ∈ acts, ∀ _ : Daemon, True := fun _ _ _ _ => trivial
  constructor
  · exact ⟨_, reachable_runActions (.start started_oneBatch) (hall [.setHandle,
      .removeHandle, .sendBatch, .receiveEvent, .finishStream, .finishJob, .takeBatch,
      .process false]) rfl, rfl, rfl, rfl, rfl⟩
  · exact ⟨[.removeHandle, .setHandle, .enqueueOther, .takeBatch, .sendBatch,
      .process true, .deliver 0, .receiveEvent, .finishStream, .finishJob, .takeBatch,
      .process false], _, by decide, rfl, rfl, rfl, rfl, rfl⟩

end Lantern.InitStreaming
