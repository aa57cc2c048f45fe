import Lantern.SystemRuns

set_option autoImplicit false

/-!
# Cancelling a running autotune job

The autotune worker hands a job to the processor and registers the sending end of a
channel for one event. It reads one event, waits for the result and then removes the
handle. The processor announces its end on the same channel. Job updates and
`cancel_all_jobs` send to the handle while they hold the map of handles.
-/
namespace Lantern.AutotuneJobs
open SystemRuns

def JOB_CANCELLED_MESSAGE : String := "Job cancelled"

inductive JobEvent where
  | done
  | errored (message : String)
  deriving DecidableEq, Repr

def JobEvent.cancels : JobEvent → Bool
  | .done => false
  | .errored message => message = JOB_CANCELLED_MESSAGE

def cancelEvent : JobEvent := .errored JOB_CANCELLED_MESSAGE

inductive Worker where
  | registering
  | listening
  | awaiting
  | removing
  | finished
  | panicked
  deriving DecidableEq, Repr

inductive Processor where
  | running
  | sendingDone
  | sendingResult
  | returned
  | panicked
  | failed
  deriving DecidableEq, Repr

/-- While it sends, it holds the read lock of the map. -/
inductive Updater where
  | idle
  | sending
  | failed
  deriving DecidableEq, Repr

/-- While it sends, it holds the write lock of the map. -/
inductive Canceller where
  | waiting
  | sending
  | ended
  deriving DecidableEq, Repr

structure Job where
  worker : Worker
  processor : Processor
  updater : Updater
  canceller : Canceller
  registered : Bool
  channel : List JobEvent
  result : Bool
  isCanceled : Bool
  /-- The cancellation events whose send has begun. -/
  begun : ℕ
  deriving DecidableEq, Repr

inductive Action where
  | register
  | finishRun
  | panicRun
  | sendDone
  | sendResult
  | recvEvent
  | recvClosed
  | recvResult
  | remove
  | update
  | updateSend
  | cancelAll
  | cancelSend
  deriving DecidableEq, Repr

def EVENT_CHANNEL_CAPACITY : ℕ := 1

def Worker.alive : Worker → Bool
  | .finished | .panicked => false
  | _ => true

def Processor.holdsSender : Processor → Bool
  | .running | .sendingDone | .sendingResult => true
  | _ => false

def Job.mapFree (j : Job) : Bool := j.updater ≠ .sending && j.canceller ≠ .sending

def Job.sendersGone (j : Job) : Bool := !j.registered && j.mapFree && !j.processor.holdsSender

/-- The end of `event_tx.send`: it fails when the receiving end is dropped and
    waits for room otherwise. -/
def Job.send (j : Job) (event : JobEvent) (sent failed : Job) : Option Job :=
  if j.worker.alive then
    if j.channel.length < EVENT_CHANNEL_CAPACITY then some { sent with
      channel := j.channel ++ [event] } else none
  else some failed

def recvEvent (j : Job) : Option Job :=
  match j.worker, j.channel with
  | .listening, event :: channel =>
    some { j with
      worker := .awaiting, channel := channel, isCanceled := j.isCanceled || event.cancels }
  | _, _ => none

def recvResult (j : Job) : Option Job :=
  if j.worker = .awaiting then
    if j.result then some { j with worker := .removing, result := false }
    else if j.processor.holdsSender then none
    else some { j with worker := .panicked }
  else none

def step (j : Job) : Action → Option Job
  | .register =>
    if j.worker = .registering ∧ j.mapFree then
      some { j with worker := .listening, registered := true } else none
  | .finishRun => if j.processor = .running then some { j with processor := .sendingDone } else none
  | .panicRun => if j.processor = .running then some { j with processor := .panicked } else none
  | .sendDone =>
    if j.processor = .sendingDone then
      j.send .done { j with processor := .sendingResult } { j with processor := .failed }
    else none
  | .sendResult =>
    if j.processor = .sendingResult then some { j with processor := .returned, result := true }
      else none
  | .recvEvent => recvEvent j
  | .recvClosed =>
    if j.worker = .listening ∧ j.channel = [] ∧ j.sendersGone then
      some { j with worker := .awaiting } else none
  | .recvResult => recvResult j
  | .remove =>
    if j.worker = .removing ∧ j.mapFree then
      some { j with worker := .finished, registered := false } else none
  | .update =>
    if j.updater = .idle ∧ j.canceller ≠ .sending then
      if j.registered then some { j with updater := .sending, begun := j.begun + 1 } else some j
    else none
  | .updateSend =>
    if j.updater = .sending then
      j.send cancelEvent { j with updater := .idle } { j with updater := .failed }
    else none
  | .cancelAll =>
    if j.canceller = .waiting ∧ j.updater ≠ .sending then
      if j.registered then
        some { j with canceller := .sending, registered := false, begun := j.begun + 1 }
      else some { j with canceller := .ended }
    else none
  | .cancelSend =>
    if j.canceller = .sending then
      j.send cancelEvent { j with canceller := .ended } { j with canceller := .ended }
    else none

def start : Job := ⟨.registering, .running, .idle, .waiting, false, [], false, false, 0⟩

def autotune : System Job := actionSystem (· = start) step fun _ _ => True

/-- What follows a state, as long as the run of the job does not panic. -/
def continued (s : Job) : System Job := actionSystem (· = s) step fun _ a => a ≠ .panicRun

def Worker.reads : Worker → ℕ
  | .awaiting | .removing | .finished | .panicked => 1
  | _ => 0

def Processor.sentDone : Processor → ℕ
  | .sendingResult | .returned => 1
  | _ => 0

def Updater.pending : Updater → ℕ
  | .sending => 1
  | _ => 0

def Canceller.pending : Canceller → ℕ
  | .sending => 1
  | _ => 0

/-- As long as the worker is at the job, every event that was sent is in the
    channel, was read, or is still being sent. -/
structure Accounted (j : Job) : Prop where
  bounded : j.channel.length ≤ EVENT_CHANNEL_CAPACITY
  unregistered : j.worker = .registering → j.registered = false ∧ j.begun = 0
  listening : j.worker = .listening → j.registered = true ∨ 1 ≤ j.begun
  events : j.worker.alive = true →
    j.channel.length + j.worker.reads + j.updater.pending + j.canceller.pending = j.begun +
    j.processor.sentDone
  resulted : j.result = true ∨ j.worker = .removing → j.processor.sentDone = 1
  finished : j.worker = .finished → j.registered = false ∧ j.begun ≤ 1
  panicked : j.worker = .panicked → j.processor = .panicked
  failed : j.processor = .failed → j.worker.alive = false
  returned : j.processor = .returned → j.result = true ∨ j.worker = .removing ∨ j.worker = .finished

theorem accounted_start : Accounted start := by
  constructor <;> simp [start, Worker.alive, Worker.reads, Processor.sentDone, Updater.pending,
    Canceller.pending]

theorem send_eq_some {j sent failed t : Job} {event : JobEvent}
    (h : j.send event sent failed = some t) :
    (j.worker.alive = true ∧ j.channel.length < EVENT_CHANNEL_CAPACITY ∧
      t = { sent with channel := j.channel ++ [event] }) ∨
      j.worker.alive = false ∧ t = failed := by
  unfold Job.send at h
  split_ifs at h with halive hroom
  · cases h
    exact .inl ⟨halive, hroom, rfl⟩
  · cases h
    exact .inr ⟨by simpa using halive, rfl⟩

theorem mapFree_iff {j : Job} : j.mapFree = true ↔ j.updater ≠ .sending ∧
      j.canceller ≠ .sending := by
  simp [Job.mapFree]

theorem Updater.pending_eq_zero {u : Updater} (h : u ≠ .sending) : u.pending = 0 := by
  cases u <;> first | rfl | exact absurd rfl h

theorem Canceller.pending_eq_zero {c : Canceller} (h : c ≠ .sending) : c.pending = 0 := by
  cases c <;> first | rfl | exact absurd rfl h

theorem Accounted.sender {j t : Job} (h : Accounted j) (hw : t.worker = j.worker)
    (hp : t.processor = j.processor) (hr : t.result = j.result)
    (hroom : t.channel.length ≤ EVENT_CHANNEL_CAPACITY)
    (hlost : t.registered = false → j.registered = false ∨ 1 ≤ t.begun) (hmore : j.begun ≤ t.begun)
    (hwas : t.registered = true ∨ j.begun < t.begun → j.registered = true)
    (hev : t.channel.length + t.updater.pending + t.canceller.pending + j.begun =
      j.channel.length + j.updater.pending + j.canceller.pending + t.begun ∨
        j.worker.alive = false) : Accounted t := by
  have hgone : j.registered = false → t.registered = false ∧ t.begun = j.begun := by
    intro hf
    refine ⟨?_, ?_⟩
    · by_contra ht
      rw [hwas (.inl (by simpa using ht))] at hf
      cases hf
    · by_contra ht
      rw [hwas (.inr (by omega))] at hf
      cases hf
  refine ⟨hroom, ?_, ?_, ?_, ?_, ?_, ?_, ?_, ?_⟩
  · rw [hw]
    intro hreg
    obtain ⟨hf, hzero⟩ := h.unregistered hreg
    obtain ⟨ht, hb⟩ := hgone hf
    exact ⟨ht, hb.trans hzero⟩
  · rw [hw]
    intro hlisten
    cases hreg : t.registered with
    | true => exact .inl rfl
    | false =>
      rcases hlost hreg with hf | hb
      · rcases h.listening hlisten with ht | hone
        · rw [hf] at ht
          cases ht
        · exact .inr (hone.trans hmore)
      · exact .inr hb
  · rw [hw, hp]
    intro halive
    have he := h.events halive
    rcases hev with hev | hdead
    · omega
    · rw [halive] at hdead
      cases hdead
  · rw [hw, hp, hr]
    exact h.resulted
  · rw [hw]
    intro hfin
    obtain ⟨hf, hone⟩ := h.finished hfin
    obtain ⟨ht, hb⟩ := hgone hf
    exact ⟨ht, by omega⟩
  · rw [hw, hp]
    exact h.panicked
  · rw [hw, hp]
    exact h.failed
  · rw [hw, hp, hr]
    exact h.returned

theorem Accounted.no_result {j : Job} (h : Accounted j) (hw : j.worker = .awaiting)
    (hr : ¬ j.result = true) (hs : ¬ j.processor.holdsSender = true) : j.processor = .panicked := by
  cases hp : j.processor with
  | panicked => rfl
  | returned =>
    rcases h.returned hp with h' | h' | h'
    · exact absurd h' hr
    · rw [hw] at h'
      cases h'
    · rw [hw] at h'
      cases h'
  | failed =>
    have hdead := h.failed hp
    rw [hw] at hdead
    cases hdead
  | running => exact absurd (by rw [hp]; rfl) hs
  | sendingDone => exact absurd (by rw [hp]; rfl) hs
  | sendingResult => exact absurd (by rw [hp]; rfl) hs

variable {a : Action}

section Steps
variable {j t : Job}

theorem Accounted.processorStep (h : Accounted j) {processor : Processor} {result : Bool}
    {channel : List JobEvent} (hroom : channel.length ≤ EVENT_CHANNEL_CAPACITY)
    (hev : j.worker.alive = true →
      channel.length + j.processor.sentDone = j.channel.length + processor.sentDone)
    (hres : result = true ∨ j.worker = .removing → processor.sentDone = 1)
    (hpanic : j.worker = .panicked → processor = .panicked)
    (hfail : processor = .failed → j.worker.alive = false)
    (hret : processor = .returned → result = true) :
    Accounted { j with processor := processor, result := result, channel := channel } where
  bounded := hroom
  unregistered := h.unregistered
  listening := h.listening
  events halive := by
    have hold := h.events halive
    have hnew := hev halive
    simp only
    omega
  resulted := hres
  finished := h.finished
  panicked := hpanic
  failed := hfail
  returned hp := .inl (hret hp)

theorem Accounted.workerStep (h : Accounted j) (halive : j.worker.alive = true) {worker : Worker}
    {registered result isCanceled : Bool} {channel : List JobEvent}
    (hroom : channel.length ≤ EVENT_CHANNEL_CAPACITY) (hstart : worker ≠ .registering)
    (hlisten : worker = .listening → registered = true)
    (hev : worker.alive = true → channel.length + worker.reads = j.channel.length + j.worker.reads)
    (hres : result = true ∨ worker = .removing → j.result = true ∨ j.worker = .removing)
    (hfin : worker = .finished → registered = false ∧ j.begun ≤ 1)
    (hpanic : worker = .panicked → j.processor = .panicked)
    (hret : j.result = true ∨ j.worker = .removing → result = true ∨ worker = .removing ∨
      worker = .finished) :
    Accounted { j with
      worker := worker, registered := registered, result := result, isCanceled := isCanceled,
        channel := channel } where
  bounded := hroom
  unregistered hw := absurd hw hstart
  listening hw := .inl (hlisten hw)
  events hnew := by
    have hold := h.events halive
    have heq := hev hnew
    simp only
    omega
  resulted hw := h.resulted (hres hw)
  finished := hfin
  panicked := hpanic
  failed hp := by
    have hdead := h.failed hp
    rw [halive] at hdead
    cases hdead
  returned hp := by
    rcases h.returned hp with hr | hr | hr
    · exact hret (.inl hr)
    · exact hret (.inr hr)
    · rw [hr] at halive
      cases halive

theorem Accounted.not_done (h : Accounted j) (hp : j.processor.sentDone = 0) :
    ¬ (j.result = true ∨ j.worker = .removing) := by
  intro hres
  rw [h.resulted hres] at hp
  cases hp

theorem Accounted.not_panicked (h : Accounted j) (hp : j.processor ≠ .panicked) :
    j.worker ≠ .panicked :=
  fun hw => hp (h.panicked hw)

/-! One lemma for each action, in the order of the actions. -/

theorem Accounted.register (hj : Accounted j) (h : step j .register = some t) : Accounted t := by
  simp only [step] at h
  split_ifs at h with hc
  cases h
  obtain ⟨hw, -⟩ := hc
  exact hj.workerStep (by rw [hw]; rfl) hj.bounded (by simp)
    (fun _ => rfl) (fun _ => by rw [hw]; rfl)
    (fun hr => .inl (hr.resolve_right (by simp))) (by simp) (by simp) (fun hr =>
      .inl (hr.resolve_right (by simp [hw])))

theorem Accounted.finishRun (hj : Accounted j) (h : step j .finishRun = some t) : Accounted t := by
  simp only [step] at h
  split_ifs at h with hp
  cases h
  exact hj.processorStep hj.bounded (fun _ => by rw [hp]; rfl) (fun hr =>
    absurd hr (hj.not_done (by rw [hp]; rfl)))
    (fun hw => absurd hw (hj.not_panicked (by simp [hp]))) (by simp) (by simp)

theorem Accounted.panicRun (hj : Accounted j) (h : step j .panicRun = some t) : Accounted t := by
  simp only [step] at h
  split_ifs at h with hp
  cases h
  exact hj.processorStep hj.bounded (fun _ => by rw [hp]; rfl) (fun hr =>
    absurd hr (hj.not_done (by rw [hp]; rfl)))
    (fun _ => rfl) (by simp) (by simp)

theorem Accounted.sendDone (hj : Accounted j) (h : step j .sendDone = some t) : Accounted t := by
  simp only [step] at h
  split_ifs at h with hp
  have hdone := hj.not_done (by rw [hp]; rfl)
  have hpanic := hj.not_panicked (by simp [hp])
  rcases send_eq_some h with ⟨halive, hroom, rfl⟩ | ⟨hdead, rfl⟩
  · refine hj.processorStep (by simpa using hroom) (fun _ => ?_) (fun _ => rfl)
      (fun hw => absurd hw hpanic) (by simp)
      (by simp)
    simp only [hp, Processor.sentDone, List.length_append, List.length_singleton, Nat.add_zero]
  · exact hj.processorStep hj.bounded (fun _ => by rw [hp]; rfl) (fun hr => absurd hr hdone)
      (fun hw => absurd hw hpanic) (fun _ => hdead) (by simp)

theorem Accounted.sendResult (hj : Accounted j) (h : step j .sendResult = some t) :
    Accounted t := by
  simp only [step] at h
  split_ifs at h with hp
  cases h
  exact hj.processorStep hj.bounded (fun _ => by rw [hp]; rfl) (fun _ => rfl)
    (fun hw => absurd hw (hj.not_panicked (by simp [hp]))) (by simp) (fun _ => rfl)

theorem Accounted.recvEvent (hj : Accounted j) (h : step j .recvEvent = some t) : Accounted t := by
  simp only [step, AutotuneJobs.recvEvent] at h
  split at h
  · rename_i event channel hw hc
    cases h
    have hroom := hj.bounded
    rw [hc, List.length_cons] at hroom
    refine hj.workerStep (by rw [hw]; rfl) (by omega) (by simp) (by simp) ?_ (fun hr =>
      .inl (hr.resolve_right (by simp)))
      (by simp) (by simp) (fun hr => .inl (hr.resolve_right (by simp [hw])))
    intro _
    simp only [hw, hc, Worker.reads, List.length_cons, Nat.add_zero]
  · cases h

theorem Accounted.not_recvClosed (hj : Accounted j) : step j .recvClosed = none := by
  refine if_neg ?_
  rintro ⟨hw, hempty, hgone⟩
  simp only [Job.sendersGone, Bool.and_eq_true, Bool.not_eq_true'] at hgone
  obtain ⟨⟨hreg, hfree⟩, -⟩ := hgone
  obtain ⟨hup, hcan⟩ := mapFree_iff.mp hfree
  have hone : 1 ≤ j.begun := (hj.listening hw).resolve_left (by simp [hreg])
  have hev := hj.events (by rw [hw]; rfl)
  have hreads : j.worker.reads = 0 := by rw [hw]; rfl
  rw [hempty, hreads, Updater.pending_eq_zero hup, Canceller.pending_eq_zero hcan,
    List.length_nil] at hev
  omega

theorem Accounted.recvResult (hj : Accounted j) (h : step j .recvResult = some t) :
    Accounted t := by
  simp only [step, AutotuneJobs.recvResult] at h
  split_ifs at h with hw hres hlive
  · cases h
    exact hj.workerStep (by rw [hw]; rfl) hj.bounded (by simp) (by simp)
      (fun _ => by rw [hw]; rfl) (fun _ => .inl hres)
      (by simp) (by simp) (by simp)
  · cases h
    exact hj.workerStep (by rw [hw]; rfl) hj.bounded (by simp) (by simp) (by simp [Worker.alive])
      (fun hr => .inl (hr.resolve_right (by simp))) (by simp) (fun _ => hj.no_result hw hres hlive)
      (fun hr => .inl (hr.resolve_right (by simp [hw])))

theorem Accounted.remove (hj : Accounted j) (h : step j .remove = some t) : Accounted t := by
  simp only [step] at h
  split_ifs at h with hc
  cases h
  obtain ⟨hw, hfree⟩ := hc
  obtain ⟨hup, hcan⟩ := mapFree_iff.mp hfree
  have hone : j.begun ≤ 1 := by
    have hroom := hj.bounded
    have hev := hj.events (by rw [hw]; rfl)
    rw [hj.resulted (.inr hw), hw, Updater.pending_eq_zero hup, Canceller.pending_eq_zero hcan,
      Worker.reads] at hev
    rw [EVENT_CHANNEL_CAPACITY] at hroom
    omega
  exact hj.workerStep (by rw [hw]; rfl) hj.bounded (by simp) (by simp) (by simp [Worker.alive])
    (fun _ => .inr hw)
    (fun _ => ⟨rfl, hone⟩) (by simp) (by simp)

theorem Accounted.update (hj : Accounted j) (h : step j .update = some t) : Accounted t := by
  simp only [step] at h
  split_ifs at h with hc hreg
  · cases h
    refine hj.sender rfl rfl rfl hj.bounded ?_ (Nat.le_succ _) (fun _ => hreg) (.inl ?_)
    · intro hf
      rw [hreg] at hf
      cases hf
    · rw [hc.1]
      simp only [Updater.pending]
      omega
  · cases h
    exact hj

theorem Accounted.updateSend (hj : Accounted j) (h : step j .updateSend = some t) :
    Accounted t := by
  simp only [step] at h
  split_ifs at h with hc
  rcases send_eq_some h with ⟨halive, hroom, rfl⟩ | ⟨hdead, rfl⟩
  · refine hj.sender rfl rfl rfl ?_ .inl (le_refl _) (·.resolve_right (lt_irrefl _)) (.inl ?_)
    · simpa using hroom
    · simp only [hc, Updater.pending, List.length_append, List.length_singleton]
  · exact hj.sender rfl rfl rfl hj.bounded .inl (le_refl _)
      (·.resolve_right (lt_irrefl _)) (.inr hdead)

theorem Accounted.cancelAll (hj : Accounted j) (h : step j .cancelAll = some t) : Accounted t := by
  simp only [step] at h
  split_ifs at h with hc hreg
  · cases h
    refine hj.sender rfl rfl rfl hj.bounded (fun _ => .inr ?_) (Nat.le_succ _)
      (fun _ => hreg) (.inl ?_)
    · exact Nat.le_add_left 1 j.begun
    · rw [hc.1]
      simp only [Canceller.pending]
      omega
  · cases h
    refine hj.sender rfl rfl rfl hj.bounded .inl (le_refl _)
      (·.resolve_right (lt_irrefl _)) (.inl ?_)
    rw [hc.1]
    rfl

theorem Accounted.cancelSend (hj : Accounted j) (h : step j .cancelSend = some t) :
    Accounted t := by
  simp only [step] at h
  split_ifs at h with hc
  rcases send_eq_some h with ⟨halive, hroom, rfl⟩ | ⟨hdead, rfl⟩
  · refine hj.sender rfl rfl rfl ?_ .inl (le_refl _) (·.resolve_right (lt_irrefl _)) (.inl ?_)
    · simpa using hroom
    · simp only [hc, Canceller.pending, List.length_append, List.length_singleton]
      omega
  · exact hj.sender rfl rfl rfl hj.bounded .inl (le_refl _)
      (·.resolve_right (lt_irrefl _)) (.inr hdead)

theorem step_accounted (hj : Accounted j) (h : step j a = some t) : Accounted t := by
  cases a with
  | register => exact hj.register h
  | finishRun => exact hj.finishRun h
  | panicRun => exact hj.panicRun h
  | sendDone => exact hj.sendDone h
  | sendResult => exact hj.sendResult h
  | recvEvent => exact hj.recvEvent h
  | recvClosed => exact absurd (hj.not_recvClosed.symm.trans h) nofun
  | recvResult => exact hj.recvResult h
  | remove => exact hj.remove h
  | update => exact hj.update h
  | updateSend => exact hj.updateSend h
  | cancelAll => exact hj.cancelAll h
  | cancelSend => exact hj.cancelSend h

end Steps

theorem reachable_accounted {j : Job} (h : Reachable autotune j) : Accounted j := by
  refine h.invariant Accounted ?_ ?_
  · rintro s rfl
    exact accounted_start
  · rintro s t hs ⟨a, -, hstep⟩
    exact step_accounted hs hstep

/-- The worker waits for the result, and the processor for room in the channel. -/
def CrossedWait (j : Job) : Prop :=
  j.worker = .awaiting ∧ j.processor = .sendingDone ∧ EVENT_CHANNEL_CAPACITY ≤ j.channel.length

/-- The job update processor holds the map in everything that can follow. -/
def HeldForever (j : Job) : Prop :=
  ∀ t, Reachable (actionSystem (· = j) step fun _ _ => True) t → t.updater = .sending

theorem Accounted.not_crossed {j : Job} (h : Accounted j) (hone : j.begun ≤ 1) :
    ¬ CrossedWait j := by
  rintro ⟨hw, hp, hfull⟩
  have hev := h.events (by rw [hw]; rfl)
  have hreads : j.worker.reads = 1 := by rw [hw]; rfl
  have hdone : j.processor.sentDone = 0 := by rw [hp]; rfl
  rw [EVENT_CHANNEL_CAPACITY] at hfull
  omega

theorem Accounted.update_waits {j : Job} (h : Accounted j) (hone : j.begun ≤ 1)
    (hu : j.updater = .sending) :
    j.worker.alive = false ∨ j.channel.length < EVENT_CHANNEL_CAPACITY ∨
      j.worker = .listening ∧ ∃ event, j.channel = [event] := by
  by_cases halive : j.worker.alive = true
  · have hev := h.events halive
    have hbound := h.bounded
    have hpending : j.updater.pending = 1 := by rw [hu]; rfl
    have hdone : j.processor.sentDone ≤ 1 := by cases j.processor <;> decide
    rw [EVENT_CHANNEL_CAPACITY] at hbound ⊢
    by_cases hroom : j.channel.length < 1
    · exact .inr (.inl hroom)
    · have hreads : j.worker.reads = 0 := by omega
      have hlen : j.channel.length = 1 := by omega
      refine .inr (.inr ⟨?_, List.length_eq_one_iff.mp hlen⟩)
      cases hw : j.worker with
      | registering =>
        have hzero := (h.unregistered hw).2
        omega
      | listening => rfl
      | awaiting => rw [hw] at hreads; cases hreads
      | removing => rw [hw] at hreads; cases hreads
      | finished => rw [hw] at hreads; cases hreads
      | panicked => rw [hw] at hreads; cases hreads
  · exact .inl (by simpa using halive)

theorem updateSend_ends {j : Job} (hu : j.updater = .sending)
    (hroom : j.worker.alive = false ∨ j.channel.length < EVENT_CHANNEL_CAPACITY) :
    ∃ t, step j .updateSend = some t ∧ t.updater ≠ .sending := by
  simp only [step, if_pos hu, Job.send]
  by_cases halive : j.worker.alive = true
  · rw [if_pos halive, if_pos (hroom.resolve_left (by simp [halive]))]
    exact ⟨_, rfl, by simp⟩
  · rw [if_neg halive]
    exact ⟨_, rfl, by simp⟩

theorem HeldForever.sending {j : Job} (h : HeldForever j) : j.updater = .sending := h j (.start rfl)

theorem HeldForever.step {j t : Job} (h : HeldForever j) (hs : AutotuneJobs.step j a = some t) :
    HeldForever t := by
  intro u hu
  refine h u ?_
  induction hu with
  | start hu =>
    subst hu
    exact .next (.start rfl) ⟨a, trivial, hs⟩
  | next _ hstep ih => exact .next ih hstep

theorem Accounted.not_held {j : Job} (h : Accounted j) (hone : j.begun ≤ 1) : ¬ HeldForever j := by
  intro hheld
  rcases h.update_waits hone hheld.sending with hdead | hroom | ⟨hw, event, hc⟩
  · obtain ⟨t, ht, hu⟩ := updateSend_ends hheld.sending (.inl hdead)
    exact hu (hheld.step ht).sending
  · obtain ⟨t, ht, hu⟩ := updateSend_ends hheld.sending (.inr hroom)
    exact hu (hheld.step ht).sending
  · -- the worker reads the event first
    have hread : AutotuneJobs.step j .recvEvent = some { j with
        worker := .awaiting, channel := [], isCanceled := j.isCanceled || event.cancels } := by
      simp [AutotuneJobs.step, AutotuneJobs.recvEvent, hw, hc]
    have hheld' := hheld.step hread
    obtain ⟨t, ht, hu⟩ := updateSend_ends hheld'.sending (.inr Nat.zero_lt_one)
    exact hu (hheld'.step ht).sending

theorem step_begun_le {j t : Job} (h : step j a = some t) : j.begun ≤ t.begun := by
  cases a <;> grind [step, recvEvent, recvResult, Job.send]

theorem step_not_panicked {j t : Job} (hp : j.processor ≠ .panicked) (ha : a ≠ .panicRun)
    (h : step j a = some t) : t.processor ≠ .panicked := by
  cases a <;> grind [step, recvEvent, recvResult, Job.send]

/-- A job with at most one cancellation is never stuck. After a second one the
    worker never gets to the end of the job, unless the run of the job panics. -/
theorem cancellations_stall {j : Job} (h : Reachable autotune j) :
    (j.begun ≤ 1 → ¬ CrossedWait j ∧ ¬ HeldForever j) ∧
      (2 ≤ j.begun → j.processor ≠ .panicked → ∀ t, Reachable (continued j) t →
        t.worker.alive = true) := by
  constructor
  · intro hone
    have hj := reachable_accounted h
    exact ⟨hj.not_crossed hone, hj.not_held hone⟩
  · intro htwo hp t ht
    have hall : Reachable autotune t ∧ 2 ≤ t.begun ∧ t.processor ≠ .panicked := by
      refine ht.invariant (fun t => Reachable autotune t ∧ 2 ≤ t.begun ∧
        t.processor ≠ .panicked) ?_ ?_
      · rintro s rfl
        exact ⟨h, htwo, hp⟩
      · rintro s u ⟨hs, hbegun, hrun⟩ ⟨a, ha, hstep⟩
        exact ⟨hs.next ⟨a, trivial, hstep⟩, hbegun.trans (step_begun_le hstep),
          step_not_panicked hrun ha hstep⟩
    obtain ⟨hreach, hbegun, hrun⟩ := hall
    have haccounted := reachable_accounted hreach
    cases hw : t.worker with
    | finished =>
      have hone := (haccounted.finished hw).2
      omega
    | panicked => exact absurd (haccounted.panicked hw) hrun
    | _ => rfl

def crossedActions : List Action :=
  [.register, .update, .updateSend, .recvEvent, .update, .updateSend, .finishRun]

def crossedJob : Job :=
  ⟨.awaiting, .sendingDone, .idle, .waiting, true, [cancelEvent], false, true, 2⟩

def heldActions : List Action :=
  [.register, .update, .updateSend, .recvEvent, .finishRun, .sendDone, .sendResult,
    .recvResult, .update]

def heldJob : Job := ⟨.removing, .returned, .sending, .waiting, true, [.done], false, true, 2⟩

theorem reachable_crossedJob : Reachable autotune crossedJob :=
  @reachable_runActions _ _ _ _ _ start _ crossedActions (.start rfl) (fun _ _ _ => trivial) rfl

theorem reachable_heldJob : Reachable autotune heldJob :=
  @reachable_runActions _ _ _ _ _ start _ heldActions (.start rfl) (fun _ _ _ => trivial) rfl

theorem heldJob_blocked (a : Action) : step heldJob a = none := by
  cases a <;> rfl

theorem second_cancellation_stalls :
    (Reachable autotune crossedJob ∧ CrossedWait crossedJob) ∧ Reachable autotune heldJob ∧
      HeldForever heldJob := by
  refine ⟨⟨reachable_crossedJob, rfl, rfl, le_refl _⟩, reachable_heldJob, ?_⟩
  intro t ht
  have hsame : t = heldJob := by
    refine ht.invariant (· = heldJob) (fun _ hs => hs) ?_
    rintro s u rfl ⟨a, -, hstep⟩
    rw [heldJob_blocked a] at hstep
    cases hstep
  rw [hsame]
  rfl

def canceledJob : Job := ⟨.removing, .returned, .idle, .waiting, true, [.done], false, true, 1⟩

theorem reachable_canceledJob : Reachable autotune canceledJob :=
  @reachable_runActions _ _ _ _ _ start _
    [.register, .update, .updateSend, .recvEvent, .finishRun, .sendDone, .sendResult,
      .recvResult] (.start rfl)
    (fun _ _ _ => trivial) rfl

theorem second_cancellation_differs :
    (¬ CrossedWait canceledJob ∧ ¬ HeldForever canceledJob) ∧
      ∀ t, Reachable (continued crossedJob) t → t.worker.alive = true :=
  ⟨(cancellations_stall reachable_canceledJob).1 (le_refl 1),
    (cancellations_stall reachable_crossedJob).2 (le_refl 2) (by decide)⟩

end Lantern.AutotuneJobs
