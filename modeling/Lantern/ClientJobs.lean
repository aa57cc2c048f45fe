import Lantern.SystemRuns

set_option autoImplicit false

/-!
# Notification listeners of a client job

Enabling a client job registers the sending end of a signal channel, opens a
notification listener on a connection of its own and spawns the task that reads the
signals. Disabling it removes the sending end and sends `Stop` to it. A listener whose
connection fails sends `Restart`.
-/
namespace Lantern.ClientJobs
open SystemRuns

inductive ClientJobSignal where
  | stop | restart
  deriving DecidableEq, Repr

/-- The task that reads the signals: not spawned yet, or waiting for one, or
    restarting the listener, or gone with the receiving end. -/
inductive SignalTask where
  | opening
  | waiting
  | restarting
  | ended
  deriving DecidableEq, Repr

structure Session where
  task : SignalTask
  queue : List ClientJobSignal
  /-- The listener that `cancel_listener_task` belongs to. -/
  target : Option ℕ
  deriving DecidableEq, Repr

structure Listener where
  session : ℕ
  alive : Bool
  /-- The connection has executed `LISTEN`. -/
  listens : Bool
  /-- The task that aborts this one has been told to. -/
  cancelling : Bool
  deriving DecidableEq, Repr

inductive Phase where
  | checking
  | stopping
  | connecting
  | registering
  | listening (session : ℕ)
  | removing
  | finished
  | failed
  deriving DecidableEq, Repr

structure Request where
  enable : Bool
  phase : Phase
  deriving DecidableEq, Repr

structure ClientJob where
  registered : Option ℕ
  sessions : ℕ → Option Session
  nextSession : ℕ
  listeners : ℕ → Option Listener
  nextListener : ℕ
  requests : ℕ → Option Request
  nextRequest : ℕ

inductive Attempt where
  | connectFails
  | listenFails
  | ok
  deriving DecidableEq, Repr

inductive Action where
  | request (enable : Bool)
  | check (r : ℕ)
  | stopOld (r : ℕ)
  | connect (r : ℕ) (ok : Bool)
  | register (r : ℕ)
  | listen (r : ℕ) (attempt : Attempt)
  | remove (r : ℕ)
  | signal (g : ℕ)
  | restart (g : ℕ) (attempt : Attempt)
  | connectionFails (l : ℕ)
  | connectionCloses (l : ℕ)
  | pingFails (l : ℕ)
  | abort (l : ℕ)
  deriving DecidableEq, Repr

def ClientJob.setSession (s : ClientJob) (g : ℕ) (session : Session) : ClientJob :=
  { s with sessions := Function.update s.sessions g (some session) }

def ClientJob.setListener (s : ClientJob) (l : ℕ) (listener : Listener) : ClientJob :=
  { s with listeners := Function.update s.listeners l (some listener) }

def ClientJob.setPhase (s : ClientJob) (r : ℕ) (request : Request) (phase : Phase) : ClientJob :=
  { s with requests := Function.update s.requests r (some { request with phase := phase }) }

def ClientJob.send (s : ClientJob) (g : ℕ) (signal : ClientJobSignal) : Option ClientJob :=
  match s.sessions g with
  | some session =>
    if session.task = .ended then none
      else some (s.setSession g { session with queue := session.queue ++ [signal] })
  | none => none

def stopClientJob (s : ClientJob) : ClientJob × Bool :=
  match s.registered with
  | none => (s, true)
  | some g =>
    let s := { s with registered := none }
    match s.send g .stop with
    | some t => (t, true)
    | none => (s, false)

/-- `client_notification_listener`: the task is spawned before `LISTEN` is executed. -/
def ClientJob.openListener (s : ClientJob) (g : ℕ) (listens : Bool) : ClientJob :=
  { s.setListener s.nextListener ⟨g, true, listens, false⟩ with nextListener := s.nextListener + 1 }

def listen (s : ClientJob) (r : ℕ) (request : Request) (g : ℕ) (session : Session) :
    Attempt → ClientJob
  | .connectFails =>
    (s.setSession g { session with task := .ended, queue := [] }).setPhase r request .failed
  | .listenFails =>
    ((s.openListener g false).setSession g { session with task := .ended, queue := [] }).setPhase r
    request .failed
  | .ok =>
    ((s.openListener g true).setSession g { session with
      task := .waiting, target := some s.nextListener }).setPhase
      r request .finished

def restart (s : ClientJob) (g : ℕ) (session : Session) : Attempt → ClientJob
  | .connectFails => s
  | .listenFails => s.openListener g false
  | .ok =>
    (s.openListener g true).setSession g { session with
      task := .waiting, target := some s.nextListener }

def ClientJob.cancel (s : ClientJob) (target : Option ℕ) : ClientJob :=
  match target with
  | some l =>
    match s.listeners l with
    | some listener => s.setListener l { listener with cancelling := true }
    | none => s
  | none => s

def handleSignal (s : ClientJob) (g : ℕ) (session : Session) : ClientJobSignal →
      List ClientJobSignal → ClientJob
  | .stop, _ => (s.cancel session.target).setSession g { session with task := .ended, queue := [] }
  | .restart, queue => s.setSession g { session with task := .restarting, queue := queue }

def step (s : ClientJob) : Action → Option ClientJob
  | .request enable =>
    some { s with
      requests := Function.update s.requests s.nextRequest
        (some ⟨enable, if enable then .checking else .removing⟩)
      nextRequest := s.nextRequest + 1 }
  | .check r =>
    match s.requests r with
    | some request =>
      if request.phase = .checking then
        some (s.setPhase r request (if s.registered.isSome then .stopping else .connecting))
      else none
    | none => none
  | .stopOld r =>
    match s.requests r with
    | some request =>
      if request.phase = .stopping then
        some ((stopClientJob s).1.setPhase r request (if (stopClientJob s).2 then .connecting
          else .failed))
      else none
    | none => none
  | .connect r ok =>
    match s.requests r with
    | some request =>
      if request.phase = .connecting then
        some (s.setPhase r request (if ok then .registering else .failed)) else none
    | none => none
  | .register r =>
    match s.requests r with
    | some request =>
      if request.phase = .registering then
        some (({ s with
          registered := some s.nextSession, nextSession := s.nextSession + 1 }.setSession
          s.nextSession ⟨.opening, [], none⟩).setPhase r request (.listening s.nextSession))
      else none
    | none => none
  | .listen r attempt =>
    match s.requests r with
    | some request =>
      match request.phase with
      | .listening g => (s.sessions g).map fun session => listen s r request g session attempt
      | _ => none
    | none => none
  | .remove r =>
    match s.requests r with
    | some request =>
      if request.phase = .removing then some ((stopClientJob s).1.setPhase r request .finished)
        else none
    | none => none
  | .signal g =>
    match s.sessions g with
    | some session =>
      match session.task, session.queue with
      | .waiting, signal :: queue => some (handleSignal s g session signal queue)
      | _, _ => none
    | none => none
  | .restart g attempt =>
    match s.sessions g with
    | some session =>
      if session.task = .restarting then some (restart s g session attempt) else none
    | none => none
  | .connectionFails l =>
    match s.listeners l with
    | some listener =>
      if listener.alive then
        let t := s.setListener l { listener with alive := false }
        some ((t.send listener.session .restart).getD t)
      else none
    | none => none
  | .connectionCloses l =>
    match s.listeners l with
    | some listener =>
      if listener.alive then some (s.setListener l { listener with alive := false }) else none
    | none => none
  | .pingFails l =>
    match s.listeners l with
    | some listener =>
      if listener.listens then some (s.setListener l { listener with cancelling := true }) else none
    | none => none
  | .abort l =>
    match s.listeners l with
    | some listener =>
      if listener.cancelling ∧ listener.alive then
        some (s.setListener l { listener with alive := false }) else none
    | none => none

def start : ClientJob := ⟨none, fun _ => none, 0, fun _ => none, 0, fun _ => none, 0⟩

def Request.settled (request : Request) : Prop :=
  request.phase = .finished ∨ request.phase = .failed

def ClientJob.Live (s : ClientJob) (l : ℕ) : Prop :=
  ∃ listener, s.listeners l = some listener ∧ listener.alive = true ∧ listener.listens = true

def ClientJob.RestartPending (s : ClientJob) : Prop :=
  ∃ g session, s.registered = some g ∧ s.sessions g = some session ∧
    (session.task = .restarting ∨ .restart ∈ session.queue)

structure ClientJob.Quiet (s : ClientJob) : Prop where
  requests : ∀ r request, s.requests r = some request → request.settled
  signals : ∀ g session, s.sessions g = some session → session.task ≠ .ended → .stop ∉ session.queue
  aborts : ∀ l listener, s.listeners l = some listener →
    ¬ (listener.alive = true ∧ listener.cancelling = true)

def ClientJob.last (s : ClientJob) : Option Request := s.requests (s.nextRequest - 1)

/-- An enable request made now starts a listener if the database is reachable. -/
def ClientJob.CanStart (s : ClientJob) : Prop :=
  ∃ actions t, runActions step s (.request true :: actions) = some t ∧
    actions ⊆ [.check s.nextRequest, .stopOld s.nextRequest, .connect s.nextRequest true,
    .register s.nextRequest,
      .listen s.nextRequest .ok] ∧ t.last = some ⟨true, .finished⟩ ∧ t.Live s.nextListener

structure ListensAsAsked (s : ClientJob) : Prop where
  enabled : s.last = some ⟨true, .finished⟩ → (∃! l, s.Live l) ∨ s.RestartPending
  disabled : s.last = some ⟨false, .finished⟩ → ∀ l, ¬ s.Live l
  startable : s.CanStart

end Lantern.ClientJobs
