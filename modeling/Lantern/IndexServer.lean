import Lantern.SystemRuns

set_option autoImplicit false

/-!
# The indexing server: one receiving thread and its workers

Rows go from the socket through a bounded channel to the workers, which take
turns at the receiving end and add rows to the index. After the end message the
receiving thread joins the workers and sends the size of the index. The machine
starts when the index has been initialised and the workers are spawned.
-/
namespace Lantern.IndexServer
open SystemRuns

def CHANNEL_CAPACITY : ℕ := 2000

inductive ProtocolMessage (Row : Type) where
  | init
  | data (row : Row)
  | exit
  deriving DecidableEq, Repr

inductive AddResult where
  | ok | err | panicked
  deriving DecidableEq, Repr

inductive Worker (Row : Type) where
  | idle
  | receiving
  | adding (row : Row)
  | finished (result : AddResult)
  deriving DecidableEq, Repr

inductive Receiver (Row : Type) where
  | reading
  | sending (row : Row)
  | joining (next : ℕ)
  | sentCount (count : ℕ)
  | sentError
  deriving DecidableEq, Repr

structure Server (Row : Type) (N : ℕ) where
  main : Receiver Row
  frames : List (ProtocolMessage Row)
  received : List Row
  capacity : ℕ
  channel : List Row
  workers : Fin N → Worker Row
  index : List Row

inductive Action (N : ℕ) where
  | readFrame (reserved : Bool)
  | readError
  | send
  | lock (i : Fin N)
  | recv (i : Fin N)
  | add (i : Fin N) (result : AddResult)
  | join
  | writeCount (written : Bool)
  deriving DecidableEq, Repr

section Machine
variable {Row : Type} {N : ℕ}

/-- The sending end of the channel lives as long as `receive_rows` runs. -/
def Receiver.holdsSender : Receiver Row → Bool
  | .reading | .sending _ => true
  | _ => false

def Worker.holdsReceiver : Worker Row → Bool
  | .receiving => true
  | _ => false

def Server.setWorker (s : Server Row N) (i : Fin N) (w : Worker Row) : Server Row N :=
  { s with workers := Function.update s.workers i w }

/-- One turn of the loop of `receive_rows`, up to the send. The socket is at its
    end when no frame is left. -/
def readFrame (reserved : Bool) (s : Server Row N) : Server Row N :=
  match s.frames with
  | [] => { s with main := .sentError }
  | .exit :: frames => { s with main := .joining 0, frames := frames }
  | .init :: frames => { s with main := .sentError, frames := frames }
  | .data row :: frames =>
    let s := { s with received := s.received ++ [row], frames := frames }
    if s.received.length = s.capacity + 1 then
      if reserved then { s with main := .sending row, capacity := s.capacity * 2 }
      else { s with main := .sentError }
    else { s with main := .sending row }

def joinWorker (s : Server Row N) (next : ℕ) : AddResult → Server Row N
  | .panicked => { s with main := .sentError }
  | _ => { s with main := .joining (next + 1) }

def addRow (s : Server Row N) (i : Fin N) (row : Row) : AddResult → Server Row N
  | .ok => { s.setWorker i .idle with index := s.index ++ [row] }
  | result => s.setWorker i (.finished result)

def step (s : Server Row N) : Action N → Option (Server Row N)
  | .readFrame reserved =>
    match s.main with
    | .reading => some (readFrame reserved s)
    | _ => none
  | .readError =>
    match s.main with
    | .reading => some { s with main := .sentError }
    | _ => none
  | .send =>
    match s.main with
    | .sending row =>
      if s.channel.length < CHANNEL_CAPACITY then
        some { s with main := .reading, channel := s.channel ++ [row] }
      else none
    | _ => none
  | .lock i =>
    match s.workers i with
    | .idle =>
      if ∀ j, (s.workers j).holdsReceiver = false then some (s.setWorker i .receiving) else none
    | _ => none
  | .recv i =>
    match s.workers i, s.channel with
    | .receiving, row :: channel => some { s.setWorker i (.adding row) with channel := channel }
    | .receiving, [] => if s.main.holdsSender then none else some (s.setWorker i (.finished .ok))
    | _, _ => none
  | .add i result =>
    match s.workers i with
    | .adding row => some (addRow s i row result)
    | _ => none
  | .join =>
    match s.main with
    | .joining next =>
      if h : next < N then
        match s.workers ⟨next, h⟩ with
        | .finished result => some (joinWorker s next result)
        | _ => none
      else none
    | _ => none
  | .writeCount written =>
    match s.main with
    | .joining next =>
      if next < N then none
      else some { s with main := if written then .sentCount s.index.length else .sentError }
    | _ => none

def start (N : ℕ) (capacity : ℕ) (frames : List (ProtocolMessage Row)) : Server Row N :=
  ⟨.reading, frames, [], capacity, [], fun _ => .idle, []⟩

def Started (s : Server Row N) : Prop := ∃ capacity frames, s = start N capacity frames

def AddsSucceed (_ : Server Row N) : Action N → Prop
  | .add _ result => result = .ok
  | _ => True

def server : System (Server Row N) := actionSystem Started step fun _ _ => True

def reliableServer : System (Server Row N) := actionSystem Started step AddsSucceed

inductive Moved (s : Server Row N) : Action N → Server Row N → Prop where
  | readFails {a : Action N} {frames : List (ProtocolMessage Row)} {received : List Row}
      (hm : s.main = .reading) (hle : frames.length ≤ s.frames.length) :
      Moved s a { s with main := .sentError, frames := frames, received := received }
  | readExit {a : Action N} {frames : List (ProtocolMessage Row)} (hm : s.main = .reading)
      (hf : s.frames = .exit :: frames) : Moved s a { s with main := .joining 0, frames := frames }
  | readData {a : Action N} {row : Row} {frames : List (ProtocolMessage Row)} {capacity : ℕ}
      (hm : s.main = .reading) (hf : s.frames = .data row :: frames) :
      Moved s a { s with
        main := .sending row, received := s.received ++ [row], frames := frames,
        capacity := capacity }
  | send {row : Row} (hm : s.main = .sending row) :
      Moved s .send { s with main := .reading, channel := s.channel ++ [row] }
  | lock {i : Fin N} (hi : s.workers i = .idle) : Moved s (.lock i) (s.setWorker i .receiving)
  | take {i : Fin N} {row : Row} {channel : List Row} (hi : s.workers i = .receiving)
      (hc : s.channel = row :: channel) :
      Moved s (.recv i) { s.setWorker i (.adding row) with channel := channel }
  | close {i : Fin N} (hi : s.workers i = .receiving) (hc : s.channel = [])
      (hm : s.main.holdsSender = false) : Moved s (.recv i) (s.setWorker i (.finished .ok))
  | added {i : Fin N} {row : Row} (hi : s.workers i = .adding row) :
      Moved s (.add i .ok) { s.setWorker i .idle with index := s.index ++ [row] }
  | addFails {i : Fin N} {row : Row} {result : AddResult} (hi : s.workers i = .adding row)
      (hr : result ≠ .ok) : Moved s (.add i result) (s.setWorker i (.finished result))
  | joined {next : ℕ} {result : AddResult} (hm : s.main = .joining next) (hn : next < N)
      (hw : s.workers ⟨next, hn⟩ = .finished result) :
      Moved s .join { s with main := .joining (next + 1) }
  | joinFails {next : ℕ} (hm : s.main = .joining next) : Moved s .join { s with main := .sentError }
  | counted {next : ℕ} (hm : s.main = .joining next) (hn : N ≤ next) :
      Moved s (.writeCount true) { s with main := .sentCount s.index.length }
  | countFails {next : ℕ} (hm : s.main = .joining next) :
      Moved s (.writeCount false) { s with main := .sentError }

theorem readFrame_moved {s : Server Row N} {a : Action N} (reserved : Bool)
    (hm : s.main = .reading) :
    Moved s a (readFrame reserved s) := by
  unfold readFrame
  split
  · exact .readFails hm (le_refl _)
  · rename_i frames hf
    exact .readExit hm hf
  · rename_i frames hf
    exact .readFails hm (by rw [hf]; simp)
  · rename_i row frames hf
    simp only
    split
    · split
      · exact .readData hm hf
      · exact .readFails hm (by rw [hf]; simp)
    · exact .readData hm hf

theorem step_moved {s t : Server Row N} {a : Action N} (h : step s a = some t) : Moved s a t := by
  cases a with
  | readFrame reserved =>
    simp only [step] at h
    split at h
    · rename_i hm
      cases h
      exact readFrame_moved reserved hm
    · cases h
  | readError =>
    simp only [step] at h
    split at h
    · rename_i hm
      cases h
      exact .readFails hm (le_refl _)
    · cases h
  | send =>
    simp only [step] at h
    split at h
    · rename_i row hm
      split at h
      · cases h
        exact .send hm
      · cases h
    · cases h
  | lock i =>
    simp only [step] at h
    split at h
    · rename_i hi
      split at h
      · cases h
        exact .lock hi
      · cases h
    · cases h
  | recv i =>
    simp only [step] at h
    split at h
    · rename_i row channel hi hc
      cases h
      exact .take hi hc
    · rename_i hi hc
      split at h
      · cases h
      · rename_i hm
        cases h
        exact .close hi hc (by simpa using hm)
    · cases h
  | add i result =>
    simp only [step] at h
    split at h
    · rename_i row hi
      cases h
      cases result with
      | ok => exact .added hi
      | err => exact .addFails hi (by simp)
      | panicked => exact .addFails hi (by simp)
    · cases h
  | join =>
    simp only [step] at h
    split at h
    · rename_i next hm
      split at h
      · rename_i hn
        split at h
        · rename_i result hw
          cases h
          cases result with
          | panicked => exact .joinFails hm
          | ok => exact .joined hm hn hw
          | err => exact .joined hm hn hw
        · cases h
      · cases h
    · cases h
  | writeCount written =>
    simp only [step] at h
    split at h
    · rename_i next hm
      split at h
      · cases h
      · rename_i hn
        cases h
        cases written with
        | true => exact .counted hm (by omega)
        | false => exact .countFails hm
    · cases h

end Machine

theorem sum_update {N : ℕ} {α M : Type} [AddCommMonoid M] (g : α → M) (w : Fin N → α)
    (i : Fin N) (x : α) :
    (∑ j, g (Function.update w i x j)) + g (w i) = (∑ j, g (w j)) + g x := by
  have hother : ∀ j ∈ Finset.univ.erase i, g (Function.update w i x j) = g (w j) := by
    intro j hj
    rw [Function.update_of_ne (Finset.ne_of_mem_erase hj)]
  rw [← Finset.add_sum_erase Finset.univ (fun j => g (w j)) (Finset.mem_univ i),
    ← Finset.add_sum_erase Finset.univ (fun j => g (Function.update w i x j)) (Finset.mem_univ i),
    Finset.sum_congr rfl hother, Function.update_self]
  abel

section Conservation
variable {Row : Type} {N : ℕ}

def Worker.held : Worker Row → Multiset Row
  | .adding row => {row}
  | _ => 0

def Receiver.held : Receiver Row → Multiset Row
  | .sending row => {row}
  | _ => 0

def Server.rows (s : Server Row N) : Multiset Row :=
  (s.index : Multiset Row) + (∑ i, (s.workers i).held) + (s.channel : Multiset Row) + s.main.held

structure Reliable (s : Server Row N) : Prop where
  conserved : s.main ≠ .sentError → s.rows = (s.received : Multiset Row)
  finished : ∀ i result, s.workers i = .finished result →
    result = .ok ∧ s.main.holdsSender = false ∧ s.channel = []
  joined : ∀ next, s.main = .joining next → ∀ i : Fin N, i.val < next →
    ∃ r, s.workers i = .finished r
  counted : ∀ count, s.main = .sentCount count →
    count = s.index.length ∧ ∀ i : Fin N, ∃ r, s.workers i = .finished r

theorem reliable_start (capacity : ℕ) (frames : List (ProtocolMessage Row)) :
    Reliable (start N capacity frames) := by
  refine ⟨fun _ => ?_, fun i r h => ?_, fun n h => ?_, fun n h => ?_⟩
  · simp [Server.rows, start, Worker.held, Receiver.held]
  · simp [start] at h
  · simp [start] at h
  · simp [start] at h

theorem setWorker_finished {s : Server Row N} {i j : Fin N} {w : Worker Row} {r : AddResult}
    (h : (s.setWorker i w).workers j = .finished r) :
    j = i ∧ w = .finished r ∨ s.workers j = .finished r := by
  by_cases hj : j = i
  · subst hj
    exact .inl ⟨rfl, by simpa [Server.setWorker] using h⟩
  · exact .inr (by simpa [Server.setWorker, hj] using h)

theorem setWorker_keeps {s : Server Row N} {i j : Fin N} {w : Worker Row} {r : AddResult}
    (hi : ∀ r, s.workers i ≠ .finished r) (h : s.workers j = .finished r) :
    (s.setWorker i w).workers j = .finished r := by
  have hj : j ≠ i := by
    rintro rfl
    exact hi r h
  simpa [Server.setWorker, hj] using h

theorem held_setWorker (s : Server Row N) (i : Fin N) (w : Worker Row) :
    (∑ j, ((s.setWorker i w).workers j).held) + (s.workers i).held =
      (∑ j, (s.workers j).held) + w.held :=
  sum_update Worker.held s.workers i w

variable {s t : Server Row N} {i : Fin N}

theorem rows_setWorker {w : Worker Row} (hi : (s.workers i).held = 0) (hw : w.held = 0) :
    (s.setWorker i w).rows = s.rows := by
  have hsum := held_setWorker s i w
  rw [hi, hw, add_zero, add_zero] at hsum
  simp only [Server.rows, hsum]
  rfl

theorem Reliable.readData {s : Server Row N} (h : Reliable s) {row : Row}
    {frames : List (ProtocolMessage Row)} {capacity : ℕ} (hm : s.main = .reading) :
    Reliable { s with
      main := .sending row, received := s.received ++ [row], frames := frames,
        capacity := capacity } where
  conserved := by
    intro _
    have hrows := h.conserved (by rw [hm]; simp)
    rw [Server.rows, hm] at hrows
    rw [← Multiset.coe_add, ← hrows]
    simp only [Server.rows, Receiver.held, add_zero]
    rfl
  finished := by
    intro i r hi
    have := (h.finished i r hi).2.1
    rw [hm] at this
    cases this
  joined := fun next hj => by cases hj
  counted := fun count hj => by cases hj

theorem Reliable.send {s : Server Row N} (h : Reliable s) {row : Row} (hm : s.main = .sending row) :
    Reliable { s with main := .reading, channel := s.channel ++ [row] } where
  conserved := by
    intro _
    rw [← h.conserved (by rw [hm]; simp)]
    simp only [Server.rows, hm, Receiver.held, add_zero, ← Multiset.coe_add, Multiset.coe_singleton]
    abel
  finished := by
    intro i r hi
    have := (h.finished i r hi).2.1
    rw [hm] at this
    cases this
  joined := fun next hj => by cases hj
  counted := fun count hj => by cases hj

theorem Reliable.leave (h : Reliable s) (hworkers : t.workers = s.workers)
    (hchannel : t.channel = s.channel) (hsender : t.main.holdsSender = false)
    (hrows : t.main ≠ .sentError → t.rows = (t.received : Multiset Row))
    (hjoined : ∀ next, t.main = .joining next → ∀ i : Fin N, i.val < next →
      ∃ r, s.workers i = .finished r)
    (hcounted : ∀ count, t.main = .sentCount count →
      count = t.index.length ∧ ∀ i : Fin N, ∃ r, s.workers i = .finished r) : Reliable t where
  conserved := hrows
  finished := by
    intro i r hi
    rw [hworkers] at hi
    obtain ⟨h1, -, h3⟩ := h.finished i r hi
    exact ⟨h1, hsender, hchannel.trans h3⟩
  joined := by
    rw [hworkers]
    exact hjoined
  counted := by
    rw [hworkers]
    exact hcounted

theorem Reliable.worker (h : Reliable s) (w : Worker Row) (hi : ∀ r, s.workers i ≠ .finished r)
    (hmain : t.main = s.main) (hreceived : t.received = s.received)
    (hworkers : t.workers = (s.setWorker i w).workers) (hrows : t.rows = s.rows)
    (hchannel : s.channel = [] → t.channel = [])
    (hw : ∀ r, w = .finished r → r = .ok ∧ s.main.holdsSender = false ∧ s.channel = []) :
    Reliable t where
  conserved := by
    intro hm
    rw [hrows, hreceived]
    exact h.conserved (hmain ▸ hm)
  finished := by
    intro j r hj
    rw [hworkers] at hj
    have hold : r = .ok ∧ s.main.holdsSender = false ∧ s.channel = [] := by
      rcases setWorker_finished hj with ⟨-, hr⟩ | hold
      · exact hw r hr
      · exact h.finished j r hold
    exact ⟨hold.1, hmain ▸ hold.2.1, hchannel hold.2.2⟩
  joined := by
    intro next hn j hj
    obtain ⟨r, hr⟩ := h.joined next (hmain ▸ hn) j hj
    exact ⟨r, hworkers ▸ setWorker_keeps hi hr⟩
  counted := by
    intro count hc
    obtain ⟨r, hr⟩ := (h.counted count (hmain ▸ hc)).2 i
    exact absurd hr (hi r)

theorem rows_take {row : Row} {channel : List Row} (hi : s.workers i = .receiving)
    (hc : s.channel = row :: channel) :
    Server.rows { s.setWorker i (.adding row) with channel := channel } = s.rows := by
  have hsum := held_setWorker s i (.adding row)
  have hheld : (s.workers i).held = 0 := by rw [hi]; rfl
  rw [hheld, add_zero] at hsum
  change (s.index : Multiset Row) + (∑ j, ((s.setWorker i (.adding row)).workers j).held) +
    (channel : Multiset Row) + s.main.held = s.rows
  rw [Server.rows, hsum, hc, ← Multiset.cons_coe, ← Multiset.singleton_add, Worker.held]
  abel

theorem rows_added {row : Row} (hi : s.workers i = .adding row) :
    Server.rows { s.setWorker i .idle with index := s.index ++ [row] } = s.rows := by
  have hsum := held_setWorker s i .idle
  have hheld : (s.workers i).held = {row} := by rw [hi]; rfl
  have hidle : (Worker.idle : Worker Row).held = 0 := rfl
  rw [hheld, hidle, add_zero] at hsum
  change ((s.index ++ [row] : List Row) : Multiset Row) +
    (∑ j, ((s.setWorker i .idle).workers j).held) + (s.channel : Multiset Row) +
    s.main.held = s.rows
  rw [Server.rows, ← hsum, ← Multiset.coe_add, Multiset.coe_singleton]
  abel

theorem Reliable.rows_kept (h : Reliable s) (hne : s.main ≠ .sentError) (hs : s.main.held = 0)
    (ht : t.main.held = 0) (hindex : t.index = s.index) (hworkers : t.workers = s.workers)
    (hchannel : t.channel = s.channel) (hreceived : t.received = s.received) :
    t.rows = (t.received : Multiset Row) := by
  rw [hreceived, ← h.conserved hne]
  simp only [Server.rows, hs, ht, hindex, hworkers, hchannel]

theorem step_reliable {s t : Server Row N} {a : Action N} (h : Reliable s) (ha : AddsSucceed s a)
    (ht : step s a = some t) : Reliable t := by
  cases step_moved ht with
  | readFails hm hle =>
    exact h.leave rfl rfl rfl (fun hne => absurd rfl hne) (fun n hn => by cases hn)
      (fun n hn => by cases hn)
  | readExit hm hf =>
    refine h.leave rfl rfl rfl (fun _ => ?_) (fun n hn i hi => ?_) (fun n hn => by cases hn)
    · exact h.rows_kept (by rw [hm]; simp) (by rw [hm]; rfl) rfl rfl rfl rfl rfl
    · cases hn
      exact absurd hi (Nat.not_lt_zero _)
  | readData hm hf => exact h.readData hm
  | send hm => exact h.send hm
  | lock hi =>
    exact h.worker _ (by simp [hi]) rfl rfl rfl (rows_setWorker (by rw [hi]; rfl) rfl) id
      (fun r hr => by cases hr)
  | take hi hc =>
    refine h.worker _ (by simp [hi]) rfl rfl rfl (rows_take hi hc) (fun hnil => ?_)
      (fun r hr => by cases hr)
    rw [hc] at hnil
    cases hnil
  | close hi hc hm =>
    refine h.worker _ (by simp [hi]) rfl rfl rfl (rows_setWorker (by rw [hi]; rfl) rfl) id
      (fun r hr => ?_)
    cases hr
    exact ⟨rfl, hm, hc⟩
  | added hi =>
    exact h.worker _ (by simp [hi]) rfl rfl rfl (rows_added hi) id (fun r hr => by cases hr)
  | addFails hi hr => exact absurd ha hr
  | @joined next result hm hn hw =>
    refine h.leave rfl rfl rfl (fun _ => ?_) (fun n hn' i hi => ?_) (fun n hn => by cases hn)
    · exact h.rows_kept (by rw [hm]; simp) (by rw [hm]; rfl) rfl rfl rfl rfl rfl
    · cases hn'
      rcases Nat.lt_succ_iff_lt_or_eq.mp hi with hlt | heq
      · exact h.joined next hm i hlt
      · obtain rfl : i = ⟨next, hn⟩ := Fin.ext heq
        exact ⟨result, hw⟩
  | joinFails hm =>
    exact h.leave rfl rfl rfl (fun hne => absurd rfl hne) (fun n hn => by cases hn)
      (fun n hn => by cases hn)
  | @counted next hm hn =>
    refine h.leave rfl rfl rfl (fun _ => ?_) (fun n hn => by cases hn) (fun n hn' => ?_)
    · exact h.rows_kept (by rw [hm]; simp) (by rw [hm]; rfl) rfl rfl rfl rfl rfl
    · cases hn'
      exact ⟨rfl, fun i => h.joined next hm i (by have := i.isLt; omega)⟩
  | countFails hm =>
    exact h.leave rfl rfl rfl (fun hne => absurd rfl hne) (fun n hn => by cases hn)
      (fun n hn => by cases hn)

theorem reachable_reliable {s : Server Row N} (h : Reachable reliableServer s) : Reliable s := by
  refine h.invariant Reliable ?_ ?_
  · rintro _ ⟨capacity, frames, rfl⟩
    exact reliable_start capacity frames
  · rintro s t hs ⟨a, ha, ht⟩
    exact step_reliable hs ha ht

theorem Reliable.sentCount (h : Reliable s) (hN : 0 < N) {count : ℕ}
    (hm : s.main = .sentCount count) : s.index.Perm s.received ∧ count = s.received.length := by
  obtain ⟨hcount, hall⟩ := h.counted count hm
  have hchannel : s.channel = [] := by
    obtain ⟨r, hr⟩ := hall ⟨0, hN⟩
    exact (h.finished _ r hr).2.2
  have hheld : ∑ i, (s.workers i).held = 0 := by
    refine Finset.sum_eq_zero fun i _ => ?_
    obtain ⟨r, hr⟩ := hall i
    rw [hr]
    rfl
  have hrows := h.conserved (by rw [hm]; simp)
  rw [Server.rows, hheld, hchannel, hm] at hrows
  have hperm : s.index.Perm s.received := by
    rw [← Multiset.coe_eq_coe, ← hrows]
    simp [Receiver.held]
  exact ⟨hperm, hcount.trans hperm.length_eq⟩

end Conservation

section Progress
variable {Row : Type} {N : ℕ}

def Receiver.done : Receiver Row → Bool
  | .sentCount _ | .sentError => true
  | _ => false

variable {s : Server Row N}

theorem worker_progress {i : Fin N} (hi : ∀ r, s.workers i ≠ .finished r)
    (hrow : s.channel ≠ [] ∨ s.main.holdsSender = false) :
    ∃ a t, AddsSucceed s a ∧ step s a = some t := by
  have hrecv : ∀ j, s.workers j = .receiving → ∃ a t, AddsSucceed s a ∧ step s a = some t := by
    intro j hj
    refine ⟨.recv j, ?_⟩
    cases hc : s.channel with
    | nil =>
      have hm : s.main.holdsSender = false := by
        rcases hrow with h | h
        · exact absurd hc h
        · exact h
      exact ⟨_, trivial, by simp only [step, hj, hc, hm]; rfl⟩
    | cons row channel => exact ⟨_, trivial, by simp only [step, hj, hc]; rfl⟩
  cases hw : s.workers i with
  | finished r => exact absurd hw (hi r)
  | receiving => exact hrecv i hw
  | adding row => exact ⟨.add i .ok, _, rfl, by simp only [step, hw]; rfl⟩
  | idle =>
    by_cases hfree : ∀ j, (s.workers j).holdsReceiver = false
    · exact ⟨.lock i, _, trivial, by simp only [step, hw, if_pos hfree]; rfl⟩
    · obtain ⟨j, hj⟩ := not_forall.mp hfree
      refine hrecv j ?_
      cases hwj : s.workers j with
      | receiving => rfl
      | _ =>
        rw [hwj] at hj
        exact absurd rfl hj

theorem Reliable.progress {s : Server Row N} (h : Reliable s) (hN : 0 < N)
    (hd : s.main.done = false) : ∃ a t, AddsSucceed s a ∧ step s a = some t := by
  cases hm : s.main with
  | reading => exact ⟨.readFrame true, _, trivial, by simp only [step, hm]; rfl⟩
  | sending row =>
    by_cases hroom : s.channel.length < CHANNEL_CAPACITY
    · exact ⟨.send, _, trivial, by simp only [step, hm, if_pos hroom]; rfl⟩
    · refine @worker_progress _ _ s ⟨0, hN⟩ (fun r hr => ?_) (.inl ?_)
      · have := (h.finished _ r hr).2.1
        rw [hm] at this
        cases this
      · intro hnil
        rw [hnil] at hroom
        exact hroom (by simp [CHANNEL_CAPACITY])
  | joining next =>
    by_cases hn : next < N
    · by_cases hw : ∃ r, s.workers ⟨next, hn⟩ = .finished r
      · obtain ⟨r, hr⟩ := hw
        exact ⟨.join, _, trivial, by simp only [step, hm, dif_pos hn, hr]; rfl⟩
      · exact @worker_progress _ _ s ⟨next, hn⟩ (fun r hr => hw ⟨r, hr⟩) (.inr (by rw [hm]; rfl))
    · exact ⟨.writeCount true, _, trivial, by simp only [step, hm, if_neg hn]; rfl⟩
  | sentCount count =>
    rw [hm] at hd
    cases hd
  | sentError =>
    rw [hm] at hd
    cases hd

def Worker.weight : Worker Row → ℕ
  | .idle => 2
  | .receiving => 1
  | .adding _ => 3
  | .finished _ => 0

def Receiver.weight (N : ℕ) : Receiver Row → ℕ
  | .reading => N + 3
  | .sending _ => N + 7
  | .joining next => N - next + 2
  | .sentCount _ | .sentError => 0

def Server.steps (s : Server Row N) : ℕ :=
  5 * s.frames.length + s.main.weight N + 3 * s.channel.length + ∑ i, (s.workers i).weight

theorem weight_setWorker (s : Server Row N) (i : Fin N) (w : Worker Row) :
    (∑ j, ((s.setWorker i w).workers j).weight) + (s.workers i).weight =
      (∑ j, (s.workers j).weight) + w.weight :=
  sum_update Worker.weight s.workers i w

theorem steps_worker {t : Server Row N} {i : Fin N} (w : Worker Row)
    (hworkers : t.workers = (s.setWorker i w).workers) (hmain : t.main = s.main)
    (hframes : t.frames = s.frames)
    (hlt : 3 * t.channel.length + w.weight < 3 * s.channel.length + (s.workers i).weight) :
    t.steps < s.steps := by
  have hsum := weight_setWorker s i w
  simp only [Server.steps, hworkers, hmain, hframes]
  omega

theorem step_decreases (s : Server Row N) (a : Action N) (t : Server Row N)
    (h : step s a = some t) :
    t.steps < s.steps := by
  cases step_moved h with
  | readFails hm hle =>
    simp only [Server.steps, hm, Receiver.weight]
    omega
  | readExit hm hf =>
    simp only [Server.steps, hm, hf, Receiver.weight, List.length_cons]
    omega
  | readData hm hf =>
    simp only [Server.steps, hm, hf, Receiver.weight, List.length_cons]
    omega
  | send hm =>
    simp only [Server.steps, hm, Receiver.weight, List.length_append, List.length_singleton]
    omega
  | lock hi =>
    exact steps_worker .receiving rfl rfl rfl (by rw [hi]; simp [Worker.weight, Server.setWorker])
  | take hi hc =>
    refine steps_worker _ rfl rfl rfl ?_
    rw [hi, hc]
    simp only [Worker.weight, List.length_cons]
    omega
  | close hi hc hm =>
    exact steps_worker _ rfl rfl rfl (by rw [hi]; simp [Worker.weight, Server.setWorker])
  | added hi =>
    exact steps_worker .idle rfl rfl rfl (by rw [hi]; simp [Worker.weight, Server.setWorker])
  | addFails hi hr =>
    exact steps_worker _ rfl rfl rfl (by rw [hi]; simp [Worker.weight, Server.setWorker])
  | joined hm hn hw =>
    simp only [Server.steps, hm, Receiver.weight]
    omega
  | joinFails hm | counted hm hn | countFails hm =>
    simp only [Server.steps, hm, Receiver.weight]
    omega

/-- When every `add_raw` call succeeds: a count is sent only when every received
    row has been added once, and is their number; every run ends, with the count
    or with an error sent. -/
theorem reliable_server_counts_all (hN : 0 < N) (h : Reachable reliableServer s) :
    (∀ count, s.main = .sentCount count → s.index.Perm s.received ∧ count = s.received.length) ∧
    (s.main.done = false → ∃ a t, AddsSucceed s a ∧ step s a = some t) ∧
    ∀ as t, runActions step s as = some t → as.length ≤ s.steps := by
  have hr := reachable_reliable h
  exact ⟨fun _ => hr.sentCount hN, hr.progress hN, fun _ _ => runActions_length_le _ step_decreases⟩

end Progress

def oneRow : Server (ℕ × List UInt8) 1 := start 1 10 [.data (65537, [1, 2, 3, 4]), .exit]

def oneRowActions : List (Action 1) :=
  [.readFrame true, .send, .lock 0, .recv 0, .add 0 .err, .readFrame true, .join, .writeCount true]

theorem failed_add_loses_row :
    ¬ ∀ (Row : Type) (N : ℕ) (s : Server Row N), 0 < N → Reachable server s →
      ∀ count, s.main = .sentCount count → s.index.Perm s.received ∧ count = s.received.length := by
  intro h
  obtain ⟨s, hrun, hmain, hreceived⟩ : ∃ s, runActions step oneRow oneRowActions = some s ∧
      s.main = .sentCount 0 ∧ s.received.length = 1 := ⟨_, rfl, rfl, rfl⟩
  have hstart : Reachable server oneRow := .start ⟨10, _, rfl⟩
  have hreach := reachable_runActions hstart (fun _ _ _ => trivial) hrun
  have hlost := (h _ 1 s (by decide) hreach 0 hmain).2
  rw [hreceived] at hlost
  cases hlost

def threeRows : Server (ℕ × List UInt8) 2 :=
  start 2 10 [.data (65537, [1]), .data (65538, [2]), .data (65539, [3]), .exit]

def threeRowsActions (i j : Fin 2) : List (Action 2) :=
  [.readFrame true, .send, .lock i, .readFrame true, .recv i, .send, .lock j, .recv j, .add j .ok,
    .readFrame true, .send, .lock j, .recv j, .add i .ok, .readFrame true, .add j .ok, .lock i,
    .recv i, .lock j, .recv j, .join, .join, .writeCount true]

theorem three_rows_counted :
    ∃ s : Server (ℕ × List UInt8) 2, Reachable reliableServer s ∧ s.main = .sentCount 3 ∧
      s.index = [(65538, [2]), (65537, [1]), (65539, [3])] ∧ s.index.Perm s.received ∧
        s.received.length = 3 := by
  obtain ⟨s, hrun, hmain, hindex⟩ : ∃ s, runActions step threeRows (threeRowsActions 0 1) = some s ∧
      s.main = .sentCount 3 ∧ s.index = [(65538, [2]), (65537, [1]), (65539, [3])] :=
      ⟨_, rfl, rfl, rfl⟩
  have hstart : Reachable reliableServer threeRows := .start ⟨10, _, rfl⟩
  have hok : ∀ a ∈ threeRowsActions 0 1, ∀ s : Server (ℕ × List UInt8) 2, AddsSucceed s a := by
    simp [threeRowsActions, AddsSucceed]
  have hreach : Reachable reliableServer s := reachable_runActions hstart hok hrun
  have hall := (reliable_server_counts_all (by decide) hreach).1 3 hmain
  exact ⟨s, hreach, hmain, hindex, hall.1, hall.2.symm⟩

end Lantern.IndexServer
