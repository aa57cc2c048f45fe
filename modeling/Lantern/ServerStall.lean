import Lantern.ServerLocks

set_option autoImplicit false

/-!
# The indexing server: when it stops

A worker ends at its first failed `add_raw` call, and the thread that spawned the
workers keeps the receiving end of the channel. Once every worker has ended, nobody
takes rows and no send fails.
-/
namespace Lantern.ServerStall
open SystemRuns ServerLocks
open IndexServer (ProtocolMessage AddResult CHANNEL_CAPACITY)

section Progress
variable {Row : Type} {N : ℕ} {writerFirst : Bool}

def RowsLeft (s : Server Row N) : Prop :=
  match s.main with
  | .reading => ∃ row, .data row ∈ s.frames
  | main => main.receives = true

def Stuck (writerFirst : Bool) (s : Server Row N) : Prop :=
  RowsLeft s ∧ ∀ a, step writerFirst s a = none

/-- With any first capacity, and with `reserve` calls that give any capacity. -/
def anyServer (writerFirst : Bool) : System (Server Row N) :=
  actionSystem (fun s =>
    ∃ capacity frames, s = start N capacity frames) (step writerFirst) fun _ _ => True

/-- Until the sending end is dropped, only a failed `add_raw` call ends a worker. -/
structure Serving (s : Server Row N) : Prop where
  bounded : s.channel.length ≤ CHANNEL_CAPACITY
  failed : s.main.receives = true → ∀ i, s.workers i ≠ .finished .ok

theorem Serving.worker {s t : Server Row N} (h : Serving s) (i : Fin N) (w : Worker Row)
    (hw : t.workers = Function.update s.workers i w) (hm : t.main = s.main)
    (hc : t.channel.length ≤ s.channel.length) (hok : s.main.receives = true → w ≠ .finished .ok) :
    Serving t := by
  refine ⟨hc.trans h.bounded, ?_⟩
  rw [hm, hw]
  intro hr j
  by_cases hj : j = i
  · subst hj
    rw [Function.update_self]
    exact hok hr
  · rw [Function.update_of_ne hj]
    exact h.failed hr j

variable {s : Server Row N}

theorem Serving.main {t : Server Row N} (h : Serving s) (hw : t.workers = s.workers)
    (hc : t.channel.length ≤ CHANNEL_CAPACITY)
    (hr : t.main.receives = true → s.main.receives = true) : Serving t := by
  refine ⟨hc, fun ht => ?_⟩
  rw [hw]
  exact h.failed (hr ht)

theorem step_serving {t : Server Row N} {a : Action N} (hs : Serving s)
    (h : step writerFirst s a = some t) :
    Serving t := by
  cases step_moved h with
  | readFails hm => exact hs.main rfl hs.bounded fun h' => by cases h'
  | readEnd hm hf => exact hs.main rfl hs.bounded fun h' => by cases h'
  | readInvalid hm hf => exact hs.main rfl hs.bounded fun h' => by cases h'
  | readExit hm hf => exact hs.main rfl hs.bounded fun h' => by cases h'
  | joined hm hn hw =>
    rename_i next result
    cases result <;> exact hs.main rfl hs.bounded fun h' => by cases h'
  | counted hm hn =>
    rename_i next written
    cases written <;> exact hs.main rfl hs.bounded fun h' => by cases h'
  | readFull hm hf hc => exact hs.main rfl hs.bounded fun _ => by rw [hm]; rfl
  | readData hm hf hc => exact hs.main rfl hs.bounded fun _ => by rw [hm]; rfl
  | writeLock hm hw => exact hs.main rfl hs.bounded fun _ => by rw [hm]; rfl
  | reserved hm => exact hs.main rfl hs.bounded fun _ => by rw [hm]; rfl
  | reserveFails hm => exact hs.main rfl hs.bounded fun h' => by cases h'
  | send hm hc => exact hs.main rfl (by simpa using hc) fun _ => by rw [hm]; rfl
  | lock hi hw => exact hs.worker _ _ rfl rfl (le_refl _) fun _ h' => by cases h'
  | take hi hc => exact hs.worker _ _ rfl rfl (by simp [hc]) fun _ h' => by cases h'
  | close hi hc hm => exact hs.worker _ _ rfl rfl (le_refl _) fun h' => by rw [hm] at h'; cases h'
  | readLock hi hm => exact hs.worker _ _ rfl rfl (le_refl _) fun _ h' => by cases h'
  | added hi => exact hs.worker _ _ rfl rfl (le_refl _) fun _ h' => by cases h'
  | addFails hi hr =>
    exact hs.worker _ _ rfl rfl (le_refl _) fun _ h' => hr (Worker.finished.inj h')

theorem reachable_serving (h : Reachable (anyServer writerFirst) s) : Serving s := by
  refine h.invariant Serving ?_ ?_
  · rintro s ⟨capacity, frames, rfl⟩
    exact ⟨Nat.zero_le _, fun _ i h' => by cases h'⟩
  · rintro s t hs ⟨a, -, hstep⟩
    exact step_serving hs hstep

theorem adds_not_blocked (h : ∀ a, step writerFirst s a = none) (i : Fin N) :
    (s.workers i).adds = false := by
  cases hi : s.workers i with
  | adding row =>
    have hstep := h (.add i .ok)
    simp [step, hi] at hstep
  | _ => rfl

theorem blocked_main {s : Server Row N} (hleft : RowsLeft s)
    (h : ∀ a, step writerFirst s a = none) :
    (∃ row, s.main = .sending row) ∧ CHANNEL_CAPACITY ≤ s.channel.length := by
  cases hm : s.main with
  | reading =>
    have hstep := h .readFrame
    simp [step, hm] at hstep
  | reserving row =>
    have hstep := h .writeLock
    simp [step, hm, adds_not_blocked h] at hstep
  | resizing row =>
    have hstep := h (.reserve none)
    simp [step, hm] at hstep
  | sending row =>
    have hstep := h .send
    simp only [step, hm] at hstep
    split at hstep
    · cases hstep
    · exact ⟨⟨row, rfl⟩, by omega⟩
  | joining next => simp [RowsLeft, hm, Receiver.receives] at hleft
  | sentCount count => simp [RowsLeft, hm, Receiver.receives] at hleft
  | sentError => simp [RowsLeft, hm, Receiver.receives] at hleft

theorem blocked_worker {row : Row} (hm : s.main = .sending row) (hc : s.channel ≠ [])
    (h : ∀ a, step writerFirst s a = none) (i : Fin N) :
    ∃ result, s.workers i = .finished result := by
  have hreceiving : ∀ j, s.workers j ≠ .receiving := by
    intro j hj
    have hstep := h (.recv j)
    cases hch : s.channel with
    | nil => exact hc hch
    | cons r rest => simp [step, hj, hch] at hstep
  cases hi : s.workers i with
  | idle =>
    have hfree : ∀ j, (s.workers j).holdsReceiver = false := by
      intro j
      cases hj : s.workers j with
      | receiving => exact absurd hj (hreceiving j)
      | _ => rfl
    have hstep := h (.lock i)
    simp [step, hi, hfree] at hstep
  | receiving => exact absurd hi (hreceiving i)
  | waiting r =>
    have hstep := h (.readLock i)
    simp [step, hi, hm, Receiver.letsRead] at hstep
  | adding r =>
    have hadds := adds_not_blocked h i
    rw [hi] at hadds
    cases hadds
  | finished result => exact ⟨result, rfl⟩

theorem stuck_of_full {row : Row} (hm : s.main = .sending row)
    (hfull : s.channel.length = CHANNEL_CAPACITY)
    (hended : ∀ i, ∃ result, s.workers i = .finished result) :
    Stuck writerFirst s := by
  refine ⟨by simp [RowsLeft, hm, Receiver.receives], fun a => ?_⟩
  cases a with
  | lock i =>
    obtain ⟨result, hi⟩ := hended i
    simp [step, hi]
  | recv i =>
    obtain ⟨result, hi⟩ := hended i
    simp [step, hi]
  | readLock i =>
    obtain ⟨result, hi⟩ := hended i
    simp [step, hi]
  | add i r =>
    obtain ⟨result, hi⟩ := hended i
    simp [step, hi]
  | send => simp [step, hm, hfull]
  | _ => simp [step, hm]

/-- The server is stuck exactly if the channel is full and every worker has ended
    with a failed `add_raw` call. The receiving end is then kept alive by the thread
    that waits for it. -/
theorem stuck_iff {s : Server Row N} (h : Reachable (anyServer writerFirst) s) :
    Stuck writerFirst s ↔ (∃ row, s.main = .sending row) ∧ s.channel.length = CHANNEL_CAPACITY ∧
      ∀ i, ∃ result, result ≠ .ok ∧ s.workers i = .finished result := by
  have hs := reachable_serving h
  constructor
  · rintro ⟨hleft, hnone⟩
    obtain ⟨⟨row, hm⟩, hfull⟩ := blocked_main hleft hnone
    have hne : s.channel ≠ [] := by
      intro hnil
      rw [hnil, List.length_nil, CHANNEL_CAPACITY] at hfull
      omega
    refine ⟨⟨row, hm⟩, le_antisymm hs.bounded hfull, fun i => ?_⟩
    obtain ⟨result, hi⟩ := blocked_worker hm hne hnone i
    refine ⟨result, fun hok => ?_, hi⟩
    subst hok
    exact hs.failed (by rw [hm]; rfl) i hi
  · rintro ⟨⟨row, hm⟩, hfull, hfailed⟩
    exact stuck_of_full hm hfull fun i => (hfailed i).imp fun _ hi => hi.2

def failedOnFirst (i : Fin 2) : List (Action 2) :=
  [.readFrame, .send, .lock i, .readFrame, .recv i, .readLock i, .send, .add i .err, .readFrame]

theorem second_worker_left :
    ∃ s, runActions (step true) (start 2 10 [.data 7, .data 8, .data 9])
      (failedOnFirst 0) = some s ∧
      s.main = .sending 9 ∧ s.channel = [8] ∧ s.workers 0 = .finished .err ∧ ¬ Stuck true s := by
  obtain ⟨s, hrun, hmain, hchannel, hworker⟩ : ∃ s,
      runActions (step true) (start 2 10 [.data 7, .data 8, .data 9]) (failedOnFirst 0) = some s ∧
      s.main = .sending 9 ∧ s.channel = [8] ∧ s.workers 0 = .finished .err :=
      ⟨_, rfl, rfl, rfl, rfl⟩
  have hreach : Reachable (anyServer true) s :=
    reachable_runActions (.start ⟨10, _, rfl⟩) (fun _ _ _ => trivial) hrun
  refine ⟨s, hrun, hmain, hchannel, hworker, fun hstuck => ?_⟩
  obtain ⟨-, hfull, -⟩ := (stuck_iff hreach).mp hstuck
  rw [hchannel] at hfull
  cases hfull

section Stalled
variable {init : Server Row N → Prop}

theorem reachable_failed_add {s : Server Row N} {row : Row}
    {rest : List (ProtocolMessage Row)} {i : Fin N}
    (h : Reachable (actionSystem init (step writerFirst) Grants) s) (hm : s.main = .reading)
    (hf : s.frames = .data row :: rest) (hroom : s.received.length < s.currentCapacity)
    (hch : s.channel = []) (hi : s.workers i = .idle)
    (hfree : ∀ j, (s.workers j).holdsReceiver = false) :
    Reachable (actionSystem init (step writerFirst) Grants) { s with
      frames := rest, received := s.received ++ [row],
      workers := Function.update s.workers i (.finished .err) } := by
  refine @reachable_runActions _ _ init _ Grants s _ [.readFrame, .send, .lock i, .recv i,
    .readLock i, .add i .err] h
    (by simp [Grants]) ?_
  obtain ⟨main, frames, received, currentCapacity, capacity, channel, workers, index⟩ := s
  simp only at hm hf hroom hch hi hfree
  subst hm hf hch
  have hcap : (0 : ℕ) < CHANNEL_CAPACITY := by decide
  simp [runActions, step, readFrame, addRow, Server.setWorker, Receiver.letsRead, ne_of_lt hroom,
    hcap, hi, hfree]

theorem reachable_filled {s : Server Row N} {row : Row} {rest : List (ProtocolMessage Row)} {n : ℕ}
    (h : Reachable (actionSystem init (step writerFirst) Grants) s) (hm : s.main = .reading)
    (hf : s.frames = List.replicate n (.data row) ++ rest)
    (hroom : s.received.length + n ≤ s.currentCapacity)
    (hch : s.channel.length + n ≤ CHANNEL_CAPACITY) :
    Reachable (actionSystem init (step writerFirst) Grants) { s with
      frames := rest, received := s.received ++ List.replicate n row,
        channel := s.channel ++ List.replicate n row } := by
  induction n generalizing s with
  | zero =>
    obtain ⟨main, frames, received, currentCapacity, capacity, channel, workers, index⟩ := s
    simp only [List.replicate_zero, List.nil_append] at hf
    subst hf
    simpa using h
  | succ n ih =>
    have hnext : Reachable (actionSystem init (step writerFirst) Grants) { s with
        frames := List.replicate n (.data row) ++ rest, received := s.received ++ [row],
        channel := s.channel ++ [row] } := by
      refine @reachable_runActions _ _ init _ Grants s _ [.readFrame, .send] h (by simp [Grants]) ?_
      have hne : s.received.length ≠ s.currentCapacity := by omega
      have hlt : s.channel.length < CHANNEL_CAPACITY := by omega
      rw [List.replicate_succ, List.cons_append] at hf
      simp [runActions, step, hm, readFrame, hf, hne, hlt]
    have hlen : ∀ xs : List Row, (xs ++ [row]).length = xs.length + 1 := by simp
    have hgo := ih hnext hm rfl (by simp only [hlen]; omega) (by simp only [hlen]; omega)
    simpa [List.replicate_succ] using hgo

theorem stuck_of_filled {s : Server Row N} {row : Row} {rest : List (ProtocolMessage Row)}
    (h : Reachable (actionSystem init (step writerFirst) Grants) s) (hm : s.main = .reading)
    (hf : s.frames = List.replicate (CHANNEL_CAPACITY + 1) (.data row) ++ rest)
    (hroom : s.received.length + (CHANNEL_CAPACITY + 1) ≤ s.currentCapacity) (hch : s.channel = [])
    (hw : ∀ i, s.workers i = .finished .err) :
    ∃ t, Reachable (actionSystem init (step writerFirst) Grants) t ∧ Stuck writerFirst t := by
  have hsplit : s.frames = List.replicate CHANNEL_CAPACITY (.data row) ++ (.data row :: rest) := by
    rw [hf, List.replicate_succ', List.append_assoc, List.singleton_append]
  have hfilled := reachable_filled h hm hsplit (by omega) (by simp [hch])
  have hne : (s.received ++ List.replicate CHANNEL_CAPACITY row).length ≠ s.currentCapacity := by
    rw [List.length_append, List.length_replicate]
    omega
  refine ⟨{ s with
      main := .sending row, frames := rest, received :=
      s.received ++ List.replicate CHANNEL_CAPACITY row ++ [row],
      channel := s.channel ++ List.replicate CHANNEL_CAPACITY row }, ?_, ?_⟩
  · exact hfilled.next ⟨.readFrame, trivial, by simp only [step, hm, readFrame, if_neg hne]⟩
  · exact stuck_of_full rfl (by simp [hch]) fun i => ⟨.err, hw i⟩

def failedWorkers (N k : ℕ) : Fin N → Worker Row :=
  fun j => if j.val < k then .finished .err else .idle

theorem failedWorkers_succ {k : ℕ} (hk : k < N) :
    Function.update (failedWorkers N k) ⟨k, hk⟩ (.finished .err) =
      (failedWorkers N (k + 1) : Fin N → Worker Row) := by
  funext j
  by_cases hj : j = ⟨k, hk⟩
  · subst hj
    simp [failedWorkers]
  · have hne : j.val ≠ k := fun h' => hj (Fin.ext h')
    have hiff : j.val < k ↔ j.val < k + 1 := by omega
    rw [Function.update_of_ne hj]
    simp [failedWorkers, hiff]

theorem reachable_failedWorkers {row : Row} {rest : List (ProtocolMessage Row)} {capacity : ℕ}
    (hcap : N ≤ capacity) {k : ℕ} (hk : k ≤ N) :
    Reachable (actionSystem (· = start N capacity (List.replicate N (.data row) ++ rest))
      (step writerFirst) Grants)
      ⟨.reading, List.replicate (N - k) (.data row) ++ rest, List.replicate k row,
        capacity, capacity, [], failedWorkers N k, []⟩ := by
  induction k with
  | zero => exact .start rfl
  | succ k ih =>
    have hlt : k < N := hk
    have hleft : N - k = (N - (k + 1)) + 1 := by omega
    have hfree : ∀ j, (failedWorkers N k j : Worker Row).holdsReceiver = false := by
      intro j
      by_cases hj : j.val < k
      · simp [failedWorkers, hj, Worker.holdsReceiver]
      · simp [failedWorkers, hj, Worker.holdsReceiver]
    have hstep :=
      @reachable_failed_add _ _ writerFirst _ _ row
      (List.replicate (N - (k + 1)) (.data row) ++ rest)
      ⟨k, hlt⟩ (ih (by omega)) rfl (by simp [hleft, List.replicate_succ]) (by simp; omega) rfl
      (by simp [failedWorkers]) hfree
    simpa only [failedWorkers_succ hlt, List.replicate_succ'] using hstep

theorem failed_workers_stall (N : ℕ) (row : Row) :
    ∃ s, Reachable (actionSystem (· = start N (N + (CHANNEL_CAPACITY + 1))
      (List.replicate N (.data row) ++ List.replicate (CHANNEL_CAPACITY + 1) (.data row)))
        (step writerFirst) Grants) s ∧
      Stuck writerFirst s := by
  have hfailed :=
    @reachable_failedWorkers Row N writerFirst row
    (List.replicate (CHANNEL_CAPACITY + 1) (.data row))
    (N + (CHANNEL_CAPACITY + 1)) (by omega) N (le_refl N)
  have hnone : N - N = 0 := Nat.sub_self N
  rw [hnone, List.replicate_zero, List.nil_append] at hfailed
  refine stuck_of_filled hfailed rfl (List.append_nil _).symm (by simp) rfl fun i => ?_
  simp [failedWorkers]

end Stalled

theorem one_failed_add_stalls :
    ∃ s, Reachable
      (actionSystem (· = start 1 2002 (List.replicate 2002 (.data 7))) (step true) Grants) s ∧
      Stuck true s := by
  obtain ⟨s, hs, hstuck⟩ := @failed_workers_stall ℕ true 1 7
  rw [← List.replicate_add] at hs
  exact ⟨s, hs, hstuck⟩

end Progress

end Lantern.ServerStall
