import Lantern.IndexServer

set_option autoImplicit false

/-!
# The indexing server: the lock on the index

Workers add rows under the read lock of the index. The receiving thread counts the rows,
and when the count has reached the capacity it knows of, it reserves twice as much under
the write lock. Here every acquisition of the lock is a step of its own; the server in
which a read and its resize are one step is an abstraction of this one.
-/
namespace Lantern.ServerLocks
open SystemRuns
open IndexServer (ProtocolMessage AddResult CHANNEL_CAPACITY sum_update)

inductive Worker (Row : Type) where
  | idle
  | receiving
  | waiting (row : Row)
  | adding (row : Row)
  | finished (result : AddResult)
  deriving DecidableEq, Repr

inductive Receiver (Row : Type) where
  | reading
  | reserving (row : Row)
  | resizing (row : Row)
  | sending (row : Row)
  | joining (next : ℕ)
  | sentCount (count : ℕ)
  | sentError
  deriving DecidableEq, Repr

structure Server (Row : Type) (N : ℕ) where
  main : Receiver Row
  frames : List (ProtocolMessage Row)
  received : List Row
  currentCapacity : ℕ
  capacity : ℕ
  channel : List Row
  workers : Fin N → Worker Row
  index : List Row

inductive Action (N : ℕ) where
  | readFrame
  | readError
  | writeLock
  | reserve (granted : Option ℕ)
  | send
  | lock (i : Fin N)
  | recv (i : Fin N)
  | readLock (i : Fin N)
  | add (i : Fin N) (result : AddResult)
  | join
  | writeCount (written : Bool)
  deriving DecidableEq, Repr

section Machine
variable {Row : Type} {N : ℕ}

def Receiver.receives : Receiver Row → Bool
  | .reading | .reserving _ | .resizing _ | .sending _ => true
  | _ => false

def Worker.holdsReceiver : Worker Row → Bool
  | .receiving => true
  | _ => false

def Worker.adds : Worker Row → Bool
  | .adding _ => true
  | _ => false

/-- The read lock is free to take. Where writers come first, a waiting writer is
    enough to keep readers out. -/
def Receiver.letsRead (writerFirst : Bool) : Receiver Row → Bool
  | .resizing _ => false
  | .reserving _ => !writerFirst
  | _ => true

def Server.setWorker (s : Server Row N) (i : Fin N) (w : Worker Row) : Server Row N :=
  { s with workers := Function.update s.workers i w }

def readFrame (s : Server Row N) : Server Row N :=
  match s.frames with
  | [] => { s with main := .sentError }
  | .exit :: frames => { s with main := .joining 0, frames := frames }
  | .init :: frames => { s with main := .sentError, frames := frames }
  | .data row :: frames =>
    if s.received.length = s.currentCapacity then
      { s with main := .reserving row, frames := frames, currentCapacity := s.currentCapacity * 2 }
    else { s with main := .sending row, frames := frames, received := s.received ++ [row] }

def reserve (s : Server Row N) (row : Row) : Option ℕ → Server Row N
  | some capacity =>
    { s with main := .sending row, received := s.received ++ [row], capacity := capacity }
  | none => { s with main := .sentError, received := s.received ++ [row] }

def joinWorker (s : Server Row N) (next : ℕ) : AddResult → Server Row N
  | .panicked => { s with main := .sentError }
  | _ => { s with main := .joining (next + 1) }

def addRow (s : Server Row N) (i : Fin N) (row : Row) : AddResult → Server Row N
  | .ok => { s.setWorker i .idle with index := s.index ++ [row] }
  | result => s.setWorker i (.finished result)

def step (writerFirst : Bool) (s : Server Row N) : Action N → Option (Server Row N)
  | .readFrame =>
    match s.main with
    | .reading => some (readFrame s)
    | _ => none
  | .readError =>
    match s.main with
    | .reading => some { s with main := .sentError }
    | _ => none
  | .writeLock =>
    match s.main with
    | .reserving row =>
      if ∀ j, (s.workers j).adds = false then some { s with main := .resizing row } else none
    | _ => none
  | .reserve granted =>
    match s.main with
    | .resizing row => some (reserve s row granted)
    | _ => none
  | .send =>
    match s.main with
    | .sending row =>
      if s.channel.length < CHANNEL_CAPACITY then
        some { s with main := .reading, channel := s.channel ++ [row] }
      else none
    | _ => none
  | .lock i =>
    match s.workers i with
    | .idle =>
      if ∀ j, (s.workers j).holdsReceiver = false then some (s.setWorker i .receiving) else none
    | _ => none
  | .recv i =>
    match s.workers i, s.channel with
    | .receiving, row :: channel => some { s.setWorker i (.waiting row) with channel := channel }
    | .receiving, [] => if s.main.receives then none else some (s.setWorker i (.finished .ok))
    | _, _ => none
  | .readLock i =>
    match s.workers i with
    | .waiting row =>
      if s.main.letsRead writerFirst then some (s.setWorker i (.adding row)) else none
    | _ => none
  | .add i result =>
    match s.workers i with
    | .adding row => some (addRow s i row result)
    | _ => none
  | .join =>
    match s.main with
    | .joining next =>
      if h : next < N then
        match s.workers ⟨next, h⟩ with
        | .finished result => some (joinWorker s next result)
        | _ => none
      else none
    | _ => none
  | .writeCount written =>
    match s.main with
    | .joining next =>
      if next < N then none
      else some { s with main := if written then .sentCount s.index.length else .sentError }
    | _ => none

def start (N : ℕ) (capacity : ℕ) (frames : List (ProtocolMessage Row)) : Server Row N :=
  ⟨.reading, frames, [], capacity, capacity, [], fun _ => .idle, []⟩

def Started (s : Server Row N) : Prop :=
  ∃ estimate capacity frames, 1 ≤ estimate ∧ estimate ≤ capacity ∧ s = start N capacity frames

def Grants (s : Server Row N) : Action N → Prop
  | .reserve (some capacity) => s.currentCapacity ≤ capacity
  | _ => True

def server (writerFirst : Bool) : System (Server Row N) :=
  actionSystem Started (step writerFirst) Grants

inductive Moved (writerFirst : Bool) (s : Server Row N) : Action N → Server Row N → Prop where
  | readFails (hm : s.main = .reading) :
    Moved writerFirst s .readError { s with main := .sentError }
  | readEnd (hm : s.main = .reading) (hf : s.frames = []) :
      Moved writerFirst s .readFrame { s with main := .sentError }
  | readInvalid {frames : List (ProtocolMessage Row)} (hm : s.main = .reading)
    (hf : s.frames = .init :: frames) :
      Moved writerFirst s .readFrame { s with main := .sentError, frames := frames }
  | readExit {frames : List (ProtocolMessage Row)} (hm : s.main = .reading)
    (hf : s.frames = .exit :: frames) :
      Moved writerFirst s .readFrame { s with main := .joining 0, frames := frames }
  | readFull {row : Row} {frames : List (ProtocolMessage Row)} (hm : s.main = .reading)
      (hf : s.frames = .data row :: frames) (hc : s.received.length = s.currentCapacity) :
      Moved writerFirst s .readFrame { s with
        main := .reserving row, frames := frames, currentCapacity := s.currentCapacity * 2 }
  | readData {row : Row} {frames : List (ProtocolMessage Row)} (hm : s.main = .reading)
      (hf : s.frames = .data row :: frames) (hc : s.received.length ≠ s.currentCapacity) :
      Moved writerFirst s .readFrame { s with
        main := .sending row, frames := frames, received := s.received ++ [row] }
  | writeLock {row : Row} (hm : s.main = .reserving row) (hw : ∀ j, (s.workers j).adds = false) :
      Moved writerFirst s .writeLock { s with main := .resizing row }
  | reserved {row : Row} {capacity : ℕ} (hm : s.main = .resizing row) :
      Moved writerFirst s (.reserve (some capacity))
        { s with main := .sending row, received := s.received ++ [row], capacity := capacity }
  | reserveFails {row : Row} (hm : s.main = .resizing row) :
      Moved writerFirst s (.reserve none) { s with
      main := .sentError, received := s.received ++ [row] }
  | send {row : Row} (hm : s.main = .sending row) (hc : s.channel.length < CHANNEL_CAPACITY) :
      Moved writerFirst s .send { s with main := .reading, channel := s.channel ++ [row] }
  | lock {i : Fin N} (hi : s.workers i = .idle) (hw : ∀ j, (s.workers j).holdsReceiver = false) :
      Moved writerFirst s (.lock i) (s.setWorker i .receiving)
  | take {i : Fin N} {row : Row} {channel : List Row} (hi : s.workers i = .receiving)
      (hc : s.channel = row :: channel) :
      Moved writerFirst s (.recv i) { s.setWorker i (.waiting row) with channel := channel }
  | close {i : Fin N} (hi : s.workers i = .receiving) (hc : s.channel = [])
    (hm : s.main.receives = false) :
      Moved writerFirst s (.recv i) (s.setWorker i (.finished .ok))
  | readLock {i : Fin N} {row : Row} (hi : s.workers i = .waiting row)
    (hm : s.main.letsRead writerFirst = true) :
      Moved writerFirst s (.readLock i) (s.setWorker i (.adding row))
  | added {i : Fin N} {row : Row} (hi : s.workers i = .adding row) :
      Moved writerFirst s (.add i .ok) { s.setWorker i .idle with index := s.index ++ [row] }
  | addFails {i : Fin N} {row : Row} {result : AddResult} (hi : s.workers i = .adding row)
    (hr : result ≠ .ok) :
      Moved writerFirst s (.add i result) (s.setWorker i (.finished result))
  | joined {next : ℕ} {result : AddResult} (hm : s.main = .joining next) (hn : next < N)
      (hw : s.workers ⟨next, hn⟩ = .finished result) :
        Moved writerFirst s .join (joinWorker s next result)
  | counted {next : ℕ} {written : Bool} (hm : s.main = .joining next) (hn : ¬ next < N) :
      Moved writerFirst s (.writeCount written)
        { s with main := if written then .sentCount s.index.length else .sentError }

theorem readFrame_moved {writerFirst : Bool} {s : Server Row N} (hm : s.main = .reading) :
    Moved writerFirst s .readFrame (readFrame s) := by
  unfold readFrame
  split
  · rename_i hf
    exact .readEnd hm hf
  · rename_i frames hf
    exact .readExit hm hf
  · rename_i frames hf
    exact .readInvalid hm hf
  · rename_i row frames hf
    split
    · rename_i hc
      exact .readFull hm hf hc
    · rename_i hc
      exact .readData hm hf hc

theorem step_moved {writerFirst : Bool} {s t : Server Row N} {a : Action N}
    (h : step writerFirst s a = some t) :
    Moved writerFirst s a t := by
  cases a with
  | readFrame =>
    simp only [step] at h
    split at h
    · rename_i hm
      cases h
      exact readFrame_moved hm
    · cases h
  | readError =>
    simp only [step] at h
    split at h
    · rename_i hm
      cases h
      exact .readFails hm
    · cases h
  | writeLock =>
    simp only [step] at h
    split at h
    · rename_i row hm
      split at h
      · rename_i hw
        cases h
        exact .writeLock hm hw
      · cases h
    · cases h
  | reserve granted =>
    simp only [step] at h
    split at h
    · rename_i row hm
      cases h
      cases granted with
      | none => exact .reserveFails hm
      | some capacity => exact .reserved hm
    · cases h
  | send =>
    simp only [step] at h
    split at h
    · rename_i row hm
      split at h
      · rename_i hc
        cases h
        exact .send hm hc
      · cases h
    · cases h
  | lock i =>
    simp only [step] at h
    split at h
    · rename_i hi
      split at h
      · rename_i hw
        cases h
        exact .lock hi hw
      · cases h
    · cases h
  | recv i =>
    simp only [step] at h
    split at h
    · rename_i row channel hi hc
      cases h
      exact .take hi hc
    · rename_i hi hc
      split at h
      · cases h
      · rename_i hm
        cases h
        exact .close hi hc (by simpa using hm)
    · cases h
  | readLock i =>
    simp only [step] at h
    split at h
    · rename_i row hi
      split at h
      · rename_i hm
        cases h
        exact .readLock hi hm
      · cases h
    · cases h
  | add i result =>
    simp only [step] at h
    split at h
    · rename_i row hi
      cases h
      cases result with
      | ok => exact .added hi
      | err => exact .addFails hi (by simp)
      | panicked => exact .addFails hi (by simp)
    · cases h
  | join =>
    simp only [step] at h
    split at h
    · rename_i next hm
      split at h
      · rename_i hn
        split at h
        · rename_i result hw
          cases h
          exact .joined hm hn hw
        · cases h
      · cases h
    · cases h
  | writeCount written =>
    simp only [step] at h
    split at h
    · rename_i next hm
      split at h
      · cases h
      · rename_i hn
        cases h
        exact .counted hm hn
    · cases h

end Machine

section Capacity
variable {Row : Type} {N : ℕ} {writerFirst : Bool}

def Worker.rows : Worker Row → ℕ
  | .waiting _ | .adding _ => 1
  | _ => 0

def Receiver.rows : Receiver Row → ℕ
  | .sending _ => 1
  | _ => 0

def Server.placed (s : Server Row N) : ℕ :=
  s.index.length + (∑ i, (s.workers i).rows) + s.channel.length + s.main.rows

structure Sized (s : Server Row N) : Prop where
  room : s.placed ≤ s.capacity
  counted : s.main.receives = true → s.placed ≤ s.received.length
  known : (s.main = .reading ∨ ∃ row, s.main = .sending row) →
    1 ≤ s.currentCapacity ∧ s.received.length ≤ s.currentCapacity ∧ s.currentCapacity ≤ s.capacity
  doubled : (∃ row, s.main = .reserving row ∨ s.main = .resizing row) →
    1 ≤ s.received.length ∧ s.currentCapacity = s.received.length * 2
  exclusive : ∀ row, s.main = .resizing row → ∀ i, (s.workers i).adds = false

theorem Sized.start {s : Server Row N} (h : Started s) : Sized s := by
  obtain ⟨estimate, capacity, frames, hpos, hle, rfl⟩ := h
  have hplaced : (ServerLocks.start N capacity frames).placed = 0 := by
    simp [ServerLocks.start, Server.placed, Worker.rows, Receiver.rows]
  refine ⟨by omega, fun _ => by omega, fun _ => ⟨?_, Nat.zero_le _, le_refl _⟩, ?_, ?_⟩
  · exact hpos.trans hle
  · rintro ⟨row, h | h⟩ <;> cases h
  · intro row h
    cases h

theorem placed_setWorker (s : Server Row N) (i : Fin N) (w : Worker Row) :
    (s.setWorker i w).placed + (s.workers i).rows = s.placed + w.rows := by
  have hsum := sum_update Worker.rows s.workers i w
  simp only [Server.placed, Server.setWorker]
  omega

theorem Sized.worker {s t : Server Row N} (h : Sized s) (i : Fin N) (w : Worker Row)
    (hw : t.workers = Function.update s.workers i w) (hm : t.main = s.main)
    (hr : t.received = s.received) (hk : t.currentCapacity = s.currentCapacity)
    (hc : t.capacity = s.capacity) (hp : t.placed ≤ s.placed)
    (hadds : w.adds = true → ∀ row, s.main ≠ .resizing row) : Sized t := by
  refine ⟨?_, ?_, ?_, ?_, ?_⟩
  · rw [hc]
    exact hp.trans h.room
  · rw [hm, hr]
    exact fun hlive => hp.trans (h.counted hlive)
  · rw [hm, hr, hk, hc]
    exact h.known
  · rw [hm, hr, hk]
    exact h.doubled
  · intro row hrow j
    rw [hm] at hrow
    rw [hw]
    by_cases hj : j = i
    · subst hj
      rw [Function.update_self]
      by_contra hne
      exact hadds (by simpa using hne) row hrow
    · rw [Function.update_of_ne hj]
      exact h.exclusive row hrow j

variable {s : Server Row N}

theorem Sized.setWorker (h : Sized s) {i : Fin N} {w : Worker Row}
    (hrows : w.rows ≤ (s.workers i).rows) (hadds : w.adds = true → ∀ row, s.main ≠ .resizing row) :
    Sized (s.setWorker i w) := by
  have hp := placed_setWorker s i w
  exact h.worker i w rfl rfl rfl rfl rfl (by omega) hadds

theorem Sized.receiving (hm : s.main = .reading ∨ ∃ row, s.main = .sending row)
    (hcount : s.placed ≤ s.received.length) (hpos : 1 ≤ s.currentCapacity)
    (hfits : s.received.length ≤ s.currentCapacity) (hcap : s.currentCapacity ≤ s.capacity) :
    Sized s := by
  refine ⟨hcount.trans (hfits.trans hcap), fun _ => hcount, fun _ => ⟨hpos, hfits, hcap⟩, ?_, ?_⟩
  · rintro ⟨row, h' | h'⟩ <;> rw [h'] at hm <;> rcases hm with hm | ⟨_, hm⟩ <;> cases hm
  · intro row h'
    rw [h'] at hm
    rcases hm with hm | ⟨_, hm⟩ <;> cases hm

theorem Sized.leave {t : Server Row N} (h : Sized s) (hm : t.main.receives = false)
    (hc : t.capacity = s.capacity) (hp : t.placed ≤ s.placed) : Sized t := by
  refine ⟨?_, ?_, ?_, ?_, ?_⟩
  · rw [hc]
    exact hp.trans h.room
  · intro hlive
    rw [hlive] at hm
    cases hm
  · rintro (h' | ⟨row, h'⟩) <;> rw [h'] at hm <;> cases hm
  · rintro ⟨row, h' | h'⟩ <;> rw [h'] at hm <;> cases hm
  · intro row h'
    rw [h'] at hm
    cases hm

theorem placed_main {main : Receiver Row} (h : main.rows = 0) :
    ({ s with main := main } : Server Row N).placed ≤ s.placed := by
  simp only [Server.placed, h]
  omega

theorem placed_sending (hcount : s.placed ≤ s.received.length) (row : Row) :
    ({ s with main := .sending row } : Server Row N).placed ≤ (s.received ++ [row]).length := by
  rw [List.length_append, List.length_singleton]
  simp only [Server.placed, Receiver.rows] at hcount ⊢
  omega

theorem step_sized {s t : Server Row N} {a : Action N} (hs : Sized s) (ha : Grants s a)
    (h : step writerFirst s a = some t) : Sized t := by
  cases step_moved h with
  | readFails hm => exact hs.leave rfl rfl (placed_main rfl)
  | readEnd hm hf => exact hs.leave rfl rfl (placed_main rfl)
  | readInvalid hm hf => exact hs.leave rfl rfl (placed_main rfl)
  | readExit hm hf => exact hs.leave rfl rfl (placed_main rfl)
  | joined hm hn hw =>
    rename_i next result
    cases result <;> exact hs.leave rfl rfl (placed_main rfl)
  | counted hm hn =>
    rename_i next written
    cases written <;> exact hs.leave rfl rfl (placed_main rfl)
  | readFull hm hf hc =>
    rename_i row frames
    obtain ⟨hpos, hle, hcap⟩ := hs.known (.inl hm)
    have hcount := hs.counted (by rw [hm]; rfl)
    have hp : ({ s with main := .reserving row } : Server Row N).placed ≤ s.placed :=
      placed_main rfl
    refine ⟨hp.trans hs.room, fun _ => hp.trans hcount, ?_, fun _ => ⟨?_, ?_⟩, ?_⟩
    · rintro (h' | ⟨r, h'⟩) <;> cases h'
    · change 1 ≤ s.received.length
      omega
    · change s.currentCapacity * 2 = s.received.length * 2
      omega
    · intro r h'
      cases h'
  | readData hm hf hc =>
    rename_i row frames
    obtain ⟨hpos, hle, hcap⟩ := hs.known (.inl hm)
    have hcount := hs.counted (by rw [hm]; rfl)
    refine .receiving (.inr ⟨row, rfl⟩) (placed_sending hcount row) hpos ?_ hcap
    rw [List.length_append, List.length_singleton]
    exact Nat.succ_le_of_lt (lt_of_le_of_ne hle hc)
  | writeLock hm hw =>
    rename_i row
    have hp : ({ s with main := .resizing row } : Server Row N).placed ≤ s.placed := placed_main rfl
    have hcount := hs.counted (by rw [hm]; rfl)
    refine ⟨hp.trans hs.room, fun _ => hp.trans hcount, ?_, fun _ => hs.doubled ⟨row, .inl hm⟩,
      fun _ _ => hw⟩
    rintro (h' | ⟨r, h'⟩) <;> cases h'
  | reserved hm =>
    rename_i row capacity
    obtain ⟨hpos, hdouble⟩ := hs.doubled ⟨row, .inr hm⟩
    have hcount := hs.counted (by rw [hm]; rfl)
    refine .receiving (.inr ⟨row, rfl⟩) (placed_sending hcount row) ?_ ?_ ha
    · change 1 ≤ s.currentCapacity
      omega
    · change (s.received ++ [row]).length ≤ s.currentCapacity
      rw [List.length_append, List.length_singleton]
      omega
  | reserveFails hm => exact hs.leave rfl rfl (placed_main rfl)
  | send hm hc =>
    rename_i row
    obtain ⟨hpos, hle, hcap⟩ := hs.known (.inr ⟨row, hm⟩)
    have hcount := hs.counted (by rw [hm]; rfl)
    refine .receiving (.inl rfl) ?_ hpos hle hcap
    simp only [Server.placed, hm, Receiver.rows, List.length_append,
      List.length_singleton] at hcount ⊢
    omega
  | lock hi hw => exact hs.setWorker (by rw [hi]; exact le_refl _) fun h' => by cases h'
  | take hi hc =>
    rename_i i row channel
    have hsum := sum_update Worker.rows s.workers i (.waiting row)
    rw [hi] at hsum
    have hlen : s.channel.length = channel.length + 1 := by rw [hc, List.length_cons]
    refine hs.worker i (.waiting row) rfl rfl rfl rfl rfl ?_ (fun h' => by cases h')
    simp only [Server.placed, Server.setWorker, Worker.rows] at hsum ⊢
    omega
  | close hi hc hm => exact hs.setWorker (by rw [hi]; exact le_refl _) fun h' => by cases h'
  | readLock hi hm =>
    refine hs.setWorker (by rw [hi]; exact le_refl _) fun _ r hr => ?_
    rw [hr] at hm
    cases hm
  | added hi =>
    rename_i i row
    have hsum := sum_update Worker.rows s.workers i .idle
    rw [hi] at hsum
    have hlen : (s.index ++ [row]).length = s.index.length + 1 := by simp
    refine hs.worker i .idle rfl rfl rfl rfl rfl ?_ (fun h' => by cases h')
    simp only [Server.placed, Server.setWorker, Worker.rows] at hsum ⊢
    omega
  | addFails hi hr => exact hs.setWorker (by rw [hi]; exact Nat.zero_le _) fun h' => by cases h'

theorem reachable_sized (h : Reachable (server writerFirst) s) : Sized s := by
  refine h.invariant Sized (fun _ hs => .start hs) ?_
  rintro s t hs ⟨a, ha, hstep⟩
  exact step_sized hs ha hstep

def Server.othersAdding (s : Server Row N) (i : Fin N) : Finset (Fin N) :=
  {j | j ≠ i ∧ (s.workers j).adds = true}

theorem othersAdding_card_lt {s : Server Row N} {i : Fin N} (hi : (s.workers i).adds = true) :
    (s.othersAdding i).card < ∑ j, (s.workers j).rows := by
  have hrows : ∀ j, (s.workers j).adds = true → (s.workers j).rows = 1 := by
    intro j hj
    cases hw : s.workers j <;> rw [hw] at hj <;> first | rfl | cases hj
  have hnot : i ∉ s.othersAdding i := by simp [Server.othersAdding]
  calc (s.othersAdding i).card < (insert i (s.othersAdding i)).card := by
        rw [Finset.card_insert_of_notMem hnot]; omega
    _ = ∑ j ∈ insert i (s.othersAdding i), (s.workers j).rows := by
      rw [Finset.sum_congr rfl fun j hj => ?_, Finset.card_eq_sum_ones]
      rcases Finset.mem_insert.mp hj with rfl | hj
      · exact hrows j hi
      · exact hrows j (Finset.mem_filter.mp hj).2.2
    _ ≤ ∑ j, (s.workers j).rows := Finset.sum_le_sum_of_subset (Finset.subset_univ _)

/-- Whenever `add_raw` runs, the index has room for its row, and no step changes the
    capacity. -/
theorem add_within_capacity {s : Server Row N} (h : Reachable (server writerFirst) s)
    {i : Fin N} {row : Row} (hi : s.workers i = .adding row) :
    s.index.length + (s.othersAdding i).card < s.capacity ∧
      ∀ a t, step writerFirst s a = some t → t.capacity = s.capacity := by
  have hs := reachable_sized h
  have hadds : (s.workers i).adds = true := by rw [hi]; rfl
  constructor
  · have hcard := othersAdding_card_lt hadds
    have hroom := hs.room
    rw [Server.placed] at hroom
    omega
  · intro a t hstep
    cases step_moved hstep with
    | reserved hm => exact absurd hadds (by rw [hs.exclusive _ hm i]; simp)
    | joined hm hn hw =>
      rename_i next result
      cases result <;> rfl
    | _ => rfl

end Capacity

def twoRows : Server ℕ 2 := start 2 1 [.data 7, .data 8]

def twoRowsActions : List (Action 2) :=
  [.readFrame, .send, .lock 0, .recv 0, .readLock 0, .add 0 .ok, .readFrame, .writeLock,
    .reserve (some 2), .send, .lock 1, .recv 1, .readLock 1]

instance (s : Server ℕ 2) (a : Action 2) : Decidable (Grants s a) := by
  unfold Grants
  split <;> infer_instance

theorem second_row_within_capacity :
    ∃ s, runActions (admittedStep (step true) Grants) twoRows twoRowsActions = some s ∧
      s.workers 1 = .adding 8 ∧
      s.index = [7] ∧ s.index.length + (s.othersAdding 1).card < s.capacity ∧
      ∀ a t, step true s a = some t → t.capacity = s.capacity := by
  have hstart : Reachable (server true) twoRows := .start ⟨1, 1, _, le_refl _, le_refl _, rfl⟩
  refine ⟨_, rfl, rfl, rfl, ?_⟩
  exact add_within_capacity
    (@reachable_admitted _ _ Started (step true) Grants _ twoRows _ twoRowsActions hstart rfl) rfl

section Refinement
variable {Row : Type} {N : ℕ} {writerFirst : Bool}

def Worker.view : Worker Row → IndexServer.Worker Row
  | .idle => .idle
  | .receiving => .receiving
  | .waiting row | .adding row => .adding row
  | .finished result => .finished result

def Receiver.view : Receiver Row → IndexServer.Receiver Row
  | .reading | .reserving _ | .resizing _ => .reading
  | .sending row => .sending row
  | .joining next => .joining next
  | .sentCount count => .sentCount count
  | .sentError => .sentError

def Receiver.unread : Receiver Row → List (ProtocolMessage Row)
  | .reserving row | .resizing row => [.data row]
  | _ => []

def Server.knownCapacity (s : Server Row N) : ℕ :=
  match s.main with
  | .reserving _ | .resizing _ => s.received.length
  | _ => s.currentCapacity

def Server.view (s : Server Row N) (capacity : ℕ) : IndexServer.Server Row N where
  main := s.main.view
  frames := s.main.unread ++ s.frames
  received := s.received
  capacity := capacity
  channel := s.channel
  workers := fun i => (s.workers i).view
  index := s.index

def Viewed (s : Server Row N) (capacity : ℕ) : Prop :=
  s.main.receives = true → capacity = s.knownCapacity

theorem view_setWorker (s : Server Row N) (capacity : ℕ) (i : Fin N) (w : Worker Row) :
    (s.view capacity).setWorker i w.view = (s.setWorker i w).view capacity := by
  have hworkers : Function.update (fun j => (s.workers j).view) i w.view =
      fun j => (Function.update s.workers i w j).view := by
    funext j
    by_cases hj : j = i
    · subst hj
      simp
    · simp [Function.update_of_ne hj]
  simp only [Server.view, IndexServer.Server.setWorker, Server.setWorker, hworkers]

theorem holdsReceiver_view (w : Worker Row) : w.view.holdsReceiver = w.holdsReceiver := by
  cases w <;> rfl

theorem holdsSender_view (m : Receiver Row) : m.view.holdsSender = m.receives := by
  cases m <;> rfl

variable {s : Server Row N}

theorem view_workers {i : Fin N} {w : Worker Row} (h : s.workers i = w) (capacity : ℕ) :
    (s.view capacity).workers i = w.view :=
  congrArg Worker.view h

theorem view_main {main : Receiver Row} (h : s.main = main) (capacity : ℕ) :
    (s.view capacity).main = main.view :=
  congrArg Receiver.view h

theorem Viewed.eq_currentCapacity {capacity : ℕ} (hv : Viewed s capacity)
    (hm : s.main = .reading ∨ ∃ row, s.main = .sending row) : capacity = s.currentCapacity := by
  rcases hm with hm | ⟨row, hm⟩ <;>
    simpa [Viewed, Server.knownCapacity, hm, Receiver.receives] using hv

theorem Viewed.eq_received {capacity : ℕ} (hv : Viewed s capacity)
    (hm : ∃ row, s.main = .reserving row ∨ s.main = .resizing row) :
    capacity = s.received.length := by
  obtain ⟨row, hm | hm⟩ :=
    hm <;> simpa [Viewed, Server.knownCapacity, hm, Receiver.receives] using hv

theorem step_simulated {s t : Server Row N} {a : Action N} {capacity : ℕ} (hs : Sized s)
    (hv : Viewed s capacity) (h : step writerFirst s a = some t) :
    (t.view capacity = s.view capacity ∧ Viewed t capacity) ∨
      ∃ b c, IndexServer.step (s.view capacity) b = some (t.view c) ∧ Viewed t c := by
  cases step_moved h with
  | readFails hm =>
    refine .inr ⟨.readError, capacity, ?_, fun h' => by cases h'⟩
    simp [IndexServer.step, Server.view, hm, Receiver.view, Receiver.unread]
  | readEnd hm hf =>
    refine .inr ⟨.readFrame true, capacity, ?_, fun h' => by cases h'⟩
    simp [IndexServer.step, IndexServer.readFrame, Server.view, hm, hf, Receiver.view,
      Receiver.unread]
  | readInvalid hm hf =>
    refine .inr ⟨.readFrame true, capacity, ?_, fun h' => by cases h'⟩
    simp [IndexServer.step, IndexServer.readFrame, Server.view, hm, hf, Receiver.view,
      Receiver.unread]
  | readExit hm hf =>
    refine .inr ⟨.readFrame true, capacity, ?_, fun h' => by cases h'⟩
    simp [IndexServer.step, IndexServer.readFrame, Server.view, hm, hf, Receiver.view,
      Receiver.unread]
  | readFull hm hf hc =>
    have hcap := hv.eq_currentCapacity (.inl hm)
    refine .inl ⟨?_, fun _ => ?_⟩
    · simp [Server.view, hm, hf, Receiver.view, Receiver.unread]
    · simp only [Server.knownCapacity]
      omega
  | readData hm hf hc =>
    have hcap := hv.eq_currentCapacity (.inl hm)
    subst hcap
    refine .inr ⟨.readFrame true, s.currentCapacity, ?_, fun _ => rfl⟩
    simp [IndexServer.step, IndexServer.readFrame, Server.view, hm, hf, hc, Receiver.view,
      Receiver.unread]
  | writeLock hm hw =>
    have hcap := hv.eq_received ⟨_, .inl hm⟩
    refine .inl ⟨?_, fun _ => hcap⟩
    simp [Server.view, hm, Receiver.view, Receiver.unread]
  | reserved hm =>
    have hcap := hv.eq_received ⟨_, .inr hm⟩
    obtain ⟨-, hdouble⟩ := hs.doubled ⟨_, .inr hm⟩
    refine .inr ⟨.readFrame true, s.currentCapacity, ?_, fun _ => rfl⟩
    simp [IndexServer.step, IndexServer.readFrame, Server.view, hm, hcap, hdouble, Receiver.view,
      Receiver.unread]
  | reserveFails hm =>
    have hcap := hv.eq_received ⟨_, .inr hm⟩
    refine .inr ⟨.readFrame false, capacity, ?_, fun h' => by cases h'⟩
    simp [IndexServer.step, IndexServer.readFrame, Server.view, hm, hcap, Receiver.view,
      Receiver.unread]
  | send hm hc =>
    have hcap := hv.eq_currentCapacity (.inr ⟨_, hm⟩)
    refine .inr ⟨.send, capacity, ?_, fun _ => hcap⟩
    simp [IndexServer.step, Server.view, hm, hc, Receiver.view, Receiver.unread]
  | lock hi hw =>
    rename_i i
    have hview : (s.view capacity).workers i = .idle := view_workers hi capacity
    have hfree : ∀ j, ((s.view capacity).workers j).holdsReceiver = false := fun j =>
      (holdsReceiver_view _).trans (hw j)
    refine .inr ⟨.lock i, capacity, ?_, hv⟩
    simp only [IndexServer.step, hview, if_pos hfree, ← view_setWorker]
    rfl
  | take hi hc =>
    rename_i i row channel
    have hview : (s.view capacity).workers i = .receiving := view_workers hi capacity
    have hch : (s.view capacity).channel = row :: channel := hc
    refine .inr ⟨.recv i, capacity, ?_, hv⟩
    simp only [IndexServer.step, hview, hch]
    have hset := view_setWorker s capacity i (.waiting row)
    simp only [Worker.view] at hset
    rw [hset]
    rfl
  | close hi hc hm =>
    rename_i i
    have hview : (s.view capacity).workers i = .receiving := view_workers hi capacity
    have hch : (s.view capacity).channel = [] := hc
    have hsend : (s.view capacity).main.holdsSender = false := (holdsSender_view _).trans hm
    refine .inr ⟨.recv i, capacity, ?_, hv⟩
    simp only [IndexServer.step, hview, hch, hsend, ← view_setWorker]
    rfl
  | readLock hi hm =>
    rename_i i row
    have hview : (s.view capacity).workers i = .adding row := view_workers hi capacity
    refine .inl ⟨?_, hv⟩
    rw [← view_setWorker, Worker.view, ← hview, IndexServer.Server.setWorker,
      Function.update_eq_self]
  | added hi =>
    rename_i i row
    have hview : (s.view capacity).workers i = .adding row := view_workers hi capacity
    refine .inr ⟨.add i .ok, capacity, ?_, hv⟩
    have hset := view_setWorker s capacity i .idle
    simp only [Worker.view] at hset
    simp only [IndexServer.step, hview, IndexServer.addRow]
    rw [hset]
    rfl
  | addFails hi hr =>
    rename_i i row result
    have hview : (s.view capacity).workers i = .adding row := view_workers hi capacity
    have hset := view_setWorker s capacity i (.finished result)
    refine .inr ⟨.add i result, capacity, ?_, hv⟩
    simp only [IndexServer.step, hview]
    rw [← hset]
    cases result <;> first | rfl | exact absurd rfl hr
  | joined hm hn hw =>
    rename_i next result
    have hview : (s.view capacity).workers ⟨next, hn⟩ = .finished result := view_workers hw capacity
    have hmain : (s.view capacity).main = .joining next := view_main hm capacity
    refine .inr ⟨.join, capacity, ?_, ?_⟩
    · simp only [IndexServer.step, hmain, dif_pos hn, hview]
      cases result <;> simp [IndexServer.joinWorker, joinWorker, Server.view, hm, Receiver.view,
        Receiver.unread]
    · cases result <;> exact fun h' => by cases h'
  | counted hm hn =>
    rename_i next written
    have hmain : (s.view capacity).main = .joining next := view_main hm capacity
    refine .inr ⟨.writeCount written, capacity, ?_, ?_⟩
    · simp only [IndexServer.step, hmain, if_neg hn]
      cases written <;> simp [Server.view, hm, Receiver.view, Receiver.unread]
    · cases written <;> exact fun h' => by cases h'

/-- Every reachable state of the server with its lock is seen as one of the server
    without. -/
theorem reachable_view (h : Reachable (server writerFirst) s) :
    ∃ c, Viewed s c ∧ Reachable IndexServer.server (s.view c) := by
  induction h with
  | start h =>
    obtain ⟨estimate, capacity, frames, -, -, rfl⟩ := h
    exact ⟨capacity, fun _ => rfl, .start ⟨capacity, frames, rfl⟩⟩
  | next hreach hs ih =>
    obtain ⟨c, hviewed, hsim⟩ := ih
    obtain ⟨a, -, hstep⟩ := hs
    rcases step_simulated (reachable_sized hreach) hviewed hstep with ⟨heq, hv⟩ | ⟨b, c', hb, hv⟩
    · exact ⟨c, hv, heq ▸ hsim⟩
    · exact ⟨c', hv, hsim.next ⟨b, trivial, hb⟩⟩

end Refinement

theorem twoRows_view :
    ∃ s, runActions (admittedStep (step true) Grants) twoRows twoRowsActions = some s ∧
      s.workers 1 = .adding 8 ∧
      ∃ c, Viewed s c ∧ Reachable IndexServer.server (s.view c) := by
  have hstart : Reachable (server true) twoRows := .start ⟨1, 1, _, le_refl _, le_refl _, rfl⟩
  refine ⟨_, rfl, rfl, ?_⟩
  exact reachable_view
    (@reachable_admitted _ _ Started (step true) Grants _ twoRows _ twoRowsActions hstart rfl)

end Lantern.ServerLocks
