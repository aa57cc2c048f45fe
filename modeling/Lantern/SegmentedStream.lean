import Mathlib.Tactic
import Mathlib.Data.List.Basic

set_option autoImplicit false

/-!
# Streams that arrive in pieces

The transport hands a stream over in pieces. One read returns at most one
piece, and the part of a piece that did not fit is returned by the next read.
`reads n` are the reads of a loop that keeps asking for what is missing of `n`
elements: whatever the pieces are, together they are the next `n` elements.
-/
namespace Lantern.SegmentedStream

variable {α : Type}

def Segmented (pieces : List (List α)) : Prop := ∀ piece ∈ pieces, piece ≠ []

def recv (n : ℕ) : List (List α) → List α × List (List α)
  | [] => ([], [])
  | piece :: pieces =>
    if piece.length ≤ n then (piece, pieces) else (piece.take n, piece.drop n :: pieces)

/-- Read until `n` elements are there; `none` at an early end of the stream. -/
def recvExact : ℕ → List (List α) → Option (List α × List (List α))
  | 0, pieces => some ([], pieces)
  | _ + 1, [] => none
  | n + 1, piece :: pieces =>
    if piece.length ≤ n + 1 then
      (recvExact (n + 1 - piece.length) pieces).map fun r => (piece ++ r.1, r.2)
    else some (piece.take (n + 1), piece.drop (n + 1) :: pieces)

def reads : ℕ → List (List α) → List (List α) × List (List α)
  | 0, pieces => ([], pieces)
  | _ + 1, [] => ([], [])
  | n + 1, piece :: pieces =>
    if piece.length ≤ n + 1 then
      (piece :: (reads (n + 1 - piece.length) pieces).1, (reads (n + 1 - piece.length) pieces).2)
    else ([piece.take (n + 1)], piece.drop (n + 1) :: pieces)

theorem recv_append (n : ℕ) (pieces : List (List α)) :
    (recv n pieces).1 ++ (recv n pieces).2.flatten = pieces.flatten := by
  cases pieces with
  | nil => rfl
  | cons piece pieces =>
    simp only [recv]
    split
    · simp
    · simp [← List.append_assoc]

theorem recv_length_le (n : ℕ) (pieces : List (List α)) : (recv n pieces).1.length ≤ n := by
  cases pieces with
  | nil => simp [recv]
  | cons piece pieces =>
    simp only [recv]
    split
    · assumption
    · simp

theorem recv_eq_take (n : ℕ) (pieces : List (List α)) :
    (recv n pieces).1 = pieces.flatten.take (recv n pieces).1.length := by
  conv_rhs => rw [← recv_append n pieces]
  simp

theorem recv_rest (n : ℕ) (pieces : List (List α)) :
    (recv n pieces).2.flatten = pieces.flatten.drop (recv n pieces).1.length := by
  conv_rhs => rw [← recv_append n pieces]
  simp

theorem Segmented.recv {pieces : List (List α)} (h : Segmented pieces) (n : ℕ) :
    Segmented (recv n pieces).2 := by
  cases pieces with
  | nil => exact h
  | cons piece pieces =>
    have htail : Segmented pieces := fun p hp => h p (List.mem_cons_of_mem _ hp)
    simp only [SegmentedStream.recv]
    split
    · exact htail
    · rename_i hlt
      intro p hp
      rcases List.mem_cons.mp hp with rfl | hp
      · simpa using hlt
      · exact htail p hp

variable {n : ℕ}

theorem recv_ne_nil {pieces : List (List α)} (h : Segmented pieces) (hn : 0 < n)
    (hne : pieces ≠ []) : (recv n pieces).1 ≠ [] := by
  cases pieces with
  | nil => exact absurd rfl hne
  | cons piece pieces =>
    have hpiece := h piece List.mem_cons_self
    simp only [recv]
    split
    · exact hpiece
    · simp [hpiece, hn.ne']

theorem recvExact_append {pieces : List (List α)} {r : List α × List (List α)}
    (h : recvExact n pieces = some r) : r.1 ++ r.2.flatten = pieces.flatten := by
  induction pieces generalizing n r with
  | nil =>
    cases n with
    | zero => cases h; rfl
    | succ n => cases h
  | cons piece pieces ih =>
    cases n with
    | zero => cases h; rfl
    | succ n =>
      simp only [recvExact] at h
      split at h
      · obtain ⟨q, hq, rfl⟩ := Option.map_eq_some_iff.mp h
        simp [ih hq]
      · cases h
        simp [← List.append_assoc]

theorem recvExact_length {pieces : List (List α)} {r : List α × List (List α)}
    (h : recvExact n pieces = some r) : r.1.length = n := by
  induction pieces generalizing n r with
  | nil =>
    cases n with
    | zero => cases h; rfl
    | succ n => cases h
  | cons piece pieces ih =>
    cases n with
    | zero => cases h; rfl
    | succ n =>
      simp only [recvExact] at h
      split at h
      · obtain ⟨q, hq, rfl⟩ := Option.map_eq_some_iff.mp h
        have := ih hq
        simp only [List.length_append]
        omega
      · cases h
        simp
        omega

theorem recvExact_none {pieces : List (List α)} (h : recvExact n pieces = none) :
    pieces.flatten.length < n := by
  induction pieces generalizing n with
  | nil =>
    cases n with
    | zero => cases h
    | succ n => simp
  | cons piece pieces ih =>
    cases n with
    | zero => cases h
    | succ n =>
      simp only [recvExact] at h
      split at h
      · have hrest := ih (Option.map_eq_none_iff.mp h)
        simp only [List.flatten_cons, List.length_append]
        omega
      · cases h

theorem reads_flatten (n : ℕ) (pieces : List (List α)) :
    (reads n pieces).1.flatten = pieces.flatten.take n ∧
      (reads n pieces).2.flatten = pieces.flatten.drop n := by
  induction pieces generalizing n with
  | nil => cases n <;> simp [reads]
  | cons piece pieces ih =>
    cases n with
    | zero => simp [reads]
    | succ n =>
      simp only [reads]
      split
      · rename_i hle
        obtain ⟨hread, hrest⟩ := ih (n + 1 - piece.length)
        simp [List.take_append, List.drop_append, List.take_of_length_le hle,
          List.drop_eq_nil_of_le hle, hread, hrest]
      · rename_i hlt
        have hle : n + 1 ≤ piece.length := by omega
        simp [List.take_append_of_le_length hle, List.drop_append_of_le_length hle]

theorem reads_recv {pieces : List (List α)} (hn : 0 < n) (hne : pieces ≠ []) :
    reads n pieces =
      ((recv n pieces).1 :: (reads (n - (recv n pieces).1.length) (recv n pieces).2).1,
        (reads (n - (recv n pieces).1.length) (recv n pieces).2).2) := by
  obtain ⟨n, rfl⟩ : ∃ k, n = k + 1 := ⟨n - 1, by omega⟩
  cases pieces with
  | nil => exact absurd rfl hne
  | cons piece pieces =>
    simp only [reads, recv]
    split
    · rfl
    · rename_i hlt
      have hlen : (piece.take (n + 1)).length = n + 1 := by simp; omega
      simp [hlen, reads]

theorem Segmented.reads {pieces : List (List α)} (h : Segmented pieces) (n : ℕ) :
    Segmented (reads n pieces).2 := by
  induction pieces generalizing n with
  | nil => cases n <;> exact h
  | cons piece pieces ih =>
    have htail : Segmented pieces := fun p hp => h p (List.mem_cons_of_mem _ hp)
    cases n with
    | zero => exact h
    | succ n =>
      simp only [SegmentedStream.reads]
      split
      · exact ih htail _
      · rename_i hlt
        intro p hp
        rcases List.mem_cons.mp hp with rfl | hp
        · simpa using hlt
        · exact htail p hp

end Lantern.SegmentedStream
