import Lantern.IndexScan
import Lantern.SystemRuns

set_option autoImplicit false

/-!
# The arrays that a scan hands to usearch

A scan descriptor keeps its `labels` and `distances` arrays between calls. They are
allocated before the first search, resized before every streaming search, and kept as
they are before a search after a rescan. A search writes as many elements to them as it
returns.
-/
namespace Lantern.ScanBuffers
open FuelLoop NodeLayout IndexRelation IndexScan SystemRuns

/-- A call of `usearch_search_ef`, with the room in the arrays at that time. -/
structure SearchCall where
  k : ℕ
  streaming : Bool
  results : ℕ
  labels : ℕ
  distances : ℕ
  deriving DecidableEq, Repr

def SearchCall.Fits (c : SearchCall) : Prop := c.k ≤ c.labels ∧ c.k ≤ c.distances

def SearchCall.Overruns (c : SearchCall) : Prop := c.labels < c.results ∨ c.distances < c.results

instance (c : SearchCall) : Decidable c.Fits := inferInstanceAs (Decidable (_ ∧ _))

instance (c : SearchCall) : Decidable c.Overruns := inferInstanceAs (Decidable (_ ∨ _))

/-- An array that was never allocated is `none`. Nothing is said of what follows a
    fault. -/
structure Arrays (σ : Type) where
  index : σ
  labels : Option ℕ
  distances : Option ℕ
  searches : List SearchCall
  fault : Option Fault

structure IndexScanDesc (Query σ : Type) where
  orderBy : OrderBy Query
  scanstate : HnswScanState (Arrays σ)

def IndexScanDesc.searches {Query σ : Type} (d : IndexScanDesc Query σ) : List SearchCall :=
  d.scanstate.usearchIndex.searches

def IndexScanDesc.fault {Query σ : Type} (d : IndexScanDesc Query σ) : Option Fault :=
  d.scanstate.usearchIndex.fault

/-- `if (array == NULL) array = palloc(k)` -/
def pallocIfNull (k : ℕ) (array : Option ℕ) : Option ℕ := some (array.getD k)

/-- `array = repalloc(array, k)`, which fails on a null pointer. -/
def repalloc (k : ℕ) (array : Option ℕ) : Option ℕ := array.map fun _ => k

def allocate (streaming : Bool) (k : ℕ) (array : Option ℕ) : Option ℕ :=
  if streaming then repalloc k array else pallocIfNull k array

section Scan
variable {Query σ : Type} (us : Usearch Query σ)

def searchEf (s : Arrays σ) (q : Query) (k : ℕ) (streaming : Bool) : List Entry × Arrays σ :=
  let (entries, index) := us.searchEf s.index q k streaming
  match allocate streaming k s.labels, allocate streaming k s.distances with
  | some labels, some distances =>
    let call : SearchCall := ⟨k, streaming, entries.length, labels, distances⟩
    (entries, ⟨index, some labels, some distances, s.searches ++ [call],
      if call.Overruns then some .writePastBuffer else s.fault⟩)
  | _, _ => (entries, { s with index := index, fault := some .nullDereference })

def withArrays : Usearch Query (Arrays σ) where
  size s := us.size s.index
  searchEf := searchEf us

/-- The order-by keys are set by the first rescan; before it they hold anything. -/
def beginScan (orderBy : OrderBy Query) (s : σ) : IndexScanDesc Query σ :=
  ⟨orderBy, ambeginscan ⟨s, none, none, [], none⟩⟩

def copyOrderBy (orderbys : Option (Option Query)) : OrderBy Query → OrderBy Query
  | .missing => .missing
  | old => match orderbys with
    | none => old
    | some none => .null
    | some (some q) => .value q

def amrescan (orderbys : Option (Option Query)) (d : IndexScanDesc Query σ) :
    IndexScanDesc Query σ :=
  { orderBy := copyOrderBy orderbys d.orderBy
    scanstate := { d.scanstate with first := true } }

def gettuple (initK : ℕ) (d : IndexScanDesc Query σ) :
    Outcome Fault (Option ItemPointerData × IndexScanDesc Query σ) :=
  (IndexScan.amgettuple (withArrays us) initK d.orderBy d.scanstate).map
    fun r => (r.1, { d with scanstate := r.2 })

def amgettuple (initK : ℕ) (d : IndexScanDesc Query σ) :
    Outcome Fault (Option ItemPointerData × IndexScanDesc Query σ) :=
  (gettuple us initK d).bind fun r =>
    match r.2.fault with
    | some e => .fault e
    | none => .done r

/-- The calls on a descriptor; `initK` is the setting at the time of the call. -/
inductive Call (Query : Type) where
  | rescan (orderbys : Option (Option Query))
  | gettuple (initK : ℕ)

/-- A call whose search is a fault is the last one. -/
def step (d : IndexScanDesc Query σ) (call : Call Query) : Option (IndexScanDesc Query σ) :=
  if d.fault.isSome then none
  else match call with
    | .rescan orderbys => some (amrescan orderbys d)
    | .gettuple initK => match gettuple us initK d with
      | .done r => some r.2
      | _ => none

def InitKInRange : Call Query → Prop
  | .rescan _ => True
  | .gettuple initK => 1 ≤ initK ∧ initK ≤ 1000

def scans : System (IndexScanDesc Query σ) :=
  actionSystem (fun d => ∃ orderBy s, d = beginScan orderBy s) (step us) fun _ c => InitKInRange c

end Scan

/-- A search that starts over, with the setting at that time, or that goes on, and how
    many entries it returned. -/
inductive Event where
  | start (initK results : ℕ)
  | stream (results : ℕ)
  deriving DecidableEq, Repr

def Event.results : Event → ℕ
  | .start _ n => n
  | .stream n => n

def SearchCall.event (c : SearchCall) : Event :=
  if c.streaming then .stream c.results else .start c.k c.results

def Restarts (es : List Event) : Prop := ∀ e ∈ es, ∃ k n, e = .start k n

/-- Until a search streams, the setting is never above what it was at the first search;
    after that it is, at every restart, at most twice the number of results of the search
    before the last streaming one. -/
structure RestartsFit (es : List Event) : Prop where
  unstreamed : ∀ k n mid k' n' post, es = (.start k n :: mid) ++ .start k' n' :: post →
    Restarts mid → k' ≤ k
  streamed : ∀ pre before n mid k' n' post,
    es = (pre ++ before :: .stream n :: mid) ++ .start k' n' :: post →
    Restarts mid → k' ≤ 2 * before.results

section Rooms
variable {es : List Event} {c : ℕ}

def Room (es : List Event) (c : ℕ) : Prop :=
  (∃ k n mid, es = .start k n :: mid ∧ Restarts mid ∧ c = k) ∨
    ∃ pre before n mid, es = pre ++ before :: .stream n :: mid ∧ Restarts mid ∧
    c = 2 * before.results

theorem restartsFit_iff : RestartsFit es ↔
    ∀ pre k n post, es = pre ++ .start k n :: post → ∀ c, Room pre c → k ≤ c := by
  constructor
  · rintro h pre k n post hes c (⟨k', n', mid, rfl, hmid, rfl⟩ | ⟨p, before, n', mid,
      rfl, hmid, rfl⟩)
    · exact h.unstreamed _ _ mid k n post hes hmid
    · exact h.streamed p before n' mid k n post hes hmid
  · intro h
    exact ⟨fun k n mid k' n' post hes hmid =>
      h _ k' n' post hes _ (.inl ⟨k, n, mid, rfl, hmid, rfl⟩),
      fun pre before n mid k' n' post hes hmid =>
        h _ k' n' post hes _ (.inr ⟨pre, before, n, mid, rfl, hmid, rfl⟩)⟩

theorem concat_eq_append_cons {α : Type} {xs pre post : List α} {x y : α} :
    xs ++ [x] = pre ++ y :: post ↔
      post = [] ∧ xs = pre ∧ x = y ∨ ∃ rest, post = rest ++ [x] ∧ xs = pre ++ y :: rest := by
  constructor
  · intro h
    rcases List.eq_nil_or_concat' post with rfl | ⟨rest, z, rfl⟩
    · obtain ⟨rfl, hx⟩ := List.append_inj' h rfl
      exact .inl ⟨rfl, rfl, List.head_eq_of_cons_eq hx⟩
    · rw [← List.cons_append, ← List.append_assoc] at h
      obtain ⟨rfl, hx⟩ := List.append_inj' h rfl
      exact .inr ⟨rest, by rw [List.head_eq_of_cons_eq hx], rfl⟩
  · rintro (⟨rfl, rfl, rfl⟩ | ⟨rest, rfl, rfl⟩)
    · rfl
    · simp

theorem restarts_concat {mid : List Event} {e : Event} :
    Restarts (mid ++ [e]) ↔ Restarts mid ∧ ∃ k n, e = .start k n := by
  simp only [Restarts, List.mem_append, List.mem_singleton, or_imp, forall_and, forall_eq]

theorem room_first (k n : ℕ) : Room [.start k n] k :=
  .inl ⟨k, n, [], rfl, by simp [Restarts], rfl⟩

theorem Room.restarted (h : Room es c) (k n : ℕ) : Room (es ++ [.start k n]) c := by
  rcases h with ⟨k', n', mid, rfl, hmid, rfl⟩ | ⟨p, before, n', mid, rfl, hmid, rfl⟩
  · exact .inl ⟨_, n', mid ++ [.start k n], rfl, restarts_concat.mpr ⟨hmid, k, n, rfl⟩, rfl⟩
  · exact .inr ⟨p, before, n', mid ++ [.start k n], by simp,
      restarts_concat.mpr ⟨hmid, k, n, rfl⟩, rfl⟩

theorem room_streamed (pre : List Event) (before : Event) (n : ℕ) :
    Room (pre ++ [before] ++ [.stream n]) (2 * before.results) :=
  .inr ⟨pre, before, n, [], by simp, by simp [Restarts], rfl⟩

variable {n : ℕ}

theorem room_concat_start {k : ℕ} (h : Room (es ++ [.start k n]) c) : es = [] ∧
      c = k ∨ Room es c := by
  rcases h with ⟨k', n', mid, hes, hmid, rfl⟩ | ⟨p, before, n', mid, hes, hmid, rfl⟩
  · rcases (@concat_eq_append_cons _ _ [] _ _ _).mp hes with ⟨-, rfl, he⟩ | ⟨rest, rfl, rfl⟩
    · exact .inl ⟨rfl, ((Event.start.injEq ..).mp he).1.symm⟩
    · exact .inr (.inl ⟨_, n', rest, rfl, (restarts_concat.mp hmid).1, rfl⟩)
  · have hsplit := hes.trans (List.append_cons p before (.stream n' :: mid))
    rcases concat_eq_append_cons.mp hsplit with ⟨-, -, he⟩ | ⟨rest, rfl, rfl⟩
    · cases he
    · exact .inr (.inr ⟨p, before, n', rest, by simp, (restarts_concat.mp hmid).1, rfl⟩)

theorem room_concat_stream (h : Room (es ++ [.stream n]) c) :
    ∃ pre before, es = pre ++ [before] ∧ c = 2 * before.results := by
  rcases h with ⟨k', n', mid, hes, hmid, rfl⟩ | ⟨p, before, n', mid, hes, hmid, rfl⟩
  · rcases (@concat_eq_append_cons _ _ [] _ _ _).mp hes with ⟨-, -, he⟩ | ⟨rest, rfl, -⟩
    · cases he
    · obtain ⟨-, k, m, he⟩ := restarts_concat.mp hmid
      cases he
  · have hsplit := hes.trans (List.append_cons p before (.stream n' :: mid))
    rcases concat_eq_append_cons.mp hsplit with ⟨-, rfl, -⟩ | ⟨rest, rfl, -⟩
    · exact ⟨p, before, rfl, rfl⟩
    · obtain ⟨-, k, m, he⟩ := restarts_concat.mp hmid
      cases he

theorem not_room_nil : ¬ Room [] c := by
  rintro (⟨_, _, _, hes, -⟩ | ⟨_, _, _, _, hes, -⟩)
  · cases hes
  · simp at hes

theorem Room.unique {c' : ℕ} (h : Room es c) (h' : Room es c') : c = c' := by
  induction es using List.reverseRecOn generalizing c c' with
  | nil => exact absurd h not_room_nil
  | append_singleton es e ih =>
    cases e with
    | start k n =>
      rcases room_concat_start h with ⟨rfl, rfl⟩ | hold
      · rcases room_concat_start h' with ⟨-, rfl⟩ | hold'
        · rfl
        · exact absurd hold' not_room_nil
      · rcases room_concat_start h' with ⟨rfl, rfl⟩ | hold'
        · exact absurd hold not_room_nil
        · exact ih hold hold'
    | stream n =>
      obtain ⟨pre, before, rfl, rfl⟩ := room_concat_stream h
      obtain ⟨pre', before', hes, rfl⟩ := room_concat_stream h'
      rw [List.head_eq_of_cons_eq (List.append_inj' hes rfl).2]

theorem restartsFit_concat_start {k : ℕ} :
    RestartsFit (es ++ [.start k n]) ↔ RestartsFit es ∧ ∀ c, Room es c → k ≤ c := by
  simp only [restartsFit_iff]
  constructor
  · exact fun h => ⟨fun pre k' n' post hes => h pre k' n' (post ++ [.start k n]) (by simp [hes]),
      h es k n [] rfl⟩
  · rintro ⟨hfit, hlast⟩ pre k' n' post hes
    rcases concat_eq_append_cons.mp hes with ⟨-, rfl, he⟩ | ⟨rest, -, hes⟩
    · obtain ⟨rfl, -⟩ := (Event.start.injEq ..).mp he
      exact hlast
    · exact hfit pre k' n' rest hes

theorem restartsFit_concat_stream : RestartsFit (es ++ [.stream n]) ↔ RestartsFit es := by
  simp only [restartsFit_iff]
  constructor
  · exact fun h pre k' n' post hes => h pre k' n' (post ++ [.stream n]) (by simp [hes])
  · intro hfit pre k' n' post hes
    rcases concat_eq_append_cons.mp hes with ⟨-, -, he⟩ | ⟨rest, -, hes⟩
    · cases he
    · exact hfit pre k' n' rest hes

end Rooms

section Runs
variable {Query σ : Type} {us : Usearch Query σ}

def events (s : Arrays σ) : List Event := s.searches.map SearchCall.event

/-- What the searches made so far say of the arrays, of the batch in hand and of the
    searches themselves. -/
structure Follows (st : HnswScanState (Arrays σ)) : Prop where
  arrays : events st.usearchIndex = [] ∧ st.usearchIndex.labels = none ∧
    st.usearchIndex.distances = none ∨
    ∃ c, Room (events st.usearchIndex) c ∧ st.usearchIndex.labels = some c ∧
      st.usearchIndex.distances = some c
  searched : st.first = false → events st.usearchIndex ≠ []
  counted : ∀ pre e, events st.usearchIndex = pre ++ [e] → st.count = e.results
  fits_iff : (∀ c ∈ st.usearchIndex.searches, c.Fits) ↔ RestartsFit (events st.usearchIndex)
  fault_eq : st.usearchIndex.fault =
    if ∃ c ∈ st.usearchIndex.searches, c.Overruns then some .writePastBuffer else none

theorem follows_begin (s : σ) : Follows (ambeginscan ⟨s, none, none, [], none⟩) where
  arrays := .inl ⟨rfl, rfl, rfl⟩
  searched := fun h => absurd h (by simp [ambeginscan])
  counted := fun pre e h => absurd h (by simp [events, ambeginscan])
  fits_iff := by
    refine iff_of_true (by simp [ambeginscan]) ⟨fun _ _ _ _ _ _ h =>
      ?_, fun _ _ _ _ _ _ _ h => ?_⟩ <;>
      simp [events, ambeginscan] at h
  fault_eq := by simp [ambeginscan]

theorem searchEf_eq {s : Arrays σ} {k c : ℕ} {streaming : Bool}
    (hlabels : allocate streaming k s.labels = some c)
    (hdistances : allocate streaming k s.distances = some c) (q : Query) :
    (withArrays us).searchEf s q k streaming =
      let (entries, index) := us.searchEf s.index q k streaming
      (entries, ⟨index, some c, some c, s.searches ++ [⟨k, streaming, entries.length, c, c⟩],
        if c < entries.length then some .writePastBuffer else s.fault⟩) := by
  simp only [withArrays, searchEf, hlabels, hdistances, SearchCall.Overruns, or_self]

theorem Follows.load {st : HnswScanState (Arrays σ)} (h : Follows st) {q : Query} {k c : ℕ}
    {streaming : Bool} (hlabels : allocate streaming k st.usearchIndex.labels = some c)
    (hdistances : allocate streaming k st.usearchIndex.distances = some c)
    (hroom : ∀ n, Room (events st.usearchIndex ++ [if streaming then .stream n else .start k n]) c)
    (hfit : ∀ n, RestartsFit (events st.usearchIndex) ∧ k ≤ c ↔
      RestartsFit (events st.usearchIndex ++ [if streaming then .stream n else .start k n])) :
    Follows (loadBatch (withArrays us) q k streaming st) := by
  obtain ⟨n, hn⟩ : ∃ n, n = (us.searchEf st.usearchIndex.index q k streaming).1.length := ⟨_, rfl⟩
  have hsearch := @searchEf_eq _ _ us _ _ _ _ hlabels hdistances q
  have hsearches : (loadBatch (withArrays us) q k streaming st).usearchIndex.searches =
      st.usearchIndex.searches ++ [⟨k, streaming, n, c, c⟩] := by
    simp only [loadBatch, hsearch, hn]
  have hfault : (loadBatch (withArrays us) q k streaming st).usearchIndex.fault =
      if c < n then some .writePastBuffer else st.usearchIndex.fault := by
    simp only [loadBatch, hsearch, hn]
  have hevents : events (loadBatch (withArrays us) q k streaming st).usearchIndex =
      events st.usearchIndex ++ [if streaming then .stream n else .start k n] := by
    rw [events, hsearches, List.map_append]
    rfl
  constructor
  · rw [hevents]
    refine .inr ⟨c, hroom n, ?_, ?_⟩ <;> simp only [loadBatch, hsearch]
  · simp [hevents]
  · intro pre e hes
    rw [hevents] at hes
    rw [← List.head_eq_of_cons_eq (List.append_inj' hes rfl).2]
    simp only [loadBatch, hsearch, ← hn]
    cases streaming <;> rfl
  · rw [hevents, ← hfit n, ← h.fits_iff, hsearches, List.forall_mem_append,
      List.forall_mem_singleton]
    simp only [SearchCall.Fits, and_self]
  · have hover : (∃ d ∈ st.usearchIndex.searches ++ [⟨k, streaming, n, c, c⟩], d.Overruns) ↔
        (∃ d ∈ st.usearchIndex.searches, d.Overruns) ∨ c < n := by
      simp only [List.mem_append, List.mem_singleton, or_and_right, exists_or, exists_eq_left,
        SearchCall.Overruns, or_self]
    rw [hfault, hsearches, h.fault_eq]
    by_cases hlast : c < n
    · rw [if_pos hlast, if_pos (hover.mpr (.inr hlast))]
    · rw [if_neg hlast]
      exact if_congr (by rw [hover, or_iff_left hlast]) rfl rfl

theorem Follows.firstBatch {st : HnswScanState (Arrays σ)} (h : Follows st)
    (initK : ℕ) (q : Query) :
    Follows (loadBatch (withArrays us) q initK false st) := by
  rcases h.arrays with ⟨hnone, hl, hd⟩ | ⟨c, hroom, hl, hd⟩
  · refine @Follows.load _ _ us _ h q initK initK false (by rw [hl]; rfl) (by rw [hd]; rfl)
      (fun n => ?_) (fun n => ?_)
    · rw [hnone]
      exact room_first initK n
    · rw [if_neg Bool.false_ne_true, restartsFit_concat_start, hnone]
      exact and_congr_right fun _ => iff_of_true le_rfl fun c hc => absurd hc not_room_nil
  · refine @Follows.load _ _ us _ h q initK c false (by rw [hl]; rfl) (by rw [hd]; rfl)
      (fun n => hroom.restarted initK n) (fun n => ?_)
    rw [if_neg Bool.false_ne_true, restartsFit_concat_start]
    exact and_congr_right fun _ =>
      ⟨fun hle c' hc' => hroom.unique hc' ▸ hle, fun hall => hall c hroom⟩

theorem Follows.nextBatch {st : HnswScanState (Arrays σ)} (h : Follows st)
    (hne : events st.usearchIndex ≠ []) (q : Query) :
    Follows (loadBatch (withArrays us) q (st.count * 2) true st) := by
  obtain ⟨pre, e, hes⟩ := (List.eq_nil_or_concat' (events st.usearchIndex)).resolve_left hne
  rcases h.arrays with ⟨hnone, -⟩ | ⟨c, -, hl, hd⟩
  · exact absurd hnone hne
  · refine @Follows.load _ _ us _ h q (st.count * 2) (st.count * 2) true (by rw [hl]; rfl)
      (by rw [hd]; rfl)
      (fun n => ?_) (fun n => ?_)
    · rw [if_pos rfl, hes, h.counted pre e hes, Nat.mul_comm]
      exact room_streamed pre e n
    · rw [if_pos rfl, restartsFit_concat_stream]
      exact and_iff_left le_rfl

theorem nextLive_keeps {τ : Type} (st : HnswScanState τ) :
    (nextLive st).2.first = st.first ∧ (nextLive st).2.count = st.count ∧
      (nextLive st).2.usearchIndex = st.usearchIndex := by
  have hloop : ∀ n (st : HnswScanState τ), (emitLoop n st).2.first = st.first ∧
      (emitLoop n st).2.count = st.count ∧ (emitLoop n st).2.usearchIndex = st.usearchIndex := by
    intro n
    induction n with
    | zero => exact fun st => ⟨rfl, rfl, rfl⟩
    | succ n ih =>
      intro st
      rw [emitLoop]
      split
      · exact ih _
      · exact ⟨rfl, rfl, rfl⟩
  exact hloop _ st

theorem Follows.emit {st : HnswScanState (Arrays σ)} (h : Follows st) :
    Follows (nextLive st).2 := by
  obtain ⟨hfirst, hcount, hindex⟩ := nextLive_keeps st
  exact ⟨hindex ▸ h.arrays, by rw [hfirst, hindex]; exact h.searched,
    by rw [hcount, hindex]; exact h.counted, hindex ▸ h.fits_iff, hindex ▸ h.fault_eq⟩

theorem Follows.fetch {st : HnswScanState (Arrays σ)} (h : Follows st)
    (hne : events st.usearchIndex ≠ []) {orderBy : OrderBy Query}
    {r : Option ItemPointerData × HnswScanState (Arrays σ)}
    (hr : fetch (withArrays us) orderBy st = .done r) : Follows r.2 := by
  unfold IndexScan.fetch at hr
  split_ifs at hr
  · cases hr
    exact h
  · cases hr
    exact h
  · cases orderBy with
    | value q =>
      cases hr
      exact (h.nextBatch hne q).emit
    | missing => cases hr
    | null => cases hr
  · cases hr
    exact h.emit

theorem Follows.amgettuple {st : HnswScanState (Arrays σ)} (h : Follows st) {initK : ℕ}
    {orderBy : OrderBy Query} {r : Option ItemPointerData × HnswScanState (Arrays σ)}
    (hr : IndexScan.amgettuple (withArrays us) initK orderBy st = .done r) : Follows r.2 := by
  unfold IndexScan.amgettuple at hr
  split_ifs at hr with hfirst
  · cases orderBy with
    | missing => cases hr
    | null =>
      cases hr
      exact h
    | value q =>
      have hbatch := @Follows.firstBatch _ _ us _ h initK q
      exact hbatch.fetch (hbatch.searched rfl) hr
  · exact h.fetch (h.searched (by simpa using hfirst)) hr

variable {d : IndexScanDesc Query σ}

theorem Follows.step {d' : IndexScanDesc Query σ} (h : Follows d.scanstate) {c : Call Query}
    (hs : step us d c = some d') : Follows d'.scanstate := by
  unfold ScanBuffers.step at hs
  split_ifs at hs
  cases c with
  | rescan orderbys =>
    cases hs
    exact ⟨h.arrays, fun hf => absurd hf (by simp [amrescan]), h.counted, h.fits_iff, h.fault_eq⟩
  | gettuple initK =>
    cases hr : gettuple us initK d with
    | done r =>
      simp only [hr, Option.some.injEq] at hs
      obtain ⟨r', hr', rfl⟩ := Outcome.map_eq_done.mp hr
      rw [← hs]
      exact h.amgettuple hr'
    | fault e => simp [hr] at hs
    | unfinished => simp [hr] at hs

theorem reachable_follows (h : Reachable (scans us) d) :
    Follows d.scanstate := by
  refine h.invariant (fun d => Follows d.scanstate) ?_ ?_
  · rintro _ ⟨orderBy, s, rfl⟩
    exact follows_begin s
  · rintro s t hs ⟨c, -, hstep⟩
    exact hs.step hstep

/-- In every sequence of calls all searches have room for what they ask if and only if
    the settings at the first search and at the restarts, and the numbers of results, are
    as in `RestartsFit`. -/
theorem searches_fit_iff (h : Reachable (scans us) d) :
    (∀ c ∈ d.searches, c.Fits) ↔ RestartsFit (d.searches.map SearchCall.event) :=
  (reachable_follows h).fits_iff

end Runs

section Refinement
variable {Query σ τ : Type}

def mapIndex (f : τ → σ) (st : HnswScanState τ) : HnswScanState σ :=
  ⟨st.first, st.labels, st.count, st.current, f st.usearchIndex⟩

/-- Both indexes give the same answers, and `f` takes the states of one to those of the
    other. -/
structure Simulates (f : τ → σ) (fine : Usearch Query τ) (coarse : Usearch Query σ) : Prop where
  size_eq : ∀ s, coarse.size (f s) = fine.size s
  searchEf_eq : ∀ s q k streaming, coarse.searchEf (f s) q k streaming =
    ((fine.searchEf s q k streaming).1, f (fine.searchEf s q k streaming).2)

variable {f : τ → σ} {fine : Usearch Query τ} {coarse : Usearch Query σ}

theorem nextLive_map (f : τ → σ) (st : HnswScanState τ) :
    nextLive (mapIndex f st) = ((nextLive st).1, mapIndex f (nextLive st).2) := by
  have hloop : ∀ n (st : HnswScanState τ),
      emitLoop n (mapIndex f st) = ((emitLoop n st).1, mapIndex f (emitLoop n st).2) := by
    intro n
    induction n with
    | zero => exact fun st => rfl
    | succ n ih =>
      intro st
      rw [emitLoop, emitLoop]
      by_cases hlabel : st.labels.getD st.current BulkDelete.INVALID_ELEMENT_LABEL =
          BulkDelete.INVALID_ELEMENT_LABEL
      · refine (if_pos hlabel).trans ?_
        rw [if_pos hlabel]
        exact ih { st with current := st.current + 1 }
      · refine (if_neg hlabel).trans ?_
        rw [if_neg hlabel]
        rfl
  exact hloop _ st

theorem loadBatch_map (h : Simulates f fine coarse) (q : Query) (k : ℕ) (streaming : Bool)
    (st : HnswScanState τ) :
    loadBatch coarse q k streaming (mapIndex f st) = mapIndex f
      (loadBatch fine q k streaming st) := by
  simp only [loadBatch, mapIndex, h.searchEf_eq]

theorem fetch_map (h : Simulates f fine coarse) (orderBy : OrderBy Query) (st : HnswScanState τ) :
    fetch coarse orderBy (mapIndex f st) = (fetch fine orderBy st).map fun r =>
      (r.1, mapIndex f r.2) := by
  have hindex : (mapIndex f st).usearchIndex = f st.usearchIndex := rfl
  unfold fetch
  rw [hindex, h.size_eq]
  simp only [show (mapIndex f st).current = st.current from rfl,
    show (mapIndex f st).count = st.count from rfl]
  split_ifs
  · rfl
  · rfl
  · cases orderBy with
    | value q => simp only [loadBatch_map h, nextLive_map, Outcome.map_done]
    | missing => rfl
    | null => rfl
  · rw [nextLive_map, Outcome.map_done]

theorem amgettuple_map (h : Simulates f fine coarse) (initK : ℕ) (orderBy : OrderBy Query)
    (st : HnswScanState τ) :
    IndexScan.amgettuple coarse initK orderBy (mapIndex f st) =
      (IndexScan.amgettuple fine initK orderBy st).map fun r => (r.1, mapIndex f r.2) := by
  unfold IndexScan.amgettuple
  simp only [show (mapIndex f st).first = st.first from rfl]
  split_ifs
  · cases orderBy with
    | missing => rfl
    | null => rfl
    | value q => simp only [loadBatch_map h, fetch_map h]
  · exact fetch_map h orderBy st

theorem withArrays_simulates (us : Usearch Query σ) :
    Simulates Arrays.index (withArrays us) us where
  size_eq := fun _ => rfl
  searchEf_eq := by
    intro s q k streaming
    simp only [withArrays, searchEf]
    split <;> rfl

def scanned (r : Option ItemPointerData × IndexScanDesc Query σ) :
    Option ItemPointerData × HnswScanState σ :=
  (r.1, mapIndex Arrays.index r.2.scanstate)

/-- A call writes past an array, or it returns what the scan without arrays returns
    and leaves the same state. No call resizes an array that is not there. -/
theorem reachable_amgettuple {us : Usearch Query σ} {d : IndexScanDesc Query σ}
    (h : Reachable (scans us) d) (initK : ℕ) :
    (amgettuple us initK d = .fault .writePastBuffer ∧
      ∃ r, gettuple us initK d = .done r ∧ ∃ c ∈ r.2.searches, c.Overruns) ∨
    (∀ r, gettuple us initK d = .done r → ∀ c ∈ r.2.searches, ¬ c.Overruns) ∧
      (amgettuple us initK d).map scanned =
        IndexScan.amgettuple us initK d.orderBy (mapIndex Arrays.index d.scanstate) := by
  rw [amgettuple_map (withArrays_simulates us)]
  cases hr : IndexScan.amgettuple (withArrays us) initK d.orderBy d.scanstate with
  | done r =>
    have hcall : gettuple us initK d = .done (r.1, { d with scanstate := r.2 }) := by
      rw [gettuple, hr, Outcome.map_done]
    have hfault := ((reachable_follows h).amgettuple hr).fault_eq
    rw [amgettuple, hcall, Outcome.bind_done]
    simp only [IndexScanDesc.fault, hfault, Outcome.done.injEq, forall_eq', exists_eq_left']
    by_cases hover : ∃ c ∈ r.2.usearchIndex.searches, c.Overruns
    · rw [if_pos hover]
      exact .inl ⟨rfl, hover⟩
    · rw [if_neg hover]
      exact .inr ⟨fun c hc hc' => hover ⟨c, hc, hc'⟩, rfl⟩
  | fault e =>
    have hcall : gettuple us initK d = .fault e := by rw [gettuple, hr, Outcome.map_fault]
    rw [amgettuple, hcall]
    exact .inr ⟨fun _ hdone => (by cases hdone), rfl⟩
  | unfinished =>
    have hcall : gettuple us initK d = .unfinished := by
      rw [gettuple, hr]
      rfl
    rw [amgettuple, hcall]
    exact .inr ⟨fun _ hdone => (by cases hdone), rfl⟩

end Refinement

def eightSearch : Usearch Unit ℕ :=
  orderedSearch ((List.range 8).map fun i => ⟨⟨1, i + 1⟩, 65536 * (i + 1)⟩)

def called (calls : List (Call Unit)) : Option (IndexScanDesc Unit ℕ) :=
  runActions (step eightSearch) (beginScan (.value ()) 0) calls

theorem called_reachable {calls : List (Call Unit)} (h : ∀ c ∈ calls, InitKInRange c)
    {d : IndexScanDesc Unit ℕ} (hd : called calls = some d) : Reachable (scans eightSearch) d :=
  reachable_runActions (.start ⟨_, _, rfl⟩) (fun c hc _ => h c hc) hd

/-- The first batch has two entries and the next one four. The setting is four when the
    scan starts over. -/
def restartInRoom : List (Call Unit) :=
  [.gettuple 2, .gettuple 2, .gettuple 2, .rescan none, .gettuple 4]

theorem restartInRoom_fits :
    ∃ d, called restartInRoom = some d ∧
      d.searches = [⟨2, false, 2, 2, 2⟩, ⟨4, true, 4, 4, 4⟩, ⟨4, false, 4, 4, 4⟩] ∧
      (∀ c ∈ d.searches, c.Fits) ∧ RestartsFit [.start 2 2, .stream 4, .start 4 4] := by
  obtain ⟨d, hd, hsearches⟩ : ∃ d, called restartInRoom = some d ∧
      d.searches = [⟨2, false, 2, 2, 2⟩, ⟨4, true, 4, 4, 4⟩, ⟨4, false, 4, 4, 4⟩] := ⟨_, rfl, rfl⟩
  have hreach : Reachable (scans eightSearch) d :=
    called_reachable (by simp [restartInRoom, InitKInRange]) hd
  have hfits : ∀ c ∈ d.searches, c.Fits := by
    rw [hsearches]
    decide
  have hrestarts := (searches_fit_iff hreach).mp hfits
  rw [hsearches] at hrestarts
  exact ⟨d, hd, hsearches, hfits, hrestarts⟩

theorem rescan_exceeds_arrays :
    ¬ ∀ (Query σ : Type) (us : Usearch Query σ) (d : IndexScanDesc Query σ),
      (∀ s q k streaming, (us.searchEf s q k streaming).1.length ≤ k) → Reachable (scans us) d →
      ∀ c ∈ d.searches, c.Fits := by
  intro h
  obtain ⟨d, hd, hlast⟩ : ∃ d, called [.gettuple 1, .rescan none, .gettuple 2] = some d ∧
      (⟨2, false, 2, 1, 1⟩ : SearchCall) ∈ d.searches := ⟨_, rfl, by decide⟩
  have hbound : ∀ s q k streaming, (eightSearch.searchEf s q k streaming).1.length ≤ k := by
    rintro s q k (_ | _) <;> simp [eightSearch, orderedSearch]
  have hfit := h Unit ℕ eightSearch d hbound (called_reachable (by simp [InitKInRange]) hd) _ hlast
  exact absurd hfit.1 (by decide)

theorem calls_refined :
    (∃ d, called restartInRoom = some d ∧
      (amgettuple eightSearch 4 d).map scanned =
        IndexScan.amgettuple eightSearch 4 d.orderBy (mapIndex Arrays.index d.scanstate)) ∧
    ∃ d, called [.gettuple 1, .rescan none] = some d ∧
      amgettuple eightSearch 2 d = .fault .writePastBuffer := by
  constructor
  · obtain ⟨d, hd, hdone⟩ : ∃ d, called restartInRoom = some d ∧
        ∃ r, amgettuple eightSearch 4 d = .done r := ⟨_, rfl, _, rfl⟩
    obtain ⟨r, hr⟩ := hdone
    rcases reachable_amgettuple (called_reachable (by simp [restartInRoom, InitKInRange]) hd) 4 with
      ⟨hfault, -⟩ | ⟨-, hrefines⟩
    · rw [hr] at hfault
      cases hfault
    · exact ⟨d, hd, hrefines⟩
  · exact ⟨_, rfl, rfl⟩

end Lantern.ScanBuffers
