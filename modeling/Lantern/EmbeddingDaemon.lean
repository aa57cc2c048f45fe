import Lantern.CharText
import Lantern.SystemRuns

set_option autoImplicit false

/-!
# Row notifications of an embedding job

A client update commits and notifies the daemon. The daemon locks the row, collects
locked rows into batches, and for each batch reads the source texts, writes the
embeddings and unlocks. A notification that finds its row locked is dropped.
-/
namespace Lantern.EmbeddingDaemon
open CharText SystemRuns

def isWhiteSpace (c : Char) : Bool :=
  let n := c.toNat
  (0x09 ≤ n && n ≤ 0x0D) || n = 0x20 || n = 0x85 || n = 0xA0 || n = 0x1680 ||
    (0x2000 ≤ n && n ≤ 0x200A) || n = 0x2028 || n = 0x2029 || n = 0x202F || n = 0x205F || n = 0x3000

def blank (text : Text) : Bool := text.all isWhiteSpace

def getCommonEmbeddingIgnoreFilters (src : Option Text) : Option Text :=
  src.filter fun text => text ≠ [] ∧ text ≠ "Error: Summary failed (llm)".toList

/-- The batch that the embedding worker is busy with: what its query returned,
    once it has run, and the texts whose embeddings are not written yet. -/
structure Batch (Row : Type) where
  rowIds : List Row
  rows : Option (List (Row × Text))
  pending : List (Row × Text)

structure Daemon (Row Emb : Type) where
  src : Row → Option Text
  dst : Row → Option Emb
  notifications : List Row
  lockTasks : List Row
  locks : Row → Bool
  pushTasks : List Row
  batching : List Row
  collecting : List Row
  queue : List (List Row)
  worker : Option (Batch Row)
  retries : List (List Row)
  errored : Bool
  canceled : Bool

inductive Action (Row : Type) where
  | clientUpdate (r : Row) (text : Option Text)
  | deliver
  | lockRow (r : Row)
  | lockError (r : Row)
  | pushRow (r : Row)
  | drain
  | sendBatch
  | dropBatch
  | receive (i : ℕ)
  | read
  | write
  | unlockRows
  | unlockError
  | processingError
  | retry
  | cancel

section Machine
variable {Row Emb : Type} [DecidableEq Row]

def selectRows (src : Row → Option Text) (rowIds : List Row) : List (Row × Text) :=
  rowIds.filterMap fun r => (getCommonEmbeddingIgnoreFilters (src r)).map fun text => (r, text)

def splitBatch (maxBatchSize : ℕ) (ids : List Row) : List Row × List Row :=
  if maxBatchSize < ids.length then ids.splitAt (maxBatchSize - 1) else (ids, [])

def unlock (locks : Row → Bool) (rowIds : List Row) : Row → Bool := fun r => locks r && r ∉ rowIds

def step (embed : Text → Option Emb) (maxBatchSize : ℕ) (s : Daemon Row Emb) :
    Action Row → Option (Daemon Row Emb)
  | .clientUpdate r text => some { s with
      src := Function.update s.src r text
      notifications :=
        if (getCommonEmbeddingIgnoreFilters text).isSome then s.notifications ++ [r]
        else s.notifications }
  | .deliver =>
    match s.notifications with
    | [] => none
    | r :: rest => some { s with notifications := rest, lockTasks := r :: s.lockTasks }
  | .lockRow r =>
    if r ∈ s.lockTasks then
      if s.locks r then some { s with lockTasks := s.lockTasks.erase r }
      else some { s with
        lockTasks := s.lockTasks.erase r
        locks := Function.update s.locks r true
        pushTasks := r :: s.pushTasks }
    else none
  | .lockError r =>
    if r ∈ s.lockTasks then some { s with lockTasks := s.lockTasks.erase r, errored := true }
      else none
  | .pushRow r =>
    if r ∈ s.pushTasks then
      some { s with pushTasks := s.pushTasks.erase r, batching := s.batching ++ [r] }
    else none
  | .drain =>
    if s.collecting = [] then some { s with collecting := s.batching, batching := [] } else none
  | .sendBatch =>
    let (ids, extraIds) := splitBatch maxBatchSize s.collecting
    if s.collecting = [] then none
    else some { s with
      collecting := [], batching := s.batching ++ extraIds, queue := s.queue ++ [ids] }
  | .dropBatch => some { s with collecting := [], errored := true }
  | .receive i =>
    match s.worker, s.queue[i]? with
    | none, some ids => some { s with queue := s.queue.eraseIdx i, worker := some ⟨ids, none, []⟩ }
    | _, _ => none
  | .read =>
    match s.worker with
    | some ⟨ids, none, _⟩ =>
      let rows := selectRows s.src ids
      some { s with worker := some ⟨ids, some rows, rows.filter fun p => !blank p.2⟩ }
    | _ => none
  | .write =>
    match s.worker with
    | some ⟨ids, some rows, (r, text) :: pending⟩ =>
      some { s with
        dst := Function.update s.dst r (embed text), worker := some ⟨ids, some rows, pending⟩ }
    | _ => none
  | .unlockRows =>
    match s.worker with
    | some ⟨ids, some _, []⟩ => some { s with locks := unlock s.locks ids, worker := none }
    | _ => none
  | .unlockError =>
    match s.worker with
    | some ⟨_, some _, []⟩ => some { s with worker := none, errored := true }
    | _ => none
  | .processingError =>
    match s.worker with
    | some ⟨ids, _, _⟩ => some { s with
        locks := unlock s.locks ids, worker := none, retries := s.retries ++ [ids],
        errored := true }
    | none => none
  | .retry =>
    match s.retries with
    | [] => none
    | ids :: rest => some { s with retries := rest, queue := s.queue ++ [ids] }
  | .cancel => some { s with canceled := true }

/-- Every row that passes the filter has the embedding of its text. -/
def UpToDate (embed : Text → Option Emb) (s : Daemon Row Emb) : Prop :=
  ∀ r text, getCommonEmbeddingIgnoreFilters (s.src r) = some text → s.dst r = embed text

structure Started (embed : Text → Option Emb) (s : Daemon Row Emb) : Prop where
  idle : s.notifications = [] ∧ s.lockTasks = [] ∧ s.pushTasks = [] ∧ s.batching = [] ∧
    s.collecting = [] ∧ s.queue = [] ∧ s.worker = none ∧ s.retries = []
  unlocked : ∀ r, s.locks r = false
  up_to_date : UpToDate embed s
  not_blank : ∀ r text, getCommonEmbeddingIgnoreFilters (s.src r) = some text → blank text = false

structure Quiescent (s : Daemon Row Emb) : Prop where
  notifications : s.notifications = []
  lockTasks : s.lockTasks = []
  pushTasks : s.pushTasks = []
  batching : s.batching = []
  collecting : s.collecting = []
  queue : s.queue = []
  worker : s.worker = none
  retries : s.retries = []
  not_canceled : s.canceled = false
  no_error : s.errored = false

/-- When a notification finds its row locked, the batch that holds the lock has
    not run its query, or the query saw the current text, or another
    notification of the row is still to come. -/
def NotLost (s : Daemon Row Emb) (r : Row) : Prop :=
  ∀ b rows, s.worker = some b → b.rows = some rows → r ∈ b.rowIds →
    ∀ text, getCommonEmbeddingIgnoreFilters (s.src r) = some text →
      (r, text) ∈ rows ∨ r ∈ s.notifications ∨ r ∈ s.lockTasks.erase r

def KeepsUpdates (s : Daemon Row Emb) : Action Row → Prop
  | .clientUpdate _ text => ∀ t, getCommonEmbeddingIgnoreFilters text = some t → blank t = false
  | .lockRow r => s.locks r = true → NotLost s r
  | _ => True

def daemon (embed : Text → Option Emb) (maxBatchSize : ℕ) : System (Daemon Row Emb) :=
  actionSystem (Started embed) (step embed maxBatchSize) fun _ _ => True

def carefulDaemon (embed : Text → Option Emb) (maxBatchSize : ℕ) : System (Daemon Row Emb) :=
  actionSystem (Started embed) (step embed maxBatchSize) KeepsUpdates

end Machine

section Invariant
variable {Row Emb : Type}

def workerIds : Option (Batch Row) → List Row
  | none => []
  | some b => b.rowIds

def Daemon.waiting (s : Daemon Row Emb) : List Row :=
  s.pushTasks ++ s.batching ++ s.collecting ++ s.queue.flatten

def Daemon.holders (s : Daemon Row Emb) : List Row := s.waiting ++ workerIds s.worker

def WorkerCovers (embed : Text → Option Emb) (dst : Row → Option Emb) (r : Row) (text : Text) :
    Option (Batch Row) → Prop
  | some ⟨ids, none, _⟩ => r ∈ ids ∨ dst r = embed text
  | some ⟨_, some rows, _⟩ => (r, text) ∈ rows ∨ (∀ t, (r, t) ∉ rows) ∧ dst r = embed text
  | none => dst r = embed text

def Covered (embed : Text → Option Emb) (s : Daemon Row Emb) (r : Row) (text : Text) : Prop :=
  r ∈ s.notifications ∨ r ∈ s.lockTasks ∨ r ∈ s.waiting ∨ WorkerCovers embed s.dst r text s.worker

structure BatchRead (embed : Text → Option Emb) (dst : Row → Option Emb) (ids : List Row)
    (rows pending : List (Row × Text)) : Prop where
  selected : ∀ r text, (r, text) ∈ rows → r ∈ ids
  unique : (rows.map Prod.fst).Nodup
  written : ∀ r text, (r, text) ∈ rows → (r, text) ∈ pending ∨ dst r = embed text
  pending_rows : ∀ p ∈ pending, p ∈ rows

structure Inv (embed : Text → Option Emb) (s : Daemon Row Emb) : Prop where
  nodup : s.holders.Nodup
  locked : ∀ r, s.locks r = true ↔ r ∈ s.holders
  batch : ∀ b rows, s.worker = some b → b.rows = some rows →
    BatchRead embed s.dst b.rowIds rows b.pending
  covered : ∀ r text, getCommonEmbeddingIgnoreFilters (s.src r) = some text → Covered embed s r text
  not_blank : ∀ r text, getCommonEmbeddingIgnoreFilters (s.src r) = some text → blank text = false
  no_retries : s.retries = []

variable {embed : Text → Option Emb} {s : Daemon Row Emb}

theorem inv_started (h : Started embed s) : Inv embed s := by
  obtain ⟨h1, h2, h3, h4, h5, h6, h7, h8⟩ := h.idle
  have hholders : s.holders = [] := by
    simp [Daemon.holders, Daemon.waiting, workerIds, h3, h4, h5, h6, h7]
  refine ⟨?_, fun r => ?_, fun b rows hb => ?_, fun r text ht => ?_, h.not_blank, h8⟩
  · rw [hholders]
    exact List.nodup_nil
  · rw [hholders, h.unlocked r]
    simp
  · rw [h7] at hb
    cases hb
  · refine .inr (.inr (.inr ?_))
    rw [h7]
    exact h.up_to_date r text ht

theorem Inv.quiescent (h : Inv embed s) (hq : Quiescent s) : UpToDate embed s := by
  intro r text ht
  have hwaiting : s.waiting = [] := by
    simp [Daemon.waiting, hq.pushTasks, hq.batching, hq.collecting, hq.queue]
  rcases h.covered r text ht with hn | hl | hw | hc
  · rw [hq.notifications] at hn
    exact absurd hn List.not_mem_nil
  · rw [hq.lockTasks] at hl
    exact absurd hl List.not_mem_nil
  · rw [hwaiting] at hw
    exact absurd hw List.not_mem_nil
  · rw [hq.worker] at hc
    exact hc

theorem Inv.moves {t : Daemon Row Emb} (h : Inv embed s) (hperm : s.waiting.Perm t.waiting)
    (hsrc : t.src = s.src) (hdst : t.dst = s.dst) (hnot : t.notifications = s.notifications)
    (htasks : t.lockTasks = s.lockTasks) (hlocks : t.locks = s.locks)
    (hworker : t.worker = s.worker) (hretries : t.retries = s.retries) : Inv embed t := by
  have hholders : s.holders.Perm t.holders := by
    rw [Daemon.holders, Daemon.holders, hworker]
    exact hperm.append_right _
  refine ⟨hholders.nodup_iff.mp h.nodup, fun r => ?_, ?_, fun r text ht => ?_, ?_,
    hretries.trans h.no_retries⟩
  · rw [hlocks, h.locked r, hholders.mem_iff]
  · rw [hworker, hdst]
    exact h.batch
  · rw [hsrc] at ht
    unfold Covered
    rw [hnot, htasks, hdst, hworker, ← hperm.mem_iff]
    exact h.covered r text ht
  · rw [hsrc]
    exact h.not_blank

theorem Inv.deliver (h : Inv embed s) {r : Row} {rest : List Row}
    (hn : s.notifications = r :: rest) :
    Inv embed { s with notifications := rest, lockTasks := r :: s.lockTasks } where
  nodup := h.nodup
  locked := h.locked
  batch := h.batch
  covered := by
    intro r' t ht
    rcases h.covered r' t ht with hin | hl | hrest
    · rw [hn] at hin
      rcases List.mem_cons.mp hin with rfl | hin
      · exact .inr (.inl List.mem_cons_self)
      · exact .inl hin
    · exact .inr (.inl (List.mem_cons_of_mem _ hl))
    · exact .inr (.inr hrest)
  not_blank := h.not_blank
  no_retries := h.no_retries

theorem splitBatch_append (maxBatchSize : ℕ) (ids : List Row) :
    (splitBatch maxBatchSize ids).1 ++ (splitBatch maxBatchSize ids).2 = ids := by
  unfold splitBatch
  split
  · rw [List.splitAt_eq]
    exact List.take_append_drop _ _
  · exact List.append_nil _

theorem waiting_sendBatch (s : Daemon Row Emb) (ids extraIds : List Row)
    (h : ids ++ extraIds = s.collecting) :
    s.waiting.Perm (Daemon.waiting { s with
      collecting := [], batching := s.batching ++ extraIds, queue := s.queue ++ [ids] }) := by
  simp only [Daemon.waiting, ← h, List.flatten_append, List.flatten_cons, List.flatten_nil,
    List.append_nil, List.append_assoc]
  refine List.Perm.append_left _ (List.Perm.append_left _ ?_)
  rw [← List.append_assoc, ← List.append_assoc]
  exact (List.perm_append_comm.append_right _).trans (by
    rw [List.append_assoc, List.append_assoc]
    exact List.Perm.append_left _ List.perm_append_comm)

theorem Inv.receive (h : Inv embed s) {i : ℕ} {ids : List Row} (hw : s.worker = none)
    (hi : s.queue[i]? = some ids) :
    Inv embed { s with queue := s.queue.eraseIdx i, worker := some ⟨ids, none, []⟩ } := by
  obtain ⟨hlt, hget⟩ := List.getElem?_eq_some_iff.mp hi
  have hqueue : s.queue.flatten.Perm ((s.queue.eraseIdx i).flatten ++ ids) := by
    have hsplit : s.queue = s.queue.take i ++ ids :: s.queue.drop (i + 1) := by
      rw [← hget, List.getElem_cons_drop, List.take_append_drop]
    rw [List.eraseIdx_eq_take_drop_succ]
    nth_rewrite 1 [hsplit]
    simp only [List.flatten_append, List.flatten_cons, List.append_assoc]
    exact List.Perm.append_left _ List.perm_append_comm
  have hholders : s.holders.Perm (Daemon.holders { s with
      queue := s.queue.eraseIdx i, worker := some ⟨ids, none, []⟩ }) := by
    simp only [Daemon.holders, Daemon.waiting, hw, workerIds, List.append_nil]
    rw [List.append_assoc _ (s.queue.eraseIdx i).flatten]
    exact List.Perm.append_left _ hqueue
  refine ⟨hholders.nodup_iff.mp h.nodup, fun r => ?_, ?_, fun r t ht =>
    ?_, h.not_blank, h.no_retries⟩
  · rw [← hholders.mem_iff]
    exact h.locked r
  · intro b rows hb hrows
    cases hb
    cases hrows
  · rcases h.covered r t ht with hn | hl | hwait | hc
    · exact .inl hn
    · exact .inr (.inl hl)
    · have hin := hholders.mem_iff.mp (List.mem_append_left _ hwait)
      rcases List.mem_append.mp hin with hin | hin
      · exact .inr (.inr (.inl hin))
      · exact .inr (.inr (.inr (.inl hin)))
    · rw [hw] at hc
      exact .inr (.inr (.inr (.inr hc)))

theorem mem_selectRows {src : Row → Option Text} {ids : List Row} {r : Row} {text : Text} :
    (r, text) ∈ selectRows src ids ↔ r ∈ ids ∧
      getCommonEmbeddingIgnoreFilters (src r) = some text := by
  simp only [selectRows, List.mem_filterMap, Option.map_eq_some_iff, Prod.mk.injEq]
  constructor
  · rintro ⟨r', hr', t, ht, rfl, rfl⟩
    exact ⟨hr', ht⟩
  · rintro ⟨hr, ht⟩
    exact ⟨r, hr, text, ht, rfl, rfl⟩

theorem selectRows_unique {src : Row → Option Text} {ids : List Row} (h : ids.Nodup) :
    ((selectRows src ids).map Prod.fst).Nodup := by
  have hsub : ((selectRows src ids).map Prod.fst).Sublist ids := by
    induction ids with
    | nil => exact List.Sublist.refl _
    | cons r ids ih =>
      have hih := ih (List.nodup_cons.mp h).2
      simp only [selectRows, List.filterMap_cons]
      cases getCommonEmbeddingIgnoreFilters (src r) with
      | none => exact hih.cons r
      | some text => exact hih.cons_cons r
  exact h.sublist hsub

end Invariant

section Steps
variable {Row Emb : Type} [DecidableEq Row] {embed : Text → Option Emb} {s : Daemon Row Emb}

theorem filter_update {src : Row → Option Text} {r r' : Row} {text : Option Text} {t : Text}
    (h : getCommonEmbeddingIgnoreFilters (Function.update src r text r') = some t) :
    r' = r ∧ getCommonEmbeddingIgnoreFilters text = some t ∨
      getCommonEmbeddingIgnoreFilters (src r') = some t := by
  by_cases hr : r' = r
  · subst hr
    rw [Function.update_self] at h
    exact .inl ⟨rfl, h⟩
  · rw [Function.update_of_ne hr] at h
    exact .inr h

theorem Inv.clientUpdate (h : Inv embed s) {r : Row} {text : Option Text}
    (hb : ∀ t, getCommonEmbeddingIgnoreFilters text = some t → blank t = false) :
    Inv embed { s with
      src := Function.update s.src r text
      notifications :=
        if (getCommonEmbeddingIgnoreFilters text).isSome then s.notifications ++ [r]
        else s.notifications } where
  nodup := h.nodup
  locked := h.locked
  batch := h.batch
  covered := by
    intro r' t ht
    rcases filter_update ht with ⟨rfl, htext⟩ | hold
    · refine .inl ?_
      simp [htext]
    · rcases h.covered r' t hold with hn | hrest
      · refine .inl ?_
        simp only
        split
        · exact List.mem_append_left _ hn
        · exact hn
      · exact .inr hrest
  not_blank := by
    intro r' t ht
    rcases filter_update ht with ⟨rfl, htext⟩ | hold
    · exact hb t htext
    · exact h.not_blank r' t hold
  no_retries := h.no_retries

theorem Inv.lockRow (h : Inv embed s) {r : Row} (hr : s.locks r = false) :
    Inv embed { s with
      lockTasks := s.lockTasks.erase r
      locks := Function.update s.locks r true
      pushTasks := r :: s.pushTasks } where
  nodup := by
    change (r :: s.holders).Nodup
    refine List.nodup_cons.mpr ⟨fun hin => ?_, h.nodup⟩
    rw [← h.locked r, hr] at hin
    cases hin
  locked := by
    intro r'
    change Function.update s.locks r true r' = true ↔ r' ∈ r :: s.holders
    by_cases hr' : r' = r
    · subst hr'
      simp
    · rw [Function.update_of_ne hr', h.locked r', List.mem_cons]
      simp [hr']
  batch := h.batch
  covered := by
    intro r' t ht
    rcases h.covered r' t ht with hn | hl | hw | hc
    · exact .inl hn
    · by_cases hr' : r' = r
      · subst hr'
        exact .inr (.inr (.inl List.mem_cons_self))
      · exact .inr (.inl ((List.mem_erase_of_ne hr').mpr hl))
    · exact .inr (.inr (.inl (List.mem_cons_of_mem _ hw)))
    · exact .inr (.inr (.inr hc))
  not_blank := h.not_blank
  no_retries := h.no_retries

theorem Inv.lockDuplicate (h : Inv embed s) {r : Row} (hr : s.locks r = true) (hnot : NotLost s r) :
    Inv embed { s with lockTasks := s.lockTasks.erase r } where
  nodup := h.nodup
  locked := h.locked
  batch := h.batch
  covered := by
    intro r' t ht
    rcases h.covered r' t ht with hn | hl | hrest
    · exact .inl hn
    · by_cases hr' : r' = r
      · subst hr'
        rcases List.mem_append.mp ((h.locked r').mp hr) with hw | hids
        · exact .inr (.inr (.inl hw))
        · cases hworker : s.worker with
          | none =>
            rw [hworker] at hids
            exact absurd hids List.not_mem_nil
          | some b =>
            obtain ⟨ids, rows, pending⟩ := b
            rw [hworker] at hids
            cases rows with
            | none =>
              exact .inr (.inr (.inr (.inl hids)))
            | some rows =>
              rcases hnot _ rows hworker rfl hids t ht with hread | hn | hl'
              · exact .inr (.inr (.inr (.inl hread)))
              · exact .inl hn
              · exact .inr (.inl hl')
      · exact .inr (.inl ((List.mem_erase_of_ne hr').mpr hl))
    · exact .inr (.inr hrest)
  not_blank := h.not_blank
  no_retries := h.no_retries

theorem Inv.read (h : Inv embed s) {ids : List Row} {pending : List (Row × Text)}
    (hw : s.worker = some ⟨ids, none, pending⟩) :
    Inv embed { s with worker := some ⟨ids, some (selectRows s.src ids),
      (selectRows s.src ids).filter fun p => !blank p.2⟩ } := by
  have hholders :
      s.holders = Daemon.holders { s with
      worker := some ⟨ids, some (selectRows s.src ids),
      (selectRows s.src ids).filter fun p => !blank p.2⟩ } := by
    simp only [Daemon.holders, hw]
    rfl
  have hids : ids.Nodup := by
    have := (List.nodup_append.mp h.nodup).2.1
    rw [hw] at this
    exact this
  refine ⟨hholders ▸ h.nodup, fun r => hholders ▸ h.locked r, ?_, fun r t ht => ?_, h.not_blank,
    h.no_retries⟩
  · intro b rows hb hrows
    cases hb
    cases hrows
    refine ⟨fun r t hrt => (mem_selectRows.mp hrt).1, selectRows_unique hids,
      fun r t hrt => .inl ?_, fun p hp => List.mem_of_mem_filter hp⟩
    have hnb := h.not_blank r t (mem_selectRows.mp hrt).2
    exact List.mem_filter.mpr ⟨hrt, by simp [hnb]⟩
  · rcases h.covered r t ht with hn | hl | hwait | hc
    · exact .inl hn
    · exact .inr (.inl hl)
    · exact .inr (.inr (.inl hwait))
    · refine .inr (.inr (.inr ?_))
      by_cases hr : r ∈ ids
      · exact .inl (mem_selectRows.mpr ⟨hr, ht⟩)
      · rw [hw] at hc
        rcases hc with hin | hdst
        · exact absurd hin hr
        · exact .inr ⟨fun t' ht' => hr (mem_selectRows.mp ht').1, hdst⟩

theorem Inv.write (h : Inv embed s) {ids : List Row} {rows pending : List (Row × Text)} {r : Row}
    {text : Text} (hw : s.worker = some ⟨ids, some rows, (r, text) :: pending⟩) :
    Inv embed { s with
      dst := Function.update s.dst r (embed text), worker := some ⟨ids, some rows, pending⟩ } := by
  have hb := h.batch _ rows hw rfl
  have hmem : (r, text) ∈ rows := hb.pending_rows _ List.mem_cons_self
  have hholders : s.holders = Daemon.holders { s with
      dst := Function.update s.dst r (embed text), worker := some ⟨ids, some rows, pending⟩ } := by
    simp only [Daemon.holders, hw]
    rfl
  refine ⟨hholders ▸ h.nodup, fun r => hholders ▸ h.locked r, ?_, fun r' t ht => ?_, h.not_blank,
    h.no_retries⟩
  · intro b rows' hb' hrows
    cases hb'
    cases hrows
    refine ⟨hb.selected, hb.unique, fun r' t hrt => ?_, fun p hp => hb.pending_rows p
      (List.mem_cons_of_mem _ hp)⟩
    by_cases hr : r' = r
    · subst hr
      obtain rfl : t = text := by
        have := List.inj_on_of_nodup_map hb.unique hrt hmem rfl
        exact congrArg Prod.snd this
      exact .inr (by simp)
    · rcases hb.written r' t hrt with hp | hd
      · rcases List.mem_cons.mp hp with heq | hp
        · exact absurd (congrArg Prod.fst heq) hr
        · exact .inl hp
      · exact .inr (by simpa [hr] using hd)
  · rcases h.covered r' t ht with hn | hl | hwait | hc
    · exact .inl hn
    · exact .inr (.inl hl)
    · exact .inr (.inr (.inl hwait))
    · refine .inr (.inr (.inr ?_))
      rw [hw] at hc
      rcases hc with hin | ⟨hnone, hdst⟩
      · exact .inl hin
      · have hr : r' ≠ r := by
          rintro rfl
          exact hnone text hmem
        exact .inr ⟨hnone, by simpa [hr] using hdst⟩

theorem Inv.unlockRows (h : Inv embed s) {ids : List Row} {rows : List (Row × Text)}
    (hw : s.worker = some ⟨ids, some rows, []⟩) :
    Inv embed { s with locks := unlock s.locks ids, worker := none } := by
  have hb := h.batch _ rows hw rfl
  have hholders : s.holders = s.waiting ++ ids := by
    simp only [Daemon.holders, hw]
    rfl
  have hnodup := h.nodup
  rw [hholders] at hnodup
  obtain ⟨hwait, -, hdisj⟩ := List.nodup_append.mp hnodup
  refine ⟨?_, fun r => ?_, fun b rows hb => (by cases hb), fun r t ht => ?_, h.not_blank,
    h.no_retries⟩
  · change (s.waiting ++ []).Nodup
    rw [List.append_nil]
    exact hwait
  · change unlock s.locks ids r = true ↔ r ∈ s.waiting ++ []
    have hl := h.locked r
    rw [hholders, List.mem_append] at hl
    simp only [unlock, Bool.and_eq_true, decide_eq_true_eq, List.append_nil, hl]
    constructor
    · rintro ⟨hin | hin, hnot⟩
      · exact hin
      · exact absurd hin hnot
    · intro hin
      exact ⟨.inl hin, fun hids => hdisj r hin r hids rfl⟩
  · rcases h.covered r t ht with hn | hl | hwait | hc
    · exact .inl hn
    · exact .inr (.inl hl)
    · exact .inr (.inr (.inl hwait))
    · refine .inr (.inr (.inr ?_))
      rw [hw] at hc
      rcases hc with hin | ⟨-, hdst⟩
      · rcases hb.written r t hin with hp | hd
        · exact absurd hp List.not_mem_nil
        · exact hd
      · exact hdst

/-- Errors and a cancellation are not forgotten; before them the invariant
    holds. -/
def Good (embed : Text → Option Emb) (s : Daemon Row Emb) : Prop :=
  s.errored = false → s.canceled = false → Inv embed s

theorem step_good {maxBatchSize : ℕ} {t : Daemon Row Emb} {a : Action Row} (hg : Good embed s)
    (ha : KeepsUpdates s a) (ht : step embed maxBatchSize s a = some t) : Good embed t := by
  intro he hc
  cases a with
  | clientUpdate r text =>
    cases ht
    exact (hg he hc).clientUpdate ha
  | deliver =>
    simp only [step] at ht
    split at ht
    · cases ht
    · rename_i r rest hn
      cases ht
      exact (hg he hc).deliver hn
  | lockRow r =>
    simp only [step] at ht
    split at ht
    · split at ht
      · rename_i hl
        cases ht
        exact (hg he hc).lockDuplicate hl (ha hl)
      · rename_i hl
        cases ht
        exact (hg he hc).lockRow (by simpa using hl)
    · cases ht
  | pushRow r =>
    simp only [step] at ht
    split at ht
    · rename_i hr
      cases ht
      refine (hg he hc).moves ?_ rfl rfl rfl rfl rfl rfl rfl
      refine List.Perm.append_right _ (List.Perm.append_right _ ?_)
      refine ((List.perm_cons_erase hr).append_right s.batching).trans ?_
      rw [List.cons_append, ← List.append_assoc]
      exact (List.perm_append_singleton r _).symm
    · cases ht
  | drain =>
    simp only [step] at ht
    split at ht
    · rename_i hnil
      cases ht
      refine (hg he hc).moves ?_ rfl rfl rfl rfl rfl rfl rfl
      simp [Daemon.waiting, hnil]
    · cases ht
  | sendBatch =>
    simp only [step] at ht
    split at ht
    · cases ht
    · cases ht
      exact (hg he hc).moves (waiting_sendBatch s _ _ (splitBatch_append maxBatchSize s.collecting))
        rfl rfl rfl rfl rfl rfl rfl
  | receive i =>
    simp only [step] at ht
    split at ht
    · rename_i ids hw hi
      cases ht
      exact (hg he hc).receive hw hi
    · cases ht
  | read =>
    simp only [step] at ht
    split at ht
    · rename_i ids pending hw
      cases ht
      exact (hg he hc).read hw
    · cases ht
  | write =>
    simp only [step] at ht
    split at ht
    · rename_i ids rows r text pending hw
      cases ht
      exact (hg he hc).write hw
    · cases ht
  | unlockRows =>
    simp only [step] at ht
    split at ht
    · rename_i ids rows hw
      cases ht
      exact (hg he hc).unlockRows hw
    · cases ht
  | retry =>
    simp only [step] at ht
    split at ht
    · cases ht
    · rename_i ids rest hr
      cases ht
      rw [(hg he hc).no_retries] at hr
      cases hr
  | lockError r =>
    simp only [step] at ht
    split at ht
    · cases ht
      cases he
    · cases ht
  | dropBatch =>
    cases ht
    cases he
  | unlockError =>
    simp only [step] at ht
    split at ht
    · cases ht
      cases he
    · cases ht
  | processingError =>
    simp only [step] at ht
    split at ht
    · cases ht
      cases he
    · cases ht
  | cancel =>
    cases ht
    cases hc

/-- In every run in which no dropped notification announces a text that the
    lock holder has not seen, and no client writes a text of white space only,
    quiescent states are up to date. -/
theorem carefulDaemon_quiescent_upToDate {maxBatchSize : ℕ}
    (h : Reachable (carefulDaemon embed maxBatchSize) s) (hq : Quiescent s) : UpToDate embed s := by
  have hg : Good embed s := by
    refine h.invariant (Good embed) (fun _ hs _ _ => inv_started hs) ?_
    rintro s t hs ⟨a, ha, ht⟩
    exact step_good hs ha ht
  exact (hg hq.no_error hq.not_canceled).quiescent hq

end Steps

def emptyTable : Daemon ℕ Text :=
  ⟨fun _ => none, fun _ => none, [], [], fun _ => false, [], [], [], [], none, [], false, false⟩

theorem emptyTable_started : Started some emptyTable where
  idle := ⟨rfl, rfl, rfl, rfl, rfl, rfl, rfl, rfl⟩
  unlocked := fun _ => rfl
  up_to_date := fun _ _ h => by cases h
  not_blank := fun _ _ h => by cases h

def updateUntilRead (text : Text) : List (Action ℕ) :=
  [.clientUpdate 1 (some text), .deliver, .lockRow 1, .pushRow 1, .drain, .sendBatch,
    .receive 0, .read]

/-- The second update is committed after the batch has read the first; its
    notification is dropped and the old embedding stays. -/
theorem update_after_read_is_lost :
    ¬ ∀ (Row Emb : Type) (_ : DecidableEq Row) (embed : Text → Option Emb) (maxBatchSize : ℕ)
      (s : Daemon Row Emb), Reachable (daemon embed maxBatchSize) s → Quiescent s →
        UpToDate embed s := by
  intro h
  obtain ⟨s, hrun, hq, hsrc, hdst⟩ : ∃ s, runActions (step some 2) emptyTable
      (updateUntilRead ['a'] ++ [.clientUpdate 1 (some ['b']), .deliver, .lockRow 1, .write,
        .unlockRows]) =
        some s ∧ Quiescent s ∧ s.src 1 = some ['b'] ∧ s.dst 1 = some ['a'] :=
    ⟨_, rfl, ⟨rfl, rfl, rfl, rfl, rfl, rfl, rfl, rfl, rfl, rfl⟩, rfl, rfl⟩
  have hstart : Reachable (daemon some 2) emptyTable := .start emptyTable_started
  have hreach := reachable_runActions hstart (fun _ _ _ => trivial) hrun
  have hup := h ℕ Text _ some 2 s hreach hq 1 ['b'] (by rw [hsrc]; decide)
  rw [hdst] at hup
  revert hup
  decide

/-- Two rows in one batch. The second update of row 1 finds the row locked by a batch
    that has not been read. -/
theorem three_updates_upToDate :
    ∃ s, Reachable (carefulDaemon (some : Text → Option Text) 2) s ∧ Quiescent s ∧
      s.src (1 : ℕ) = some ['c'] ∧ s.src 2 = some ['b'] ∧ UpToDate some s := by
  have h0 : Reachable (carefulDaemon some 2) emptyTable := .start emptyTable_started
  have h1 := h0.next ⟨.clientUpdate 1 (some ['a']), (by intro t ht; cases ht; decide), rfl⟩
  have h2 := h1.next ⟨.clientUpdate 2 (some ['b']), (by intro t ht; cases ht; decide), rfl⟩
  have h3 := (h2.next ⟨.deliver, trivial, rfl⟩).next ⟨.deliver, trivial, rfl⟩
  have h4 := h3.next ⟨.lockRow 1, (by intro hl; cases hl), rfl⟩
  have h5 := h4.next ⟨.lockRow 2, (by intro hl; cases hl), rfl⟩
  have h6 := h5.next ⟨.clientUpdate 1 (some ['c']), (by intro t ht; cases ht; decide), rfl⟩
  have h7 := h6.next ⟨.deliver, trivial, rfl⟩
  have h8 := h7.next ⟨.lockRow 1, (by intro _ b rows hb; cases hb), rfl⟩
  have h9 := (h8.next ⟨.pushRow 1, trivial, rfl⟩).next ⟨.pushRow 2, trivial, rfl⟩
  have h10 := (h9.next ⟨.drain, trivial, rfl⟩).next ⟨.sendBatch, trivial, rfl⟩
  have h11 := (h10.next ⟨.receive 0, trivial, rfl⟩).next ⟨.read, trivial, rfl⟩
  have h12 := (h11.next ⟨.write, trivial, rfl⟩).next ⟨.write, trivial, rfl⟩
  have h13 := h12.next ⟨.unlockRows, trivial, rfl⟩
  obtain ⟨s, hs, hq, hsrc⟩ : ∃ s, Reachable (carefulDaemon (some : Text → Option Text) 2) s ∧
      Quiescent s ∧ s.src (1 : ℕ) = some ['c'] ∧ s.src 2 = some ['b'] :=
    ⟨_, h13, ⟨rfl, rfl, rfl, rfl, rfl, rfl, rfl, rfl, rfl, rfl⟩, rfl, rfl⟩
  exact ⟨s, hs, hq, hsrc.1, hsrc.2, carefulDaemon_quiescent_upToDate hs hq⟩

end Lantern.EmbeddingDaemon
