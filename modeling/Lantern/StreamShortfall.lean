import Lantern.StoreRewrite
import Lantern.StoreVisits

set_option autoImplicit false

/-!
# The streaming branch on a stream that is not the announced file

The loop decides from running totals how much of its buffer to store: behind the end of
the stream it reads what the buffer held before, zeros or bytes of an earlier pass.
`Orderly` follows the passes over the bytes alone, and is what it takes for the branch
to store received bytes only and to end, without touching memory that is not its own,
with the announced nodes or an error.
-/
namespace Lantern.StreamShortfall
open FuelLoop ByteStrings NodeLayout PageLayout IndexRelation PageChain StoreNodes StoreIndex
open StoreStreaming StoreRewrite StoreVisits SystemRuns

section Bytes
variable (bufferSize numAddedVectors indexFileSize : ℕ) (stream : List UInt8)

/-- How many received bytes are in the buffer in the pass that starts with byte
    `offset` of the stream. -/
def validBytes (offset : ℕ) : ℕ := min bufferSize (stream.length - offset)

/-- Up to where that pass takes nodes from the buffer. -/
def passLimit (offset : ℕ) : ℕ :=
  if USEARCH_HEADER_SIZE + offset + validBytes bufferSize stream offset = indexFileSize then
    validBytes bufferSize stream offset
  else bufferSize - BLCKSZ

/-- The buffer in the pass after one that took `taken` bytes from `window`: the rest
    is moved to the front, and the refill goes behind it. -/
def nextWindow (window : List UInt8) (offset taken : ℕ) : List UInt8 :=
  patch (bufferSize - taken)
    ((stream.drop (offset + validBytes bufferSize stream offset)).take taken)
    (window.drop taken ++ window.drop (bufferSize - taken))

/-- The passes from a buffer `window` on that starts with byte `offset` of the stream,
    with `count` nodes stored. The nodes taken in a pass are received. The last pass
    comes to a node that raises an error, or to the announced count, where the stream
    is not shorter than the file and the file not shorter than the nodes. -/
inductive Orderly (md : Metadata) (dim : ℕ) : List UInt8 → ℕ → ℕ → Prop where
  | raised {window : List UInt8} {offset count : ℕ} (nodes : List (List UInt8)) (rest : List UInt8)
      (split : window = nodes.flatten ++ rest) (accepted : ∀ node ∈ nodes, Accepted md dim node)
      (received : nodes.flatten.length ≤ validBytes bufferSize stream offset)
      (counted : count + nodes.length ≤ numAddedVectors)
      (before : nodes.flatten.length < passLimit bufferSize indexFileSize stream offset)
      (raises : Raises md dim rest) : Orderly md dim window offset count
  | finished {window : List UInt8} {offset count : ℕ} (nodes : List (List UInt8))
    (rest : List UInt8)
      (split : window = nodes.flatten ++ rest) (accepted : ∀ node ∈ nodes, Accepted md dim node)
      (received : nodes.flatten.length ≤ validBytes bufferSize stream offset)
      (counted : count + nodes.length = numAddedVectors)
      (reaches : Reaches (passLimit bufferSize indexFileSize stream offset) 0 nodes)
      (announced : USEARCH_HEADER_SIZE + offset + nodes.flatten.length ≤ indexFileSize)
      (complete : indexFileSize ≤ USEARCH_HEADER_SIZE + stream.length) :
      Orderly md dim window offset count
  | continued {window : List UInt8} {offset count : ℕ} (nodes : List (List UInt8))
    (rest : List UInt8)
      (split : window = nodes.flatten ++ rest) (accepted : ∀ node ∈ nodes, Accepted md dim node)
      (received : nodes.flatten.length ≤ validBytes bufferSize stream offset)
      (counted : count + nodes.length < numAddedVectors)
      (reaches : Reaches (passLimit bufferSize indexFileSize stream offset) 0 nodes)
      (unfinished : USEARCH_HEADER_SIZE + offset + validBytes bufferSize stream offset ≠
        indexFileSize)
      (next : Orderly md dim (nextWindow bufferSize stream window offset nodes.flatten.length)
        (offset + nodes.flatten.length) (count + nodes.length)) :
      Orderly md dim window offset count

def HoldsNodes (md : Metadata) (dim : ℕ) : Prop :=
  ∃ nodes : List (List UInt8), (∀ node ∈ nodes, Storable md dim node) ∧
    nodes.length = numAddedVectors ∧ nodes.flatten <+: stream ∧
    USEARCH_HEADER_SIZE + nodes.flatten.length ≤ indexFileSize

end Bytes

section Property
variable {σ : Type} (read : σ → ℕ → Outcome Fault (List UInt8 × σ)) (rem : σ → List UInt8)
variable (md : Metadata) (dim bufferSize numAddedVectors indexFileSize : ℕ) (socket : σ)
variable (pages : List Page)

def streamLoop (fuel : ℕ) : System (StreamState σ) where
  init := fun s => s = streamInit bufferSize socket pages
  step := fun s t => s.tuplesIndexed < numAddedVectors ∧
    streamPass read md dim numAddedVectors bufferSize fuel indexFileSize s = .done t

/-- In every state of the store, in every pass: the nodes on the pages are, one after
    another, the first of the bytes received. -/
def OnlyReceived : Prop :=
  ∀ fuel s buffer bytes next l,
    Reachable (streamLoop read md dim bufferSize numAddedVectors indexFileSize socket
    pages fuel) s →
    s.tuplesIndexed < numAddedVectors → s.buffer = some buffer →
    read s.socket (bufferSize - s.bufferPosition) = .done (bytes, next) →
    Reachable (storeLoop md dim numAddedVectors
      (if s.totalBytesRead + bytes.length = indexFileSize then s.bufferPosition + bytes.length
        else bufferSize - BLCKSZ) (patch s.bufferPosition bytes buffer)
      (openPage s.pages s.lastDataBlock s.tuplesIndexed s.itemPointers)) l →
    ∃ nodes, Placed nodes l.state.itemPointers l.state.pages ∧
      nodes.flatten <+: (rem socket).take (s.totalBytesRead + bytes.length - USEARCH_HEADER_SIZE)

/-- The branch ends with an error or with the announced number of nodes, the first
    bytes of the stream, and with no other fault; with an error if the stream is
    shorter than the file, or the file does not have the announced nodes. -/
structure Safe : Prop where
  ends : ∃ k, ∀ fuel ≥ k,
    (∃ text, storeStreamed read md dim numAddedVectors bufferSize fuel numAddedVectors indexFileSize
      socket pages = .fault (.elog text)) ∨
    ∃ l nodes, storeStreamed read md dim numAddedVectors bufferSize fuel numAddedVectors
        indexFileSize socket pages = .done l ∧
      nodes.length = numAddedVectors ∧ Placed nodes l.itemPointers l.pages ∧
      nodes.flatten <+: rem socket
  refuses : USEARCH_HEADER_SIZE + (rem socket).length < indexFileSize ∨
      ¬ HoldsNodes numAddedVectors indexFileSize (rem socket) md dim →
    ∃ k, ∀ fuel ≥ k, ∃ text, storeStreamed read md dim numAddedVectors bufferSize fuel
      numAddedVectors indexFileSize socket pages = .fault (.elog text)
  received : OnlyReceived read rem md dim bufferSize numAddedVectors indexFileSize socket pages

end Property

structure StoredNodes (md : Metadata) (dim : ℕ) (pages : List Page) (seen : List (List UInt8))
    (l : Loaded) : Prop where
  accepted : ∀ node ∈ seen, Accepted md dim node
  folded : ∃ t, foldSteps (addNode md dim) seen
    (openPage pages InvalidBlockNumber 0 noItemPointers) = .done t ∧ l = loadedFrom (closePage t)

section Stored
variable {md : Metadata} {dim : ℕ} {pages : List Page} {seen nodes : List (List UInt8)} {l : Loaded}

theorem storable_of_accepted (h : ∀ node ∈ nodes, Accepted md dim node) :
    ∀ node ∈ nodes, Storable md dim node := fun node hmem => (h node hmem).toStorable

theorem ready_start (pages : List Page) :
    Ready (openPage pages InvalidBlockNumber 0 noItemPointers) :=
  .openPage fun h => absurd rfl h

theorem StoredNodes.nil (pages : List Page) :
    StoredNodes md dim pages [] ⟨pages, InvalidBlockNumber, noItemPointers, 0⟩ where
  accepted := by simp
  folded := by
    refine ⟨_, rfl, ?_⟩
    rw [closePage_of_none (by simp [openPage])]
    rfl

theorem StoredNodes.tupleCount_eq (h : StoredNodes md dim pages seen l) :
    l.tupleCount = seen.length := by
  obtain ⟨t, ht, rfl⟩ := h.folded
  obtain ⟨-, hid, -⟩ := foldSteps_ready (storable_of_accepted h.accepted) (ready_start pages) ht
  rw [loadedFrom_closePage]
  simpa [openPage] using hid

theorem StoredNodes.in_range (h : StoredNodes md dim pages seen l)
    (hl : l.lastDataBlock ≠ InvalidBlockNumber) :
    1 ≤ l.lastDataBlock ∧ l.lastDataBlock ≤ l.pages.length := by
  obtain ⟨t, ht, rfl⟩ := h.folded
  obtain ⟨hready, -, -⟩ := foldSteps_ready (storable_of_accepted h.accepted) (ready_start pages) ht
  rw [loadedFrom_closePage] at hl ⊢
  simpa only [closePage_pages_length] using hready.in_range hl

theorem StoredNodes.pages_le (h : StoredNodes md dim pages seen l)
    (hlen : pages.length + seen.length < InvalidBlockNumber) :
    l.pages.length ≤ pages.length + seen.length := by
  obtain ⟨t, ht, rfl⟩ := h.folded
  obtain ⟨u, hu, hle⟩ := foldSteps_total (storable_of_accepted h.accepted)
    (fun node hmem => (h.accepted node hmem).level_lt) (ready_start pages) hlen
  rw [ht] at hu
  cases hu
  rw [loadedFrom_closePage]
  exact (closePage_pages_length t).le.trans hle

theorem StoredNodes.page (h : StoredNodes md dim pages seen l) :
    PageInHand (openPage l.pages l.lastDataBlock l.tupleCount l.itemPointers) := by
  obtain ⟨t, ht, rfl⟩ := h.folded
  have hstorable := storable_of_accepted h.accepted
  obtain ⟨hready, -, -⟩ := foldSteps_ready hstorable (ready_start pages) ht
  have hpage := foldSteps_page hstorable (ready_start pages) (fun hl => absurd rfl hl) ht
  rw [loadedFrom_closePage]
  intro (hl : t.lastBlock ≠ InvalidBlockNumber)
  have hb : t.buf = some t.lastBlock := by rw [hready.buf_eq, if_neg hl]
  obtain ⟨h1, h2⟩ := hready.in_range hl
  change (getPage (closePage t).pages t.lastBlock).pdSpecial = dataPageSpecial
  rw [closePage_of_buf hb]
  simp only [getPage_setPage_self h1 h2]
  exact hpage hl

theorem StoredNodes.extend (h : StoredNodes md dim pages seen l)
    (hn : ∀ node ∈ nodes, Accepted md dim node) {t : StoreState}
    (ht : foldSteps (addNode md dim) nodes
      (openPage l.pages l.lastDataBlock l.tupleCount l.itemPointers) = .done t) :
    StoredNodes md dim pages (seen ++ nodes)
      ⟨(closePage t).pages, t.lastBlock, t.itemPointers, t.nodeId⟩ := by
  rw [← loadedFrom_closePage]
  refine ⟨fun node hmem => (List.mem_append.mp hmem).elim (h.accepted node) (hn node), ?_⟩
  obtain ⟨u, hu, rfl⟩ := h.folded
  rw [loadedFrom_closePage] at ht
  by_cases hseen : seen = []
  · subst hseen
    cases hu
    rw [closePage_of_none (by simp [openPage])] at ht
    exact ⟨t, ht, rfl⟩
  · have hreopen :=
      foldSteps_reopen (storable_of_accepted h.accepted) (storable_of_accepted hn) hseen
      (ready_start pages)
    rw [hu, Outcome.bind_done, ht, Outcome.map_done] at hreopen
    obtain ⟨v, hv, hclose⟩ := Outcome.map_eq_done.mp hreopen.symm
    exact ⟨v, hv, by rw [hclose]⟩

theorem StoredNodes.placed (h : StoredNodes md dim pages seen l) (hempty : dataPages 1 pages = [])
    (hlen : pages.length < InvalidBlockNumber) : Placed seen l.itemPointers l.pages := by
  obtain ⟨t, ht, rfl⟩ := h.folded
  rw [loadedFrom_closePage]
  exact (Filled.foldSteps (storable_of_accepted h.accepted) hempty hlen ht).placed

end Stored

section Kept
variable {md : Metadata} {dim : ℕ} {pages : List Page} {seen nodes : List (List UInt8)}
variable {ips : ℕ → ItemPointerData} {s t : StoreState} {node : List UInt8}

theorem placed_congr {pages' : List Page} (h : ∀ tid, tupleAt pages' tid = tupleAt pages tid)
    (hp : Placed nodes ips pages) : Placed nodes ips pages' where
  at_pointer := fun i node hi => (h _).trans (hp.at_pointer i node hi)
  no_others := fun tid t ht => hp.no_others tid t ((h tid).symm.trans ht)

theorem tupleAt_setPage_items {b : ℕ} {p : Page} (h : p.items = (getPage pages b).items)
    (tid : ItemPointerData) : tupleAt (setPage pages b p) tid = tupleAt pages tid := by
  by_cases hb : tid.block = b
  · by_cases hr : 0 < b ∧ b ≤ pages.length
    · rw [tupleAt, tupleAt, hb, getPage_setPage_self hr.1 hr.2, h]
    · cases b with
      | zero => rfl
      | succ b => rw [setPage, List.set_eq_of_length_le (by omega)]
  · exact tupleAt_setPage_ne hb p

theorem tupleAt_closePage (s : StoreState) (tid : ItemPointerData) :
    tupleAt (closePage s).pages tid = tupleAt s.pages tid := by
  unfold closePage updateCurrent
  split
  · refine tupleAt_setPage_items ?_ tid
    rfl
  · rfl

theorem tupleAt_created (s : StoreState) (tid : ItemPointerData) :
    tupleAt (created s).pages tid = tupleAt s.pages tid := by
  have hfresh : (freshPage s.nodeId).items =
      (getPage (linkedPages s ++ [zeroPage]) (s.pages.length + 1)).items := by
    rw [getPage_append_zero, getPage_beyond (by simp)]
    rfl
  rw [created, tupleAt_setPage_items hfresh, tupleAt_append_zero, linkedPages]
  split
  · refine tupleAt_setPage_items ?_ tid
    rfl
  · rfl

structure Kept (seen : List (List UInt8)) (s : StoreState) : Prop where
  ready : Ready s
  page : PageInHand s
  numbered : s.nodeId = seen.length
  placed : Placed seen s.itemPointers s.pages

theorem Kept.force (h : Kept seen s) : Kept seen { s with forceCreatePage := true } :=
  ⟨h.ready.force, h.page, h.numbered, h.placed⟩

theorem Kept.created (h : Kept seen s) (hlen : s.pages.length + 1 < InvalidBlockNumber) :
    Kept seen (StoreVisits.created s) :=
  ⟨Ready.created s hlen, .created s, h.numbered, placed_congr (tupleAt_created s) h.placed⟩

theorem Kept.grown {off : ℕ} (h : Kept seen s) (ht : Ready t) (hp : PageInHand t)
    (hid : t.nodeId = s.nodeId + 1)
    (hg : Grown (closePage s).pages s.lastBlock ⟨s.nodeId, node.length, node⟩ (closePage t).pages
      t.lastBlock off)
    (hip : t.itemPointers = Function.update s.itemPointers s.nodeId ⟨t.lastBlock, off⟩) :
    Kept (seen ++ [node]) t := by
  rw [h.numbered] at hg hip hid
  refine ⟨ht, hp, by rw [hid, List.length_append]; rfl, ?_⟩
  rw [hip]
  refine placed_congr (fun tid => (tupleAt_closePage t tid).symm) (Placed.grown ?_ hg
    h.ready.closed_range)
  exact placed_congr (tupleAt_closePage s) h.placed

theorem Kept.storeNode (hn : Storable md dim node) (h : Kept seen s)
    (ht : StoreNodes.storeNode md dim node s = .done t) :
    (t.forceCreatePage = true ∧ Kept seen t) ∨
      t.forceCreatePage = false ∧ Kept (seen ++ [node]) t := by
  rcases storeNode_done hn h.ready ht with ⟨hlen, rfl⟩ | ⟨b, p, off, hb, hf, ha, rfl⟩ | ⟨-, rfl⟩
  · exact .inr ⟨rfl, h.grown (.onNewPage node hlen) (.onNewPage s node) rfl
      (onNewPage_grown h.ready hlen) rfl⟩
  · rcases h.ready.buf_cases with ⟨-, hb'⟩ | ⟨hl, hb', -, -⟩
    · rw [hb] at hb'
      cases hb'
    · obtain rfl : b = s.lastBlock := Option.some.inj (hb.symm.trans hb')
      exact .inr ⟨hf, h.grown h.ready.recorded (h.page.recorded h.ready hb ha) rfl
        (recorded_grown h.ready hb hl ha) rfl⟩
  · exact .inl ⟨rfl, h.force⟩

end Kept

variable {offset : ℕ}

section Stream
variable {σ : Type} {read : σ → ℕ → Outcome Fault (List UInt8 × σ)} {rem : σ → List UInt8}
variable {md : Metadata} {dim bufferSize numAddedVectors indexFileSize : ℕ}
variable {pages : List Page} {stream : List UInt8}

/-- Loop head: the nodes `seen` are stored, they are the first bytes of the stream, and
    the buffer will be `window` after the read of the next pass. -/
structure Head (rem : σ → List UInt8) (md : Metadata) (dim bufferSize indexFileSize : ℕ)
    (pages : List Page) (stream : List UInt8) (seen : List (List UInt8)) (window : List UInt8)
    (s : StreamState σ) : Prop where
  buffered : ∃ buffer, s.buffer = some buffer ∧
    patch s.bufferPosition ((rem s.socket).take (bufferSize - s.bufferPosition)) buffer = window
  length_eq : window.length = bufferSize
  total_eq : s.totalBytesRead + ((rem s.socket).take (bufferSize - s.bufferPosition)).length =
    USEARCH_HEADER_SIZE + seen.flatten.length + validBytes bufferSize stream seen.flatten.length
  limit_eq : USEARCH_HEADER_SIZE + seen.flatten.length +
      validBytes bufferSize stream seen.flatten.length = indexFileSize →
    s.bufferPosition + ((rem s.socket).take (bufferSize - s.bufferPosition)).length =
      validBytes bufferSize stream seen.flatten.length
  rest_eq : (rem s.socket).drop (bufferSize - s.bufferPosition) =
    stream.drop (seen.flatten.length + validBytes bufferSize stream seen.flatten.length)
  received : seen.flatten <+: stream
  window_eq : window.take (validBytes bufferSize stream seen.flatten.length) =
    (stream.drop seen.flatten.length).take (validBytes bufferSize stream seen.flatten.length)
  stored : StoredNodes md dim pages seen s.loaded

variable {t : StreamState σ}

section Pass
variable {seen nodes : List (List UInt8)} {window rest : List UInt8} {s : StreamState σ}

theorem Head.count (hs : Head rem md dim bufferSize indexFileSize pages stream seen window s) :
    s.tuplesIndexed = seen.length := hs.stored.tupleCount_eq

theorem Head.opened_ready
    (hs : Head rem md dim bufferSize indexFileSize pages stream seen window s) :
    Ready (openPage s.pages s.lastDataBlock s.tuplesIndexed s.itemPointers) :=
  .openPage hs.stored.in_range

theorem Head.kept (hs : Head rem md dim bufferSize indexFileSize pages stream seen window s)
    (hempty : dataPages 1 pages = []) (hlen : pages.length < InvalidBlockNumber) :
    Kept seen (openPage s.pages s.lastDataBlock s.tuplesIndexed s.itemPointers) :=
  ⟨hs.opened_ready, hs.stored.page, hs.count, hs.stored.placed hempty hlen⟩

theorem Head.continues (hs : Head rem md dim bufferSize indexFileSize pages stream seen window s)
    (hsplit : window = nodes.flatten ++ rest)
    (hle : nodes.flatten.length ≤ validBytes bufferSize stream seen.flatten.length) :
    (seen ++ nodes).flatten = stream.take (seen.flatten.length + nodes.flatten.length) := by
  have hnodes : nodes.flatten = (stream.drop seen.flatten.length).take nodes.flatten.length := by
    have htake := congrArg (List.take nodes.flatten.length) hs.window_eq
    rw [List.take_take, List.take_take, Nat.min_eq_left hle, hsplit, List.take_left] at htake
    exact htake
  rw [List.flatten_append, List.take_add, ← List.prefix_iff_eq_take.mp hs.received, ← hnodes]

def passResult (bufferSize indexFileSize : ℕ) (socket : σ) (window : List UInt8) (total : ℕ)
    (r : Stored) : Outcome Fault (StreamState σ) :=
  let next : Option (List UInt8) → StreamState σ := fun b =>
    ⟨socket, b, bufferSize - r.bytesWritten, total, r.nextNodeIndex, r.pages, r.lastDataBlock,
      r.itemPointers⟩
  if total = indexFileSize then .done (next none)
  else if BLCKSZ < bufferSize - r.bytesWritten then
    .fault (.assertFailed "buffer_position <= BLCKSZ")
  else .done (next (some
    (patch 0 (slice r.bytesWritten (bufferSize - r.bytesWritten) window) window)))

theorem Head.streamPass_eq (hread : Delivers read rem)
    (hs : Head rem md dim bufferSize indexFileSize pages stream seen window s) (room : ℕ) :
    ∃ socket, rem socket = stream.drop
        (seen.flatten.length + validBytes bufferSize stream seen.flatten.length) ∧
      ∀ fuel, streamPass read md dim room bufferSize fuel indexFileSize s =
        (storeExternalIndexNodes md dim room fuel s.pages s.lastDataBlock window
          (passLimit bufferSize indexFileSize stream seen.flatten.length) s.tuplesIndexed
          s.itemPointers).bind (passResult bufferSize indexFileSize socket window
            (USEARCH_HEADER_SIZE + seen.flatten.length +
              validBytes bufferSize stream seen.flatten.length)) := by
  obtain ⟨buffer, hbuf, hwindow⟩ := hs.buffered
  obtain ⟨socket, hr, hrem⟩ := hread s.socket (bufferSize - s.bufferPosition)
  refine ⟨socket, hrem.trans hs.rest_eq, fun fuel => ?_⟩
  have hlimit : (if USEARCH_HEADER_SIZE + seen.flatten.length +
      validBytes bufferSize stream seen.flatten.length = indexFileSize then
      s.bufferPosition + ((rem s.socket).take (bufferSize - s.bufferPosition)).length
      else bufferSize - BLCKSZ) =
      passLimit bufferSize indexFileSize stream seen.flatten.length := by
    unfold passLimit
    split_ifs with h
    · exact hs.limit_eq h
    · rfl
  simp only [streamPass, hbuf, hr, Outcome.bind_done, hwindow, hs.total_eq, hlimit]
  rfl

theorem Head.pass (hread : Delivers read rem)
    (hs : Head rem md dim bufferSize indexFileSize pages stream seen window s) {room : ℕ}
    {r : Outcome Fault StoreLoop}
    (hends : EndsWith md dim room
      (passLimit bufferSize indexFileSize stream seen.flatten.length) window
      ⟨openPage s.pages s.lastDataBlock s.tuplesIndexed s.itemPointers, 0⟩ r) :
    ∃ socket, rem socket = stream.drop
        (seen.flatten.length + validBytes bufferSize stream seen.flatten.length) ∧
      (∃ k, ∀ fuel ≥ k, streamPass read md dim room bufferSize fuel indexFileSize s =
        (r.bind finishStore).bind (passResult bufferSize indexFileSize socket window
          (USEARCH_HEADER_SIZE + seen.flatten.length +
            validBytes bufferSize stream seen.flatten.length))) ∧
      ∀ fuel, streamPass read md dim room bufferSize fuel indexFileSize s = .unfinished ∨
        streamPass read md dim room bufferSize fuel indexFileSize s =
          (r.bind finishStore).bind (passResult bufferSize indexFileSize socket window
            (USEARCH_HEADER_SIZE + seen.flatten.length +
              validBytes bufferSize stream seen.flatten.length)) := by
  obtain ⟨socket, hsocket, hpass⟩ := hs.streamPass_eq hread room
  refine ⟨socket, hsocket, ?_, fun fuel => ?_⟩
  · obtain ⟨k, hk⟩ := hends.loop_eq
    refine ⟨k, fun fuel hf => ?_⟩
    rw [hpass fuel, storeExternalIndexNodes, hk fuel hf]
  · rw [hpass fuel, storeExternalIndexNodes]
    rcases hends.loop_cases fuel with h | h
    · exact .inl (by rw [h]; rfl)
    · exact .inr (by rw [h])

theorem Head.length_le (hs : Head rem md dim bufferSize indexFileSize pages stream seen window s) :
    seen.flatten.length ≤ stream.length := hs.received.length_le

theorem nextWindow_length {offset taken : ℕ} (hlen : window.length = bufferSize)
    (hle : taken ≤ bufferSize) :
    (nextWindow bufferSize stream window offset taken).length = bufferSize := by
  rw [nextWindow, patch_length, List.length_append, List.length_drop, List.length_drop, hlen]
  · omega
  · simp only [List.length_append, List.length_drop, List.length_take, hlen]
    omega

/-- The next buffer continues this one with what was received behind it. -/
theorem take_nextWindow {taken : ℕ} (hwindow : window.take (validBytes bufferSize stream offset) =
      (stream.drop offset).take (validBytes bufferSize stream offset))
    (hlen : window.length = bufferSize) (hle : taken ≤ validBytes bufferSize stream offset) :
    (nextWindow bufferSize stream window offset taken).take
        (validBytes bufferSize stream (offset + taken)) =
      (stream.drop (offset + taken)).take (validBytes bufferSize stream (offset + taken)) := by
  have hshift : (window.drop taken ++ window.drop (bufferSize - taken)).take (bufferSize - taken) =
      window.drop taken := by
    have hdrop : (window.drop taken).length = bufferSize - taken := by rw [List.length_drop, hlen]
    rw [← hdrop, List.take_left]
  rw [nextWindow, patch, hshift]
  have hdrop : (window.drop taken).take (validBytes bufferSize stream offset - taken) =
      (stream.drop (offset + taken)).take (validBytes bufferSize stream offset - taken) := by
    have htail := congrArg (List.drop taken) hwindow
    rwa [List.drop_take, List.drop_take, List.drop_drop] at htail
  rcases Nat.le_total bufferSize (stream.length - offset) with h | h
  · -- the buffer was full, and what is read continues it
    have hvalid : validBytes bufferSize stream offset = bufferSize := Nat.min_eq_left h
    rw [hvalid] at hle hdrop ⊢
    rw [List.take_of_length_le (by rw [List.length_drop, hlen])] at hdrop
    have hjoin : window.drop taken ++ (stream.drop (offset + bufferSize)).take taken =
        (stream.drop (offset + taken)).take bufferSize := by
      have hcont : stream.drop (offset + bufferSize) =
          (stream.drop (offset + taken)).drop (bufferSize - taken) := by
        rw [List.drop_drop]
        congr 1
        omega
      rw [hdrop, hcont, ← List.take_add]
      congr 1
      omega
    have hsize : ((stream.drop (offset + taken)).take bufferSize).length =
        validBytes bufferSize stream (offset + taken) := by
      rw [List.length_take, List.length_drop, validBytes]
    rw [hjoin, ← hsize, List.take_left]
    exact List.prefix_iff_eq_take.mp (List.take_prefix _ _)
  · -- the stream had ended, and nothing more is read
    have hvalid : validBytes bufferSize stream offset = stream.length - offset := Nat.min_eq_right h
    have hnext : validBytes bufferSize stream (offset + taken) =
        validBytes bufferSize stream offset - taken := by
      rw [hvalid, validBytes]
      omega
    have hend : stream.drop (offset + validBytes bufferSize stream offset) = [] :=
      List.drop_eq_nil_of_le (by omega)
    rw [hnext, hend, List.take_nil, List.append_nil,
      List.take_append_of_le_length (by rw [List.length_drop]; omega)]
    exact hdrop

/-- The loop head behind a pass that took `nodes` from the received part of the buffer
    and did not bring the total to the file size. -/
theorem Head.next (hs : Head rem md dim bufferSize indexFileSize pages stream seen window s)
    (hsplit : window = nodes.flatten ++ rest)
    (hle : nodes.flatten.length ≤ validBytes bufferSize stream seen.flatten.length)
    (hunfinished : USEARCH_HEADER_SIZE + seen.flatten.length +
      validBytes bufferSize stream seen.flatten.length ≠ indexFileSize)
    (hbuffer : t.buffer = some (patch 0
      (slice nodes.flatten.length (bufferSize - nodes.flatten.length) window) window))
    (hposition : t.bufferPosition = bufferSize - nodes.flatten.length)
    (htotal : t.totalBytesRead = USEARCH_HEADER_SIZE + seen.flatten.length +
      validBytes bufferSize stream seen.flatten.length)
    (hsocket : rem t.socket =
      stream.drop (seen.flatten.length + validBytes bufferSize stream seen.flatten.length))
    (hstored : StoredNodes md dim pages (seen ++ nodes) t.loaded) :
    Head rem md dim bufferSize indexFileSize pages stream (seen ++ nodes)
      (nextWindow bufferSize stream window seen.flatten.length nodes.flatten.length) t := by
  have hlen := hs.length_eq
  have hin : nodes.flatten.length ≤ bufferSize := by
    rw [← hlen, hsplit, List.length_append]
    omega
  have hback : bufferSize - (bufferSize - nodes.flatten.length) = nodes.flatten.length := by omega
  have hmoved :
      patch 0 (slice nodes.flatten.length (bufferSize - nodes.flatten.length) window) window =
      window.drop nodes.flatten.length ++ window.drop (bufferSize - nodes.flatten.length) := by
    have hslice : slice nodes.flatten.length (bufferSize - nodes.flatten.length) window =
        window.drop nodes.flatten.length :=
      List.take_of_length_le (by rw [List.length_drop, hlen])
    rw [patch_zero, hslice, List.length_drop, hlen]
  have hoffset : (seen ++ nodes).flatten.length = seen.flatten.length + nodes.flatten.length := by
    rw [List.flatten_append, List.length_append]
  have hseen := hs.length_le
  have hbytes : ((rem t.socket).take nodes.flatten.length).length = min nodes.flatten.length
      (stream.length -
        (seen.flatten.length + validBytes bufferSize stream seen.flatten.length)) := by
    rw [hsocket, List.length_take, List.length_drop]
  refine ⟨⟨_, hbuffer, ?_⟩, nextWindow_length hlen hin, ?_, ?_, ?_, ?_,
    hoffset ▸ take_nextWindow hs.window_eq hlen hle, hstored⟩
  · rw [hposition, hback, hmoved, hsocket]
    rfl
  · rw [hposition, hback, hbytes, htotal, hoffset]
    simp only [validBytes] at hle ⊢
    omega
  · rw [hposition, hback, hbytes, hoffset]
    intro htot
    simp only [validBytes] at hle hunfinished htot ⊢
    omega
  · rw [hposition, hback, hsocket, List.drop_drop, hoffset]
    simp only [validBytes] at hle ⊢
    rcases Nat.lt_or_ge (seen.flatten.length + nodes.flatten.length + bufferSize)
      stream.length with h | h
    · congr 1
      omega
    · rw [List.drop_eq_nil_of_le (by omega), List.drop_eq_nil_of_le (by omega)]
  · rw [hs.continues hsplit hle]
    exact List.take_prefix _ _

theorem Head.leads (hs : Head rem md dim bufferSize indexFileSize pages stream seen window s)
    (hsplit : window = nodes.flatten ++ rest) (hn : ∀ node ∈ nodes, Accepted md dim node)
    (hstarts : ∀ pre node post, nodes = pre ++ node :: post →
      pre.flatten.length < passLimit bufferSize indexFileSize stream seen.flatten.length)
    (hcount : seen.length + nodes.length ≤ numAddedVectors)
    (hblocks : pages.length + numAddedVectors + 1 < InvalidBlockNumber) :
    ∃ t, foldSteps (addNode md dim) nodes
        (openPage s.pages s.lastDataBlock s.tuplesIndexed s.itemPointers) = .done t ∧
      Leads md dim numAddedVectors (passLimit bufferSize indexFileSize stream seen.flatten.length)
        window ⟨openPage s.pages s.lastDataBlock s.tuplesIndexed s.itemPointers, 0⟩
        ⟨t, nodes.flatten.length⟩ ∧
      Ready t ∧ PageInHand t ∧ t.nodeId = seen.length + nodes.length ∧
      t.pages.length + 1 < InvalidBlockNumber ∧
      (nodes ≠ [] → t.lastBlock ≠ InvalidBlockNumber) ∧
      StoredNodes md dim pages (seen ++ nodes)
        ⟨(closePage t).pages, t.lastBlock, t.itemPointers, t.nodeId⟩ := by
  have hstorable := storable_of_accepted hn
  have hle : s.pages.length ≤ pages.length + seen.length := hs.stored.pages_le (by omega)
  have hnumber := hs.count
  obtain ⟨t, ht, htle⟩ := foldSteps_total hstorable (fun node hmem => (hn node hmem).level_lt)
    hs.opened_ready (by simp only [openPage]; omega)
  obtain ⟨hready, hid, hlast⟩ := foldSteps_ready hstorable hs.opened_ready ht
  simp only [openPage] at htle hid
  have hleads : Leads md dim numAddedVectors
      (passLimit bufferSize indexFileSize stream seen.flatten.length) window
      ⟨openPage s.pages s.lastDataBlock s.tuplesIndexed s.itemPointers, 0⟩
      ⟨t, 0 + nodes.flatten.length⟩ :=
    leads_nodes hstorable hs.opened_ready hsplit (by simpa using hstarts)
      (by simp only [openPage]; omega) ht
  rw [Nat.zero_add] at hleads
  exact ⟨t, ht, hleads, hready,
    foldSteps_page hstorable hs.opened_ready hs.stored.page ht, by omega, by omega, fun hne =>
    (hlast hne).2, hs.stored.extend hn ht⟩

abbrev StreamEnds (read : σ → ℕ → Outcome Fault (List UInt8 × σ)) (md : Metadata)
    (dim bufferSize numAddedVectors indexFileSize : ℕ) (s : StreamState σ)
    (r : Outcome Fault (StreamState σ)) : Prop :=
  Settles (fun s : StreamState σ => s.tuplesIndexed < numAddedVectors)
    (fun fuel => streamPass read md dim numAddedVectors bufferSize fuel indexFileSize) s r

theorem Head.settles_fault (hread : Delivers read rem)
    (hs : Head rem md dim bufferSize indexFileSize pages stream seen window s) {e : Fault}
    (hcount : seen.length < numAddedVectors)
    (hends : EndsWith md dim numAddedVectors
      (passLimit bufferSize indexFileSize stream seen.flatten.length) window
      ⟨openPage s.pages s.lastDataBlock s.tuplesIndexed s.itemPointers, 0⟩ (.fault e)) :
    StreamEnds read md dim bufferSize numAddedVectors indexFileSize s (.fault e) ∧
    ∀ fuel t, streamPass read md dim numAddedVectors bufferSize fuel indexFileSize s ≠ .done t := by
  obtain ⟨socket, -, hsettled, hany⟩ := hs.pass hread hends
  refine ⟨.fault (by simpa [hs.count] using hcount) hsettled, fun fuel t h => ?_⟩
  rcases hany fuel with h' | h'
  · rw [h] at h'
    cases h'
  · rw [h] at h'
    cases h'

end Pass

theorem Head.raised (hread : Delivers read rem) {seen nodes : List (List UInt8)}
    {window rest : List UInt8} {s : StreamState σ}
    (hs : Head rem md dim bufferSize indexFileSize pages stream seen window s)
    (hsplit : window = nodes.flatten ++ rest) (hn : ∀ node ∈ nodes, Accepted md dim node)
    (hbefore : nodes.flatten.length < passLimit bufferSize indexFileSize stream seen.flatten.length)
    (hcount : seen.length + nodes.length ≤ numAddedVectors) (hlt : seen.length < numAddedVectors)
    (hblocks : pages.length + numAddedVectors + 1 < InvalidBlockNumber)
    (hraises : Raises md dim rest) :
    (∃ text, StreamEnds read md dim bufferSize numAddedVectors indexFileSize s
      (.fault (.elog text))) ∧
    ∀ fuel t, streamPass read md dim numAddedVectors bufferSize fuel indexFileSize s ≠ .done t := by
  obtain ⟨t, -, hleads, hready, hpage, -⟩ := hs.leads hsplit hn (fun pre node post h => by
    have hle := congrArg (fun l => l.flatten.length) h
    simp only [List.flatten_append, List.length_append] at hle
    omega) hcount hblocks
  have hdrop : window.drop nodes.flatten.length = rest := by rw [hsplit, List.drop_left]
  obtain ⟨text, hends⟩ := @ends_raises md dim numAddedVectors _ _ window t hbefore hready hpage
    (hdrop.symm ▸ hraises)
  obtain ⟨hsettles, hnever⟩ := hs.settles_fault hread hlt (hleads.ends hends)
  exact ⟨⟨text, hsettles⟩, hnever⟩

section Run
variable {socket : σ}

theorem storeStreamed_of_ends {r : Outcome Fault (StreamState σ)}
    (h : StreamEnds read md dim bufferSize numAddedVectors indexFileSize
      (streamInit bufferSize socket pages) r) :
    ∃ k, ∀ fuel ≥ k, storeStreamed read md dim numAddedVectors bufferSize fuel numAddedVectors
      indexFileSize socket pages = r.map StreamState.loaded := by
  obtain ⟨k, hk⟩ := h.loop_eq
  exact ⟨k, fun fuel hf => congrArg (Outcome.map StreamState.loaded) (hk fuel hf fuel hf)⟩

variable {seen : List (List UInt8)} {s : StreamState σ} {window : List UInt8}

section Safe
variable (hsafe : Safe read rem md dim bufferSize numAddedVectors indexFileSize socket pages)
include hsafe

theorem Safe.fault_eq {e : Fault}
    (h : StreamEnds read md dim bufferSize numAddedVectors indexFileSize
      (streamInit bufferSize socket pages) (.fault e)) : ∃ text, e = .elog text := by
  obtain ⟨k, hk⟩ := storeStreamed_of_ends h
  obtain ⟨n, hn⟩ := hsafe.ends
  have hfault := hk (max k n) (le_max_left _ _)
  rcases hn (max k n) (le_max_right _ _) with ⟨text, he⟩ | ⟨l, nodes, he, -⟩
  · rw [he] at hfault
    exact ⟨text, (Outcome.fault.inj hfault).symm⟩
  · rw [he] at hfault
    cases hfault

theorem Safe.complete (h : StreamEnds read md dim bufferSize numAddedVectors indexFileSize
      (streamInit bufferSize socket pages) (.done t)) :
    indexFileSize ≤ USEARCH_HEADER_SIZE + (rem socket).length ∧
      HoldsNodes numAddedVectors indexFileSize (rem socket) md dim := by
  have hnot : ¬ (USEARCH_HEADER_SIZE + (rem socket).length < indexFileSize ∨
      ¬ HoldsNodes numAddedVectors indexFileSize (rem socket) md dim) := by
    intro hshort
    obtain ⟨k, hk⟩ := storeStreamed_of_ends h
    obtain ⟨n, hn⟩ := hsafe.refuses hshort
    have hdone := hk (max k n) (le_max_left _ _)
    obtain ⟨text, he⟩ := hn (max k n) (le_max_right _ _)
    rw [he] at hdone
    cases hdone
  rw [not_or, not_not] at hnot
  exact ⟨by omega, hnot.2⟩

/-- A state of the run: the loop gets there with enough fuel, and how it ends from
    there is how it ends. -/
structure OnRun (read : σ → ℕ → Outcome Fault (List UInt8 × σ)) (md : Metadata)
    (dim bufferSize numAddedVectors indexFileSize : ℕ) (socket : σ) (pages : List Page)
    (s : StreamState σ) : Prop where
  reached : ∃ k, ∀ fuel ≥ k,
    Reachable (streamLoop read md dim bufferSize numAddedVectors indexFileSize socket pages fuel) s
  ends : ∀ r, StreamEnds read md dim bufferSize numAddedVectors indexFileSize s r →
    StreamEnds read md dim bufferSize numAddedVectors indexFileSize
      (streamInit bufferSize socket pages) r

omit hsafe in
theorem OnRun.next (h : OnRun read md dim bufferSize numAddedVectors indexFileSize socket pages s)
    (hlt : s.tuplesIndexed < numAddedVectors) (hpass : ∃ k, ∀ fuel ≥ k,
      streamPass read md dim numAddedVectors bufferSize fuel indexFileSize s = .done t) :
    OnRun read md dim bufferSize numAddedVectors indexFileSize socket pages t where
  reached := by
    obtain ⟨k, hk⟩ := h.reached
    obtain ⟨n, hn⟩ := hpass
    exact ⟨max k n, fun fuel hf => .next (hk fuel (by omega)) ⟨hlt, hn fuel (by omega)⟩⟩
  ends := fun r hr => h.ends r (.next (by simpa using hlt) hpass hr)

end Safe

end Run
end Stream

section Files
variable {md : Metadata} {dim bufferSize : ℕ}

end Files

end Lantern.StreamShortfall
