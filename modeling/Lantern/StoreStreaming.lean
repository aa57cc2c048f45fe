import Lantern.StoreIndex

set_option autoImplicit false

/-!
# The streaming branch stores what the mapped branch stores

At the head of the streaming loop the bytes before `bufferPosition` and the bytes still
on the socket are together the nodes not yet stored. A pass either sees the end of the
file and stores them all, or stores a prefix of whole nodes that leaves at most a page
of bytes to carry over. As in `StoreNodes`, no clean page is dropped.
-/
namespace Lantern.StoreStreaming
open FuelLoop ByteStrings NodeLayout PageLayout IndexRelation PageChain StoreNodes StoreIndex

/-- Each call hands out the next bytes of `rem`, as many as asked for or all
    that remain. -/
def Delivers {σ : Type} (read : σ → ℕ → Outcome Fault (List UInt8 × σ)) (rem : σ → List UInt8) :
    Prop :=
  ∀ s n, ∃ s', read s n = .done ((rem s).take n, s') ∧ rem s' = (rem s).drop n

theorem exists_reaches {limit w bound : ℕ} {nodes : List (List UInt8)}
    (hn : ∀ node ∈ nodes, node.length ≤ limit) (hw : w < bound)
    (hle : bound ≤ w + nodes.flatten.length) :
    ∃ xs ys, nodes = xs ++ ys ∧ xs ≠
      [] ∧ Reaches bound w xs ∧ w + xs.flatten.length < bound + limit := by
  induction nodes generalizing w with
  | nil => simp at hle; omega
  | cons node nodes ih =>
    have hnode := hn node List.mem_cons_self
    by_cases hstop : bound ≤ w + node.length
    · refine ⟨[node], nodes, rfl, by simp, ⟨by simpa using hstop, ?_⟩, by simp; omega⟩
      intro pre node' post h
      cases pre with
      | nil => simpa using hw
      | cons a pre => simp at h
    · obtain ⟨xs, ys, rfl, -, hr, hlt⟩ := ih (w := w + node.length)
        (fun n h => hn n (List.mem_cons_of_mem _ h)) (by omega)
        (by simp only [List.flatten_cons, List.length_append] at hle; omega)
      refine ⟨node :: xs, ys, rfl, by simp, ⟨?_, ?_⟩,
        by simp only [List.flatten_cons, List.length_append]; omega⟩
      · have := hr.stops
        simp only [List.flatten_cons, List.length_append]
        omega
      · intro pre node' post h
        cases pre with
        | nil => simpa using hw
        | cons a pre =>
          obtain ⟨rfl, hpre⟩ := List.cons.inj h
          have := hr.starts pre node' post hpre
          simp only [List.flatten_cons, List.length_append]
          omega

theorem reaches_all {nodes : List (List UInt8)} (hn : ∀ node ∈ nodes, 0 < node.length) :
    Reaches nodes.flatten.length 0 nodes where
  stops := by simp
  starts := by
    rintro pre node post rfl
    have := hn node (by simp)
    simp
    omega

def loadedFrom (t : StoreState) : Loaded := ⟨t.pages, t.lastBlock, t.itemPointers, t.nodeId⟩

theorem loadedFrom_closePage (t : StoreState) :
    loadedFrom (closePage t) = ⟨(closePage t).pages, t.lastBlock, t.itemPointers, t.nodeId⟩ := by
  unfold loadedFrom closePage updateCurrent
  split <;> rfl

theorem storeMapped_eq {md : Metadata} {dim room fuel : ℕ} {nodes : List (List UInt8)}
    {pages : List Page} (hn : ∀ node ∈ nodes, Storable md dim node) (hne : nodes ≠ [])
    (hroom : nodes.length ≤ room) (hf : 2 * nodes.length < fuel) :
    storeMapped md dim room fuel nodes.length (USEARCH_HEADER_SIZE + nodes.flatten.length)
        nodes.flatten pages =
      (foldSteps (addNode md dim) nodes (openPage pages InvalidBlockNumber 0 noItemPointers)).map
        fun t => loadedFrom (closePage t) := by
  have hpos : ∀ node ∈ nodes, 0 < node.length := fun node h => by
    have := (hn node h).head_le
    omega
  have hready : Ready (openPage pages InvalidBlockNumber 0 noItemPointers) :=
    .openPage fun h => absurd rfl h
  have he := @storeExternalIndexNodes_eq [] md nodes nodes.flatten.length dim pages room fuel
    InvalidBlockNumber 0 noItemPointers hn hne (fun h => absurd rfl h) (reaches_all hpos)
    (by omega) hf
  rw [List.append_nil] at he
  rw [storeMapped, Nat.add_sub_cancel_left, he]
  cases h : foldSteps (addNode md dim) nodes
    (openPage pages InvalidBlockNumber 0 noItemPointers) with
  | fault e => rfl
  | unfinished => rfl
  | done t =>
    obtain ⟨-, hid, -⟩ := foldSteps_ready hn hready h
    have hid' : t.nodeId = nodes.length := by simpa [openPage] using hid
    simp [hid', loadedFrom_closePage]

variable {todo : List (List UInt8)}

section Stream
variable {σ : Type} {read : σ → ℕ → Outcome Fault (List UInt8 × σ)} {rem : σ → List UInt8}
variable {md : Metadata} {dim room bufferSize : ℕ}

section Pass
variable {fuel size : ℕ} {nodes : List (List UInt8)} {buffer bytes rest : List UInt8}
variable {s : StreamState σ} {socket : σ}

theorem streamPass_buffer
    (hr : read s.socket (bufferSize - s.bufferPosition) = .done (bytes, socket))
    (hbuf : s.buffer = some buffer) (hlen : (nodes.flatten ++ rest).length = bufferSize)
    (htotal : s.totalBytesRead + bytes.length ≠ size)
    (hfill : patch s.bufferPosition bytes buffer = nodes.flatten ++ rest)
    (hn : ∀ node ∈ nodes, Storable md dim node) (hne : nodes ≠ [])
    (hreach : Reaches (bufferSize - BLCKSZ) 0 nodes)
    (hrange : s.lastDataBlock ≠ InvalidBlockNumber →
      1 ≤ s.lastDataBlock ∧ s.lastDataBlock ≤ s.pages.length)
    (hroom : s.tuplesIndexed + nodes.length ≤ room) (hf : 2 * nodes.length < fuel) :
    streamPass read md dim room bufferSize fuel size s =
      (foldSteps (addNode md dim) nodes
        (openPage s.pages s.lastDataBlock s.tuplesIndexed s.itemPointers)).map fun t =>
          ⟨socket, some (patch 0 rest (nodes.flatten ++ rest)), rest.length,
            s.totalBytesRead + bytes.length, t.nodeId, (closePage t).pages, t.lastBlock,
            t.itemPointers⟩ := by
  rw [List.length_append] at hlen
  have hrest : bufferSize - nodes.flatten.length = rest.length := by omega
  have hle : ¬ BLCKSZ < rest.length := by
    have := hreach.stops
    omega
  have hcarry : slice nodes.flatten.length rest.length (nodes.flatten ++ rest) = rest := by
    have := slice_append_right 0 rest.length nodes.flatten rest
    rwa [Nat.add_zero, slice_whole] at this
  simp only [streamPass, hbuf, hr, Outcome.bind_done, htotal, if_false, hfill]
  rw [storeExternalIndexNodes_eq hn hne hrange hreach hroom hf, Outcome.bind_map]
  simp only [hrest, hle, if_false, hcarry]
  rfl

theorem patch_full (hlen : buffer.length = bufferSize)
    (hpos : s.bufferPosition ≤ bufferSize) (hfull : bytes.length = bufferSize - s.bufferPosition) :
    patch s.bufferPosition bytes buffer = buffer.take s.bufferPosition ++ bytes := by
  rw [patch, hfull, List.drop_eq_nil_of_le (by omega), List.append_nil]

theorem streamPass_end (hr : read s.socket (bufferSize - s.bufferPosition) = .done (bytes, socket))
    (hbuf : s.buffer = some buffer) (hpos : s.bufferPosition ≤ buffer.length)
    (htotal : s.totalBytesRead + bytes.length = size)
    (hpend : buffer.take s.bufferPosition ++ bytes = nodes.flatten)
    (hn : ∀ node ∈ nodes, Storable md dim node) (hne : nodes ≠ [])
    (hrange : s.lastDataBlock ≠ InvalidBlockNumber →
      1 ≤ s.lastDataBlock ∧ s.lastDataBlock ≤ s.pages.length)
    (hroom : s.tuplesIndexed + nodes.length ≤ room) (hf : 2 * nodes.length < fuel) :
    streamPass read md dim room bufferSize fuel size s =
      (foldSteps (addNode md dim) nodes
        (openPage s.pages s.lastDataBlock s.tuplesIndexed s.itemPointers)).map fun t =>
          ⟨socket, none, bufferSize - nodes.flatten.length, size, t.nodeId, (closePage t).pages,
            t.lastBlock, t.itemPointers⟩ := by
  have hpositive : ∀ node ∈ nodes, 0 < node.length := fun node h => by
    have := (hn node h).head_le
    omega
  have hfill : patch s.bufferPosition bytes buffer =
      nodes.flatten ++ buffer.drop (s.bufferPosition + bytes.length) := by
    rw [patch, hpend]
  have hsize : s.bufferPosition + bytes.length = nodes.flatten.length := by
    rw [← hpend, List.length_append, List.length_take]
    omega
  simp only [streamPass, hbuf, hr, Outcome.bind_done, htotal, if_true, hfill, hsize]
  rw [storeExternalIndexNodes_eq hn hne hrange (reaches_all hpositive) hroom hf, Outcome.bind_map]
  rfl

end Pass

/-- Loop head: the bytes in the buffer and on the socket are the nodes `todo`. -/
structure AtHead (rem : σ → List UInt8) (bufferSize numAddedVectors indexFileSize : ℕ)
    (todo : List (List UInt8)) (buffer : List UInt8) (s : StreamState σ) : Prop where
  buffer_eq : s.buffer = some buffer
  length_eq : buffer.length = bufferSize
  position_le : s.bufferPosition ≤ BLCKSZ
  pending : todo.flatten = buffer.take s.bufferPosition ++ rem s.socket
  total_eq : s.totalBytesRead + (rem s.socket).length = indexFileSize
  count_eq : s.tuplesIndexed + todo.length = numAddedVectors
  in_range : s.lastDataBlock ≠ InvalidBlockNumber →
    1 ≤ s.lastDataBlock ∧ s.lastDataBlock ≤ s.pages.length

theorem streamPass_last (hread : Delivers read rem) {fuel n size : ℕ} {buffer : List UInt8}
    {s : StreamState σ} (hs : AtHead rem bufferSize n size todo buffer s)
    (hn : ∀ node ∈ todo, Storable md dim node) (hne : todo ≠ []) (hroom : n ≤ room)
    (hf : 2 * todo.length < fuel) (hB : BLCKSZ ≤ bufferSize)
    (hlast : (rem s.socket).length ≤ bufferSize - s.bufferPosition) :
    ∃ socket position, streamPass read md dim room bufferSize fuel size s =
      (foldSteps (addNode md dim) todo
        (openPage s.pages s.lastDataBlock s.tuplesIndexed s.itemPointers)).map fun t =>
          ⟨socket, none, position, size, t.nodeId, (closePage t).pages, t.lastBlock,
            t.itemPointers⟩ := by
  obtain ⟨socket, hr, -⟩ := hread s.socket (bufferSize - s.bufferPosition)
  rw [List.take_of_length_le hlast] at hr
  have hpos := hs.position_le
  have hlen := hs.length_eq
  have hcount := hs.count_eq
  exact ⟨socket, _, streamPass_end hr hs.buffer_eq (by omega) hs.total_eq hs.pending.symm hn hne
    hs.in_range (by omega) hf⟩

theorem exists_stored_nodes {filled after : List UInt8} (hn : ∀ node ∈ todo, Storable md dim node)
    (hB : 2 * BLCKSZ < bufferSize) (hfilled : filled.length = bufferSize)
    (hpend : todo.flatten = filled ++ after) :
    ∃ xs ys rest, todo = xs ++ ys ∧ xs ≠ [] ∧ Reaches (bufferSize - BLCKSZ) 0 xs ∧
      filled = xs.flatten ++ rest ∧ ys.flatten = rest ++ after := by
  have hblk : BLCKSZ = 8192 := rfl
  have hall : todo.flatten.length = bufferSize + after.length := by
    rw [hpend, List.length_append, hfilled]
  obtain ⟨xs, ys, rfl, hx, hreach, hlt⟩ := @exists_reaches 8140 0 (bufferSize - BLCKSZ) todo
    (fun node h => fitsFreshPage_le (hn node h).fits) (by omega) (by omega)
  rw [List.flatten_append] at hpend
  rcases List.append_eq_append_iff.mp hpend with ⟨rest, h1, h2⟩ | ⟨rest, h1, -⟩
  · exact ⟨xs, ys, rest, rfl, hx, hreach, h1, h2⟩
  · have hover : xs.flatten.length = filled.length + rest.length := by rw [h1, List.length_append]
    omega

theorem streamPass_refill (hread : Delivers read rem) {fuel n size : ℕ} {buffer : List UInt8}
    {s : StreamState σ} (hs : AtHead rem bufferSize n size todo buffer s)
    (hn : ∀ node ∈ todo, Storable md dim node) (hroom : n ≤ room) (hf : 2 * todo.length < fuel)
    (hB : 2 * BLCKSZ < bufferSize) (hmore : bufferSize - s.bufferPosition < (rem s.socket).length) :
    ∃ xs ys buffer' socket position total, todo = xs ++ ys ∧ xs ≠ [] ∧ ys ≠ [] ∧
      streamPass read md dim room bufferSize fuel size s =
        ((foldSteps (addNode md dim) xs
          (openPage s.pages s.lastDataBlock s.tuplesIndexed s.itemPointers)).map fun t =>
            ⟨socket, some buffer', position, total, t.nodeId, (closePage t).pages, t.lastBlock,
              t.itemPointers⟩) ∧
      ∀ t, foldSteps (addNode md dim) xs
          (openPage s.pages s.lastDataBlock s.tuplesIndexed s.itemPointers) = .done t →
        AtHead rem bufferSize n size ys buffer'
          ⟨socket, some buffer', position, total, t.nodeId, (closePage t).pages, t.lastBlock,
            t.itemPointers⟩ := by
  have hpos := hs.position_le
  have hlen := hs.length_eq
  have htotal := hs.total_eq
  obtain ⟨socket, hr, hrem⟩ := hread s.socket (bufferSize - s.bufferPosition)
  have hfull : ((rem s.socket).take (bufferSize - s.bufferPosition)).length =
      bufferSize - s.bufferPosition := by
    rw [List.length_take]
    omega
  have hsocket : (rem socket).length + (bufferSize - s.bufferPosition) = (rem s.socket).length := by
    rw [hrem, List.length_drop]
    omega
  have hfilled : (buffer.take s.bufferPosition ++
      (rem s.socket).take (bufferSize - s.bufferPosition)).length = bufferSize := by
    rw [List.length_append, hfull, List.length_take]
    omega
  have hpend : todo.flatten = (buffer.take s.bufferPosition ++
      (rem s.socket).take (bufferSize - s.bufferPosition)) ++ rem socket := by
    rw [hrem, List.append_assoc, List.take_append_drop]
    exact hs.pending
  obtain ⟨xs, ys, rest, rfl, hx, hreach, hxs, hys⟩ := exists_stored_nodes hn hB hfilled hpend
  have hxn : ∀ node ∈ xs, Storable md dim node := fun node h => hn node (List.mem_append_left _ h)
  have hcarry : rest.length ≤ BLCKSZ := by
    have hstop := hreach.stops
    have hsplit := congrArg List.length hxs
    rw [hfilled, List.length_append] at hsplit
    omega
  have hcount := hs.count_eq
  rw [List.length_append] at hcount
  refine ⟨xs, ys, _, socket, rest.length, _, rfl, hx, ?_, streamPass_buffer hr hs.buffer_eq
    (hxs ▸ hfilled) (by omega) ((patch_full hlen (by omega) hfull).trans hxs) hxn hx hreach
    hs.in_range (by omega) (by simp at hf; omega), ?_⟩
  · rintro rfl
    have hnil := congrArg List.length hys
    simp at hnil
    omega
  · intro t ht
    obtain ⟨hrt, hid, -⟩ := foldSteps_ready hxn (.openPage hs.in_range) ht
    have hid' : t.nodeId = s.tuplesIndexed + xs.length := hid
    refine ⟨rfl, ?_, hcarry, ?_, by simp only [hfull]; omega, by simp only; omega, ?_⟩
    · rw [patch_length (by simp), ← hxs, hfilled]
    · simp only [patch_zero, List.take_left, hys]
    · simpa only [closePage_pages_length] using hrt.in_range

theorem loop_stream_eq (hread : Delivers read rem) {inner n size : ℕ} (hB : 2 * BLCKSZ < bufferSize)
    {fuel : ℕ} {buffer : List UInt8} {s : StreamState σ}
    (hs : AtHead rem bufferSize n size todo buffer s) (hn : ∀ node ∈ todo, Storable md dim node)
    (hne : todo ≠ []) (hroom : n ≤ room) (hinner : 2 * todo.length < inner)
    (hf : todo.length < fuel) :
    (loop (fun s => s.tuplesIndexed < n) (streamPass read md dim room bufferSize inner size) fuel
        s).map StreamState.loaded =
      (foldSteps (addNode md dim) todo
        (openPage s.pages s.lastDataBlock s.tuplesIndexed s.itemPointers)).map
          fun t => loadedFrom (closePage t) := by
  induction hk : todo.length using Nat.strong_induction_on generalizing todo fuel buffer s with
  | _ k ih =>
    have hlen : 0 < todo.length := List.length_pos_iff.mpr hne
    have hcount := hs.count_eq
    obtain ⟨fuel, rfl⟩ : ∃ f, fuel = f + 2 := ⟨fuel - 2, by omega⟩
    have henter : s.tuplesIndexed < n := by omega
    have hready : Ready (openPage s.pages s.lastDataBlock s.tuplesIndexed s.itemPointers) :=
      .openPage hs.in_range
    rw [loop_enter (by simpa using henter)]
    by_cases hlast : (rem s.socket).length ≤ bufferSize - s.bufferPosition
    · obtain ⟨socket, position, hpass⟩ :=
        streamPass_last hread hs hn hne hroom hinner (by omega) hlast
      rw [hpass, Outcome.bind_map, Outcome.map_bind]
      refine Outcome.bind_eq_bind_of_map_eq (f := id) rfl ?_
      rintro t _ ht - rfl
      obtain ⟨-, hid, -⟩ := foldSteps_ready hn hready ht
      have hid' : t.nodeId = s.tuplesIndexed + todo.length := hid
      rw [loop_exit (by simp; omega), Outcome.map_done, id]
      exact congrArg Outcome.done (loadedFrom_closePage t).symm
    · obtain ⟨xs, ys, buffer', socket, position, total, rfl, hx, hy, hpass, hhead⟩ :=
        streamPass_refill hread hs hn hroom hinner hB (by omega)
      have hxn : ∀ node ∈ xs, Storable md dim node :=
        fun node h => hn node (List.mem_append_left _ h)
      have hyn : ∀ node ∈ ys, Storable md dim node :=
        fun node h => hn node (List.mem_append_right _ h)
      have hxl : 0 < xs.length := List.length_pos_iff.mpr hx
      have hreopen := congrArg (Outcome.map loadedFrom) (foldSteps_reopen hxn hyn hx hready)
      rw [Outcome.map_map, Outcome.map_bind] at hreopen
      rw [List.length_append] at hinner hf hk
      rw [← hreopen, hpass, Outcome.bind_map, Outcome.map_bind]
      refine Outcome.bind_eq_bind_of_map_eq (f := id) rfl ?_
      rintro t _ ht - rfl
      rw [Outcome.map_map]
      exact ih ys.length (by omega) (hhead t ht) hyn hy (by omega) (by omega) rfl

theorem storeStreamed_eq_storeMapped (hread : Delivers read rem) {nodes : List (List UInt8)}
    {pages : List Page} {socket : σ} {fuel : ℕ} (hB : 2 * BLCKSZ < bufferSize)
    (hn : ∀ node ∈ nodes, Storable md dim node) (hne : nodes ≠ [])
    (hsocket : rem socket = nodes.flatten) (hroom : nodes.length ≤ room)
    (hf : 2 * nodes.length + 1 < fuel) :
    storeStreamed read md dim room bufferSize fuel nodes.length
        (USEARCH_HEADER_SIZE + nodes.flatten.length) socket pages =
      storeMapped md dim room fuel nodes.length (USEARCH_HEADER_SIZE + nodes.flatten.length)
        nodes.flatten pages := by
  have hs : AtHead rem bufferSize nodes.length (USEARCH_HEADER_SIZE + nodes.flatten.length) nodes
      (List.replicate bufferSize 0) (streamInit bufferSize socket pages) := by
    refine ⟨rfl, by simp, Nat.zero_le _, ?_, ?_, ?_, fun h => absurd rfl h⟩
    · simp [streamInit, hsocket]
    · simp [streamInit, hsocket]
    · simp [streamInit]
  rw [storeMapped_eq hn hne hroom (by omega), storeStreamed]
  exact loop_stream_eq hread hB hs hn hne hroom (by omega) (by omega)

/-- Both branches store the nodes of the file with the same outcome. They return,
    with every node at its item pointer, if the levels are accepted and the relation
    has blocks for the nodes, and raise an error otherwise. No other fault is
    possible, so every node was read inside the buffer and the carry-over fits a
    page. -/
theorem streaming_agrees_with_mapping (hread : Delivers read rem) (nodes : List (List UInt8))
    (pages : List Page) (socket : σ) (fuel : ℕ) (hB : 2 * BLCKSZ < bufferSize)
    (hn : ∀ node ∈ nodes, Storable md dim node) (hne : nodes ≠ [])
    (hsocket : rem socket = nodes.flatten) (hroom : nodes.length ≤ room)
    (hf : 2 * nodes.length + 1 < fuel) (hempty : dataPages 1 pages = [])
    (hlen : pages.length < InvalidBlockNumber) :
    storeStreamed read md dim room bufferSize fuel nodes.length
        (USEARCH_HEADER_SIZE + nodes.flatten.length) socket pages =
      storeMapped md dim room fuel nodes.length (USEARCH_HEADER_SIZE + nodes.flatten.length)
        nodes.flatten pages ∧
    ((∃ l, storeMapped md dim room fuel nodes.length (USEARCH_HEADER_SIZE + nodes.flatten.length)
        nodes.flatten pages = .done l ∧ l.tupleCount = nodes.length ∧
        Placed nodes l.itemPointers l.pages) ∨
      ¬ ((∀ node ∈ nodes, levelFromNode node < 100) ∧
          pages.length + nodes.length < InvalidBlockNumber) ∧
        ∃ text, storeMapped md dim room fuel nodes.length
          (USEARCH_HEADER_SIZE + nodes.flatten.length) nodes.flatten pages =
            .fault (.elog text)) := by
  have hready : Ready (openPage pages InvalidBlockNumber 0 noItemPointers) :=
    .openPage fun h => absurd rfl h
  refine ⟨storeStreamed_eq_storeMapped hread hB hn hne hsocket hroom hf, ?_⟩
  rw [storeMapped_eq hn hne hroom (by omega)]
  rcases foldSteps_outcome hn hready with ⟨t, ht⟩ | ⟨text, ht⟩
  · have hfilled := Filled.foldSteps hn hempty hlen ht
    refine .inl ⟨loadedFrom (closePage t), by rw [ht]; rfl, ?_⟩
    rw [loadedFrom_closePage]
    exact ⟨hfilled.numbered, hfilled.placed⟩
  · refine .inr ⟨fun ⟨hlevels, hblocks⟩ => ?_, text, by rw [ht]; rfl⟩
    obtain ⟨t, hdone, -⟩ := foldSteps_total hn hlevels hready hblocks
    rw [hdone] at ht
    cases ht

end Stream

def readBytes (bytes : List UInt8) (n : ℕ) : Outcome Fault (List UInt8 × List UInt8) :=
  .done (bytes.take n, bytes.drop n)

theorem readBytes_delivers : Delivers readBytes id := fun s n => ⟨s.drop n, rfl, rfl⟩

theorem emptyNode_storable : Storable tinyMetadata 1 emptyNode := ⟨by decide, by decide⟩

theorem emptyNodes_storable (n : ℕ) :
    ∀ node ∈ List.replicate n emptyNode, Storable tinyMetadata 1 node := by
  intro node h
  rw [List.eq_of_mem_replicate h]
  exact emptyNode_storable

theorem streaming_agrees_after_refill :
    2 * BLCKSZ + 1 < (List.replicate 400 emptyNode).flatten.length ∧
    ∃ l, storeStreamed readBytes tinyMetadata 1 400 (2 * BLCKSZ + 1) 802 400
        (USEARCH_HEADER_SIZE + 16800) (List.replicate 400 emptyNode).flatten [] = .done l ∧
      storeMapped tinyMetadata 1 400 802 400 (USEARCH_HEADER_SIZE + 16800)
        (List.replicate 400 emptyNode).flatten [] = .done l ∧ l.tupleCount = 400 ∧
      Placed (List.replicate 400 emptyNode) l.itemPointers l.pages := by
  have hcount : (List.replicate 400 emptyNode).length = 400 := List.length_replicate
  have hsize : (List.replicate 400 emptyNode).flatten.length = 16800 := by
    rw [List.length_flatten, List.map_replicate, List.sum_replicate]
    rfl
  obtain ⟨hsame, hends⟩ := @streaming_agrees_with_mapping _ readBytes id tinyMetadata 1 400
    (2 * BLCKSZ + 1) readBytes_delivers (List.replicate 400 emptyNode) []
    (List.replicate 400 emptyNode).flatten 802 (by decide) (emptyNodes_storable 400)
    (List.ne_nil_of_length_pos (by rw [hcount]; decide)) rfl hcount.le (by rw [hcount]; decide)
    rfl (by decide)
  rw [hcount, hsize] at hsame hends
  refine ⟨by rw [hsize]; decide, ?_⟩
  rcases hends with ⟨l, hdone, hrest⟩ | ⟨hnot, -⟩
  · exact ⟨l, hsame.trans hdone, hdone, hrest⟩
  · refine absurd ⟨fun node h => ?_, by decide⟩ hnot
    rw [List.eq_of_mem_replicate h]
    decide

end Lantern.StoreStreaming
