import Lantern.SocketProtocol

set_option autoImplicit false

/-!
# The indexing server and the reads its stream is split into

`read_frame` looks for the four bytes of a header in its first read and fails when that
read is shorter; after an end message it forgets whatever the read returned behind it.
So what the server obtains depends on the reads.
-/
namespace Lantern.StreamSplits
open Fallible FuelLoop ByteStrings SegmentedStream SocketProtocol

/-- The data frames of a loop up to its end message, or up to an error. -/
def dataTrace (size : ℕ) (pieces : List (List UInt8)) :
    List (List UInt8) × Except String (List (List UInt8)) :=
  match _h : readFrame size none pieces with
  | .error e => ([], .error e)
  | .ok (.exit, rest) => ([], .ok rest)
  | .ok (.init _, _) => ([], .error "Invalid message received")
  | .ok (.data buf, rest) => (buf :: (dataTrace size rest).1, (dataTrace size rest).2)
termination_by pieces.flatten.length
decreasing_by all_goals exact readFrame_lt _h

def initializeIndex (pieces : List (List UInt8)) :
    Except String (IndexOptions × ℕ × ℕ × List (List UInt8)) :=
  (readFrame INDEX_HEADER_LENGTH (some EXTERNAL_INDEX_INIT_MSG) pieces).bind fun
    | (.init buf, rest) => parseIndexOptions (buf.drop 4) rest
    | _ => .error "send init message first"

/-- The parameters with the codebook, element bits and capacity; the rows; and
    whether the stream ended with an end message. -/
structure Obtained where
  options : Option (IndexOptions × ℕ × ℕ)
  rows : List (ℕ × List UInt8)
  ended : Bool
  deriving DecidableEq, Repr

def obtained (accepts : IndexOptions → ℕ → Bool) (pieces : List (List UInt8)) : Obtained :=
  match initializeIndex pieces with
  | .error _ => ⟨none, [], false⟩
  | .ok (options, elementBits, capacity, rest) =>
    if accepts options capacity then
      let t := dataTrace (rowSize elementBits options.dimensions) rest
      ⟨some (options, elementBits, capacity), t.1.map parseTuple, t.2.isOk⟩
    else ⟨some (options, elementBits, capacity), [], false⟩

def Splits (stream : List UInt8) (pieces : List (List UInt8)) : Prop :=
  Segmented pieces ∧ pieces.flatten = stream

def HeaderRead (size : ℕ) (pieces : List (List UInt8)) : Prop :=
  4 ≤ (recv size pieces).1.length ∨ size < 4 ∨ pieces.flatten.length < 4

/-- Every frame of a loop has its header read at once; where `exact` is set, the
    read that returns the end message returns nothing else. -/
def DataAligned (size : ℕ) (exact : Bool) (pieces : List (List UInt8)) : Prop :=
  HeaderRead size pieces ∧
    match _h : readFrame size none pieces with
    | .ok (.exit, _) => exact = true → (recv size pieces).1.length = 4
    | .ok (.data _, rest) => DataAligned size exact rest
    | _ => True
termination_by pieces.flatten.length
decreasing_by exact readFrame_lt _h

/-- The reads of an opening: the header at once, and the codebook aligned. -/
structure OpeningAligned (exact : Bool) (pieces : List (List UInt8)) : Prop where
  header : HeaderRead INDEX_HEADER_LENGTH pieces
  codebook : ∀ buf rest,
    readFrame INDEX_HEADER_LENGTH (some EXTERNAL_INDEX_INIT_MSG) pieces = .ok (.init buf, rest) →
    (parseParams (buf.drop 4)).pq = 1 → DataAligned ((parseParams (buf.drop 4)).dim * 4) exact rest

/-- The end of the codebook has to be read alone, as the rows follow it. -/
structure Aligned (pieces : List (List UInt8)) : Prop extends OpeningAligned true pieces where
  rows : ∀ options elementBits capacity rest,
    initializeIndex pieces = .ok (options, elementBits, capacity, rest) →
    DataAligned (rowSize elementBits options.dimensions) false rest

def frameOf (size : ℕ) (hdr : Option ℕ) (bytes : List UInt8) :
    Except String (ProtocolMessage × List UInt8) :=
  if size < 4 ∨ bytes.length < 4 then .error "Invalid frame received"
  else if leNat (bytes.take 4) = EXTERNAL_INDEX_END_MSG then .ok (.exit, bytes.drop 4)
  else if hdr.any (· ≠ leNat (bytes.take 4)) then .error "Invalid message header"
  else if bytes.length < size then .error "failed to fill whole buffer"
  else if leNat (bytes.take 4) = EXTERNAL_INDEX_INIT_MSG then .ok (.init (bytes.take size),
    bytes.drop size)
  else .ok (.data (bytes.take size), bytes.drop size)

theorem readFrame_eq {size : ℕ} {hdr : Option ℕ} {pieces : List (List UInt8)}
    (h : HeaderRead size pieces) :
    (readFrame size hdr pieces).map (fun r => (r.1, r.2.flatten)) =
      (frameOf size hdr pieces.flatten).map fun r =>
        (r.1, if r.1 = .exit then pieces.flatten.drop (recv size pieces).1.length else r.2) := by
  have hle := recv_length_le size pieces
  have hread := recv_eq_take size pieces
  have hrest := recv_rest size pieces
  have hlen : (recv size pieces).1.length ≤ pieces.flatten.length := by
    have := congrArg List.length (recv_append size pieces)
    rw [List.length_append] at this
    omega
  have happ := recv_append size pieces
  unfold HeaderRead at h
  unfold readFrame frameOf
  generalize (recv size pieces) = r at h hle hread hrest hlen happ ⊢
  obtain ⟨got, rest⟩ := r
  simp only at h hle hread hrest hlen happ ⊢
  by_cases hfour : 4 ≤ got.length
  · have hhead : got.take 4 = pieces.flatten.take 4 := by
      rw [hread, List.take_take, min_eq_left hfour]
    have hgot : ¬got.length < 4 := by omega
    have hstream : ¬(size < 4 ∨ pieces.flatten.length < 4) := by omega
    rw [if_neg hgot, if_neg hstream, hhead]
    by_cases hend : leNat (pieces.flatten.take 4) = EXTERNAL_INDEX_END_MSG
    · rw [if_pos hend, if_pos hend]
      simp [Except.map, hrest]
    rw [if_neg hend, if_neg hend]
    by_cases hhdr : hdr.any (· ≠ leNat (pieces.flatten.take 4))
    · rw [if_pos hhdr, if_pos hhdr]
      rfl
    rw [if_neg hhdr, if_neg hhdr]
    cases hexact : recvExact (size - got.length) rest with
    | none =>
      have hshort := recvExact_none hexact
      rw [hrest, List.length_drop] at hshort
      rw [if_pos (by omega)]
      rfl
    | some m =>
      have hmore := recvExact_length hexact
      have hsplit : (got ++ m.1) ++ m.2.flatten = pieces.flatten := by
        rw [List.append_assoc, recvExact_append hexact, happ]
      have hsize : (got ++ m.1).length = size := by
        rw [List.length_append]
        omega
      have htake : pieces.flatten.take size = got ++ m.1 := by rw [← hsplit, List.take_left' hsize]
      have hdrop : pieces.flatten.drop size = m.2.flatten := by rw [← hsplit, List.drop_left' hsize]
      have hfull : ¬pieces.flatten.length < size := by
        rw [← hsplit, List.length_append]
        omega
      rw [if_neg hfull, htake, hdrop]
      by_cases hinit : leNat (pieces.flatten.take 4) = EXTERNAL_INDEX_INIT_MSG
      · simp [hinit, Except.map]
      · simp [hinit, Except.map]
  · rw [if_pos (by omega), if_pos (by omega)]
    rfl

variable {hdr : Option ℕ} {msg : ProtocolMessage} {buf : List UInt8}

theorem frameOf_lt {size : ℕ} {bytes rest : List UInt8}
    (h : frameOf size hdr bytes = .ok (msg, rest)) : rest.length < bytes.length := by
  unfold frameOf at h
  split at h
  · cases h
  rename_i hlong
  split at h
  · cases h
    rw [List.length_drop]
    omega
  split at h
  · cases h
  split at h
  · cases h
  split at h <;> cases h <;> rw [List.length_drop] <;> omega

def dataOf (size : ℕ) (bytes : List UInt8) : List (List UInt8) × Except String (List UInt8) :=
  match _h : frameOf size none bytes with
  | .error e => ([], .error e)
  | .ok (.exit, rest) => ([], .ok rest)
  | .ok (.init _, _) => ([], .error "Invalid message received")
  | .ok (.data buf, rest) => (buf :: (dataOf size rest).1, (dataOf size rest).2)
termination_by bytes.length
decreasing_by all_goals exact frameOf_lt _h

section Loop
variable {size : ℕ} {pieces rest : List (List UInt8)}

theorem dataOf_error {bytes : List UInt8} {e : String} (h : frameOf size none bytes = .error e) :
    dataOf size bytes = ([], .error e) := by
  rw [dataOf]
  split <;> simp_all

theorem dataOf_exit {bytes rest : List UInt8} (h : frameOf size none bytes = .ok (.exit, rest)) :
    dataOf size bytes = ([], .ok rest) := by
  rw [dataOf]
  split <;> simp_all

theorem dataOf_init {bytes rest : List UInt8}
    (h : frameOf size none bytes = .ok (.init buf, rest)) :
    dataOf size bytes = ([], .error "Invalid message received") := by
  rw [dataOf]
  split <;> simp_all

theorem dataOf_data {bytes rest : List UInt8}
    (h : frameOf size none bytes = .ok (.data buf, rest)) :
    dataOf size bytes = (buf :: (dataOf size rest).1, (dataOf size rest).2) := by
  rw [dataOf]
  split <;> simp_all

theorem frameOf_of_error {hdr : Option ℕ} {e : String} (h : HeaderRead size pieces)
    (hread : readFrame size hdr pieces = .error e) :
    frameOf size hdr pieces.flatten = .error e := by
  have heq := @readFrame_eq size hdr pieces h
  rw [hread] at heq
  cases hf : frameOf size hdr pieces.flatten with
  | error e' =>
    rw [hf] at heq
    cases heq
    rfl
  | ok r =>
    rw [hf] at heq
    cases heq

theorem frameOf_of_ok {hdr : Option ℕ} {msg : ProtocolMessage} (h : HeaderRead size pieces)
    (hread : readFrame size hdr pieces = .ok (msg, rest)) :
    ∃ tail, frameOf size hdr pieces.flatten = .ok (msg, tail) ∧
      rest.flatten = if msg = .exit then pieces.flatten.drop
        (recv size pieces).1.length else tail := by
  have heq := @readFrame_eq size hdr pieces h
  rw [hread] at heq
  cases hf : frameOf size hdr pieces.flatten with
  | error e =>
    rw [hf] at heq
    cases heq
  | ok r =>
    rw [hf] at heq
    simp only [Except.map, Except.ok.injEq, Prod.mk.injEq] at heq
    obtain ⟨hmsg, hrest⟩ := heq
    refine ⟨r.2, ?_, ?_⟩
    · rw [hmsg]
    · rw [hrest, hmsg]

theorem frameOf_of_message (h : HeaderRead size pieces)
    (hread : readFrame size hdr pieces = .ok (msg, rest)) (hmsg : msg ≠ .exit) :
    frameOf size hdr pieces.flatten = .ok (msg, rest.flatten) := by
  obtain ⟨tail, hf, hrest⟩ := frameOf_of_ok h hread
  rw [if_neg hmsg] at hrest
  rw [hf, hrest]

theorem frameOf_exit {bytes tail : List UInt8} (h : frameOf size hdr bytes = .ok (.exit, tail)) :
    tail = bytes.drop 4 := by
  unfold frameOf at h
  split at h
  · cases h
  split at h
  · cases h
    rfl
  split at h
  · cases h
  split at h
  · cases h
  split at h <;> cases h

theorem headerRead_of_ok {r : ProtocolMessage × List (List UInt8)}
    (h : readFrame size hdr pieces = .ok r) : HeaderRead size pieces := by
  simp only [readFrame] at h
  split at h
  · cases h
  · rename_i hlong
    exact .inl (by omega)

theorem dataAligned_data {exact : Bool} (h : readFrame size none pieces = .ok (.data buf, rest)) :
    DataAligned size exact pieces ↔ DataAligned size exact rest := by
  have hheader := headerRead_of_ok h
  conv_lhs => rw [DataAligned]
  split <;> simp_all

theorem dataAligned_exit {exact : Bool} (h : readFrame size none pieces = .ok (.exit, rest)) :
    DataAligned size exact pieces ↔ (exact = true → (recv size pieces).1.length = 4) := by
  have hheader := headerRead_of_ok h
  rw [DataAligned]
  split <;> simp_all

theorem dataAligned_init {exact : Bool} (h : readFrame size none pieces = .ok (.init buf, rest)) :
    DataAligned size exact pieces := by
  have hheader := headerRead_of_ok h
  rw [DataAligned]
  split <;> simp_all

theorem DataAligned.header {exact : Bool} (h : DataAligned size exact pieces) :
    HeaderRead size pieces := by
  rw [DataAligned] at h
  exact h.1

theorem dataTrace_of_aligned {exact : Bool} (h : DataAligned size exact pieces) :
    (dataTrace size pieces).1 = (dataOf size pieces.flatten).1 ∧
      (dataTrace size pieces).2.map (fun _ => ()) =
        (dataOf size pieces.flatten).2.map (fun _ => ()) ∧
      (exact = true →
        (dataTrace size pieces).2.map List.flatten = (dataOf size pieces.flatten).2) := by
  fun_induction dataTrace size pieces with
  | case1 pieces e hread =>
    rw [dataOf_error (frameOf_of_error h.header hread)]
    exact ⟨rfl, rfl, fun _ => rfl⟩
  | case2 pieces rest hread =>
    obtain ⟨tail, hf, hrest⟩ := frameOf_of_ok h.header hread
    rw [dataOf_exit hf]
    refine ⟨rfl, rfl, fun hexact => ?_⟩
    rw [if_pos rfl, (dataAligned_exit hread).mp h hexact, ← frameOf_exit hf] at hrest
    exact congrArg Except.ok hrest
  | case3 pieces buf rest hread =>
    rw [dataOf_init (frameOf_of_message h.header hread (by simp))]
    exact ⟨rfl, rfl, fun _ => rfl⟩
  | case4 pieces buf rest hread ih =>
    obtain ⟨hframes, hok, hrest⟩ := ih ((dataAligned_data hread).mp h)
    rw [dataOf_data (frameOf_of_message h.header hread (by simp))]
    exact ⟨by rw [hframes], hok, hrest⟩

theorem aligned_of_isOk (h : (dataTrace size pieces).2.isOk = true) :
    DataAligned size false pieces := by
  fun_induction dataTrace size pieces with
  | case1 pieces e hread => cases h
  | case2 pieces rest hread =>
    rw [dataAligned_exit hread]
    exact fun hf => absurd hf (by decide)
  | case3 pieces buf rest hread => cases h
  | case4 pieces buf rest hread ih => exact (dataAligned_data hread).mpr (ih h)

theorem recv_whole (h : pieces.length ≤ 1) : (recv size pieces).2.length ≤ 1 := by
  cases pieces with
  | nil => simp [recv]
  | cons piece pieces =>
    obtain rfl : pieces = [] := by simpa using h
    simp only [recv]
    split <;> simp

theorem recvExact_whole {n : ℕ} {r : List UInt8 × List (List UInt8)} (h : pieces.length ≤ 1)
    (hr : recvExact n pieces = some r) : r.2.length ≤ 1 := by
  cases n with
  | zero =>
    cases pieces <;> cases hr <;> exact h
  | succ n =>
    cases pieces with
    | nil => cases hr
    | cons piece pieces =>
      obtain rfl : pieces = [] := by simpa using h
      simp only [recvExact] at hr
      split at hr
      · obtain ⟨q, hq, rfl⟩ := Option.map_eq_some_iff.mp hr
        cases hn : n + 1 - piece.length with
        | zero =>
          rw [hn] at hq
          cases hq
          simp
        | succ k =>
          rw [hn] at hq
          cases hq
      · cases hr
        simp

theorem headerRead_whole (h : pieces.length ≤ 1) : HeaderRead size pieces := by
  cases pieces with
  | nil => exact .inr (.inr (by simp))
  | cons piece pieces =>
    obtain rfl : pieces = [] := by simpa using h
    simp only [HeaderRead, recv, List.flatten_cons, List.flatten_nil, List.append_nil]
    split <;> simp <;> omega

theorem readFrame_whole (h : pieces.length ≤ 1)
    (hread : readFrame size hdr pieces = .ok (msg, rest)) : rest.length ≤ 1 := by
  have hrest := @recv_whole size pieces h
  simp only [readFrame] at hread
  split at hread
  · cases hread
  split at hread
  · cases hread
    exact hrest
  split at hread
  · cases hread
  split at hread
  · cases hread
  rename_i more rest' hexact
  have hwhole := recvExact_whole hrest hexact
  split at hread <;> cases hread <;> exact hwhole

theorem aligned_whole (h : pieces.length ≤ 1) : DataAligned size false pieces := by
  fun_induction dataTrace size pieces with
  | case1 pieces e hread =>
    rw [DataAligned]
    refine ⟨headerRead_whole h, ?_⟩
    split <;> simp_all
  | case2 pieces rest hread =>
    rw [dataAligned_exit hread]
    exact fun hf => absurd hf (by decide)
  | case3 pieces buf rest hread => exact dataAligned_init hread
  | case4 pieces buf rest hread ih =>
    exact (dataAligned_data hread).mpr (ih (readFrame_whole h hread))

theorem receiveData_eq :
    receiveData size pieces = (dataTrace size pieces).2.map fun rest =>
      ((dataTrace size pieces).1, rest) := by
  fun_induction dataTrace size pieces with
  | case1 pieces e hread =>
    rw [receiveData]
    split <;> simp_all [Except.map]
  | case2 pieces rest hread => exact receiveData_exit hread
  | case3 pieces buf rest hread => exact receiveData_init hread
  | case4 pieces buf rest hread ih =>
    rw [receiveData_data hread, ih]
    cases (dataTrace size rest).2 <;> rfl

end Loop

def codebookOf (pq : Bool) (dim : ℕ) (bytes : List UInt8) :
    Except String (Option (List UInt32) × List UInt8) :=
  if pq then
    (dataOf (dim * 4) bytes).2.map fun rest =>
      (some ((dataOf (dim * 4) bytes).1.flatMap bytesToF32VecLe), rest)
  else .ok (none, bytes)

def withCodebook {β : Type} (buf : List UInt8)
    (codebook : Bool → ℕ → Except String (Option (List UInt32) × β)) :
    Except String (IndexOptions × ℕ × ℕ × β) :=
  let p := parseParams buf
  (scalarKindOf p.quantization).bind fun quantization =>
    (UMetricKind.fromU32 p.metricKind).bind fun metric =>
      (codebook (p.pq = 1) p.dim).map fun r =>
        (⟨p.dim, metric, quantization, p.m, p.efConstruction, p.ef, p.pq = 1, p.pq = 1,
          p.numCentroids, p.numSubvectors, r.1⟩, p.elementBits, p.estimatedCapacity, r.2)

theorem parseIndexOptions_eq (buf : List UInt8) (pieces : List (List UInt8)) :
    parseIndexOptions buf pieces = withCodebook buf fun pq dim =>
      receiveCodebook pq dim pieces := rfl

theorem withCodebook_map {β γ : Type} (f : β → γ) (buf : List UInt8)
    (codebook : Bool → ℕ → Except String (Option (List UInt32) × β)) :
    (withCodebook buf codebook).map (fun r => (r.1, r.2.1, r.2.2.1, f r.2.2.2)) =
      withCodebook buf fun pq dim => (codebook pq dim).map fun r => (r.1, f r.2) := by
  unfold withCodebook
  dsimp only
  cases scalarKindOf (parseParams buf).quantization with
  | error e => rfl
  | ok quantization =>
    simp only [Except.bind]
    cases UMetricKind.fromU32 (parseParams buf).metricKind with
    | error e => rfl
    | ok metric =>
      simp only
      cases codebook (decide ((parseParams buf).pq = 1)) (parseParams buf).dim <;> rfl

theorem withCodebook_congr {β : Type} {f g : Bool → ℕ → Except String (Option (List UInt32) × β)}
    (h : f (decide ((parseParams buf).pq = 1)) (parseParams buf).dim =
      g (decide ((parseParams buf).pq = 1)) (parseParams buf).dim) :
    withCodebook buf f = withCodebook buf g := by
  unfold withCodebook
  simp only [h]

def initializeOf (bytes : List UInt8) : Except String (IndexOptions × ℕ × ℕ × List UInt8) :=
  (frameOf INDEX_HEADER_LENGTH (some EXTERNAL_INDEX_INIT_MSG) bytes).bind fun
    | (.init buf, rest) => withCodebook (buf.drop 4) fun pq dim => codebookOf pq dim rest
    | _ => .error "send init message first"

section Opening
variable {pieces rest : List (List UInt8)} {exact : Bool}

theorem receiveCodebook_of_aligned {pq : Bool} {dim : ℕ}
    (h : pq = true → DataAligned (dim * 4) exact pieces) :
    (receiveCodebook pq dim pieces).map (fun r => (r.1, ())) =
        (codebookOf pq dim pieces.flatten).map (fun r => (r.1, ())) ∧
      (exact = true → (receiveCodebook pq dim pieces).map (fun r => (r.1, r.2.flatten)) =
        codebookOf pq dim pieces.flatten) := by
  cases pq with
  | false => exact ⟨rfl, fun _ => rfl⟩
  | true =>
    obtain ⟨hframes, hok, hrest⟩ := dataTrace_of_aligned (h rfl)
    simp only [receiveCodebook, codebookOf, if_true, receiveData_eq, hframes]
    constructor
    · have hmap := congrArg (Except.map fun _ =>
        (some ((dataOf (dim * 4) pieces.flatten).1.flatMap bytesToF32VecLe), ())) hok
      rw [map_map, map_map] at hmap
      rw [map_map, map_map, map_map]
      exact hmap
    · intro hexact
      rw [← hrest hexact]
      cases (dataTrace (dim * 4) pieces).2 <;> rfl

theorem initializeIndex_of_aligned (h : OpeningAligned exact pieces) :
    (initializeIndex pieces).map (fun r => (r.1, r.2.1, r.2.2.1, ())) =
        (initializeOf pieces.flatten).map (fun r => (r.1, r.2.1, r.2.2.1, ())) ∧
      (exact = true →
        (initializeIndex pieces).map (fun r => (r.1, r.2.1, r.2.2.1, r.2.2.2.flatten)) =
        initializeOf pieces.flatten) := by
  unfold initializeIndex initializeOf
  cases hread : readFrame INDEX_HEADER_LENGTH (some EXTERNAL_INDEX_INIT_MSG) pieces with
  | error e =>
    rw [frameOf_of_error h.header hread]
    exact ⟨rfl, fun _ => rfl⟩
  | ok r =>
    obtain ⟨msg, rest⟩ := r
    cases msg with
    | exit =>
      obtain ⟨tail, hf, -⟩ := frameOf_of_ok h.header hread
      rw [hf]
      exact ⟨rfl, fun _ => rfl⟩
    | data buf =>
      rw [frameOf_of_message h.header hread (by simp)]
      exact ⟨rfl, fun _ => rfl⟩
    | init buf =>
      rw [frameOf_of_message h.header hread (by simp)]
      have hcodebook :=
        @receiveCodebook_of_aligned rest exact (decide ((parseParams (buf.drop 4)).pq = 1))
        (parseParams (buf.drop 4)).dim fun hpq => h.codebook buf rest hread (of_decide_eq_true hpq)
      simp only [Except.bind, parseIndexOptions_eq]
      constructor
      · rw [withCodebook_map fun _ => (), withCodebook_map fun _ => ()]
        exact withCodebook_congr hcodebook.1
      · intro hexact
        rw [withCodebook_map List.flatten]
        exact withCodebook_congr (hcodebook.2 hexact)

theorem openingAligned_whole (h : pieces.length ≤ 1) : OpeningAligned false pieces where
  header := headerRead_whole h
  codebook := fun _ _ hread _ => aligned_whole (readFrame_whole h hread)

theorem openingAligned_of_ok {r : IndexOptions × ℕ × ℕ × List (List UInt8)}
    (h : initializeIndex pieces = .ok r) :
    OpeningAligned false pieces := by
  obtain ⟨⟨msg, rest⟩, hread, hparse⟩ := bind_eq_ok.mp h
  refine ⟨headerRead_of_ok hread, fun buf rest' hread' hpq => ?_⟩
  rw [hread] at hread'
  cases hread'
  simp only [parseIndexOptions] at hparse
  obtain ⟨quantization, -, hmetric⟩ := bind_eq_ok.mp hparse
  obtain ⟨metric, -, hmap⟩ := bind_eq_ok.mp hmetric
  obtain ⟨c, hc, -⟩ := map_eq_ok.mp hmap
  rw [receiveCodebook, if_pos (decide_eq_true hpq), receiveData_eq] at hc
  obtain ⟨d, hd, -⟩ := map_eq_ok.mp hc
  obtain ⟨t, ht, -⟩ := map_eq_ok.mp hd
  exact aligned_of_isOk (by rw [ht]; rfl)

end Opening

section Sessions
variable {accepts : IndexOptions → ℕ → Bool}

/-- What is obtained from a stream if the reads respect its frames. -/
def obtainedOf (accepts : IndexOptions → ℕ → Bool) (stream : List UInt8) : Obtained :=
  match initializeOf stream with
  | .error _ => ⟨none, [], false⟩
  | .ok (options, elementBits, capacity, rest) =>
    if accepts options capacity then
      let t := dataOf (rowSize elementBits options.dimensions) rest
      ⟨some (options, elementBits, capacity), t.1.map parseTuple, t.2.isOk⟩
    else ⟨some (options, elementBits, capacity), [], false⟩

theorem obtained_of_aligned {pieces : List (List UInt8)} (h : Aligned pieces) :
    obtained accepts pieces = obtainedOf accepts pieces.flatten := by
  have hinit := (initializeIndex_of_aligned h.toOpeningAligned).2 rfl
  unfold obtained obtainedOf
  rw [← hinit]
  cases hopen : initializeIndex pieces with
  | error e => rfl
  | ok r =>
    obtain ⟨options, elementBits, capacity, rest⟩ := r
    obtain ⟨hframes, hok, -⟩ := dataTrace_of_aligned (h.rows _ _ _ _ hopen)
    have hended := congrArg Except.isOk hok
    rw [isOk_map, isOk_map] at hended
    simp only [Except.map, hframes, hended]

theorem obtained_options (pieces : List (List UInt8)) :
    (obtained accepts pieces).options =
      ((initializeIndex pieces).map fun r => (r.1, r.2.1, r.2.2.1, ())).toOption.map
        fun t => (t.1, t.2.1, t.2.2.1) := by
  unfold obtained
  cases initializeIndex pieces with
  | error e => rfl
  | ok r =>
    simp only
    split <;> rfl

theorem options_whole {pieces : List (List UInt8)} (h : (obtained accepts pieces).options ≠ none) :
    (obtained accepts [pieces.flatten]).options = (obtained accepts pieces).options := by
  rw [obtained_options] at h
  cases hopen : initializeIndex pieces with
  | error e =>
    rw [hopen] at h
    exact absurd rfl h
  | ok r =>
    have hthis := (initializeIndex_of_aligned (openingAligned_of_ok hopen)).1
    have hwhole := (initializeIndex_of_aligned (@openingAligned_whole [pieces.flatten] (by simp))).1
    rw [List.flatten_singleton] at hwhole
    rw [obtained_options, obtained_options, hthis, hwhole]

theorem obtained_of_none {pieces : List (List UInt8)}
    (h : (obtained accepts pieces).options = none) :
    obtained accepts pieces = ⟨none, [], false⟩ := by
  unfold obtained at h ⊢
  cases hopen : initializeIndex pieces with
  | error e => rfl
  | ok r =>
    rw [hopen] at h
    simp only at h
    split at h <;> cases h

theorem obtained_bytewise (stream : List UInt8) :
    obtained accepts (stream.map fun b => [b]) = ⟨none, [], false⟩ := by
  have hread :
      readFrame INDEX_HEADER_LENGTH (some EXTERNAL_INDEX_INIT_MSG) (stream.map fun b => [b]) =
      .error "Invalid frame received" := by
    cases stream with
    | nil => rfl
    | cons b stream => rfl
  rw [obtained, initializeIndex, hread]
  rfl

theorem splits_bytewise (stream : List UInt8) : Splits stream (stream.map fun b => [b]) := by
  constructor
  · intro piece hpiece
    obtain ⟨b, -, rfl⟩ := List.mem_map.mp hpiece
    exact List.cons_ne_nil _ _
  · induction stream with
    | nil => rfl
    | cons b stream ih => simp [ih]

/-- Aligned reads agree on every stream. All reads agree only on a stream that the
    server refuses before it has the parameters. -/
theorem splits_agree (accepts : IndexOptions → ℕ → Bool) (stream : List UInt8) :
    (∀ p q, Splits stream p → Splits stream q → Aligned p → Aligned q →
      obtained accepts p = obtained accepts q) ∧
    ((∀ p q, Splits stream p → Splits stream q → obtained accepts p = obtained accepts q) ↔
      (obtained accepts [stream]).options = none) := by
  refine ⟨fun p q hp hq hap haq => ?_, fun h => ?_, fun h p q hp hq => ?_⟩
  · rw [obtained_of_aligned hap, obtained_of_aligned haq, hp.2, hq.2]
  · by_cases hne : stream = []
    · rw [hne]
      rfl
    · have hone : Splits stream [stream] := ⟨by simpa [Segmented] using hne, by simp⟩
      rw [h _ _ hone (splits_bytewise stream), obtained_bytewise]
  · have hnone : ∀ r, Splits stream r → obtained accepts r = ⟨none, [], false⟩ := by
      intro r hr
      refine obtained_of_none ?_
      by_contra hsome
      rw [← hr.2, options_whole hsome] at h
      exact hsome h
    rw [hnone p hp, hnone q hq]

end Sessions

def shortSession : List (List UInt8) :=
  [initFrame (lineSession .distL2sqOps none).indexParams, endFrame]

def planeParams : IndexParams := ⟨1, 3, 1, 2, 16, 128, 64, 1, 1, 1, 32⟩

def planeRow : List UInt8 := leBytes 8 5 ++ wordBytes [6, 7]

/-- A first read of one byte ends a session. With a codebook, a read that goes on
    after its end message takes the beginning of the next row away: a wrong row
    is obtained. -/
theorem reads_disagree :
    (∃ p q, Splits shortSession.flatten p ∧ Splits shortSession.flatten q ∧
      (obtained (fun _ _ => true) p).ended = true ∧
        obtained (fun _ _ => true) q = ⟨none, [], false⟩) ∧
    (∃ p q, p.flatten = q.flatten ∧ Segmented p ∧ Segmented q ∧
      (obtained (fun _ _ => true) p).rows = [parseTuple planeRow] ∧
      (obtained (fun _ _ => true) p).ended = true ∧
      (obtained (fun _ _ => true) q).rows = [parseTuple (planeRow.drop 4 ++ endFrame)] ∧
      (obtained (fun _ _ => true) q).ended = false) := by
  constructor
  · refine ⟨shortSession, [shortSession.flatten.take 1, shortSession.flatten.drop 1],
      ⟨by unfold Segmented; decide, rfl⟩, ⟨by unfold Segmented; decide, by decide⟩, ?_, ?_⟩
    · decide +kernel
    · decide +kernel
  · refine ⟨[initFrame planeParams, wordBytes [1, 2], endFrame, planeRow, endFrame],
      [initFrame planeParams, wordBytes [1, 2], endFrame ++ planeRow, endFrame],
      rfl, by unfold Segmented; decide, by unfold Segmented; decide, ?_⟩
    decide +kernel

end Lantern.StreamSplits
