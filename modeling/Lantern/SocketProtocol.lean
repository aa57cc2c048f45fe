import Lantern.SegmentedStream
import Lantern.IndexRelation
import Lantern.Fallible

set_option autoImplicit false

/-!
# The external index session: what the client writes and the server parses

The client writes a frame with the index parameters, for a product-quantised
index the rows of its codebook and an end frame, then one frame for each tuple
and an end frame. Frames carry no type: the server looks for the magic numbers
in the first four bytes of every frame, codebook rows and tuples included.
-/
namespace Lantern.SocketProtocol
open Fallible FuelLoop ByteStrings SegmentedStream NodeLayout IndexRelation

def EXTERNAL_INDEX_INIT_MSG : ℕ := 0x13333337
def EXTERNAL_INDEX_END_MSG : ℕ := 0x31333337

inductive HnswColumnType where
  | realArray
  | vector
  | intArray
  deriving DecidableEq, Repr

inductive OperatorClass where
  | distL2sqOps
  | distCosOps
  | distHammingOps
  | distVecL2sqOps
  | distVecCosOps
  deriving DecidableEq, Repr

def OperatorClass.columnType : OperatorClass → HnswColumnType
  | .distL2sqOps => .realArray
  | .distCosOps => .realArray
  | .distHammingOps => .intArray
  | .distVecL2sqOps => .vector
  | .distVecCosOps => .vector

def OperatorClass.metricKind : OperatorClass → MetricKind
  | .distL2sqOps => .l2sq
  | .distCosOps => .cos
  | .distHammingOps => .hamming
  | .distVecL2sqOps => .l2sq
  | .distVecCosOps => .cos

/-- The values of `quant_bits` for which a build does not fail. -/
inductive QuantBits where
  | unset
  | bits1
  | bits8
  | bits16
  | bits32
  deriving DecidableEq, Repr

def QuantBits.scalarKind : QuantBits → ScalarKind
  | .unset => .f32
  | .bits32 => .f32
  | .bits16 => .f16
  | .bits8 => .i8
  | .bits1 => .b1

def scalarKindOf : ℕ → Except String ScalarKind
  | 0 => .ok .f32
  | 1 => .ok .f32
  | 2 => .ok .f64
  | 3 => .ok .f16
  | 4 => .ok .i8
  | 5 => .ok .b1
  | _ => .error "Invalid scalar quantization"

def UMetricKind.fromU32 : ℕ → Except String MetricKind
  | 3 => .ok .l2sq
  | 1 => .ok .cos
  | 8 => .ok .hamming
  | k => .error ("Invalid metric " ++ toString k)

/-- The values of `usearch_metric_kind_t` and `usearch_scalar_kind_t` that the client is
    compiled with. The server's tables are for the same values. -/
structure UsearchCodes where
  metric : MetricKind → ℕ
  scalar : ScalarKind → ℕ
  metric_read : ∀ k, UMetricKind.fromU32 (metric k) = .ok k
  scalar_read : ∀ k, scalarKindOf (scalar k) = .ok k

/-- What `load_pq_codebook` returns for vectors of `dim` elements: room for 256
    rows, of which the first `numCentroids` are the codebook. Elements are the
    bits of a `float`. -/
structure PqCodebook (dim : ℕ) where
  memory : List UInt32
  numCentroids : ℕ
  numSubvectors : ℕ
  memory_length : memory.length = 256 * dim
  centroids_pos : 0 < numCentroids
  centroids_le : numCentroids ≤ 256
  subvectors_le : numSubvectors ≤ dim

def PqCodebook.floats {dim : ℕ} (c : PqCodebook dim) : List UInt32 :=
  c.memory.take (c.numCentroids * dim)

/-- What the options of an index and its table determine. `codebook` is there
    when `pq` is on. -/
structure Session where
  codes : UsearchCodes
  operatorClass : OperatorClass
  quantBits : QuantBits
  dim : ℕ
  m : ℕ
  efConstruction : ℕ
  ef : ℕ
  estimatedRowCount : ℕ
  codebook : Option (PqCodebook dim)
  dim_pos : 0 < dim
  dim_le : dim ≤ 2000
  m_le : m ≤ 128
  efConstruction_le : efConstruction ≤ 400
  ef_le : ef ≤ 400
  rows_lt : estimatedRowCount < 2 ^ 32

structure Tuple (dim : ℕ) where
  label : ℕ
  vector : List UInt32
  label_lt : label < 2 ^ 64
  vector_length : vector.length = dim

def wordBytes (ws : List UInt32) : List UInt8 := ws.flatMap fun w => leBytes 4 w.toNat

structure IndexParams where
  pq : ℕ
  metricKind : ℕ
  quantization : ℕ
  dim : ℕ
  m : ℕ
  efConstruction : ℕ
  ef : ℕ
  numCentroids : ℕ
  numSubvectors : ℕ
  estimatedCapacity : ℕ
  elementBits : ℕ
  deriving DecidableEq, Repr

def IndexParams.fields (p : IndexParams) : List ℕ :=
  [p.pq, p.metricKind, p.quantization, p.dim, p.m, p.efConstruction, p.ef, p.numCentroids,
    p.numSubvectors, p.estimatedCapacity, p.elementBits]

namespace Session

def metricKind (s : Session) : MetricKind := s.operatorClass.metricKind

def dimensions (s : Session) : ℕ := if s.metricKind = .hamming then s.dim * 32 else s.dim

def quantization (s : Session) : ScalarKind :=
  if s.metricKind = .hamming then .b1 else s.quantBits.scalarKind

def numCentroids (s : Session) : ℕ := s.codebook.elim 0 PqCodebook.numCentroids
def numSubvectors (s : Session) : ℕ := s.codebook.elim 0 PqCodebook.numSubvectors
def elementBits (s : Session) : ℕ := if s.metricKind = .hamming then 1 else 32

def indexParams (s : Session) : IndexParams where
  pq := if s.codebook.isSome then 1 else 0
  metricKind := s.codes.metric s.metricKind
  quantization := s.codes.scalar s.quantization
  dim := s.dimensions
  m := s.m
  efConstruction := s.efConstruction
  ef := s.ef
  numCentroids := s.numCentroids
  numSubvectors := s.numSubvectors
  estimatedCapacity := s.estimatedRowCount
  elementBits := s.elementBits

end Session

def initFrame (p : IndexParams) : List UInt8 :=
  leBytes 4 EXTERNAL_INDEX_INIT_MSG ++ p.fields.flatMap (leBytes 4)

def endFrame : List UInt8 := leBytes 4 EXTERNAL_INDEX_END_MSG

def codebookRows (codebook : List UInt32) (dimensions : ℕ) :
    ℕ → ℕ → Outcome Fault (List (List UInt8))
  | 0, _ => .done []
  | k + 1, i =>
    if codebook.length < (i + 1) * dimensions then .fault .readPastBuffer
    else (codebookRows codebook dimensions k (i + 1)).map fun frames =>
      wordBytes ((codebook.drop (i * dimensions)).take dimensions) :: frames

def externalIndexSendCodebook (codebook : List UInt32) (dimensions numCentroids : ℕ) :
    Outcome Fault (List (List UInt8)) :=
  (codebookRows codebook dimensions numCentroids 0).map fun frames => frames ++ [endFrame]

def createExternalIndexSession (s : Session) : Outcome Fault (List (List UInt8)) :=
  match s.codebook with
  | none => .done [initFrame s.indexParams]
  | some c =>
    (externalIndexSendCodebook c.memory s.indexParams.dim s.indexParams.numCentroids).map
      fun frames =>
      initFrame s.indexParams :: frames

inductive ProtocolMessage where
  | init (buf : List UInt8)
  | data (buf : List UInt8)
  | exit
  deriving DecidableEq, Repr

def readFrame (expectedSize : ℕ) (matchHeader : Option ℕ) (pieces : List (List UInt8)) :
    Except String (ProtocolMessage × List (List UInt8)) :=
  let r := recv expectedSize pieces
  if r.1.length < 4 then .error "Invalid frame received"
  else if leNat (r.1.take 4) = EXTERNAL_INDEX_END_MSG then .ok (.exit, r.2)
  else if matchHeader.any (· ≠ leNat (r.1.take 4)) then .error "Invalid message header"
  else
    match recvExact (expectedSize - r.1.length) r.2 with
    | none => .error "failed to fill whole buffer"
    | some (more, rest) =>
      if leNat (r.1.take 4) = EXTERNAL_INDEX_INIT_MSG then .ok (.init (r.1 ++ more), rest)
      else .ok (.data (r.1 ++ more), rest)

theorem readFrame_lt {size : ℕ} {hdr : Option ℕ} {pieces rest : List (List UInt8)}
    {msg : ProtocolMessage} (h : readFrame size hdr pieces = .ok (msg, rest)) :
    rest.flatten.length < pieces.flatten.length := by
  have hlen := congrArg List.length (recv_append size pieces)
  simp only [List.length_append] at hlen
  simp only [readFrame] at h
  split at h
  · cases h
  split at h
  · cases h
    omega
  split at h
  · cases h
  split at h
  · cases h
  rename_i more rest' hexact
  have hrest := congrArg List.length (recvExact_append hexact)
  simp only [List.length_append] at hrest
  split at h <;> cases h <;> omega

def receiveData (size : ℕ) (pieces : List (List UInt8)) :
    Except String (List (List UInt8) × List (List UInt8)) :=
  match _h : readFrame size none pieces with
  | .error e => .error e
  | .ok (.exit, rest) => .ok ([], rest)
  | .ok (.init _, _) => .error "Invalid message received"
  | .ok (.data buf, rest) =>
    (receiveData size rest).map fun r => (buf :: r.1, r.2)
termination_by pieces.flatten.length
decreasing_by exact readFrame_lt _h

def bytesToF32VecLe : List UInt8 → List UInt32
  | a :: b :: c :: d :: bytes => UInt32.ofNat (leNat [a, b, c, d]) :: bytesToF32VecLe bytes
  | _ => []

def parseTuple (buf : List UInt8) : ℕ × List UInt8 := (leNat (buf.take 8), buf.drop 8)

/-- The `IndexOptions` handed to usearch. `codebook` is what the vector held that
    the source takes a pointer to; it is null when `pq` is off. -/
structure IndexOptions where
  dimensions : ℕ
  metric : MetricKind
  quantization : ScalarKind
  connectivity : ℕ
  expansionAdd : ℕ
  expansionSearch : ℕ
  pqConstruction : Bool
  pqOutput : Bool
  numCentroids : ℕ
  numSubvectors : ℕ
  codebook : Option (List UInt32)
  deriving DecidableEq, Repr

def parseParams (buf : List UInt8) : IndexParams :=
  let param (i : ℕ) : ℕ := leNat (slice (4 * i) 4 buf)
  ⟨param 0, param 1, param 2, param 3, param 4, param 5, param 6, param 7, param 8,
    param 9, param 10⟩

def receiveCodebook (pq : Bool) (dim : ℕ) (pieces : List (List UInt8)) :
    Except String (Option (List UInt32) × List (List UInt8)) :=
  if pq then
    (receiveData (dim * 4) pieces).map fun r => (some (r.1.flatMap bytesToF32VecLe), r.2)
  else .ok (none, pieces)

structure Received where
  options : IndexOptions
  elementBits : ℕ
  estimatedCapacity : ℕ
  rows : List (ℕ × List UInt8)
  unread : List (List UInt8)
  deriving DecidableEq, Repr

def parseIndexOptions (buf : List UInt8) (pieces : List (List UInt8)) :
    Except String (IndexOptions × ℕ × ℕ × List (List UInt8)) :=
  let p := parseParams buf
  (scalarKindOf p.quantization).bind fun quantization =>
    (UMetricKind.fromU32 p.metricKind).bind fun metric =>
      (receiveCodebook (p.pq = 1) p.dim pieces).map fun r =>
        (⟨p.dim, metric, quantization, p.m, p.efConstruction, p.ef, p.pq = 1, p.pq = 1,
          p.numCentroids, p.numSubvectors, r.1⟩, p.elementBits, p.estimatedCapacity, r.2)

def rowSize (elementBits dimensions : ℕ) : ℕ :=
  if elementBits < 8 then 8 + (dimensions + 7) / 8 else 8 + dimensions * (elementBits / 8)

def INDEX_HEADER_LENGTH : ℕ := 48

def received (s : Session) (codebook : Option (List UInt32)) (rows : List (ℕ × List UInt8))
    (unread : List (List UInt8)) : Received where
  options :=
    { dimensions := s.dimensions
      metric := s.metricKind
      quantization := s.quantization
      connectivity := s.m
      expansionAdd := s.efConstruction
      expansionSearch := s.ef
      pqConstruction := s.codebook.isSome
      pqOutput := s.codebook.isSome
      numCentroids := s.numCentroids
      numSubvectors := s.numSubvectors
      codebook := codebook }
  elementBits := s.elementBits
  estimatedCapacity := s.estimatedRowCount
  rows := rows
  unread := unread

def Tuple.row {dim : ℕ} (t : Tuple dim) : ℕ × List UInt8 := (t.label, wordBytes t.vector)

def sent (s : Session) (tuples : List (Tuple s.dim)) : Received :=
  received s (s.codebook.map PqCodebook.floats) (tuples.map Tuple.row) []

def header (frame : List UInt8) : ℕ := leNat (frame.take 4)

def PlainWord (w : ℕ) : Prop := w ≠ EXTERNAL_INDEX_END_MSG ∧ w ≠ EXTERNAL_INDEX_INIT_MSG

variable {codebook : List UInt32} {buf frame : List UInt8} {i : ℕ}

section ReceiveData
variable {size : ℕ} {pieces rest : List (List UInt8)}

theorem receiveData_exit (h : readFrame size none pieces = .ok (.exit, rest)) :
    receiveData size pieces = .ok ([], rest) := by
  rw [receiveData]
  split <;> simp_all

theorem receiveData_init (h : readFrame size none pieces = .ok (.init buf, rest)) :
    receiveData size pieces = .error "Invalid message received" := by
  rw [receiveData]
  split <;> simp_all

theorem receiveData_data (h : readFrame size none pieces = .ok (.data buf, rest)) :
    receiveData size pieces = (receiveData size rest).map fun r => (buf :: r.1, r.2) := by
  rw [receiveData]
  split <;> simp_all

end ReceiveData

def codebookRow (codebook : List UInt32) (dimensions i : ℕ) : List UInt32 :=
  (codebook.drop (i * dimensions)).take dimensions

section Codebook
variable {dim : ℕ} (c : PqCodebook dim)

def PqCodebook.frames : List (List UInt8) :=
  (List.range' 0 c.numCentroids).map fun i => wordBytes (codebookRow c.memory dim i)

def PqCodebook.Plain : Prop := ∀ i < c.numCentroids, PlainWord (c.memory.getD (i * dim) 0).toNat

end Codebook

section RoundTrip
variable {s : Session} {tuples : List (Tuple s.dim)}

variable {c : PqCodebook s.dim}

end RoundTrip

def usearchCodes : UsearchCodes where
  metric
    | .cos => 1
    | .l2sq => 3
    | .hamming => 8
  scalar
    | .f32 => 1
    | .f64 => 2
    | .f16 => 3
    | .i8 => 4
    | .b1 => 5
  metric_read k := by cases k <;> rfl
  scalar_read k := by cases k <;> rfl

def lineSession (operatorClass : OperatorClass) (codebook : Option (PqCodebook 1)) : Session where
  codes := usearchCodes
  operatorClass := operatorClass
  quantBits := .unset
  dim := 1
  m := 16
  efConstruction := 128
  ef := 64
  estimatedRowCount := 1
  codebook := codebook
  dim_pos := by decide
  dim_le := by decide
  m_le := by decide
  efConstruction_le := by decide
  ef_le := by decide
  rows_lt := by decide

end Lantern.SocketProtocol
