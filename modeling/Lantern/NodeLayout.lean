import Lantern.ByteStrings

set_option autoImplicit false

/-!
# The usearch node format and the values stored in its slots

A node is a byte string: an 8-byte label, a 2-byte level, then for every level
from 0 to the node's own a 4-byte neighbour count with room for 6-byte slots,
then the vector. Level 0 has `neighborsBaseBytes` bytes for its list, the
others `neighborsBytes` each.
-/
namespace Lantern.NodeLayout
open ByteStrings

inductive MetricKind where
  | cos | l2sq | hamming
  deriving DecidableEq, Repr

inductive ScalarKind where
  | f32 | f64 | f16 | i8 | b1
  deriving DecidableEq, Repr

def bitsPerScalar : ScalarKind → ℕ
  | .f32 => 32
  | .f64 => 64
  | .f16 => 16
  | .i8 => 8
  | .b1 => 1

structure UsearchInitOptions where
  metricKind : MetricKind
  quantization : ScalarKind
  dimensions : ℕ
  connectivity : ℕ
  expansionAdd : ℕ
  expansionSearch : ℕ
  pq : Bool
  numCentroids : ℕ
  numSubvectors : ℕ
  deriving DecidableEq, Repr

structure Metadata where
  neighborsBytes : ℕ
  neighborsBaseBytes : ℕ
  initOptions : UsearchInitOptions
  deriving DecidableEq, Repr

def nodeHeadBytes : ℕ := 10

def labelFromNode (node : List UInt8) : ℕ := leNat (slice 0 8 node)
def levelFromNode (node : List UInt8) : ℕ := leNat (slice 8 2 node)

def nodeSizeBytes (md : Metadata) (level : ℕ) : ℕ :=
  nodeHeadBytes + md.neighborsBaseBytes + md.neighborsBytes * level

def vectorBytes (md : Metadata) (vectorDim : ℕ) : ℕ :=
  if md.initOptions.pq then md.initOptions.numSubvectors
  else vectorDim * bitsPerScalar md.initOptions.quantization / 8

def nodeTupleSize (node : List UInt8) (vectorDim : ℕ) (md : Metadata) : ℕ :=
  nodeSizeBytes md (levelFromNode node) + vectorBytes md vectorDim

def usearchNodeBytes (md : Metadata) (vectorByteCount level : ℕ) : ℕ :=
  nodeHeadBytes + md.neighborsBaseBytes + md.neighborsBytes * level +
    (if md.initOptions.pq then md.initOptions.numSubvectors else vectorByteCount)

def neighborsOffset (md : Metadata) : ℕ → ℕ
  | 0 => nodeHeadBytes
  | level + 1 => nodeHeadBytes + md.neighborsBaseBytes + md.neighborsBytes * level

def neighborsRoom (md : Metadata) : ℕ → ℕ
  | 0 => md.neighborsBaseBytes
  | _ + 1 => md.neighborsBytes

def neighborsCount (md : Metadata) (node : List UInt8) (level : ℕ) : ℕ :=
  leNat (slice (neighborsOffset md level) 4 node)

def slotOffset (md : Metadata) (level j : ℕ) : ℕ := neighborsOffset md level + 4 + 6 * j

/-- The offset of the first slot of a level and the number of slots in use. -/
def getNodeNeighborsMut (md : Metadata) (node : List UInt8) (level : ℕ) : ℕ × ℕ :=
  (slotOffset md level 0, neighborsCount md node level)

/-- The `seqid` member of the slot union: the first four bytes. -/
def slotSeqid (node : List UInt8) (off : ℕ) : ℕ := leNat (slice off 4 node)

structure ItemPointerData where
  block : ℕ
  posid : ℕ
  deriving DecidableEq, Repr

/-- In-memory image: the block number's high half, its low half, the offset. -/
def itemPointerBytes (p : ItemPointerData) : List UInt8 :=
  leBytes 2 (p.block / 65536) ++ leBytes 2 (p.block % 65536) ++ leBytes 2 p.posid

def itemPointerOfBytes (bs : List UInt8) : ItemPointerData :=
  ⟨leNat (slice 0 2 bs) * 65536 + leNat (slice 2 2 bs), leNat (slice 4 2 bs)⟩

@[simp] theorem itemPointerBytes_length (p : ItemPointerData) :
    (itemPointerBytes p).length = 6 := by
  simp [itemPointerBytes]

theorem itemPointerOfBytes_bytes (p : ItemPointerData) (hb : p.block < 2 ^ 32)
    (ho : p.posid < 2 ^ 16) : itemPointerOfBytes (itemPointerBytes p) = p := by
  have h0 : slice 0 2 (itemPointerBytes p) = leBytes 2 (p.block / 65536) := by
    simp [slice, itemPointerBytes]
  have h1 : slice 2 2 (itemPointerBytes p) = leBytes 2 (p.block % 65536) := by
    simp [slice, itemPointerBytes]
  have h2 : slice 4 2 (itemPointerBytes p) = leBytes 2 p.posid := by
    have hs := slice_append_right 0 2
      (leBytes 2 (p.block / 65536) ++ leBytes 2 (p.block % 65536)) (leBytes 2 p.posid)
    have hw := slice_whole (leBytes 2 p.posid)
    rw [List.length_append, leBytes_length, leBytes_length] at hs
    rw [leBytes_length] at hw
    exact hs.trans hw
  have e0 : leNat (leBytes 2 (p.block / 65536)) = p.block / 65536 :=
    leNat_leBytes_of_lt (by omega)
  have e1 : leNat (leBytes 2 (p.block % 65536)) = p.block % 65536 :=
    leNat_leBytes_of_lt (by omega)
  have e2 : leNat (leBytes 2 p.posid) = p.posid := leNat_leBytes_of_lt (by omega)
  simp only [itemPointerOfBytes, h0, h1, h2, e0, e1, e2]
  congr 1
  omega

def slotItemPointer (node : List UInt8) (off : ℕ) : ItemPointerData :=
  itemPointerOfBytes (slice off 6 node)

/-- Number of bytes a node's own header says it has, and neighbour lists that
    stay inside the room of their level. -/
structure WellFormedNode (md : Metadata) (vectorDim : ℕ) (node : List UInt8) : Prop where
  size_eq : node.length = nodeTupleSize node vectorDim md
  lists_fit : ∀ level ≤ levelFromNode node,
    4 + 6 * neighborsCount md node level ≤ neighborsRoom md level

theorem levelFromNode_append (node rest : List UInt8) (h : 10 ≤ node.length) :
    levelFromNode (node ++ rest) = levelFromNode node := by
  unfold levelFromNode
  rw [slice_append_left (by omega)]

theorem nodeTupleSize_append (md : Metadata) (dim : ℕ) (node rest : List UInt8)
    (h : 10 ≤ node.length) : nodeTupleSize (node ++ rest) dim md = nodeTupleSize node dim md := by
  unfold nodeTupleSize
  rw [levelFromNode_append node rest h]

theorem nodeTupleSize_pos (md : Metadata) (dim : ℕ) (node : List UInt8) :
    10 ≤ nodeTupleSize node dim md := by
  unfold nodeTupleSize nodeSizeBytes nodeHeadBytes
  omega

theorem neighborsOffset_room (md : Metadata) (level : ℕ) :
    neighborsOffset md level + neighborsRoom md level = neighborsOffset md (level + 1) := by
  cases level with
  | zero => simp [neighborsOffset, neighborsRoom]
  | succ level => simp [neighborsOffset, neighborsRoom, Nat.mul_succ, Nat.add_assoc]

theorem neighborsOffset_mono (md : Metadata) {a b : ℕ} (h : a ≤ b) :
    neighborsOffset md a ≤ neighborsOffset md b := by
  induction h with
  | refl => exact le_refl _
  | step _ ih => exact ih.trans (by rw [← neighborsOffset_room]; omega)

theorem neighborsOffset_end (md : Metadata) (level : ℕ) :
    neighborsOffset md (level + 1) = nodeSizeBytes md level := rfl

theorem headBytes_le_neighborsOffset (md : Metadata) (level : ℕ) :
    nodeHeadBytes ≤ neighborsOffset md level := by
  cases level with
  | zero => exact le_refl _
  | succ level => simp only [neighborsOffset]; omega

/-- One-dimensional vectors, room for four neighbours on level 0 and two above. -/
def tinyMetadata : Metadata where
  neighborsBytes := 16
  neighborsBaseBytes := 28
  initOptions :=
    { metricKind := .l2sq, quantization := .f32, dimensions := 1, connectivity := 2
      expansionAdd := 4, expansionSearch := 4, pq := false, numCentroids := 0, numSubvectors := 0 }

def emptyNode : List UInt8 := List.replicate 42 0

/-- A level 0 node whose only neighbour is the node with the given number. -/
def pairNode (neighbor : UInt8) : List UInt8 :=
  List.replicate 10 0 ++ [1, 0, 0, 0, neighbor] ++ List.replicate 27 0

end Lantern.NodeLayout
