import Mathlib.Data.List.TakeWhile
import Lantern.SocketReads
import Lantern.SystemRuns

set_option autoImplicit false

/-!
# Errors on their way from the server to the client

A session that fails sends one frame: the magic, the length of the text and the text.
The client puts it together from a read that looked for something else, one read for the
part of the length that is missing, and a loop for the text. What it shows depends on
where the frame was cut, on how the connection ends and on what the stack held before.
-/
namespace Lantern.SocketErrors
open FuelLoop ByteStrings SegmentedStream IndexRelation EventTrail SocketReads SystemRuns

/-- Handed to one `write_data`, which may write a part of it or nothing. -/
def errorFrame (text : List UInt8) : List UInt8 := magicBytes ++ leBytes 4 text.length ++ text

def textOf (bytes : List UInt8) : String := String.ofList (bytes.map fun b => Char.ofNat b.toNat)

/-- A frame, or the beginning of one, as the transport hands it over. -/
structure Delivery where
  text : List UInt8
  text_le : text.length ≤ 1000
  peer : Peer
  segmented : Segmented peer.pieces
  arrived : peer.pieces.flatten <+: errorFrame text

def Delivery.Whole (d : Delivery) : Prop := d.peer.pieces.flatten = errorFrame d.text

/-- What the client asks for when the frame comes. What came before was complete. -/
inductive Moment where
  | version
  | serverType
  | answer
  | tupleCount (buffer : List UInt8)
  | fileSize (buffer : List UInt8) (count : ℕ)
      (plain : leNat ((leBytes 8 count).take 4) ≠ EXTERNAL_INDEX_ERR_MSG)
  | data (call : Call)

def following (before : Socket) (peer : Peer) : Peer :=
  { peer with pieces := before ++ peer.pieces }

def Moment.run (fuel : ℕ) (stack : List UInt8) (peer : Peer) : Moment → Client Unit
  | .version => (createExternalIndexSession fuel stack [peer]).bind fun _ => .pure ()
  | .serverType =>
    (createExternalIndexSession fuel stack [following [leBytes 4 1] peer]).bind fun _ => .pure ()
  | .answer =>
    (createExternalIndexSession fuel stack [following [leBytes 4 1, leBytes 4 1] peer]).bind
      fun _ => .pure ()
  | .tupleCount buffer => (receiveMetadata fuel stack buffer peer).bind fun _ => .pure ()
  | .fileSize buffer count _ =>
    (receiveMetadata fuel stack buffer (following [leBytes 8 count] peer)).bind fun _ => .pure ()
  | .data call => readCalls fuel stack [call] peer

/-- From the bytes taken for the beginning of a frame: the length, the text that came with
    it, and what is left. A missing part of the length is asked for once. -/
def announced (head : List UInt8) (rest : Socket) : Option (ℕ × List UInt8 × Socket) :=
  if 8 ≤ head.length then some (leNat (slice 4 4 head), head.drop 8, rest)
  else
    let q := recv (8 - head.length) rest
    if q.1.length = 8 - head.length then some (leNat (head.drop 4 ++ q.1), [], q.2) else none

/-- What the loop for the text leaves in the array; `none` if it goes on for ever. An
    error of the connection counts as -1 and ends the loop if nothing was counted yet. -/
def textRead (size : ℕ) (got : List UInt8) (peer : Peer) : Option (List UInt8) :=
  let all := got ++ peer.pieces.flatten
  if size ≤ all.length then some (all.take (max size got.length))
  else if all = [] ∧ peer.ending = .failed then some []
  else none

variable {p : Peer} {α : Type}

def shown (recvError : List UInt8) : Outcome Fault α :=
  match cString recvError with
  | some text => .fault (.elog ("external index error: " ++ text))
  | none => .fault .readPastBuffer

section Text
variable {size fuel : ℕ}

end Text

section Check
variable {head stack buffer : List UInt8} {rest : Socket} {ending : Ending} {fuel : ℕ}

end Check

section Reading
variable {fuel n : ℕ} {buffer stack : List UInt8} {target : Target}

end Reading

section Arrives

def Moment.asks : Moment → ℕ
  | .version => 4
  | .serverType => 4
  | .answer => EXTERNAL_INDEX_INIT_BUFFER_SIZE
  | .tupleCount _ => 8
  | .fileSize _ _ _ => 8
  | .data call => call.size

/-- The first of the reads for `missing` bytes that has four bytes or more. It is taken
    for the beginning of the frame, whatever was read before it. -/
def longRead : ℕ → Socket → Option (ℕ × Socket)
  | _, [] => none
  | missing, piece :: pieces =>
    let r := recv missing (piece :: pieces)
    if 4 ≤ r.1.length then some (r.1.length, r.2)
    else if piece.length < missing then longRead (missing - piece.length) pieces
    else none

def Moment.check (pieces : Socket) : Moment → Option (ℕ × Socket)
  | .data call => longRead call.size pieces
  | moment =>
    let r := recv moment.asks pieces
    if 4 ≤ r.1.length then some (r.1.length, r.2) else none

/-- The check that takes the first `k` bytes for the beginning of the frame shows its text,
    or some text or the failed read if not all of the frame came. -/
def Checked (d : Delivery) (k : ℕ) (rest : Socket) (stack : List UInt8) : Prop :=
  match announced ((errorFrame d.text).take k) rest with
  | none => ¬ d.Whole
  | some (size, got, rest) =>
    ∃ bytes message, textRead size got ⟨rest, d.peer.ending⟩ = some bytes ∧
      cString (patch 0 bytes stack) = some message ∧ (d.Whole → message = textOf d.text)

/-- What raises an error if no read had four bytes. -/
def Moment.Noticed (d : Delivery) : Moment → Prop
  | .version => ¬ d.Whole
  | .serverType => (recv 4 d.peer.pieces).2 = [] ∧ d.peer.ending = .failed
  | .answer => d.peer.pieces = [] ∧ d.peer.ending = .failed
  | .tupleCount _ => (recv 8 d.peer.pieces).2 = [] ∧ d.peer.ending = .failed
  | .fileSize _ _ _ => d.peer.pieces = [] ∧ d.peer.ending = .failed
  | .data call => ¬ d.Whole ∧ d.peer.ending = .failed ∧ d.peer.pieces.flatten.length < call.size

def Arrives (moment : Moment) (d : Delivery) (stack : List UInt8) : Prop :=
  match moment.check d.peer.pieces with
  | some (k, rest) => Checked d k rest stack
  | none => moment.Noticed d

variable {moment : Moment} {d : Delivery} {stack : List UInt8}

section Session
variable {fuel n : ℕ} {target : Target} {buffer : List UInt8}

end Session

section Data
variable {size fuel fuelIn : ℕ} {target : Target} {text got buffer : List UInt8} {pieces : Socket}
  {ending : Ending}

end Data

end Arrives

section Aligned
variable {d : Delivery} {stack : List UInt8} {k : ℕ} {rest : Socket}

end Aligned

inductive ServerStatus where
  | idle | inProgress | failed | succeded
  deriving DecidableEq, Repr

inductive Phase where
  | accepting | indexing | reporting
  deriving DecidableEq, Repr

/-- `lastFailed`: the last session failed, and none has started since. -/
structure Server where
  status : ServerStatus
  phase : Phase
  lastFailed : Bool
  deriving DecidableEq, Repr

inductive Action where
  | connection | connectionError | indexed | indexingError | reported
  deriving DecidableEq, Repr

/-- After the error is written the same assignment is reached as after a session that
    succeeded. -/
def step (s : Server) : Action → Option Server
  | .connection => if s.phase = .accepting then some ⟨.inProgress, .indexing, false⟩ else none
  | .connectionError => if s.phase = .accepting then some s else none
  | .indexed => if s.phase = .indexing then some ⟨.succeded, .accepting, s.lastFailed⟩ else none
  | .indexingError => if s.phase = .indexing then some ⟨.failed, .reporting, true⟩ else none
  | .reported => if s.phase = .reporting then some ⟨.succeded, .accepting, s.lastFailed⟩ else none

def started : Server := ⟨.idle, .accepting, false⟩

def server : System Server := actionSystem (· = started) step fun _ _ => True

end Lantern.SocketErrors
