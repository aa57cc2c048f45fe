import Lantern.EventTrail
import Lantern.SegmentedStream
import Lantern.IndexRelation

set_option autoImplicit false

/-!
# Where the client of the external index writes what it reads

The reads of a session, with connections that may close or fail, and a record of every
write into a buffer of the client and of the lengths that the peer announces. None of
these is compared with a buffer.
-/
namespace Lantern.SocketReads
open FuelLoop ByteStrings SegmentedStream IndexRelation EventTrail

def EXTERNAL_INDEX_MAGIC_MSG_SIZE : ℕ := 4
def EXTERNAL_INDEX_ERR_MSG : ℕ := 0x37333337
def EXTERNAL_INDEX_MAX_ERR_SIZE : ℕ := 1024

/-- The pieces in which the connection delivers what the server sent before
    closing it. -/
abbrev Socket := List (List UInt8)

/-- The text `%s` prints; `none` when it runs past the end of the buffer. -/
def cString (bytes : List UInt8) : Option String :=
  if 0 ∈ bytes then
    some (String.ofList ((bytes.takeWhile (· ≠ 0)).map fun b => Char.ofNat b.toNat))
  else none

def EXTERNAL_INDEX_INIT_BUFFER_SIZE : ℕ := 1024
def EXTERNAL_INDEX_PROTOCOL_VERSION : ℕ := 1
def EXTERNAL_INDEX_ROUTER_SERVER_TYPE : ℕ := 2

/-- What reads find when everything that was sent has been read: the end of the stream,
    or an error, which is reported once and behind which the stream is at its end. -/
inductive Ending where
  | closed | failed
  deriving DecidableEq, Repr

structure Peer where
  pieces : Socket
  ending : Ending
  deriving DecidableEq, Repr

/-- One call of `read`; `none` stands for -1. -/
def Peer.read (n : ℕ) (p : Peer) : Option (List UInt8) × Peer :=
  match p.pieces, p.ending with
  | [], .closed => (some [], p)
  | [], .failed => (none, { p with ending := .closed })
  | pieces, _ => (some (recv n pieces).1, { p with pieces := (recv n pieces).2 })

def bytesRead : Option (List UInt8) → ℤ
  | none => -1
  | some bytes => bytes.length

def bytesRead32 : Option (List UInt8) → ℕ
  | none => 2 ^ 32 - 1
  | some bytes => bytes.length % 2 ^ 32

inductive Target where
  | errorText | errorLength | address | initResponse | metadata
  | result (capacity : ℕ)
  deriving DecidableEq, Repr

def Target.capacity : Target → ℕ
  | .errorText => EXTERNAL_INDEX_MAX_ERR_SIZE
  | .errorLength => 4
  | .address => 1024 - 1
  | .initResponse => EXTERNAL_INDEX_INIT_BUFFER_SIZE
  | .metadata => 8
  | .result capacity => capacity

inductive Event where
  | write (target : Target) (offset count : ℕ)
  | announceErrorLength (n : ℕ)
  | announceErrorBytes (n : ℕ)
  | announceAddressLength (n : ℕ)
  deriving DecidableEq, Repr

abbrev Client (α : Type) := Trail Event Fault α

def elog {α : Type} (text : String) : Client α := .raise (.elog text)

def readInto (target : Target) (offset n : ℕ) (p : Peer) : Client (Option (List UInt8) × Peer) :=
  ⟨[.write target offset ((p.read n).1.getD []).length], .done (p.read n)⟩

structure ErrorText where
  peer : Peer
  recvError : List UInt8
  totalBytesRead : ℕ

/-- The counter is unsigned: the test for a result below zero never succeeds, and a
    failed read takes one from the counter. -/
def readErrorPart (errMsgSize : ℕ) (s : ErrorText) : Client ErrorText :=
  (readInto .errorText s.totalBytesRead (errMsgSize - s.totalBytesRead) s.peer).bind
    fun (got, peer) =>
    .pure ⟨peer, patch s.totalBytesRead (got.getD []) s.recvError,
      (s.totalBytesRead + bytesRead32 got) % 2 ^ 32⟩

def showError (s : ErrorText) : Client Unit :=
  match cString s.recvError with
  | some text => elog ("external index error: " ++ text)
  | none => .raise .readPastBuffer

def readServerError (fuel : ℕ) (lengthBytes recvError : List UInt8) (total : ℕ) (peer : Peer) :
    Client Unit :=
  (Trail.emit (.announceErrorLength (leNat lengthBytes))).bind fun _ =>
  (Trail.loop (fun s : ErrorText =>
    s.totalBytesRead < leNat lengthBytes) (readErrorPart (leNat lengthBytes)) fuel
    ⟨peer, recvError, total⟩).bind showError

def raiseServerError (fuel : ℕ) (recvError : List UInt8) (peer : Peer)
    (buffer : List UInt8) (size : ℕ) :
    Client Unit :=
  let left := (size - EXTERNAL_INDEX_MAGIC_MSG_SIZE) % 2 ^ 32
  let errLenSizeRead := min left 4
  let total := left - errLenSizeRead
  let lengthBytes := slice EXTERNAL_INDEX_MAGIC_MSG_SIZE errLenSizeRead buffer
  let recvError :=
    patch 0 (slice (EXTERNAL_INDEX_MAGIC_MSG_SIZE + errLenSizeRead) total buffer) recvError
  (Trail.emit (.announceErrorBytes total)).bind fun _ =>
  (Trail.emit (.write .errorLength 0 errLenSizeRead)).bind fun _ =>
  (Trail.emit (.write .errorText 0 total)).bind fun _ =>
  if errLenSizeRead < 4 then
    (readInto .errorLength errLenSizeRead (4 - errLenSizeRead) peer).bind fun (got, peer) =>
      if bytesRead32 got ≠ 4 - errLenSizeRead then elog "external index socket read failed"
      else readServerError fuel (lengthBytes ++ got.getD []) recvError total peer
  else readServerError fuel lengthBytes recvError total peer

def checkResponseStatus (fuel : ℕ) (recvError : List UInt8) (peer : Peer)
    (buffer : List UInt8) (size : ℤ) :
    Client Unit :=
  if size < 0 then elog "external index socket read failed"
  else if size < 4 then .pure ()
  else if leNat (buffer.take 4) ≠ EXTERNAL_INDEX_ERR_MSG then .pure ()
  else raiseServerError fuel recvError peer buffer size.toNat

section Session
-- what the stack holds where `recv_error` is placed
variable (fuel : ℕ) (recvError : List UInt8)

def readAndCheck (target : Target) (n : ℕ) (buffer : List UInt8) (peer : Peer) :
    Client (List UInt8 × Peer) :=
  (readInto target 0 n peer).bind fun (got, peer) =>
    (checkResponseStatus fuel recvError peer (patch 0 (got.getD []) buffer) (bytesRead got)).bind
      fun _ =>
      .pure (patch 0 (got.getD []) buffer, peer)

structure ReadAll where
  peer : Peer
  resultBuf : List UInt8
  totalReceived : ℕ
  stopped : Bool

def readAllPart (target : Target) (size : ℕ) (s : ReadAll) : Client ReadAll :=
  (readInto target s.totalReceived (size - s.totalReceived) s.peer).bind fun (got, peer) =>
    let resultBuf := patch s.totalReceived (got.getD []) s.resultBuf
    (checkResponseStatus fuel recvError peer resultBuf (bytesRead got)).bind fun _ =>
      if bytesRead got = 0 then .pure ⟨peer, resultBuf, s.totalReceived, true⟩
      else .pure ⟨peer, resultBuf, s.totalReceived + bytesRead32 got, false⟩

def readAll (target : Target) (size : ℕ) (resultBuf : List UInt8) (peer : Peer) : Client ReadAll :=
  Trail.loop (fun s =>
    s.totalReceived < size && !s.stopped) (readAllPart fuel recvError target size) fuel
    ⟨peer, resultBuf, 0, false⟩

/-- The router sends whether to use TLS, the address with its length and the port. -/
def receiveAddress (response : List UInt8) (peer : Peer) : Client Unit :=
  (readAndCheck fuel recvError .initResponse 4 response peer).bind fun (response, peer) =>
  (readAndCheck fuel recvError .initResponse 4 response peer).bind fun (response, peer) =>
  (Trail.emit (.announceAddressLength (leNat (response.take 4)))).bind fun _ =>
  (readAll fuel recvError .address (leNat (response.take 4)) (List.replicate 1024 0) peer).bind
    fun s =>
  (readAndCheck fuel recvError .initResponse 4 response s.peer).bind fun _ => .pure ()

def createExternalIndexSession : List Peer → Client Peer
  | [] => elog "external index: connect timeout"
  | peer :: peers =>
    (readAndCheck fuel recvError .initResponse 4
      (List.replicate EXTERNAL_INDEX_INIT_BUFFER_SIZE 0) peer).bind
      fun (response, peer) =>
    if leNat (response.take 4) ≠ EXTERNAL_INDEX_PROTOCOL_VERSION then
      elog s!"external index protocol version mismatch - client version: {EXTERNAL_INDEX_PROTOCOL_VERSION}, server version: {leNat (response.take 4)}"
    else
      (readAndCheck fuel recvError .initResponse 4 response peer).bind fun (response, peer) =>
      if leNat (response.take 4) = EXTERNAL_INDEX_ROUTER_SERVER_TYPE then
        (receiveAddress fuel recvError response peer).bind fun _ => createExternalIndexSession peers
      else
        (readAndCheck fuel recvError .initResponse EXTERNAL_INDEX_INIT_BUFFER_SIZE
          response peer).bind
          fun (_, peer) => .pure peer

def receiveMetadata (buffer : List UInt8) (peer : Peer) : Client (ℕ × ℕ × Peer) :=
  (readAndCheck fuel recvError .metadata 8 buffer peer).bind fun (buffer, peer) =>
  (readAndCheck fuel recvError .metadata 8 buffer peer).bind fun (buffer', peer) =>
    .pure (leNat buffer, leNat buffer', peer)

structure Call where
  size : ℕ
  resultBuf : List UInt8
  size_le : size ≤ resultBuf.length

def readCalls : List Call → Peer → Client Unit
  | [], _ => .pure ()
  | call :: calls, peer =>
    (readAll fuel recvError (.result call.resultBuf.length) call.size call.resultBuf peer).bind
      fun s => readCalls calls s.peer

def clientReads (peers : List Peer) (buffer : List UInt8) (calls : List Call) : Client Unit :=
  (createExternalIndexSession fuel recvError peers).bind fun peer =>
  (receiveMetadata fuel recvError buffer peer).bind fun (_, _, peer) =>
    readCalls fuel recvError calls peer

end Session

structure Limits where
  errorLength : ℕ
  errorBytes : ℕ
  addressLength : ℕ

def Limits.Admits (l : Limits) : Event → Prop
  | .write _ _ _ => True
  | .announceErrorLength n => n ≤ l.errorLength
  | .announceErrorBytes n => n ≤ l.errorBytes
  | .announceAddressLength n => n ≤ l.addressLength

def Inside : Event → Prop
  | .write target offset count => offset + count ≤ target.capacity
  | _ => True

instance (e : Event) : Decidable (Inside e) := by
  cases e with
  | write target offset count => exact inferInstanceAs (Decidable (_ ≤ _))
  | _ => exact inferInstanceAs (Decidable True)

def Limits.Fit (l : Limits) : Prop :=
  l.errorLength ≤ EXTERNAL_INDEX_MAX_ERR_SIZE ∧ l.errorBytes ≤ EXTERNAL_INDEX_MAX_ERR_SIZE ∧
    l.addressLength ≤ 1024 - 1

theorem read_length_le (n : ℕ) (p : Peer) : ((p.read n).1.getD []).length ≤ n := by
  obtain ⟨pieces, ending⟩ := p
  cases pieces with
  | nil => cases ending <;> exact Nat.zero_le n
  | cons piece pieces => exact recv_length_le n (piece :: pieces)

section Check
variable {fuel : ℕ} {recvError buffer : List UInt8}

theorem readServerError_ne_done (fuel : ℕ) (lengthBytes recvError : List UInt8) (total : ℕ)
    (peer : Peer) (u : Unit) :
    (readServerError fuel lengthBytes recvError total peer).outcome ≠ .done u := by
  intro h
  simp only [readServerError, Trail.outcome_bind, Trail.outcome_emit, Outcome.bind_done] at h
  obtain ⟨s, -, h⟩ := Outcome.bind_eq_done.mp h
  unfold showError at h
  split at h <;> cases h

theorem raiseServerError_ne_done (fuel : ℕ) (recvError : List UInt8) (peer : Peer)
    (buffer : List UInt8) (size : ℕ) (u : Unit) :
    (raiseServerError fuel recvError peer buffer size).outcome ≠ .done u := by
  simp only [raiseServerError, Trail.outcome_bind, Trail.outcome_emit, Outcome.bind_done]
  split
  · simp only [readInto, Trail.outcome_bind, Outcome.bind_done]
    split
    · intro h
      cases h
    · exact readServerError_ne_done _ _ _ _ _ _
  · exact readServerError_ne_done _ _ _ _ _ _

theorem check_passes (peer : Peer) {size : ℕ}
    (h : 4 ≤ size → leNat (buffer.take 4) ≠ EXTERNAL_INDEX_ERR_MSG) :
    (checkResponseStatus fuel recvError peer buffer size).outcome = .done () := by
  rw [checkResponseStatus, if_neg (Int.natCast_nonneg _).not_gt]
  split_ifs with hfew hmagic
  · rfl
  · rfl
  · exact absurd hmagic (not_not.mpr (h (by omega)))

theorem check_done {peer : Peer} {size : ℕ} {u : Unit}
    (h : (checkResponseStatus fuel recvError peer buffer size).outcome = .done u) :
    4 ≤ size → leNat (buffer.take 4) ≠ EXTERNAL_INDEX_ERR_MSG := by
  intro hsize herr
  rw [checkResponseStatus, if_neg (Int.natCast_nonneg _).not_gt, if_neg (by omega),
    if_neg (not_not.mpr herr)] at h
  exact raiseServerError_ne_done _ _ _ _ _ _ h

end Check

variable {target : Target}

section Safety
variable {l : Limits} {fuel : ℕ} {recvError : List UInt8}

abbrev Safe (l : Limits) {α : Type} (x : Client α) : Prop := Guarantees l.Admits Inside x

theorem readInto_safe {offset n : ℕ} (h : offset + n ≤ target.capacity) (p : Peer) :
    Safe l (readInto target offset n p) := by
  intro _
  refine List.forall_mem_singleton.mpr ?_
  have hread := read_length_le n p
  exact le_trans (Nat.add_le_add_left hread offset) h

theorem emit_safe {e : Event} (h : l.Admits e → Inside e) : Safe l (Trail.emit e) := .emit h

theorem readServerError_safe (hl : l.Fit) (lengthBytes recvError : List UInt8) (total : ℕ)
    (peer : Peer) :
    Safe l (readServerError fuel lengthBytes recvError total peer) := by
  refine (emit_safe (e := .announceErrorLength _) fun _ => trivial).bind fun _ _ hA => ?_
  have hlength : leNat lengthBytes ≤ EXTERNAL_INDEX_MAX_ERR_SIZE :=
    le_trans (hA _ List.mem_cons_self) hl.1
  refine Guarantees.bind (.loop (fun s hcond => ?_) _ _) fun s _ _ => ?_
  · have hlt : s.totalBytesRead < leNat lengthBytes := by simpa using hcond
    refine (readInto_safe ?_ _).bind fun _ _ _ => .pure _
    change _ ≤ EXTERNAL_INDEX_MAX_ERR_SIZE
    omega
  · unfold showError
    split
    · exact .raise _
    · exact .raise _

theorem raiseServerError_safe (hl : l.Fit) (peer : Peer) (buffer : List UInt8) (size : ℕ) :
    Safe l (raiseServerError fuel recvError peer buffer size) := by
  unfold raiseServerError
  simp only
  generalize (size - EXTERNAL_INDEX_MAGIC_MSG_SIZE) % 2 ^ 32 = left
  refine (emit_safe (e := .announceErrorBytes _) fun _ => trivial).bind fun _ _ hA => ?_
  have htotal : left - min left 4 ≤ EXTERNAL_INDEX_MAX_ERR_SIZE :=
    le_trans (hA _ List.mem_cons_self) hl.2.1
  refine (emit_safe fun _ => ?_).bind fun _ _ _ => (emit_safe fun _ => ?_).bind fun _ _ _ =>
    .ite (fun hshort => ?_) fun _ => readServerError_safe hl _ _ _ _
  · change 0 + min left 4 ≤ 4
    omega
  · exact (Nat.zero_add _).le.trans htotal
  · refine (readInto_safe ?_ _).bind fun _ _ _ => .ite (fun _ => .raise _) fun _ =>
      readServerError_safe hl _ _ _ _
    change _ ≤ 4
    omega

theorem checkResponseStatus_safe (hl : l.Fit) (peer : Peer) (buffer : List UInt8) (size : ℤ) :
    Safe l (checkResponseStatus fuel recvError peer buffer size) :=
  .ite (fun _ => .raise _) fun _ => .ite (fun _ => .pure _) fun _ =>
    .ite (fun _ => .pure _) fun _ =>
    raiseServerError_safe hl _ _ _

theorem readAndCheck_safe (hl : l.Fit) {n : ℕ} (hn : n ≤ target.capacity) (buffer : List UInt8)
    (peer : Peer) : Safe l (readAndCheck fuel recvError target n buffer peer) := by
  refine (readInto_safe (by omega) peer).bind fun _ _ _ => ?_
  exact (checkResponseStatus_safe hl _ _ _).bind fun _ _ _ => .pure _

theorem readAll_safe (hl : l.Fit) {size : ℕ} (hsize : size ≤ target.capacity)
    (resultBuf : List UInt8) (peer : Peer) :
    Safe l (readAll fuel recvError target size resultBuf peer) := by
  refine .loop (fun s hcond => ?_) _ _
  have hlt : s.totalReceived < size := by
    simp only [Bool.and_eq_true, decide_eq_true_eq] at hcond
    exact hcond.1
  refine (readInto_safe (by omega) _).bind fun _ _ _ => ?_
  exact (checkResponseStatus_safe hl _ _ _).bind fun _ _ _ =>
    .ite (fun _ => .pure _) fun _ => .pure _

theorem receiveAddress_safe (hl : l.Fit) (response : List UInt8) (peer : Peer) :
    Safe l (receiveAddress fuel recvError response peer) := by
  have hfour : 4 ≤ Target.initResponse.capacity := by decide
  refine (readAndCheck_safe hl hfour _ _).bind fun _ _ _ =>
    (readAndCheck_safe hl hfour _ _).bind fun _ _ _ =>
    (emit_safe (e := .announceAddressLength _) fun _ => trivial).bind fun _ _ hA => ?_
  have hlength := le_trans (hA _ List.mem_cons_self) hl.2.2
  exact (readAll_safe hl hlength _ _).bind fun _ _ _ =>
    (readAndCheck_safe hl hfour _ _).bind fun _ _ _ => .pure _

theorem createExternalIndexSession_safe (hl : l.Fit) (peers : List Peer) :
    Safe l (createExternalIndexSession fuel recvError peers) := by
  have hfour : 4 ≤ Target.initResponse.capacity := by decide
  induction peers with
  | nil => exact .raise _
  | cons peer peers ih =>
    refine (readAndCheck_safe hl hfour _ _).bind fun _ _ _ => .ite (fun _ => .raise _) fun _ => ?_
    refine (readAndCheck_safe hl hfour _ _).bind fun _ _ _ => .ite (fun _ => ?_) fun _ => ?_
    · exact (receiveAddress_safe hl _ _).bind fun _ _ _ => ih
    · exact (readAndCheck_safe hl (le_refl _) _ _).bind fun _ _ _ => .pure _

theorem receiveMetadata_safe (hl : l.Fit) (buffer : List UInt8) (peer : Peer) :
    Safe l (receiveMetadata fuel recvError buffer peer) :=
  (readAndCheck_safe hl (le_refl _) _ _).bind fun _ _ _ =>
    (readAndCheck_safe hl (le_refl _) _ _).bind fun _ _ _ => .pure _

theorem readCalls_safe (hl : l.Fit) (calls : List Call) (peer : Peer) :
    Safe l (readCalls fuel recvError calls peer) := by
  induction calls generalizing peer with
  | nil => exact .pure _
  | cons call calls ih => exact (readAll_safe hl call.size_le _ _).bind fun s _ _ => ih s.peer

theorem clientReads_safe (hl : l.Fit) (peers : List Peer) (buffer : List UInt8)
    (calls : List Call) :
    Safe l (clientReads fuel recvError peers buffer calls) :=
  (createExternalIndexSession_safe hl peers).bind fun _ _ _ =>
    (receiveMetadata_safe hl buffer _).bind fun _ _ _ => readCalls_safe hl calls _

end Safety

def magicBytes : List UInt8 := leBytes 4 EXTERNAL_INDEX_ERR_MSG

def longError (n : ℕ) : Peer := ⟨[magicBytes, leBytes 4 n, List.replicate n 97], .closed⟩

def longAddress (n : ℕ) : Peer :=
  ⟨[leBytes 4 1, leBytes 4 2, leBytes 4 0, leBytes 4 n, List.replicate n 97], .closed⟩

def longBatch (n : ℕ) : Peer :=
  ⟨[leBytes 4 1, leBytes 4 1, [0], leBytes 8 1, leBytes 8 1,
    magicBytes ++ leBytes 4 0 ++ List.replicate n 97], .closed⟩

def longBatchCall : Call := ⟨2000, List.replicate 2000 0, List.length_replicate.ge⟩

def blankStack : List UInt8 := List.replicate EXTERNAL_INDEX_MAX_ERR_SIZE 0

theorem longError_events : (clientReads 3 blankStack [longError 1025] [] []).events =
    [.write .initResponse 0 4, .announceErrorBytes 0, .write .errorLength 0 0,
      .write .errorText 0 0, .write .errorLength 0 4, .announceErrorLength 1025,
        .write .errorText 0 1025] := by decide +kernel

theorem longAddress_events : (clientReads 3 blankStack [longAddress 1024] [] []).events =
    [.write .initResponse 0 4, .write .initResponse 0 4, .write .initResponse 0 4,
      .write .initResponse 0 4, .announceAddressLength 1024, .write .address 0 1024,
        .write .initResponse 0 0] := by decide +kernel

theorem longBatch_events :
    (clientReads 3 blankStack [longBatch 1025] (List.replicate 8 0) [longBatchCall]).events =
    [.write .initResponse 0 4, .write .initResponse 0 4, .write .initResponse 0 1,
      .write .metadata 0 8, .write .metadata 0 8, .write (.result 2000) 0 1033,
        .announceErrorBytes 1025, .write .errorLength 0 4,
      .write .errorText 0 1025, .announceErrorLength 0] := by decide +kernel

theorem not_safe {l : Limits} {α : Type} {x : Client α} {events : List Event}
    (hx : x.events = events) (hadmits : ∀ e ∈ events, l.Admits e) {e : Event} (he : e ∈ events)
    (hout : ¬ Inside e) : ¬ Safe l x := by
  intro hsafe
  rw [Safe, Guarantees, hx] at hsafe
  exact hout (hsafe hadmits e he)

/-- With what the peer announces bounded by the limits, every write of every run is
    inside its buffer exactly if the limits fit the buffers for the text and the
    address. -/
theorem writes_inside_iff (l : Limits) :
    (∀ fuel recvError peers buffer calls, Guarantees l.Admits Inside
      (clientReads fuel recvError peers buffer calls)) ↔
      l.errorLength ≤ 1024 ∧ l.errorBytes ≤ 1024 ∧ l.addressLength ≤ 1023 := by
  constructor
  · intro h
    refine ⟨?_, ?_, ?_⟩
    · by_contra hlong
      refine not_safe longError_events ?_ (e := .write .errorText 0 1025) (by decide)
        (by decide) (h _ _ _ _ _)
      simp [Limits.Admits]
      omega
    · by_contra hlong
      refine not_safe longBatch_events ?_ (e := .write .errorText 0 1025) (by decide)
        (by decide) (h _ _ _ _ _)
      simp [Limits.Admits]
      omega
    · by_contra hlong
      refine not_safe longAddress_events ?_ (e := .write .address 0 1024) (by decide)
        (by decide) (h _ _ _ _ _)
      simp [Limits.Admits]
      omega
  · intro hl fuel recvError peers buffer calls
    exact clientReads_safe hl peers buffer calls

theorem run_writes_inside {fuel : ℕ} {recvError : List UInt8} {peers : List Peer}
    {buffer : List UInt8} {calls : List Call}
    (h : ∀ e ∈ (clientReads fuel recvError peers buffer calls).events,
      Limits.Admits ⟨1024, 1024, 1023⟩ e) :
    ∀ e ∈ (clientReads fuel recvError peers buffer calls).events, Inside e :=
  clientReads_safe ⟨le_refl _, le_refl _, le_refl _⟩ peers buffer calls h

/-- An error text and an address that are longer than the arrays they are read into. -/
theorem announced_lengths_overrun :
    .write .errorText 0 1100 ∈ (clientReads 3 blankStack [longError 1100] [] []).events ∧
    .write .address 0 1100 ∈ (clientReads 3 blankStack [longAddress 1100] [] []).events ∧
    ¬ Inside (.write .errorText 0 1100) ∧ ¬ Inside (.write .address 0 1100) := by decide +kernel

end Lantern.SocketReads
