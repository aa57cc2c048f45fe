import Lantern.SocketReads

set_option autoImplicit false

/-!
# The client's side of the external index socket: receiving

After the last tuple the server replies with the number of indexed tuples, the size of
the index file and the file. After every read the client looks for the error magic at
the start of the buffer it reads into, not at the bytes just read.
-/
namespace Lantern.SocketClient
open FuelLoop ByteStrings SegmentedStream IndexRelation SocketReads

/-- The server has closed the connection behind its reply. -/
def checkExternalIndexResponseStatus (fuel : ℕ) (recvError : List UInt8) (socket : Socket)
    (buffer : List UInt8) (size : ℕ) : Outcome Fault Unit :=
  (checkResponseStatus fuel recvError ⟨socket, .closed⟩ buffer size).outcome

section Receive
-- what the stack holds where `recv_error` is placed
variable (fuel : ℕ) (recvError : List UInt8)

structure ReadState where
  socket : Socket
  received : List UInt8
  closed : Bool

def readStep (size : ℕ) (s : ReadState) : Outcome Fault ReadState :=
  let r := recv (size - s.received.length) s.socket
  (checkExternalIndexResponseStatus fuel recvError r.2 (s.received ++ r.1) r.1.length).map fun _ =>
    ⟨r.2, s.received ++ r.1, r.1.isEmpty⟩

def externalIndexReadAll (socket : Socket) (size : ℕ) : Outcome Fault (List UInt8 × Socket) :=
  (loop (fun s => s.received.length < size && !s.closed) (readStep fuel recvError size) fuel
    ⟨socket, [], false⟩).map fun s => (s.received, s.socket)

/-- `buffer` is the local array, not initialised: a short read leaves its tail
    as it was. -/
def externalIndexReceiveMetadata (buffer : List UInt8) (socket : Socket) :
    Outcome Fault (ℕ × ℕ × Socket) :=
  let r := recv 8 socket
  let buffer := patch 0 r.1 buffer
  (checkExternalIndexResponseStatus fuel recvError r.2 buffer r.1.length).bind fun _ =>
    let numAddedVectors := leNat buffer
    let r := recv 8 r.2
    let buffer := patch 0 r.1 buffer
    (checkExternalIndexResponseStatus fuel recvError r.2 buffer r.1.length).bind fun _ =>
      .done (numAddedVectors, leNat buffer, r.2)

def readCalls : List ℕ → Socket → Outcome Fault (List UInt8)
  | [], _ => .done []
  | size :: sizes, socket =>
    (externalIndexReadAll fuel recvError socket size).bind fun r =>
      (readCalls sizes r.2).map fun rest => r.1 ++ rest

def receiveReply (buffer : List UInt8) (socket : Socket) (sizes : List ℕ) :
    Outcome Fault (ℕ × ℕ × List UInt8) :=
  (externalIndexReceiveMetadata fuel recvError buffer socket).bind fun (n, size, socket) =>
    (readCalls fuel recvError sizes socket).map fun file => (n, size, file)

end Receive

def reply (numTuples : ℕ) (file : List UInt8) : List UInt8 :=
  leBytes 8 numTuples ++ leBytes 8 file.length ++ file

variable {socket : Socket}

theorem check_eq_done {fuel : ℕ} {recvError : List UInt8} {buffer : List UInt8} {size : ℕ}
    (h : 4 ≤ size → leNat (buffer.take 4) ≠ EXTERNAL_INDEX_ERR_MSG) :
    checkExternalIndexResponseStatus fuel recvError socket buffer size = .done () :=
  check_passes _ h

/-- A call that reads `missing` bytes behind `start` sees no error: either the
    buffer does not start with the magic, or every read is too short to be
    looked at. -/
def NoAlarm (start : List UInt8) (missing : ℕ) (socket : Socket) : Prop :=
  leNat ((start ++ (reads missing socket).1.flatten).take 4) = EXTERNAL_INDEX_ERR_MSG →
    ∀ r ∈ (reads missing socket).1, r.length < 4

section Loop
variable {fuel : ℕ} {recvError : List UInt8} {size : ℕ}

theorem readStep_open {s : ReadState} (hs : s.received.length < size) (hseg : Segmented s.socket)
    (hne : s.socket ≠ [])
    (hplain : 4 ≤ (recv (size - s.received.length) s.socket).1.length →
      leNat ((s.received ++ (recv (size - s.received.length) s.socket).1).take 4) ≠
        EXTERNAL_INDEX_ERR_MSG) :
    readStep fuel recvError size s = .done ⟨(recv (size - s.received.length) s.socket).2,
      s.received ++ (recv (size - s.received.length) s.socket).1, false⟩ := by
  have hread := recv_ne_nil hseg (by omega : 0 < size - s.received.length) hne
  simp [readStep, check_eq_done hplain, hread]

theorem noAlarm_recv {start : List UInt8} {missing : ℕ} (hm : 0 < missing) (hne : socket ≠ []) :
    NoAlarm start missing socket ↔
      (4 ≤ (recv missing socket).1.length →
        leNat ((start ++ (recv missing socket).1).take 4) ≠ EXTERNAL_INDEX_ERR_MSG) ∧
      NoAlarm (start ++ (recv missing socket).1) (missing - (recv missing socket).1.length)
        (recv missing socket).2 := by
  unfold NoAlarm
  rw [reads_recv hm hne]
  simp only [List.flatten_cons, List.forall_mem_cons, ← List.append_assoc]
  have hhead : 4 ≤ (recv missing socket).1.length → ∀ rest : List UInt8,
      (start ++ (recv missing socket).1 ++ rest).take 4 =
      (start ++ (recv missing socket).1).take 4 :=
    fun h rest => List.take_append_of_le_length (by simp; omega)
  constructor
  · intro h
    refine ⟨fun hlong herr => ?_, fun herr => (h herr).2⟩
    have := (h (by rw [hhead hlong]; exact herr)).1
    omega
  · rintro ⟨hfirst, hrest⟩ herr
    refine ⟨?_, hrest herr⟩
    by_contra hlong
    exact hfirst (by omega) (by rw [← hhead (by omega)]; exact herr)

/-- The loop returns the next bytes when it sees no error, and does not return
    when it sees one. The induction is on the fuel; a pass reads at least one
    byte or finds the stream at its end. -/
theorem loop_readStep {k : ℕ} {s : ReadState} (hseg : Segmented s.socket) (hopen : s.closed = false)
    (hk : size - s.received.length + 1 < k) :
    (NoAlarm s.received (size - s.received.length) s.socket →
      ∃ closed, loop (fun s => s.received.length < size && !s.closed)
        (readStep fuel recvError size) k s =
          .done ⟨(reads (size - s.received.length) s.socket).2,
            s.received ++ (reads (size - s.received.length) s.socket).1.flatten, closed⟩) ∧
    (¬ NoAlarm s.received (size - s.received.length) s.socket →
      ∀ t, loop (fun s => s.received.length < size && !s.closed)
        (readStep fuel recvError size) k s ≠ .done t) := by
  induction k generalizing s with
  | zero => omega
  | succ k ih =>
    obtain ⟨socket, received, closed⟩ := s
    simp only at hseg hopen hk ⊢
    subst hopen
    by_cases hfull : size ≤ received.length
    · have hzero : size - received.length = 0 := by omega
      rw [loop_exit (by simp; omega), hzero]
      exact ⟨fun _ => ⟨false, by simp [reads]⟩, fun h => absurd (by simp [NoAlarm, reads]) h⟩
    have hpos : 0 < size - received.length := by omega
    rw [loop_enter (by simp; omega)]
    by_cases hne : socket = []
    · -- the server has closed the connection: one empty read, and the loop ends
      subst hne
      obtain ⟨m, hm⟩ : ∃ m, size - received.length = m + 1 := ⟨_, (Nat.succ_pred hpos.ne').symm⟩
      obtain ⟨k, rfl⟩ : ∃ j, k = j + 1 := ⟨k - 1, by omega⟩
      refine ⟨fun _ => ⟨true, ?_⟩, fun h => absurd (by simp [NoAlarm, hm, reads]) h⟩
      simp [readStep, recv, check_eq_done, hm, reads, loop_exit]
    rw [noAlarm_recv hpos hne, reads_recv hpos hne]
    by_cases hfirst : 4 ≤ (recv (size - received.length) socket).1.length →
        leNat ((received ++ (recv (size - received.length) socket).1).take 4) ≠
        EXTERNAL_INDEX_ERR_MSG
    · have hread : 0 < (recv (size - received.length) socket).1.length :=
        List.length_pos_of_ne_nil (recv_ne_nil hseg hpos hne)
      have hsub : size - (received ++ (recv (size - received.length) socket).1).length =
          size - received.length - (recv (size - received.length) socket).1.length := by
        simp only [List.length_append]
        omega
      have hnext := @ih ⟨(recv (size - received.length) socket).2,
        received ++ (recv (size - received.length) socket).1, false⟩ (hseg.recv _) rfl
        (by simp only; omega)
      rw [readStep_open (by simp only; omega) hseg hne hfirst, Outcome.bind_done]
      simp only [hsub] at hnext
      rw [and_iff_right hfirst]
      simpa only [List.flatten_cons, List.append_assoc] using hnext
    · refine ⟨fun h => absurd h.1 hfirst, fun _ t ht => ?_⟩
      obtain ⟨u, hu, -⟩ := Outcome.bind_eq_done.mp ht
      obtain ⟨v, hv, -⟩ := Outcome.map_eq_done.mp hu
      exact hfirst (check_done hv)

theorem readAll_eq_done (hseg : Segmented socket) (hfuel : size + 1 < fuel)
    (h : NoAlarm [] size socket) :
    externalIndexReadAll fuel recvError socket size =
      .done (socket.flatten.take size, (reads size socket).2) := by
  obtain ⟨closed, hloop⟩ := (@loop_readStep fuel recvError size fuel ⟨socket, [], false⟩ hseg rfl
    (by simpa using hfuel)).1 (by simpa using h)
  simp only [List.length_nil, Nat.sub_zero, List.nil_append] at hloop
  rw [externalIndexReadAll, hloop, Outcome.map_done, (reads_flatten size socket).1]

theorem readAll_done {r : List UInt8 × Socket} (hseg : Segmented socket) (hfuel : size + 1 < fuel)
    (h : externalIndexReadAll fuel recvError socket size = .done r) :
    NoAlarm [] size socket := by
  by_contra halarm
  obtain ⟨t, ht, -⟩ := Outcome.map_eq_done.mp h
  exact (@loop_readStep fuel recvError size fuel ⟨socket, [], false⟩ hseg rfl
    (by simpa using hfuel)).2 (by simpa using halarm) t ht

end Loop

def NoAlarms : List ℕ → Socket → Prop
  | [], _ => True
  | size :: sizes, socket => NoAlarm [] size socket ∧ NoAlarms sizes (reads size socket).2

section Calls
variable {fuel : ℕ} {recvError : List UInt8}

theorem readCalls_eq_done {sizes : List ℕ} {socket : Socket} (hseg : Segmented socket)
    (hfuel : ∀ size ∈ sizes, size + 1 < fuel) (h : NoAlarms sizes socket) :
    readCalls fuel recvError sizes socket = .done (socket.flatten.take sizes.sum) := by
  induction sizes generalizing socket with
  | nil => simp [readCalls]
  | cons size sizes ih =>
    have hrest := ih (hseg.reads size) (fun n hn => hfuel n (List.mem_cons_of_mem _ hn)) h.2
    rw [readCalls, readAll_eq_done hseg (hfuel size List.mem_cons_self) h.1, Outcome.bind_done,
      hrest, Outcome.map_done, (reads_flatten size socket).2, List.sum_cons, List.take_add]

theorem readCalls_done {sizes : List ℕ} {file : List UInt8} (hseg : Segmented socket)
    (hfuel : ∀ size ∈ sizes, size + 1 < fuel)
    (h : readCalls fuel recvError sizes socket = .done file) : NoAlarms sizes socket := by
  induction sizes generalizing socket file with
  | nil => trivial
  | cons size sizes ih =>
    have hsize := hfuel size List.mem_cons_self
    obtain ⟨r, hr, h⟩ := Outcome.bind_eq_done.mp h
    have hplain := readAll_done hseg hsize hr
    rw [readAll_eq_done hseg hsize hplain] at hr
    cases hr
    obtain ⟨rest, hrest, -⟩ := Outcome.map_eq_done.mp h
    exact ⟨hplain, ih (hseg.reads size) (fun n hn => hfuel n (List.mem_cons_of_mem _ hn)) hrest⟩

end Calls

def sizeRead (pieces : Socket) : ℕ := (recv 8 (recv 8 pieces).2).1.length

/-- The read of the count returns all of it. The read of the size may be short
    only if the bytes of the count that stay behind it are those of the size and
    the file starts with the bytes that were not read. Nothing that is looked at
    starts with the error magic. -/
structure Undamaged (numTuples : ℕ) (file : List UInt8) (pieces : Socket) (sizes : List ℕ) :
    Prop where
  count_whole : (recv 8 pieces).1.length = 8
  count_plain : numTuples % 2 ^ 32 ≠ EXTERNAL_INDEX_ERR_MSG
  size_tail : (leBytes 8 numTuples).drop (sizeRead pieces) =
    (leBytes 8 file.length).drop (sizeRead pieces)
  size_plain : 4 ≤ sizeRead pieces → file.length % 2 ^ 32 ≠ EXTERNAL_INDEX_ERR_MSG
  file_aligned : ((leBytes 8 file.length).drop (sizeRead pieces) ++ file).take file.length = file
  calls_plain : NoAlarms sizes (recv 8 (recv 8 pieces).2).2

theorem leNat_take_four (n : ℕ) : leNat ((leBytes 8 n).take 4) = n % 2 ^ 32 := by
  rw [take_leBytes (by omega), leNat_leBytes]
  norm_num

section Reply
variable {fuel numTuples : ℕ} {file : List UInt8} {pieces : Socket} {sizes : List ℕ}

theorem count_read (hsplit : pieces.flatten = reply numTuples file)
    (hwhole : (recv 8 pieces).1.length = 8) :
    (recv 8 pieces).1 = leBytes 8 numTuples ∧
      (recv 8 pieces).2.flatten = leBytes 8 file.length ++ file := by
  have htake := recv_eq_take 8 pieces
  have hrest := recv_rest 8 pieces
  rw [hwhole, hsplit, reply, List.append_assoc] at htake hrest
  exact ⟨by simpa using htake, by simpa using hrest⟩

theorem size_read (hsplit : pieces.flatten = reply numTuples file)
    (hwhole : (recv 8 pieces).1.length = 8) :
    (recv 8 (recv 8 pieces).2).1 = (leBytes 8 file.length).take (sizeRead pieces) ∧
      (recv 8 (recv 8 pieces).2).2.flatten =
        (leBytes 8 file.length).drop (sizeRead pieces) ++ file := by
  have hle : sizeRead pieces ≤ (leBytes 8 file.length).length := by
    simpa [sizeRead] using recv_length_le 8 (recv 8 pieces).2
  have htake := recv_eq_take 8 (recv 8 pieces).2
  have hrest := recv_rest 8 (recv 8 pieces).2
  rw [(count_read hsplit hwhole).2] at htake hrest
  rw [htake, hrest]
  exact ⟨List.take_append_of_le_length hle, List.drop_append_of_le_length hle⟩

theorem receiveReply_of_undamaged {buffer recvError : List UInt8}
    (hseg : Segmented pieces) (hsplit : pieces.flatten = reply numTuples file)
    (hn : numTuples < 2 ^ 64) (hfile : file.length < 2 ^ 64) (hsizes : sizes.sum = file.length)
    (hfuel : ∀ size ∈ sizes, size + 1 < fuel) (hbuffer : buffer.length = 8)
    (h : Undamaged numTuples file pieces sizes) :
    receiveReply fuel recvError buffer pieces sizes = .done (numTuples, file.length, file) := by
  obtain ⟨hcount, -⟩ := count_read hsplit h.count_whole
  obtain ⟨hsize, hrest⟩ := size_read hsplit h.count_whole
  have hbuffer1 : patch 0 (recv 8 pieces).1 buffer = leBytes 8 numTuples := by
    rw [patch_zero, h.count_whole, List.drop_eq_nil_of_le hbuffer.le, List.append_nil, hcount]
  -- the tail of the size that was not read is still the tail of the count
  have hbuffer2 : patch 0 (recv 8 (recv 8 pieces).2).1 (leBytes 8 numTuples) =
      leBytes 8 file.length := by
    rw [patch_zero, ← sizeRead, h.size_tail, hsize, List.take_append_drop]
  have hcheck1 : leNat ((leBytes 8 numTuples).take 4) ≠ EXTERNAL_INDEX_ERR_MSG := by
    rw [leNat_take_four]
    exact h.count_plain
  have hcheck2 : 4 ≤ (recv 8 (recv 8 pieces).2).1.length →
      leNat ((leBytes 8 file.length).take 4) ≠ EXTERNAL_INDEX_ERR_MSG := by
    rw [leNat_take_four]
    exact h.size_plain
  have hcalls :=
    @readCalls_eq_done fuel recvError sizes _ ((hseg.recv 8).recv 8) hfuel h.calls_plain
  rw [hrest, hsizes, h.file_aligned] at hcalls
  simp only [receiveReply, externalIndexReceiveMetadata, hbuffer1, hbuffer2,
    check_eq_done fun _ => hcheck1, check_eq_done hcheck2, Outcome.bind_done, hcalls,
    Outcome.map_done]
  rw [leNat_leBytes_of_lt (by simpa using hn), leNat_leBytes_of_lt (by simpa using hfile)]

variable {recvError : List UInt8}

theorem receiveReply_done {buffer : List UInt8} {n size : ℕ} {bytes : List UInt8}
    (h : receiveReply fuel recvError buffer pieces sizes = .done (n, size, bytes)) :
    (4 ≤ (recv 8 pieces).1.length →
      leNat ((patch 0 (recv 8 pieces).1 buffer).take 4) ≠ EXTERNAL_INDEX_ERR_MSG) ∧
    leNat (patch 0 (recv 8 pieces).1 buffer) = n ∧
    (4 ≤ sizeRead pieces →
      leNat ((patch 0 (recv 8 (recv 8 pieces).2).1 (patch 0 (recv 8 pieces).1 buffer)).take 4) ≠
        EXTERNAL_INDEX_ERR_MSG) ∧
    leNat (patch 0 (recv 8 (recv 8 pieces).2).1 (patch 0 (recv 8 pieces).1 buffer)) = size ∧
    readCalls fuel recvError sizes (recv 8 (recv 8 pieces).2).2 = .done bytes := by
  obtain ⟨⟨n', size', socket⟩, hmeta, hfile⟩ := Outcome.bind_eq_done.mp h
  obtain ⟨file', hcalls, heq⟩ := Outcome.map_eq_done.mp hfile
  obtain ⟨u, hcheck1, hmeta⟩ := Outcome.bind_eq_done.mp hmeta
  obtain ⟨v, hcheck2, hmeta⟩ := Outcome.bind_eq_done.mp hmeta
  cases hmeta
  cases heq
  exact ⟨check_done hcheck1, rfl, check_done hcheck2, rfl, hcalls⟩

theorem count_whole_of_recovered (hn : numTuples < 2 ^ 64)
    (h : ∀ buffer : List UInt8, buffer.length = 8 →
      ∃ r, receiveReply fuel recvError buffer pieces sizes = .done (numTuples, r)) :
    (recv 8 pieces).1.length = 8 := by
  -- a stack that differs from the count in every byte
  obtain ⟨⟨size, bytes⟩, hr⟩ := h ((leBytes 8 numTuples).map (· + 1)) (by simp)
  obtain ⟨-, hcount, -⟩ := receiveReply_done hr
  have hle := recv_length_le 8 pieces
  rw [patch_zero] at hcount
  have hbytes := leNat_injective (by simp; omega)
    (hcount.trans (leNat_leBytes_of_lt (w := 8) (by simpa using hn)).symm)
  by_contra hshort
  have hget := congrArg (fun l => l[(recv 8 pieces).1.length]?) hbytes
  have hlt : (recv 8 pieces).1.length < (leBytes 8 numTuples).length := by simp; omega
  simp only [List.getElem?_append_right le_rfl, Nat.sub_self, List.getElem?_drop, Nat.add_zero,
    List.getElem?_map, List.getElem?_eq_getElem hlt, Option.map_some, Option.some.injEq] at hget
  have hval := congrArg UInt8.toNat hget
  simp only [UInt8.toNat_add, UInt8.toNat_one] at hval
  omega

theorem undamaged_of_recovered (hseg : Segmented pieces)
    (hsplit : pieces.flatten = reply numTuples file) (hn : numTuples < 2 ^ 64)
    (hfile : file.length < 2 ^ 64) (hsizes : sizes.sum = file.length)
    (hfuel : ∀ size ∈ sizes, size + 1 < fuel) (h : ∀ buffer : List UInt8, buffer.length = 8 →
      receiveReply fuel recvError buffer pieces sizes = .done (numTuples, file.length, file)) :
    Undamaged numTuples file pieces sizes := by
  have hwhole := count_whole_of_recovered hn fun buffer hb => ⟨_, h buffer hb⟩
  obtain ⟨hcount, -⟩ := count_read hsplit hwhole
  obtain ⟨hsize, hrest⟩ := size_read hsplit hwhole
  obtain ⟨hcheck1, -, hcheck2, hvalue, hcalls⟩ :=
    receiveReply_done (h (List.replicate 8 0) (by simp))
  have hbuffer : patch 0 (recv 8 pieces).1 (List.replicate 8 0) = leBytes 8 numTuples := by
    rw [patch_zero, hwhole, List.drop_eq_nil_of_le (by simp), List.append_nil, hcount]
  have hle : sizeRead pieces ≤ 8 := recv_length_le 8 (recv 8 pieces).2
  rw [hbuffer] at hcheck1 hcheck2 hvalue
  rw [patch_zero, hsize] at hcheck2 hvalue
  have hlen : ((leBytes 8 file.length).take (sizeRead pieces)).length = sizeRead pieces := by
    simp; omega
  rw [hlen] at hcheck2 hvalue
  have hbytes : (leBytes 8 file.length).take (sizeRead pieces) ++
      (leBytes 8 numTuples).drop (sizeRead pieces) = leBytes 8 file.length :=
    leNat_injective (by simp; omega)
      (hvalue.trans (leNat_leBytes_of_lt (w := 8) (by simpa using hfile)).symm)
  have hplain := readCalls_done ((hseg.recv 8).recv 8) hfuel hcalls
  rw [readCalls_eq_done ((hseg.recv 8).recv 8) hfuel hplain, hrest, hsizes] at hcalls
  refine ⟨hwhole, ?_, ?_, ?_, Outcome.done.inj hcalls, hplain⟩
  · rw [← leNat_take_four]
    exact hcheck1 (by omega)
  · have hdrop := congrArg (List.drop (sizeRead pieces)) hbytes
    rwa [List.drop_append_of_le_length hlen.ge, List.drop_eq_nil_of_le hlen.le,
      List.nil_append] at hdrop
  · intro hfour
    rw [← leNat_take_four, ← hbytes]
    exact hcheck2 hfour

end Reply

/-- The reply is recovered, whatever the uninitialised arrays hold, exactly when
    the reads did not damage it. -/
theorem reply_recovered_iff {fuel numTuples : ℕ} {file : List UInt8} {pieces : Socket}
    {sizes : List ℕ} (hn : numTuples < 2 ^ 64) (hfile : file.length < 2 ^ 64)
    (hseg : Segmented pieces) (hsplit : pieces.flatten = reply numTuples file)
    (hsizes : sizes.sum = file.length) (hfuel : file.length + 1 < fuel) :
    (∀ buffer recvError : List UInt8, buffer.length = 8 →
      recvError.length = EXTERNAL_INDEX_MAX_ERR_SIZE →
      receiveReply fuel recvError buffer pieces sizes = .done (numTuples, file.length, file)) ↔
    Undamaged numTuples file pieces sizes := by
  have hcalls : ∀ size ∈ sizes, size + 1 < fuel := fun size hmem => by
    have := List.single_le_sum (fun n _ => Nat.zero_le n) size hmem
    omega
  constructor
  · intro h
    exact undamaged_of_recovered hseg hsplit hn hfile hsizes hcalls fun buffer hb =>
      h buffer (List.replicate EXTERNAL_INDEX_MAX_ERR_SIZE 0) hb (by simp)
  · intro h buffer recvError hb _
    exact receiveReply_of_undamaged hseg hsplit hn hfile hsizes hcalls hb h

theorem five_bytes_recovered :
    Segmented [leBytes 8 3, leBytes 8 5, [1, 2, 3, 4, 5]] ∧
      ∀ buffer recvError : List UInt8, buffer.length = 8 →
        recvError.length = EXTERNAL_INDEX_MAX_ERR_SIZE →
        receiveReply 7 recvError buffer [leBytes 8 3, leBytes 8 5, [1, 2, 3, 4, 5]] [2, 3] =
          .done (3, 5, [1, 2, 3, 4, 5]) := by
  have hseg : Segmented [leBytes 8 3, leBytes 8 5, [1, 2, 3, 4, 5]] := by
    unfold Segmented
    decide
  refine ⟨hseg, (@reply_recovered_iff 7 3 [1, 2, 3, 4, 5] _ [2, 3] (by decide) (by decide) hseg
    (by decide) (by decide) (by decide)).mpr ⟨by decide, by decide, by decide, by decide,
    by decide, ?_⟩⟩
  simp only [NoAlarms, NoAlarm]
  decide

/-- Two replies that are not recovered: the count arrives in two reads and half
    of it is taken from the stack; the file arrives whole but starts with the
    error magic and is taken for an error message. -/
theorem reply_damaged :
    (Segmented [[3, 0, 0, 0], [0, 0, 0, 0], leBytes 8 1, [7]] ∧
      [[3, 0, 0, 0], [0, 0, 0, 0], leBytes 8 1, [7]].flatten = reply 3 [7] ∧
      receiveReply 9 (List.replicate 1024 0) (List.replicate 8 1)
        [[3, 0, 0, 0], [0, 0, 0, 0], leBytes 8 1, [7]] [1] =
          .done (0x0101010100000003, 0x0101010100000000, [1])) ∧
    (Segmented [leBytes 8 3, leBytes 8 9, [0x37, 0x33, 0x33, 0x37, 1, 0, 0, 0, 65]] ∧
      [leBytes 8 3, leBytes 8 9, [0x37, 0x33, 0x33, 0x37, 1, 0, 0, 0, 65]].flatten =
        reply 3 [0x37, 0x33, 0x33, 0x37, 1, 0, 0, 0, 65] ∧
      receiveReply 11 (List.replicate 1024 0) (List.replicate 8 0)
        [leBytes 8 3, leBytes 8 9, [0x37, 0x33, 0x33, 0x37, 1, 0, 0, 0, 65]] [9] =
          .fault (.elog "external index error: A")) := by
  unfold Segmented
  decide +kernel

end Lantern.SocketClient
