import Mathlib.Data.List.Infix
import Lantern.DaemonJobs

set_option autoImplicit false

/-!
# Payloads of notifications

Triggers send a row's key and the number of its job, or what happened to a database and
its URI, as one text with a separator between. The listeners split the text at every
separator and take the first two parts.
-/
namespace Lantern.NotificationPayloads
open CharText
open DaemonJobs (Daemon DaemonArgs Listener payload insertAction
  deleteAction notified)

structure JobInsertNotification where
  id : Int32
  generateMissing : Bool
  rowId : Option Text
  filter : Option Text
  limit : Option UInt32
  deriving DecidableEq

def jobIdText (jobId : Int32) : Text :=
  match jobId.toInt with
  | .ofNat n => Nat.toDigits 10 n
  | .negSucc n => '-' :: Nat.toDigits 10 (n + 1)

/-- `NEW.{pk}::TEXT || ':' || '{job_id}'` -/
def clientPayload (pk : Text) (jobId : Int32) : Text := pk ++ ':' :: jobIdText jobId

def readDigits (text : Text) : Option ℕ :=
  if text ≠ [] ∧ text.all Char.isDigit = true then some (Nat.ofDigitChars 10 text 0) else none

def checkedInt32 (z : ℤ) : Option Int32 :=
  if -2 ^ 31 ≤ z ∧ z < 2 ^ 31 then some (Int32.ofInt z) else none

/-- `i32::from_str_radix(text, 10)`: one sign, then at least one digit. -/
def fromStrRadix : Text → Option Int32
  | [] => none
  | c :: cs =>
    if c = '-' then (readDigits cs).bind fun n => checkedInt32 (-n)
    else if c = '+' then (readDigits cs).bind fun n => checkedInt32 n
    else (readDigits (c :: cs)).bind fun n => checkedInt32 n

inductive Received where
  | invalid (message : Text)
  | panicked
  | send (notification : JobInsertNotification)
  deriving DecidableEq

def rowNotification (pk : Text) (jobId : Int32) : JobInsertNotification :=
  ⟨jobId, false, some pk, none, none⟩

def invalidMessage : Text := "Invalid notification received ".toList

def clientNotification (payload : Text) : Received :=
  match payload.splitOn ':' with
  | pk :: jobId :: _ =>
    match fromStrRadix jobId with
    | some id => .send (rowNotification pk id)
    | none => .panicked
  | _ => .invalid (invalidMessage ++ payload)

def clientListener : List Text → List JobInsertNotification × Bool
  | [] => ([], true)
  | payload :: payloads =>
    match clientNotification payload with
    | .panicked => ([], false)
    | .invalid _ => clientListener payloads
    | .send notification =>
      ((clientListener payloads).1.cons notification, (clientListener payloads).2)

theorem readDigits_toDigits (n : ℕ) : readDigits (Nat.toDigits 10 n) = some n := by
  have hdigits : ∀ c ∈ Nat.toDigits 10 n, c.isDigit = true := fun c hc =>
    Nat.isDigit_of_mem_toDigits (by decide) (by decide) hc
  rw [readDigits, if_pos ⟨Nat.toDigits_ne_nil, List.all_eq_true.mpr hdigits⟩,
    Nat.ofDigitChars_ten_toDigits]

theorem checkedInt32_toInt (jobId : Int32) : checkedInt32 jobId.toInt = some jobId := by
  rw [checkedInt32, if_pos ⟨jobId.le_toInt, jobId.toInt_lt⟩, Int32.ofInt_toInt]

theorem ne_of_isDigit {c d : Char} (hc : c.isDigit = true) (hd : d.isDigit = false) : c ≠ d := by
  rintro rfl
  rw [hc] at hd
  cases hd

theorem fromStrRadix_jobIdText (jobId : Int32) : fromStrRadix (jobIdText jobId) = some jobId := by
  have hchecked := checkedInt32_toInt jobId
  unfold jobIdText
  cases hvalue : jobId.toInt with
  | ofNat n =>
    change fromStrRadix (Nat.toDigits 10 n) = some jobId
    rw [hvalue, Int.ofNat_eq_natCast] at hchecked
    have hread := readDigits_toDigits n
    have hdigits : ∀ c ∈ Nat.toDigits 10 n, c.isDigit = true := fun c hc =>
      Nat.isDigit_of_mem_toDigits (by decide) (by decide) hc
    cases htext : Nat.toDigits 10 n with
    | nil => exact absurd htext Nat.toDigits_ne_nil
    | cons c cs =>
      rw [htext] at hread hdigits
      have hc := hdigits c List.mem_cons_self
      rw [fromStrRadix, if_neg (ne_of_isDigit hc (by decide)),
        if_neg (ne_of_isDigit hc (by decide)), hread, Option.bind_some]
      exact hchecked
  | negSucc n =>
    change fromStrRadix ('-' :: Nat.toDigits 10 (n + 1)) = some jobId
    rw [hvalue, Int.negSucc_eq, ← Nat.cast_succ] at hchecked
    rw [fromStrRadix, if_pos rfl, readDigits_toDigits, Option.bind_some]
    exact hchecked

theorem colon_notMem_jobIdText (jobId : Int32) : ':' ∉ jobIdText jobId := by
  have hdigits : ∀ n, ':' ∉ Nat.toDigits 10 n := fun n h =>
    absurd (Nat.isDigit_of_mem_toDigits (by decide) (by decide) h) (by decide)
  unfold jobIdText
  split
  · exact hdigits _
  · intro h
    rcases List.mem_cons.mp h with h | h
    · exact absurd h (by decide)
    · exact hdigits _ h

theorem clientNotification_plain {pk : Text} (hpk : ':' ∉ pk) (jobId : Int32) :
    clientNotification (clientPayload pk jobId) = .send (rowNotification pk jobId) := by
  have hparts : (clientPayload pk jobId).splitOn ':' = [pk, jobIdText jobId] := by
    rw [clientPayload, List.splitOn_append_cons_self_of_not_mem hpk,
      List.splitOn_eq_singleton (colon_notMem_jobIdText jobId)]
  rw [clientNotification, hparts]
  simp only [fromStrRadix_jobIdText]

theorem clientPayload_two_parts (pk : Text) (jobId : Int32) :
    ∃ first second rest, (clientPayload pk jobId).splitOn ':' = first :: second :: rest := by
  obtain ⟨first, parts, hfirst⟩ := List.exists_cons_of_ne_nil (List.splitOn_ne_nil ':' pk)
  obtain ⟨second, rest, hsecond⟩ :=
    List.exists_cons_of_ne_nil (List.splitOn_ne_nil ':' (jobIdText jobId))
  rw [clientPayload, List.splitOn_append_cons_self, hfirst, hsecond]
  cases parts with
  | nil => exact ⟨first, second, rest, rfl⟩
  | cons part parts => exact ⟨first, part, parts ++ second :: rest, rfl⟩

theorem clientNotification_ne_invalid (pk : Text) (jobId : Int32) (message : Text) :
    clientNotification (clientPayload pk jobId) ≠ .invalid message := by
  obtain ⟨first, second, rest, hparts⟩ := clientPayload_two_parts pk jobId
  rw [clientNotification, hparts]
  cases hid : fromStrRadix second <;> simp [hid]

theorem clientNotification_cut (before after : Text) (hbefore : ':' ∉ before) (jobId : Int32)
    (notification : JobInsertNotification)
    (h : clientNotification (clientPayload (before ++ ':' :: after) jobId) = .send notification) :
    notification.rowId = some before := by
  have hparts : (clientPayload (before ++ ':' :: after) jobId).splitOn ':' =
      before :: (after ++ ':' :: jobIdText jobId).splitOn ':' := by
    rw [clientPayload, List.append_assoc, List.cons_append,
      List.splitOn_append_cons_self_of_not_mem hbefore]
  obtain ⟨part, parts, hrest⟩ :=
    List.exists_cons_of_ne_nil (List.splitOn_ne_nil ':' (after ++ ':' :: jobIdText jobId))
  rw [clientNotification, hparts, hrest] at h
  cases hid : fromStrRadix part with
  | none => simp [hid] at h
  | some id =>
    simp only [hid, Received.send.injEq] at h
    rw [← h]
    rfl

theorem clientNotification_eq_iff (pk : Text) (jobId : Int32) :
    clientNotification (clientPayload pk jobId) = .send (rowNotification pk jobId) ↔ ':' ∉ pk := by
  constructor
  · intro h hmem
    obtain ⟨before, after, rfl, hbefore⟩ := List.eq_append_cons_of_mem hmem
    have hrow := clientNotification_cut before after hbefore jobId _ h
    have hlength := congrArg List.length (Option.some.inj hrow)
    simp at hlength
  · exact fun hpk => clientNotification_plain hpk jobId

theorem clientListener_cons (payload : Text) (payloads : List Text) :
    clientListener (payload :: payloads) =
      match clientNotification payload with
      | .panicked => ([], false)
      | .invalid _ => clientListener payloads
      | .send notification =>
        ((clientListener payloads).1.cons notification, (clientListener payloads).2) := rfl

/-- Every row that was changed is queued under its own key and job, and the listener
    goes on, exactly if no key has a separator. -/
theorem clientListener_eq_iff (rows : List (Text × Int32)) :
    clientListener (rows.map fun row => clientPayload row.1 row.2) =
      (rows.map fun row => rowNotification row.1 row.2, true) ↔ ∀ row ∈ rows, ':' ∉ row.1 := by
  induction rows with
  | nil => simp [clientListener]
  | cons row rows ih =>
    rw [List.forall_mem_cons, ← ih, ← clientNotification_eq_iff row.1 row.2, List.map_cons,
      List.map_cons, clientListener_cons]
    constructor
    · intro h
      cases hreceived : clientNotification (clientPayload row.1 row.2) with
      | panicked => simp [hreceived] at h
      | invalid message =>
        exact absurd hreceived (clientNotification_ne_invalid row.1 row.2 message)
      | send notification =>
        simp only [hreceived, Prod.mk.injEq, List.cons.injEq] at h
        obtain ⟨⟨rfl, hqueue⟩, halive⟩ := h
        exact ⟨rfl, Prod.ext hqueue halive⟩
    · rintro ⟨hreceived, hrest⟩
      simp only [hreceived, hrest]

inductive Trigger where
  | insert
  | delete
  deriving DecidableEq, Repr

def Trigger.action : Trigger → Text
  | .insert => insertAction
  | .delete => deleteAction

/-- `'insert::' || NEW.db_uri`, `'delete::' || OLD.db_uri` -/
def changePayload (trigger : Trigger) (uri : Text) : Text := payload trigger.action uri

def changeNotification (payload : Text) : Option (Text × Text) :=
  match splitColons payload with
  | action :: uri :: _ => some (action, uri)
  | _ => none

/-- What the daemon does next depends on the payload by its action and URI only. -/
theorem step_notify (args : DaemonArgs) (s : Daemon) (payload : Text) :
    DaemonJobs.step args s (.notify payload) =
      if s.listener = .listening then
        some ((changeNotification payload).elim { s with listener := .returned } fun e =>
          notified args e.1 e.2 s)
      else none := by
  rw [DaemonJobs.step, changeNotification]
  split_ifs with h
  · rcases splitColons payload with _ | ⟨action, _ | ⟨uri, rest⟩⟩ <;> rfl
  · rfl

theorem colon_notMem_action (trigger : Trigger) : ':' ∉ trigger.action := by
  cases trigger <;> decide

theorem changeNotification_changePayload (trigger : Trigger) (uri : Text) :
    changeNotification (changePayload trigger uri) =
      some (trigger.action, (splitColons uri).headD []) := by
  rw [changeNotification, changePayload, payload,
    splitColons_separated (colon_notMem_action trigger)]
  obtain ⟨part, parts, hparts⟩ := List.exists_cons_of_ne_nil (splitColons_ne_nil uri)
  rw [hparts]
  rfl

theorem headD_splitColons_eq_iff (uri : Text) : (splitColons uri).headD [] = uri ↔
      ¬ [':', ':'] <:+: uri := by
  fun_induction splitColons uri with
  | case1 => simp
  | case2 cs ih =>
    have hoccurs : [':', ':'] <:+: ':' :: ':' :: cs := ⟨[], cs, rfl⟩
    simp [hoccurs]
  | case3 c cs hcs h ih => exact absurd h (splitColons_ne_nil cs)
  | case4 c cs hcs part parts h ih =>
    rw [h, List.headD_cons] at ih
    have hfront : ¬ [':', ':'] <+: c :: cs := by
      rintro ⟨rest, hrest⟩
      injection hrest with hc hrest
      exact hcs rest hc.symm hrest.symm
    rw [List.infix_cons_iff, not_or, List.headD_cons, List.cons_inj_right, ih]
    exact ⟨fun h => ⟨hfront, h⟩, fun h => h.2⟩

/-- What a trigger sends is read as it was sent exactly if the key, or the URI, does not
    have the separator in it. -/
theorem payloads_read_iff (pk : Text) (jobId : Int32) (trigger : Trigger) (uri : Text) :
    (clientNotification (clientPayload pk jobId) = .send (rowNotification pk jobId) ↔ ':' ∉ pk) ∧
      (changeNotification (changePayload trigger uri) = some (trigger.action, uri) ↔
        ¬ [':', ':'] <:+: uri) := by
  refine ⟨clientNotification_eq_iff pk jobId, ?_⟩
  rw [changeNotification_changePayload, Option.some_inj, Prod.mk.injEq, ← headD_splitColons_eq_iff]
  exact and_iff_right rfl

def wordsKey : Text := ['a', ':', 'b']

def timeKey : Text := ['1', '0', ':', '5']

def loopbackUri : Text := "postgres://u@[".toList ++ "::1]/db".toList

/-- The first key ends the listener, the second one is taken for another row of another
    job, and of the URI only what stands before the host's address is left. -/
theorem separators_misread :
    clientNotification (clientPayload wordsKey 1) = .panicked ∧
      clientNotification (clientPayload timeKey 1) = .send (rowNotification ['1', '0'] 5) ∧
      changeNotification (changePayload .insert loopbackUri) =
        some (insertAction, "postgres://u@[".toList) := by
  decide

end Lantern.NotificationPayloads
