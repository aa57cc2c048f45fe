import Lantern.CodebookInverse
import Lantern.DecimalText
import Lantern.IndexRelation

set_option autoImplicit false

/-!
# A code as an array, as bytes and as text

An array of integers is cast to a code and back, and a code is sent and received in
binary form and written and read as text. The number of elements is stored in 16 bits,
and a code without elements is made by the cast but refused when it is read.
-/
namespace Lantern.PqvecCasts
open ByteText Fallible IndexRelation CodebookInverse DecimalText

/-- The dimensions and the elements, none of which is null. An empty array has no
    dimension. -/
structure IntArray where
  dims : List ℕ
  elems : List ℤ
  length_elems : elems.length = if dims = [] then 0 else dims.prod
  dims_pos : ∀ d ∈ dims, 0 < d

def arrayDims (elems : List ℤ) : List ℕ := if elems = [] then [] else [elems.length]

theorem length_arrayDims (elems : List ℤ) :
    elems.length = if arrayDims elems = [] then 0 else (arrayDims elems).prod := by
  cases elems <;> simp [arrayDims]

theorem arrayDims_pos (elems : List ℤ) : ∀ d ∈ arrayDims elems, 0 < d := by
  cases elems <;> simp [arrayDims]

def constructArray (elems : List ℤ) : IntArray where
  dims := arrayDims elems
  elems := elems
  length_elems := length_arrayDims elems
  dims_pos := arrayDims_pos elems

def arrayOut (a : IntArray) : Text := printList a.elems

/-- `array_in`, of texts as `array_out` writes them. -/
def arrayIn (t : Text) : Except Fault IntArray :=
  match readList t with
  | none => .error (.elog "malformed array literal")
  | some elems => .ok (constructArray elems)

def pqvecByte (x : ℤ) : Except Fault UInt8 :=
  if 255 < x then .error (.elog "Compressed vector element can not be bigger than 255")
  else if x < 0 then .error (.elog "Compressed vector element can not be smaller than 0")
  else .ok (UInt8.ofNat x.toNat)

def ldbArrayToPqvec (a : IntArray) : Except Fault PQVec := (a.elems.mapM pqvecByte).map newPQVec

def ldbPqvecToArray (q : PQVec) : IntArray := constructArray ((pqvecToArray q).map Int.ofNat)

/-- `typmod` is -1, since the type has no modifier. -/
def ldbPqvecIn (t : Text) (typmod : ℤ) : Except Fault PQVec :=
  (arrayIn t).bind fun a =>
    if a.dims.length = 0 then .error (.elog "pqvector can not be empty")
    else if typmod ≠ -1 ∧ (a.dims.length : ℤ) ≠ typmod then
      .error (.elog
        s!"array type expected {typmod} dimensions but provided array has {a.dims.length} dimensions")
    else ldbArrayToPqvec a

def ldbPqvecOut (asserts : Bool) (q : PQVec) : Except Fault Text :=
  if asserts ∧ q.dim = 0 then .error (.assertFailed "vec->dim != 0")
  else .ok (arrayOut (ldbPqvecToArray q))

/-- `pq_sendint` of two bytes, the more significant first, and `pq_sendbytes`. -/
def ldbPqvecSend (q : PQVec) : List UInt8 :=
  UInt8.ofNat (q.dim.toNat / 256) :: UInt8.ofNat (q.dim.toNat % 256) :: q.data.take q.dim.toNat

def ldbPqvecRecv : List UInt8 → Except Fault PQVec
  | high :: low :: rest =>
    let dim := high.toNat * 256 + low.toNat
    if rest.length < dim then .error (.elog "insufficient data left in message")
    else .ok (newPQVec (rest.take dim))
  | _ => .error (.elog "insufficient data left in message")

def InRange (x : ℤ) : Prop := 0 ≤ x ∧ x ≤ 255

theorem pqvecByte_eq_ok {x : ℤ} {b : UInt8} : pqvecByte x = .ok b ↔ InRange x ∧
      b = UInt8.ofNat x.toNat := by
  unfold pqvecByte InRange
  split_ifs with hbig hneg
  · exact iff_of_false (by simp) (by omega)
  · exact iff_of_false (by simp) (by omega)
  · rw [Except.ok.injEq, and_iff_right (by omega)]
    exact eq_comm

theorem toNat_byte {x : ℤ} (h : InRange x) : ((UInt8.ofNat x.toNat).toNat : ℤ) = x := by
  unfold InRange at h
  rw [UInt8.toNat_ofNat']
  omega

theorem mapM_pqvecByte {elems : List ℤ} {data : List UInt8} :
    elems.mapM pqvecByte = .ok data ↔ (∀ x ∈ elems, InRange x) ∧ data = elems.map fun x =>
      UInt8.ofNat x.toNat := by
  induction elems generalizing data with
  | nil => exact mapM_nil_ok.trans ⟨fun h => ⟨List.forall_mem_nil _, h⟩, fun h => h.2⟩
  | cons x elems ih =>
    refine mapM_cons_ok.trans ?_
    rw [List.forall_mem_cons]
    constructor
    · rintro ⟨b, bs, hb, hbs, rfl⟩
      obtain ⟨hx, rfl⟩ := pqvecByte_eq_ok.mp hb
      obtain ⟨hall, rfl⟩ := ih.mp hbs
      exact ⟨⟨hx, hall⟩, rfl⟩
    · rintro ⟨⟨hx, hall⟩, rfl⟩
      exact ⟨_, _, pqvecByte_eq_ok.mpr ⟨hx, rfl⟩, ih.mpr ⟨hall, rfl⟩, rfl⟩

def bytesOf (elems : List ℤ) : List UInt8 := elems.map fun x => UInt8.ofNat x.toNat

theorem ldbArrayToPqvec_eq_ok {a : IntArray} {q : PQVec} :
    ldbArrayToPqvec a = .ok q ↔ (∀ x ∈ a.elems, InRange x) ∧ q = newPQVec (bytesOf a.elems) := by
  unfold ldbArrayToPqvec
  rw [map_eq_ok]
  constructor
  · rintro ⟨data, hdata, rfl⟩
    obtain ⟨hall, rfl⟩ := mapM_pqvecByte.mp hdata
    exact ⟨hall, rfl⟩
  · rintro ⟨hall, rfl⟩
    exact ⟨_, mapM_pqvecByte.mpr ⟨hall, rfl⟩, rfl⟩

variable {elems : List ℤ}

theorem dim_newPQVec (data : List UInt8) : (newPQVec data).dim.toNat = data.length % 2 ^ 16 :=
  UInt16.toNat_ofNat'

theorem elems_code (h : ∀ x ∈ elems, InRange x) :
    (pqvecToArray (newPQVec (bytesOf elems))).map Int.ofNat =
      elems.take (elems.length % 2 ^ 16) := by
  unfold pqvecToArray
  rw [dim_newPQVec, newPQVec, bytesOf, List.length_map, ← List.map_take, List.map_map, List.map_map]
  conv_rhs => rw [← List.map_id (elems.take _)]
  apply List.map_congr_left
  intro x hx
  exact toNat_byte (h x (List.mem_of_mem_take hx))

theorem cast_back_iff (h : ∀ x ∈ elems, InRange x) :
    (ldbPqvecToArray (newPQVec (bytesOf elems))).elems = elems ↔ elems.length < 2 ^ 16 := by
  change (pqvecToArray (newPQVec (bytesOf elems))).map Int.ofNat = elems ↔ _
  rw [elems_code h]
  constructor
  · intro heq
    have hlength := congrArg List.length heq
    rw [List.length_take] at hlength
    omega
  · intro hlt
    rw [Nat.mod_eq_of_lt hlt, List.take_length]

theorem cast_back_nothing (h : ∀ x ∈ elems, InRange x) (hlength : elems.length % 2 ^ 16 = 0) :
    ∃ q, ldbArrayToPqvec (constructArray elems) = .ok q ∧ (ldbPqvecToArray q).elems = [] := by
  refine ⟨_, ldbArrayToPqvec_eq_ok.mpr ⟨h, rfl⟩, ?_⟩
  change (pqvecToArray (newPQVec (bytesOf elems))).map Int.ofNat = []
  rw [elems_code h, hlength, List.take_zero]

theorem recv_send {data : List UInt8} (h : data.length < 2 ^ 16) :
    ldbPqvecRecv (ldbPqvecSend (newPQVec data)) = .ok (newPQVec data) := by
  have hdim : (newPQVec data).dim.toNat = data.length := by rw [dim_newPQVec, Nat.mod_eq_of_lt h]
  have hbytes :
      (UInt8.ofNat (data.length / 256)).toNat * 256 +
      (UInt8.ofNat (data.length % 256)).toNat = data.length := by
    rw [UInt8.toNat_ofNat', UInt8.toNat_ofNat']
    omega
  have hdata : (newPQVec data).data.take data.length = data := List.take_length
  rw [ldbPqvecSend, hdim, hdata, ldbPqvecRecv, hbytes, if_neg (lt_irrefl _), List.take_length]

theorem in_arrayOut (hne : elems ≠ []) :
    ldbPqvecIn (arrayOut (constructArray elems)) (-1) = ldbArrayToPqvec (constructArray elems) := by
  have hdims : (constructArray elems).dims = [elems.length] := if_neg hne
  rw [ldbPqvecIn, arrayIn, arrayOut]
  change (match readList (printList elems) with
    | none => Except.error (Fault.elog "malformed array literal")
    | some elems => .ok (constructArray elems)).bind _ = _
  rw [readList_printList]
  change (if (constructArray elems).dims.length = 0 then _ else _) = _
  rw [hdims, if_neg (by simp), if_neg (by simp)]

theorem in_empty :
    ldbPqvecIn (arrayOut (constructArray [])) (-1) = .error (.elog "pqvector can not be empty") :=
  rfl

structure RoundTrips (asserts : Bool) (a : IntArray) (q : PQVec) : Prop where
  array : (ldbPqvecToArray q).elems = a.elems
  binary : ldbPqvecRecv (ldbPqvecSend q) = .ok q
  text : ((ldbPqvecOut asserts q).bind fun t => ldbPqvecIn t (-1)) = .ok q

theorem text_iff (asserts : Bool) (h : ∀ x ∈ elems, InRange x) (hlt : elems.length < 2 ^ 16) :
    ((ldbPqvecOut asserts (newPQVec (bytesOf elems))).bind fun t => ldbPqvecIn t (-1)) =
      .ok (newPQVec (bytesOf elems)) ↔ elems ≠ [] := by
  have harray : ldbPqvecToArray (newPQVec (bytesOf elems)) = constructArray elems := by
    rw [ldbPqvecToArray, elems_code h, Nat.mod_eq_of_lt hlt, List.take_length]
  have hdim : (newPQVec (bytesOf elems)).dim.toNat = elems.length := by
    rw [dim_newPQVec, bytesOf, List.length_map, Nat.mod_eq_of_lt hlt]
  unfold ldbPqvecOut
  rw [harray]
  constructor
  · rintro htext rfl
    split_ifs at htext
    · cases htext
    · rw [Except.bind, in_empty] at htext
      cases htext
  · intro hne
    have hpos : (newPQVec (bytesOf elems)).dim ≠ 0 := by
      intro hzero
      rw [hzero] at hdim
      exact hne (List.length_eq_zero_iff.mp hdim.symm)
    rw [if_neg fun h => hpos h.2, Except.bind, in_arrayOut hne, ldbArrayToPqvec_eq_ok]
    exact ⟨h, rfl⟩

/-- Arrays survive the cast and their codes the other conversions exactly if an element
    is refused, or there are elements and fewer than 65536 of them. -/
theorem round_trips_iff (asserts : Bool) (a : IntArray) :
    (∀ q, ldbArrayToPqvec a = .ok q → RoundTrips asserts a q) ↔
      (∃ x ∈ a.elems, ¬InRange x) ∨ a.elems ≠ [] ∧ a.elems.length < 2 ^ 16 := by
  by_cases hall : ∀ x ∈ a.elems, InRange x
  · have hcast : ldbArrayToPqvec a = .ok (newPQVec (bytesOf a.elems)) :=
      ldbArrayToPqvec_eq_ok.mpr ⟨hall, rfl⟩
    have hnone : ¬∃ x ∈ a.elems, ¬InRange x := fun ⟨x, hx, hbad⟩ => hbad (hall x hx)
    rw [or_iff_right hnone]
    constructor
    · intro h
      obtain ⟨harray, -, htext⟩ := h _ hcast
      have hlt := (cast_back_iff hall).mp harray
      exact ⟨(text_iff asserts hall hlt).mp htext, hlt⟩
    · rintro ⟨hne, hlt⟩ q hq
      obtain rfl := Except.ok.inj (hcast.symm.trans hq)
      have hbytes : (bytesOf a.elems).length < 2 ^ 16 := by rwa [bytesOf, List.length_map]
      exact ⟨(cast_back_iff hall).mpr hlt, recv_send hbytes, (text_iff asserts hall hlt).mpr hne⟩
  · refine iff_of_true (fun q hq => absurd (ldbArrayToPqvec_eq_ok.mp hq).1 hall) (.inl ?_)
    simpa only [not_forall, exists_prop] using hall

theorem casts_lose :
    (ldbArrayToPqvec (constructArray []) = .ok ⟨0, []⟩ ∧
      ((ldbPqvecOut false ⟨0, []⟩).bind fun t =>
        ldbPqvecIn t (-1)) = .error (.elog "pqvector can not be empty")) ∧
    ∃ q, ldbArrayToPqvec (constructArray (List.replicate 65536 0)) = .ok q ∧
      (ldbPqvecToArray q).elems = [] := by
  have hzeros : ∀ x ∈ List.replicate 65536 (0 : ℤ), InRange x := by
    intro x hx
    rw [List.eq_of_mem_replicate hx]
    exact ⟨le_rfl, by decide⟩
  refine ⟨⟨rfl, rfl⟩, cast_back_nothing hzeros ?_⟩
  rw [List.length_replicate]
  rfl

end Lantern.PqvecCasts
