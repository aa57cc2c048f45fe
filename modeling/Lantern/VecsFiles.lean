import Lantern.ByteStrings
import Lantern.ResultLists

set_option autoImplicit false

/-!
# Files of vectors

A `vecs` file has one record for each vector, a dimension of four bytes and the elements
behind it. `parse_vecs` cuts the file into pieces as long as a record with elements of
four bytes, takes the dimension off each piece and then drops four bytes more, so that
the first element of every vector is lost.
-/
namespace Lantern.VecsFiles
open Fallible ByteStrings

inductive ElementType where
  | f32 | i32 | u8
  deriving DecidableEq, Repr

def ElementType.size : ElementType → ℕ
  | .f32 => 4
  | .i32 => 4
  | .u8 => 1

abbrev Element (t : ElementType) := Fin (256 ^ t.size)

inductive Failure where
  | panicked (message : String)
  | invalidData (message : String)
  deriving DecidableEq, Repr

variable {t : ElementType}

def fromLeBytes (t : ElementType) (bytes : List UInt8) : Except Failure (Element t) :=
  if h : bytes.length = t.size then .ok ⟨leNat bytes, h ▸ leNat_lt bytes⟩
  else .error (.panicked "called `Result::unwrap()` on an `Err` value: TryFromSliceError(())")

def toLeBytes (e : Element t) : List UInt8 := leBytes t.size e

theorem fromLeBytes_toLeBytes (e : Element t) : fromLeBytes t (toLeBytes e) = .ok e := by
  have hlength : (toLeBytes e).length = t.size := leBytes_length t.size e
  rw [fromLeBytes, dif_pos hlength]
  congr 1
  exact Fin.ext (leNat_leBytes_of_lt e.isLt)

def parseChunk (t : ElementType) (vectorDim : ℕ) (chunk : List UInt8) :
    Except Failure (Bool × List (Option (Element t))) :=
  let dimbuf := chunk.take 4
  if dimbuf.length ≠ 4 then .error (.panicked "called `Result::unwrap()` on an `Err` value")
  else
    -- the four bytes taken are gone from the chunk when four are dropped
    let data := (chunk.drop 4).drop 4
    ((chunks t.size data.length data).mapM (fromLeBytes t)).map fun elements =>
      (leNat dimbuf != vectorDim, elements.map some)

def parseVecs (t : ElementType) (file : List UInt8) (count : ℕ) :
    Except Failure (List (List (Option (Element t)))) :=
  if file.length < 4 then .error (.panicked "failed to fill whole buffer")
  else
    let vectorDim := leNat (file.take 4)
    (((chunks ((vectorDim + 1) * 4) file.length file).take count).mapM
      (parseChunk t vectorDim)).bind fun vectors =>
      if vectors.any Prod.fst then
        .error (.invalidData "fvecs file with varying vector dimensions is not supported")
      else .ok (vectors.map Prod.snd)

structure VecsFile (t : ElementType) where
  dim : ℕ
  vectors : List (List (Element t))
  dim_pos : 0 < dim
  dim_lt : dim < 2 ^ 32
  vectors_ne : vectors ≠ []
  length_vector : ∀ v ∈ vectors, v.length = dim

variable {v : List (Element t)}

namespace VecsFile
variable (f : VecsFile t)

def record (v : List (Element t)) : List UInt8 := leBytes 4 f.dim ++ (v.map toLeBytes).flatten

def bytes : List UInt8 := (f.vectors.map f.record).flatten

variable {f}

theorem length_toLeBytes : ∀ p ∈ v.map toLeBytes, p.length = t.size := by
  intro p hp
  obtain ⟨e, -, rfl⟩ := List.mem_map.mp hp
  exact leBytes_length t.size e

theorem length_data (v : List (Element t)) :
    (v.map toLeBytes).flatten.length = v.length * t.size := by
  rw [length_flatten_of_length length_toLeBytes, List.length_map]

theorem length_record (h : v ∈ f.vectors) : (f.record v).length = 4 + f.dim * t.size := by
  rw [record, List.length_append, leBytes_length, length_data, f.length_vector v h]

theorem take_record (v : List (Element t)) : (f.record v).take 4 = leBytes 4 f.dim :=
  List.take_left' (leBytes_length 4 _)

theorem leNat_dim : leNat (leBytes 4 f.dim) = f.dim := leNat_leBytes_of_lt (by simpa using f.dim_lt)

theorem bytes_eq (f : VecsFile t) : ∃ v rest, v ∈ f.vectors ∧ f.bytes = f.record v ++ rest := by
  cases hvectors : f.vectors with
  | nil => exact absurd hvectors f.vectors_ne
  | cons v vectors =>
    exact ⟨v, _, List.mem_cons_self, by rw [bytes, hvectors, List.map_cons, List.flatten_cons]⟩

theorem four_le_length : 4 ≤ f.bytes.length := by
  obtain ⟨v, rest, hv, hbytes⟩ := f.bytes_eq
  rw [hbytes, List.length_append, length_record hv]
  omega

theorem leNat_take : leNat (f.bytes.take 4) = f.dim := by
  obtain ⟨v, rest, hv, hbytes⟩ := f.bytes_eq
  rw [hbytes, List.take_append_of_le_length (by rw [length_record hv]; omega),
    take_record, leNat_dim]

theorem length_records : ∀ p ∈ f.vectors.map f.record, p.length = 4 + f.dim * t.size := by
  intro p hp
  obtain ⟨v, hv, rfl⟩ := List.mem_map.mp hp
  exact length_record hv

theorem length_bytes : f.bytes.length = f.vectors.length * (4 + f.dim * t.size) := by
  rw [bytes, length_flatten_of_length length_records, List.length_map]

end VecsFile

section Words
variable {f : VecsFile t}

theorem parseChunk_record (hsize : t.size = 4) (hv : v ∈ f.vectors) :
    parseChunk t f.dim (f.record v) = .ok (false, (v.drop 1).map some) := by
  obtain ⟨e, rest, rfl⟩ := List.exists_cons_of_length_pos (f.length_vector v hv ▸ f.dim_pos)
  have hdim : (f.record (e :: rest)).take 4 = leBytes 4 f.dim := VecsFile.take_record _
  have hdata : ((f.record (e :: rest)).drop 4).drop 4 = (rest.map toLeBytes).flatten := by
    rw [VecsFile.record, List.drop_left' (leBytes_length 4 _), List.map_cons, List.flatten_cons]
    exact List.drop_left' ((leBytes_length t.size e).trans hsize)
  have helements : (rest.map toLeBytes).mapM (fromLeBytes t) = .ok rest := by
    have hself := mapM_map_ok.mpr fun e (_ : e ∈ rest) => fromLeBytes_toLeBytes e
    rw [List.mapM_map]
    rwa [List.map_id'] at hself
  simp only [parseChunk, hdim, hdata, leBytes_length, ne_eq, not_true_eq_false, if_false]
  rw [chunks_flatten (by omega) VecsFile.length_toLeBytes le_rfl, helements, VecsFile.leNat_dim]
  simp [Except.map]

theorem parseVecs_words (hsize : t.size = 4) (count : ℕ) :
    parseVecs t f.bytes count = .ok ((f.vectors.take count).map fun v => (v.drop 1).map some) := by
  have hrecords : ∀ p ∈ f.vectors.map f.record, p.length = (f.dim + 1) * 4 := by
    intro p hp
    rw [VecsFile.length_records p hp, hsize]
    omega
  have hchunks : chunks ((f.dim + 1) * 4) f.bytes.length f.bytes = f.vectors.map f.record :=
    chunks_flatten (by omega) hrecords le_rfl
  have hparsed : ((f.vectors.take count).map f.record).mapM (parseChunk t f.dim) =
      .ok ((f.vectors.take count).map fun v => (false, (v.drop 1).map some)) := by
    rw [List.mapM_map, mapM_map_ok]
    exact fun v hv => parseChunk_record hsize (List.mem_of_mem_take hv)
  rw [parseVecs, if_neg VecsFile.four_le_length.not_gt, VecsFile.leNat_take]
  dsimp only
  rw [hchunks, ← List.map_take, hparsed, Except.bind, if_neg, List.map_map]
  · rfl
  · intro hany
    obtain ⟨x, hx, hinconsistent⟩ := List.any_eq_true.mp hany
    obtain ⟨v, -, rfl⟩ := List.mem_map.mp hx
    cases hinconsistent

end Words

section Sizes
variable {f : VecsFile t}

theorem toLeBytes_of_fromLeBytes {bytes : List UInt8} {e : Element t}
    (h : fromLeBytes t bytes = .ok e) :
    toLeBytes e = bytes := by
  rw [fromLeBytes] at h
  split at h
  next hlength =>
    cases h
    change leBytes t.size (leNat bytes) = bytes
    rw [← hlength, leBytes_leNat]
  next => cases h

theorem length_of_parseChunk {dim : ℕ} {chunk : List UInt8} {inconsistent : Bool}
    {elements : List (Option (Element t))}
    (h : parseChunk t dim chunk = .ok (inconsistent, elements)) :
    elements.length * t.size = chunk.length - 8 := by
  have hsize : 0 < t.size := by cases t <;> decide
  rw [parseChunk] at h
  split_ifs at h
  obtain ⟨es, hes, heq⟩ := map_eq_ok.mp h
  cases heq
  have hback := mapM_map_back (fun _ _ => toLeBytes_of_fromLeBytes) hes
  rw [List.length_map, ← VecsFile.length_data, hback, flatten_chunks hsize le_rfl, List.drop_drop,
    List.length_drop]

theorem length_of_parseVecs {count : ℕ} {v : List (Option (Element t))}
    {vs : List (List (Option (Element t)))} (h : parseVecs t f.bytes count = .ok (v :: vs)) :
    v.length * t.size = min ((f.dim + 1) * 4) f.bytes.length - 8 := by
  rw [parseVecs, if_neg VecsFile.four_le_length.not_gt, VecsFile.leNat_take] at h
  obtain ⟨vectors, hvectors, hret⟩ := bind_eq_ok.mp h
  split_ifs at hret
  cases count with
  | zero =>
    rw [List.take_zero, mapM_nil_ok] at hvectors
    subst hvectors
    cases hret
  | succ count =>
    have hlength := @VecsFile.four_le_length t f
    obtain ⟨fuel, hfuel⟩ := Nat.exists_eq_add_of_le' (show 1 ≤ f.bytes.length by omega)
    rw [hfuel, chunks_of_ne_nil (List.length_pos_iff.mp (by omega)),
      List.take_succ_cons] at hvectors
    obtain ⟨⟨_, first⟩, rest, hfirst, -, rfl⟩ := mapM_cons_ok.mp hvectors
    cases hret
    rw [length_of_parseChunk hfirst, List.length_take]

theorem length_vector_ne (f : VecsFile t) :
    f.dim * t.size ≠ min ((f.dim + 1) * 4) f.bytes.length - 8 := by
  have hpos := f.dim_pos
  rw [VecsFile.length_bytes]
  cases t with
  | f32 | i32 =>
    simp only [ElementType.size]
    omega
  | u8 =>
    -- one record is shorter than the piece, two are longer than one vector needs
    obtain ⟨v, vs, hvectors⟩ := List.exists_cons_of_ne_nil f.vectors_ne
    rw [hvectors]
    simp only [ElementType.size, Nat.mul_one]
    cases vs with
    | nil =>
      simp only [List.length_singleton]
      omega
    | cons w vs =>
      have htwo : 2 * (4 + f.dim) ≤ (vs.length + 1 + 1) * (4 + f.dim) :=
        Nat.mul_le_mul_right _ (Nat.le_add_left 2 _)
      simp only [List.length_cons]
      omega

/-- The vectors come back only when none is asked for. -/
theorem parseVecs_returns_vectors_iff (f : VecsFile t) (count : ℕ) :
    parseVecs t f.bytes count = .ok ((f.vectors.take count).map (List.map some)) ↔ count = 0 := by
  constructor
  · intro h
    by_contra hcount
    obtain ⟨count, rfl⟩ := Nat.exists_eq_add_one_of_ne_zero hcount
    obtain ⟨v, vs, hvectors⟩ := List.exists_cons_of_ne_nil f.vectors_ne
    rw [hvectors, List.take_succ_cons, List.map_cons] at h
    have hfirst := length_of_parseVecs h
    rw [List.length_map, f.length_vector v (hvectors ▸ List.mem_cons_self)] at hfirst
    exact length_vector_ne f hfirst
  · rintro rfl
    rw [parseVecs, if_neg VecsFile.four_le_length.not_gt]
    rfl

end Sizes

theorem length_pair : ∀ v ∈ [([1, 2] : List (Element .f32))], v.length = 2 := by decide

theorem two_lt_word : 2 < 2 ^ 32 := by decide

def pair : VecsFile .f32 where
  dim := 2
  vectors := [[1, 2]]
  dim_pos := Nat.zero_lt_two
  dim_lt := two_lt_word
  vectors_ne := List.cons_ne_nil _ _
  length_vector := length_pair

theorem pair_loses_first : parseVecs .f32 pair.bytes 1 = .ok [[some 2]] ∧
    parseVecs .f32 pair.bytes 1 ≠ .ok ((pair.vectors.take 1).map (List.map some)) := by
  have hwords := @parseVecs_words .f32 pair rfl 1
  constructor
  · exact hwords
  · rw [hwords]
    decide

end Lantern.VecsFiles
