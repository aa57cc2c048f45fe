import Lantern.BitFilters
import Lantern.ByteStrings

set_option autoImplicit false

/-!
# Arrays as bloom filters

An array is cast to a bloom by putting the hash input of each element into a filter of
the `fastbloom` crate. The hash input of an integer has as many bytes as its type, so a
`smallint`, which is passed as an integer, is looked up under another input than it was
put in with.
-/
namespace Lantern.BloomCasts
open ByteStrings

/-- What the crate decides: the size of a filter for a number of items and an error rate of
    one in a hundred, and the places of an item, given by its hash input. -/
structure Fastbloom where
  words : (expectedItems : ℕ) → ℕ
  hashes : (expectedItems : ℕ) → ℕ
  places : (seed words hashes : ℕ) → List UInt8 → List ℕ
  places_lt : ∀ seed words hashes input, ∀ i ∈ places seed words hashes input, i < 64 * words

structure BloomFilter where
  bits : List (BitVec 64)
  seed : ℕ
  numHashes : ℕ

def BLOOM_HASHER_SEED : ℕ := 42

variable (lib : Fastbloom)

def BloomFilter.placesOf (f : BloomFilter) (input : List UInt8) : List ℕ :=
  lib.places f.seed f.bits.length f.numHashes input

def BloomFilter.insert (f : BloomFilter) (input : List UInt8) : BloomFilter :=
  { f with bits := BitFilters.insert f.bits (f.placesOf lib input) }

def BloomFilter.contains (f : BloomFilter) (input : List UInt8) : Bool :=
  BitFilters.contains f.bits (f.placesOf lib input)

def BloomFilter.expectedItems (n : ℕ) : BloomFilter :=
  ⟨List.replicate (lib.words n) 0, BLOOM_HASHER_SEED, lib.hashes n⟩

structure Bloom where
  bitmap : List UInt8
  numHashes : ℕ

def Bloom.ofFilter (f : BloomFilter) : Bloom :=
  ⟨(f.bits.map fun word => leBytes 8 word.toNat).flatten, f.numHashes⟩

def Bloom.toFilter (b : Bloom) : BloomFilter :=
  ⟨(chunks 8 b.bitmap.length b.bitmap).map fun bytes => BitVec.ofNat 64 (leNat bytes),
    BLOOM_HASHER_SEED, b.numHashes⟩

inductive ElementType where
  | smallint | integer | bigint | text
  deriving DecidableEq, Repr

def Value : ElementType → Type
  | .smallint => Int16
  | .integer => Int32
  | .bigint => Int64
  | .text => List UInt8

def hashInput : {t : ElementType} → Value t → List UInt8
  | .smallint, (v : Int16) => leBytes 2 v.toUInt16.toNat
  | .integer, (v : Int32) => leBytes 4 v.toUInt32.toNat
  | .bigint, (v : Int64) => leBytes 8 v.toUInt64.toNat
  | .text, (v : List UInt8) => v ++ [0xff]

variable {t : ElementType}

def arrayToBloom (arr : List (Value t)) : Bloom :=
  Bloom.ofFilter
    ((arr.map hashInput).foldl (BloomFilter.insert lib) (BloomFilter.expectedItems lib arr.length))

def elemInBloomNumeric (elem : Value .integer) (bloom : Bloom) : Bool :=
  bloom.toFilter.contains lib (hashInput elem)

def elemInBloomText (elem : Value .text) (bloom : Bloom) : Bool :=
  bloom.toFilter.contains lib (hashInput elem)

/-- The function that a call is resolved to: a `smallint` becomes an integer, and there is
    none for a `bigint`. -/
def elemInBloom : {t : ElementType} → Value t → Bloom → Except String Bool
  | .smallint, (v : Int16), bloom => .ok (elemInBloomNumeric lib v.toInt32 bloom)
  | .integer, v, bloom => .ok (elemInBloomNumeric lib v bloom)
  | .bigint, _, _ => .error "function elem_in_bloom(bigint, bloom) does not exist"
  | .text, v, bloom => .ok (elemInBloomText lib v bloom)

theorem toFilter_ofFilter {f : BloomFilter} (hseed : f.seed = BLOOM_HASHER_SEED) :
    (Bloom.ofFilter f).toFilter = f := by
  obtain ⟨bits, seed, numHashes⟩ := f
  have hpieces : ∀ p ∈ bits.map (fun word => leBytes 8 word.toNat), p.length = 8 := by
    intro p hp
    obtain ⟨word, -, rfl⟩ := List.mem_map.mp hp
    exact leBytes_length 8 _
  have hword : ∀ word : BitVec 64, BitVec.ofNat 64 (leNat (leBytes 8 word.toNat)) = word := by
    intro word
    rw [leNat_leBytes_of_lt (by have := word.isLt; omega), BitVec.ofNat_toNat, BitVec.setWidth_eq]
  unfold Bloom.toFilter Bloom.ofFilter
  dsimp only
  rw [chunks_flatten (by decide) hpieces le_rfl, List.map_map]
  simp only [Function.comp_def, hword, List.map_id', ← hseed]

variable {lib} {arr : List (Value t)}

theorem foldl_insert (inputs : List (List UInt8)) (f : BloomFilter) :
    inputs.foldl (BloomFilter.insert lib) f =
      { f with bits := (inputs.map (f.placesOf lib)).foldl BitFilters.insert f.bits } := by
  induction inputs generalizing f with
  | nil => rfl
  | cons input inputs ih =>
    have hplaces : (f.insert lib input).placesOf lib = f.placesOf lib := by
      funext other
      unfold BloomFilter.placesOf BloomFilter.insert
      rw [BitFilters.length_insert]
    rw [List.foldl_cons, ih, hplaces]
    rfl

def placesIn (lib : Fastbloom) (n : ℕ) (input : List UInt8) : List ℕ :=
  (BloomFilter.expectedItems lib n).placesOf lib input

def Covered (lib : Fastbloom) (arr : List (Value t)) (input : List UInt8) : Prop :=
  ∀ i ∈ placesIn lib arr.length input, ∃ v ∈ arr, i ∈ placesIn lib arr.length (hashInput v)

theorem covered_hashInput {v : Value t} (hv : v ∈ arr) : Covered lib arr (hashInput v) :=
  fun _ hi => ⟨v, hv, hi⟩

theorem contains_arrayToBloom (arr : List (Value t)) (input : List UInt8) :
    (arrayToBloom lib arr).toFilter.contains lib input = true ↔ Covered lib arr input := by
  have hlt : ∀ item ∈ (arr.map hashInput).map (placesIn lib arr.length),
      ∀ i ∈ item, i < 64 * lib.words arr.length := by
    intro item hitem i hi
    obtain ⟨bytes, -, rfl⟩ := List.mem_map.mp hitem
    have hplace := lib.places_lt _ _ _ _ i hi
    rwa [BloomFilter.expectedItems, List.length_replicate] at hplace
  have hseed :
      ((arr.map hashInput).foldl (BloomFilter.insert lib)
      (BloomFilter.expectedItems lib arr.length)).seed =
      BLOOM_HASHER_SEED := by
    rw [foldl_insert]
    rfl
  rw [arrayToBloom, toFilter_ofFilter hseed, foldl_insert]
  unfold BloomFilter.contains BloomFilter.placesOf
  rw [BitFilters.length_foldl_insert]
  refine (BitFilters.contains_foldl_insert hlt).trans ?_
  simp only [List.map_map, List.mem_map, exists_exists_and_eq_and]
  rfl

def argumentInput : {t : ElementType} → Value t → List UInt8
  | .smallint, (v : Int16) => leBytes 4 v.toInt32.toUInt32.toNat
  | .integer, v => hashInput v
  | .bigint, v => hashInput v
  | .text, v => hashInput v

theorem elemInBloom_eq (v : Value t) (h : t ≠ .bigint) (bloom : Bloom) :
    elemInBloom lib v bloom = .ok (bloom.toFilter.contains lib (argumentInput v)) := by
  cases t with
  | bigint => exact absurd rfl h
  | smallint | integer | text => rfl

/-- An element of an array is accepted unless it is a `bigint`, and an integer or a text is
    then found in the array's bloom. A `smallint` is found if it is covered by chance. -/
theorem elemInBloom_found_iff (lib : Fastbloom) (arr : List (Value t)) {v : Value t}
    (hv : v ∈ arr) :
    ((∃ found, elemInBloom lib v (arrayToBloom lib arr) = .ok found) ↔ t ≠ .bigint) ∧
      (t ≠ .bigint → (elemInBloom lib v (arrayToBloom lib arr) = .ok true ↔
        (t = .smallint → Covered lib arr (argumentInput v)))) := by
  constructor
  · constructor
    · rintro ⟨found, hfound⟩ rfl
      cases hfound
    · exact fun h => ⟨_, elemInBloom_eq v h _⟩
  · intro h
    rw [elemInBloom_eq v h, Except.ok.injEq, contains_arrayToBloom]
    cases t with
    | bigint => exact absurd rfl h
    | smallint => exact ⟨fun hcovered _ => hcovered, fun hcovered => hcovered rfl⟩
    | integer | text => exact iff_of_true (covered_hashInput hv) fun hsmall => by cases hsmall

def fnv1a (seed : ℕ) (input : List UInt8) : ℕ :=
  input.foldl (fun h byte =>
    (h ^^^ byte.toNat) * 1099511628211 % 2 ^ 64) (14695981039346656037 + seed)

def fnvPlaces (seed words hashes : ℕ) (input : List UInt8) : List ℕ :=
  if words = 0 then []
  else (List.range hashes).map fun i =>
    (fnv1a seed input + i * (fnv1a seed input / 2 ^ 32)) % (64 * words)

theorem fnvPlaces_lt (seed words hashes : ℕ) (input : List UInt8) :
    ∀ i ∈ fnvPlaces seed words hashes input, i < 64 * words := by
  intro i hi
  unfold fnvPlaces at hi
  split_ifs at hi with hwords
  · exact absurd hi List.not_mem_nil
  · obtain ⟨k, -, rfl⟩ := List.mem_map.mp hi
    exact Nat.mod_lt _ (by omega)

def fnvLibrary : Fastbloom where
  words n := 8 * (n / 50 + 1)
  hashes _ := 7
  places := fnvPlaces
  places_lt := fnvPlaces_lt

def text (bytes : List UInt8) : Value .text := bytes

def integer (n : Int32) : Value .integer := n

theorem word_and_number_found :
    elemInBloom fnvLibrary (text [99, 100])
      (arrayToBloom fnvLibrary [text [97], text [], text [99, 100]]) = .ok true ∧
    elemInBloom fnvLibrary (integer (-70000))
      (arrayToBloom fnvLibrary [integer 1, integer (-70000)]) = .ok true := by
  have hword : text [99, 100] ∈ [text [97], text [], text [99, 100]] := .tail _ (.tail _ (.head _))
  have hnumber : integer (-70000) ∈ [integer 1, integer (-70000)] := .tail _ (.head _)
  exact ⟨((elemInBloom_found_iff fnvLibrary _ hword).2 (by decide)).mpr (by intro h; cases h),
    ((elemInBloom_found_iff fnvLibrary _ hnumber).2 (by decide)).mpr (by intro h; cases h)⟩

def smallOne : Value .smallint := (1 : Int16)

/-- The number is put in with the bytes 1 and 0, and looked up with 1, 0, 0 and 0. -/
theorem smallint_one_missing : smallOne ∈ [smallOne] ∧
    elemInBloom fnvLibrary smallOne (arrayToBloom fnvLibrary [smallOne]) = .ok false := by
  have hplaces : ∀ input, placesIn fnvLibrary 1 input = fnvPlaces 42 8 7 input := fun _ => rfl
  have hinput : argumentInput smallOne = [1, 0, 0, 0] ∧ hashInput smallOne = [1, 0] := by decide
  -- a place of the longer input that the shorter one does not cover
  have hother : ∃ i ∈ fnvPlaces 42 8 7 [1, 0, 0, 0], i ∉ fnvPlaces 42 8 7 [1, 0] := by
    decide +kernel
  have hmissing : ¬ Covered fnvLibrary [smallOne] (argumentInput smallOne) := by
    intro hcovered
    obtain ⟨i, hi, hnot⟩ := hother
    rw [hinput.1] at hcovered
    obtain ⟨v, hv, hin⟩ := hcovered i (hplaces _ ▸ hi)
    rw [List.mem_singleton.mp hv, hinput.2] at hin
    exact hnot hin
  refine ⟨List.mem_singleton_self _, ?_⟩
  rw [elemInBloom_eq smallOne (by decide),
    Bool.eq_false_iff.mpr (mt (contains_arrayToBloom _ _).mp hmissing)]

end Lantern.BloomCasts
