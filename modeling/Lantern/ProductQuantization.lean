import Lantern.Fallible
import Lantern.RangeTiling

set_option autoImplicit false

/-!
# Product quantisation of table rows

What the local run and the quantisation tasks share: the ranges of ids that the
connections of one process query, and the code of a vector, which has for each
subvector the number of its closest centroid as a byte.
-/
namespace Lantern.ProductQuantization
open Fallible RangeTiling

inductive Failure where
  | bail (message : String)
  | panicked (message : String)
  deriving DecidableEq, Repr

structure Machine where
  numCores : ℕ
  cores_pos : 0 < numCores
  maxConnections : ℕ
  activeConnections : ℕ

/-- Arithmetic on `usize` in a build with overflow checks. -/
def checkedSub (a b : ℕ) : Except Failure ℕ :=
  if a < b then .error (.panicked "attempt to subtract with overflow") else .ok (a - b)

def checkedDiv (a b : ℕ) : Except Failure ℕ :=
  if b = 0 then .error (.panicked "attempt to divide by zero") else .ok (a / b)

theorem checkedSub_eq_ok {a b c : ℕ} : checkedSub a b = .ok c ↔ b ≤ a ∧ a - b = c := by
  unfold checkedSub
  split_ifs with h
  · simp [h]
  · simp [Nat.le_of_not_lt h]

theorem checkedDiv_eq_ok {a b c : ℕ} : checkedDiv a b = .ok c ↔ 0 < b ∧ a / b = c := by
  unfold checkedDiv
  split_ifs with h
  · simp [h]
  · simp [Nat.pos_of_ne_zero h]

/-- A single precision value: a number, or not a number (`none`). -/
abbrev F32 (L : Type) := Option L

section Numbers
variable {L : Type} [LinearOrder L]

/-- `<` of the floats, false if an operand is not a number. -/
def F32.lt : F32 L → F32 L → Bool
  | some a, some b => decide (a < b)
  | _, _ => false

@[simp] theorem F32.some_lt_some {a b : L} : F32.lt (some a) (some b) = true ↔ a < b := by
  simp [F32.lt]

@[simp] theorem F32.none_lt (b : F32 L) : F32.lt none b = false := rfl

structure Arithmetic (L : Type) where
  sub : F32 L → F32 L → F32 L
  mul : F32 L → F32 L → F32 L
  add : F32 L → F32 L → F32 L
  zero : F32 L
  MAX : L

def l2sqDist (ar : Arithmetic L) (a b : List (F32 L)) : F32 L :=
  ((a.zip b).map fun p => ar.mul (ar.sub p.1 p.2) (ar.sub p.1 p.2)).foldl ar.add ar.zero

def integers : Arithmetic ℤ where
  sub a b := a.bind fun x => b.map fun y => x - y
  mul a b := a.bind fun x => b.map fun y => x * y
  add a b := a.bind fun x => b.map fun y => x + y
  zero := some 0
  MAX := 1000000

/-- `idx as u8` keeps the low byte. -/
def getClosestCentroid (ar : Arithmetic L) (centroids : List (List (F32 L)))
    (subvector : List (F32 L)) : UInt8 :=
  (centroids.zipIdx.foldl
    (fun (closest : F32 L × UInt8) (c : List (F32 L) × ℕ) =>
      let distance := l2sqDist ar c.1 subvector
      if distance.lt closest.1 then (distance, UInt8.ofNat c.2) else closest)
    (some ar.MAX, 0)).2

def distances (ar : Arithmetic L) (centroids : List (List (F32 L))) (subvector : List (F32 L)) :
    List (F32 L) :=
  centroids.map fun c => l2sqDist ar c subvector

def closest (limit : L) (ds : List (F32 L)) : F32 L × ℕ :=
  ds.zipIdx.foldl (fun best d => if d.1.lt best.1 then d else best) (some limit, 0)

def Nearest (ds : List (F32 L)) (code : ℕ) : Prop :=
  ∃ x, ds[code]? = some (some x) ∧ ∀ y, some y ∈ ds → x ≤ y

theorem closest_concat (limit : L) (ds : List (F32 L)) (d : F32 L) :
    closest limit (ds ++ [d]) =
      if d.lt (closest limit ds).1 then (d, ds.length) else closest limit ds := by
  rw [closest, List.zipIdx_append, List.foldl_append, Nat.zero_add]
  rfl

inductive Found (limit : L) (ds : List (F32 L)) : F32 L × ℕ → Prop
  | nothing : (∀ y, some y ∈ ds → limit ≤ y) → Found limit ds (some limit, 0)
  | first {x : L} {i : ℕ} : x < limit → ds[i]? = some (some x) → (∀ y, some y ∈ ds → x ≤ y) →
      (∀ j y, j < i → ds[j]? = some (some y) → x < y) → Found limit ds (some x, i)

theorem Found.concat_keep {limit : L} {ds : List (F32 L)} {best : F32 L × ℕ} {d : F32 L}
    (h : Found limit ds best) (hd : d.lt best.1 = false) : Found limit (ds ++ [d]) best := by
  have hmem : ∀ {b : L}, best.1 = some b → (∀ y, some y ∈ ds → b ≤ y) →
      ∀ y, some y ∈ ds ++ [d] → b ≤ y := by
    intro b hb hall y hy
    rcases List.mem_append.mp hy with hy | hy
    · exact hall y hy
    · rw [← List.mem_singleton.mp hy, hb] at hd
      exact le_of_not_gt fun hlt => by simp [F32.some_lt_some.mpr hlt] at hd
  cases h with
  | nothing hall => exact .nothing (hmem rfl hall)
  | @first x i hlt hget hall hfirst =>
    have hi : i < ds.length := (List.getElem?_eq_some_iff.mp hget).1
    refine .first hlt ?_ (hmem rfl hall) fun j y hj hy => hfirst j y hj ?_
    · rw [List.getElem?_append_left hi]
      exact hget
    · rw [List.getElem?_append_left (hj.trans hi)] at hy
      exact hy

theorem Found.concat_take {limit x : L} {ds : List (F32 L)} {best : F32 L × ℕ}
    (h : Found limit ds best) (hx : F32.lt (some x) best.1 = true) :
    Found limit (ds ++ [some x]) (some x, ds.length) := by
  have hbelow : x < limit ∧ ∀ y, some y ∈ ds → x < y := by
    cases h with
    | nothing hall =>
      have hlt := F32.some_lt_some.mp hx
      exact ⟨hlt, fun y hy => hlt.trans_le (hall y hy)⟩
    | first hlt _ hall _ =>
      have hxb := F32.some_lt_some.mp hx
      exact ⟨hxb.trans hlt, fun y hy => hxb.trans_le (hall y hy)⟩
  refine .first hbelow.1 (by simp) (fun y hy => ?_) fun j y hj hy => ?_
  · rcases List.mem_append.mp hy with hy | hy
    · exact (hbelow.2 y hy).le
    · exact (Option.some.inj (List.mem_singleton.mp hy)).ge
  · rw [List.getElem?_append_left hj] at hy
    exact hbelow.2 y (List.mem_of_getElem? hy)

theorem closest_found (limit : L) (ds : List (F32 L)) : Found limit ds (closest limit ds) := by
  induction ds using List.reverseRecOn with
  | nil => exact .nothing fun y hy => absurd hy List.not_mem_nil
  | append_singleton ds d ih =>
    rw [closest_concat]
    split_ifs with hd
    · cases d with
      | none => cases hd
      | some x => exact ih.concat_take hd
    · exact ih.concat_keep (Bool.eq_false_of_not_eq_true hd)

/-- A byte that is the number of the centroid found, with a distance below the
    limit; or else the first centroid happens to be nearest. -/
def ByteCoded (limit : L) (ds : List (F32 L)) : Prop :=
  (closest limit ds).2 < 256 ∧ ((∃ y, some y ∈ ds ∧ y < limit) ∨ Nearest ds 0)

theorem nearest_iff_byteCoded (limit : L) (ds : List (F32 L)) :
    Nearest ds (UInt8.ofNat (closest limit ds).2).toNat ↔ ByteCoded limit ds := by
  unfold ByteCoded
  rw [UInt8.toNat_ofNat']
  generalize hbest : closest limit ds = best
  have hfound := hbest ▸ closest_found limit ds
  cases hfound with
  | nothing hall =>
    constructor
    · exact fun h => ⟨Nat.succ_pos 255, Or.inr h⟩
    · rintro ⟨-, ⟨y, hy, hlt⟩ | h⟩
      · exact absurd hlt (hall y hy).not_gt
      · exact h
  | @first x i hlt hget hall hfirst =>
    have hx : some x ∈ ds := List.mem_of_getElem? hget
    constructor
    · rintro ⟨y, hy, hleast⟩
      refine ⟨?_, Or.inl ⟨x, hx, hlt⟩⟩
      -- a wrapped index is smaller, and there the distance is larger
      by_contra hge
      have hwrap : i % 2 ^ 8 < i := by omega
      exact absurd (hleast x hx) (hfirst _ y hwrap hy).not_ge
    · rintro ⟨hi, -⟩
      rw [Nat.mod_eq_of_lt hi]
      exact ⟨x, hget, hall⟩

theorem getClosestCentroid_eq (ar : Arithmetic L) (centroids : List (List (F32 L)))
    (subvector : List (F32 L)) :
    getClosestCentroid ar centroids subvector =
      UInt8.ofNat (closest ar.MAX (distances ar centroids subvector)).2 := by
  have hscan : ∀ (cs : List (List (F32 L) × ℕ)) (best : F32 L × ℕ),
      cs.foldl
        (fun (closest : F32 L × UInt8) (c : List (F32 L) × ℕ) =>
          let distance := l2sqDist ar c.1 subvector
          if distance.lt closest.1 then (distance, UInt8.ofNat c.2) else closest)
        (best.1, UInt8.ofNat best.2) =
      Prod.map id UInt8.ofNat
        ((cs.map (Prod.map (fun c => l2sqDist ar c subvector) id)).foldl
          (fun best d => if d.1.lt best.1 then d else best) best) := by
    intro cs
    induction cs with
    | nil => exact fun _ => rfl
    | cons c cs ih =>
      intro best
      rw [List.foldl_cons, List.map_cons, List.foldl_cons, ← ih]
      dsimp only [Prod.map]
      split_ifs <;> rfl
  have hzip : (distances ar centroids subvector).zipIdx =
      centroids.zipIdx.map (Prod.map (fun c => l2sqDist ar c subvector) id) := List.zipIdx_map
  have h := hscan centroids.zipIdx (some ar.MAX, 0)
  rw [closest, hzip]
  exact congrArg Prod.snd h

theorem getClosestCentroid_nearest_iff (ar : Arithmetic L) (centroids : List (List (F32 L)))
    (subvector : List (F32 L)) :
    Nearest (distances ar centroids subvector) (getClosestCentroid ar centroids subvector).toNat ↔
      ByteCoded ar.MAX (distances ar centroids subvector) := by
  rw [getClosestCentroid_eq]
  exact nearest_iff_byteCoded _ _

end Numbers

structure DatasetItem (L : Type) where
  id : ℕ
  vec : List (F32 L)

abbrev Codebooks (L : Type) := List (ℕ × List (List (F32 L)))

def slice {L : Type} (v : List (F32 L)) (start stop : ℕ) : Except Failure (List (F32 L)) :=
  if stop < start then .error (.panicked s!"slice index starts at {start} but ends at {stop}")
  else if v.length < stop then
    .error (.panicked s!"range end index {stop} out of range for slice of length {v.length}")
  else .ok ((v.take stop).drop start)

theorem slice_eq_ok {L : Type} {v s : List (F32 L)} {start stop : ℕ} :
    slice v start stop = .ok s ↔
      (start ≤ stop ∧ stop ≤ v.length) ∧ s = (v.take stop).drop start := by
  unfold slice
  split_ifs with h₁ h₂
  · simp [h₁]
  · simp [h₂]
  · simp only [Except.ok.injEq]
    exact ⟨fun h => ⟨by omega, h.symm⟩, fun h => h.2.symm⟩

variable {L : Type}

def splitCentroids (codebooks : Codebooks L) (i : ℕ) : Except Failure (List (List (F32 L))) :=
  match codebooks.lookup i with
  | none => .error (.panicked "called Option::unwrap() on a None value")
  | some centroids => .ok centroids

theorem splitCentroids_eq_ok {codebooks : Codebooks L} {i : ℕ} {centroids : List (List (F32 L))} :
    splitCentroids codebooks i = .ok centroids ↔ codebooks.lookup i = some centroids := by
  unfold splitCentroids
  cases codebooks.lookup i <;> simp

def subvectorOf (subvectorDim : ℕ) (v : List (F32 L)) (i : ℕ) : List (F32 L) :=
  (v.drop (i * subvectorDim)).take subvectorDim

theorem slice_subvector {v s : List (F32 L)} {subvectorDim i : ℕ} :
    slice v (i * subvectorDim) (i * subvectorDim + subvectorDim) = .ok s ↔
      i * subvectorDim + subvectorDim ≤ v.length ∧ s = subvectorOf subvectorDim v i := by
  rw [slice_eq_ok, List.drop_take, Nat.add_sub_cancel_left]
  exact and_congr_left fun _ => and_iff_right (Nat.le_add_right _ _)

theorem subvectorOf_take {v : List (F32 L)} {subvectorDim i n : ℕ}
    (h : i * subvectorDim + subvectorDim ≤ n) :
    subvectorOf subvectorDim (v.take n) i = subvectorOf subvectorDim v i := by
  unfold subvectorOf
  rw [List.drop_take, List.take_take, min_eq_left (by omega)]

theorem split_end_le {splits subvectorDim dim i : ℕ} (hfit : splits * subvectorDim ≤ dim)
    (hi : i < splits) :
    i * subvectorDim + subvectorDim ≤ dim :=
  calc i * subvectorDim + subvectorDim = (i + 1) * subvectorDim := (Nat.succ_mul _ _).symm
    _ ≤ splits * subvectorDim := Nat.mul_le_mul_right _ hi
    _ ≤ dim := hfit

section Codes
variable [LinearOrder L]

def quantizeSplit (ar : Arithmetic L) (vectorDim subvectorDim : ℕ) (codebooks : Codebooks L)
    (x : DatasetItem L) (i : ℕ) : Except Failure UInt8 :=
  (splitCentroids codebooks i).bind fun centroids =>
    (slice x.vec (i * subvectorDim) (min (i * subvectorDim + subvectorDim) vectorDim)).map
      fun subvector =>
      getClosestCentroid ar centroids subvector

def quantizeVector (ar : Arithmetic L) (vectorDim subvectorDim splits : ℕ) (codebooks : Codebooks L)
    (x : DatasetItem L) : Except Failure (ℕ × List UInt8) :=
  ((List.range splits).mapM (quantizeSplit ar vectorDim subvectorDim codebooks x)).map fun codes =>
    (x.id, codes)

def quantizeVectors (ar : Arithmetic L) (dataset : List (DatasetItem L))
    (vectorDim subvectorDim splits : ℕ) (codebooks : Codebooks L) :
    Except Failure (List (ℕ × List UInt8)) :=
  dataset.mapM (quantizeVector ar vectorDim subvectorDim splits codebooks)

variable {ar : Arithmetic L} {vectorDim subvectorDim splits : ℕ} {codebooks : Codebooks L}
  {x : DatasetItem L}

theorem quantizeSplit_eq_ok {i : ℕ} {code : UInt8}
    (hend : i * subvectorDim + subvectorDim ≤ vectorDim) :
    quantizeSplit ar vectorDim subvectorDim codebooks x i = .ok code ↔
      ∃ centroids, codebooks.lookup i = some centroids ∧
        i * subvectorDim + subvectorDim ≤ x.vec.length ∧
        getClosestCentroid ar centroids (subvectorOf subvectorDim x.vec i) = code := by
  unfold quantizeSplit
  rw [min_eq_left hend, bind_eq_ok]
  simp only [splitCentroids_eq_ok, map_eq_ok, slice_subvector]
  constructor
  · rintro ⟨centroids, hc, _, ⟨hlen, rfl⟩, hcode⟩
    exact ⟨centroids, hc, hlen, hcode⟩
  · rintro ⟨centroids, hc, hlen, hcode⟩
    exact ⟨centroids, hc, _, ⟨hlen, rfl⟩, hcode⟩

/-- The code of a vector: for each subvector the byte of its nearest centroid. -/
def NearestCode (ar : Arithmetic L) (codebooks : Codebooks L) (subvectorDim splits : ℕ)
    (v : List (F32 L)) (codes : List UInt8) : Prop :=
  codes.length = splits ∧ ∀ i < splits, ∃ centroids code, codebooks.lookup i = some centroids ∧
    codes[i]? = some code ∧
    Nearest (distances ar centroids (subvectorOf subvectorDim v i)) code.toNat

/-- Every subvector of the vector has a centroid that a byte can say is nearest. -/
def Codable (ar : Arithmetic L) (codebooks : Codebooks L) (subvectorDim splits : ℕ)
    (v : List (F32 L)) : Prop :=
  ∀ i < splits, ∀ centroids, codebooks.lookup i = some centroids →
    ByteCoded ar.MAX (distances ar centroids (subvectorOf subvectorDim v i))

variable {codes : List UInt8}

theorem quantizeVector_eq_ok {id : ℕ} :
    quantizeVector ar vectorDim subvectorDim splits codebooks x = .ok (id, codes) ↔
      (List.range splits).mapM (quantizeSplit ar vectorDim subvectorDim codebooks x) = .ok codes ∧
        x.id = id := by
  unfold quantizeVector
  rw [map_eq_ok]
  simp only [Prod.mk.injEq]
  constructor
  · rintro ⟨_, h, hid, rfl⟩
    exact ⟨h, hid⟩
  · rintro ⟨h, hid⟩
    exact ⟨codes, h, hid, rfl⟩

theorem nearestCode_iff_codable (hfit : splits * subvectorDim ≤ vectorDim)
    (h : (List.range splits).mapM (quantizeSplit ar vectorDim subvectorDim codebooks x) =
      .ok codes) :
    NearestCode ar codebooks subvectorDim splits x.vec codes ↔
      Codable ar codebooks subvectorDim splits x.vec := by
  obtain ⟨hlength, hget⟩ := mapM_range_ok h
  -- the byte of each subvector is the one that the scan returned
  have hsplit : ∀ i < splits, ∃ centroids, codebooks.lookup i = some centroids ∧
      codes[i]? = some (getClosestCentroid ar centroids (subvectorOf subvectorDim x.vec i)) := by
    intro i hi
    obtain ⟨code, hcode, hq⟩ := hget i hi
    obtain ⟨centroids, hc, -, rfl⟩ := (quantizeSplit_eq_ok (split_end_le hfit hi)).mp hq
    exact ⟨centroids, hc, hcode⟩
  constructor
  · rintro ⟨-, hnear⟩ i hi centroids hc
    obtain ⟨cs, hcs, hcode⟩ := hsplit i hi
    obtain ⟨cs', code, hcs', hcode', hnearest⟩ := hnear i hi
    cases hc.symm.trans hcs
    cases hc.symm.trans hcs'
    cases hcode.symm.trans hcode'
    exact (getClosestCentroid_nearest_iff ar centroids _).mp hnearest
  · intro hcodable
    refine ⟨hlength, fun i hi => ?_⟩
    obtain ⟨centroids, hc, hcode⟩ := hsplit i hi
    exact ⟨centroids, _, hc, hcode,
      (getClosestCentroid_nearest_iff ar centroids _).mpr (hcodable i hi centroids hc)⟩

theorem NearestCode.congr {v w : List (F32 L)}
    (h : ∀ i < splits, subvectorOf subvectorDim v i = subvectorOf subvectorDim w i) :
    NearestCode ar codebooks subvectorDim splits v codes ↔
      NearestCode ar codebooks subvectorDim splits w codes := by
  apply and_congr_right
  intro _
  apply forall₂_congr
  intro i hi
  rw [h i hi]

theorem Codable.congr {v w : List (F32 L)}
    (h : ∀ i < splits, subvectorOf subvectorDim v i = subvectorOf subvectorDim w i) :
    Codable ar codebooks subvectorDim splits v ↔ Codable ar codebooks subvectorDim splits w := by
  apply forall₂_congr
  intro i hi
  rw [h i hi]

theorem quantizeVectors_lookup {dataset : List (DatasetItem L)} {rows : List (ℕ × List UInt8)}
    (h : quantizeVectors ar dataset vectorDim subvectorDim splits codebooks = .ok rows) (id : ℕ) :
    (rows.lookup id = none ∧ ∀ x ∈ dataset, x.id ≠ id) ∨
      ∃ codes, rows.lookup id = some codes ∧ ∃ x ∈ dataset,
        quantizeVector ar vectorDim subvectorDim splits codebooks x = .ok (id, codes) := by
  induction dataset generalizing rows with
  | nil =>
    rw [mapM_nil_ok.mp h]
    exact Or.inl ⟨rfl, fun x hx => absurd hx List.not_mem_nil⟩
  | cons y dataset ih =>
    obtain ⟨⟨yid, codes⟩, rows, hy, hrows, rfl⟩ := mapM_cons_ok.mp h
    have hid := (quantizeVector_eq_ok.mp hy).2
    by_cases heq : id = yid
    · subst heq
      exact Or.inr ⟨codes, List.lookup_cons_self, y, List.mem_cons_self, hy⟩
    · have hskip : ((yid, codes) :: rows).lookup id = rows.lookup id := by
        rw [List.lookup_cons, beq_eq_false_iff_ne.mpr heq]
      rw [hskip]
      rcases ih hrows with ⟨hnone, hall⟩ | ⟨cs, hcs, x, hx, hq⟩
      · refine Or.inl ⟨hnone, fun x hx => ?_⟩
        rcases List.mem_cons.mp hx with rfl | hx
        · exact fun hxid => heq (hxid.symm.trans hid)
        · exact hall x hx
      · exact Or.inr ⟨cs, hcs, x, List.mem_cons_of_mem _ hx, hq⟩

theorem quantizeVector_returns (hcodebooks : ∀ i < splits, (codebooks.lookup i).isSome)
    (hdim : splits * subvectorDim ≤ vectorDim) (hx : splits * subvectorDim ≤ x.vec.length) :
    ∃ row, quantizeVector ar vectorDim subvectorDim splits codebooks x = .ok row := by
  have hsplit : ∀ i ∈ List.range splits,
      ∃ code, quantizeSplit ar vectorDim subvectorDim codebooks x i = .ok code := by
    intro i hi
    have hlt := List.mem_range.mp hi
    obtain ⟨centroids, hc⟩ := Option.isSome_iff_exists.mp (hcodebooks i hlt)
    exact ⟨_, (quantizeSplit_eq_ok (split_end_le hdim hlt)).mpr ⟨centroids, hc,
      split_end_le hx hlt, rfl⟩⟩
  obtain ⟨codes, hcodes⟩ := mapM_returns hsplit
  exact ⟨(x.id, codes), map_eq_ok.mpr ⟨codes, hcodes, rfl⟩⟩

end Codes

/-- A table whose primary key has the values from 1 to `rowCount`. -/
structure Table (L : Type) where
  rowCount : ℕ
  vectors : ℕ → Option (List (F32 L))

def fetchRows (rowCount : ℕ) (column : ℕ → Option (List (F32 L))) (range : IdRange) :
    List (DatasetItem L) :=
  ((List.range' 1 rowCount).filter range.holds).filterMap fun id =>
    (column id).map fun vec => ⟨id, vec⟩

theorem mem_fetchRows {rowCount : ℕ} {column : ℕ → Option (List (F32 L))} {range : IdRange}
    {x : DatasetItem L} :
    x ∈ fetchRows rowCount column range ↔
      (1 ≤ x.id ∧ x.id ≤ rowCount) ∧ range.holds x.id = true ∧ column x.id = some x.vec := by
  unfold fetchRows
  simp only [List.mem_filterMap, List.mem_filter, List.mem_range'_1, Option.map_eq_some_iff]
  constructor
  · rintro ⟨id, ⟨hid, hr⟩, vec, hvec, rfl⟩
    have hbounds : 1 ≤ id ∧ id ≤ rowCount := by omega
    exact ⟨hbounds, hr, hvec⟩
  · rintro ⟨hid, hr, hvec⟩
    exact ⟨x.id, ⟨by omega, hr⟩, x.vec, hvec, rfl⟩

/-- The ranges of the connections: each has `chunkSize` ids, and the one with the
    number of the last core goes on to `stop`. -/
def connectionRanges (numCores numConnections start chunkSize stop : ℕ) : List IdRange :=
  (List.range numConnections).map fun i =>
    ⟨start + i * chunkSize, if i = numCores - 1 then stop else start + i * chunkSize + chunkSize⟩

theorem connectionRanges_fewer {numCores numConnections : ℕ} (h : numConnections < numCores)
    (start chunkSize stop : ℕ) :
    Tiles start (start + numConnections * chunkSize)
      (connectionRanges numCores numConnections start chunkSize stop) := by
  have hmap : connectionRanges numCores numConnections start chunkSize stop =
      (List.range numConnections).map fun i =>
      ⟨start + i * chunkSize, start + i * chunkSize + chunkSize⟩ := by
    apply List.map_congr_left
    intro i hi
    have := List.mem_range.mp hi
    rw [if_neg (by omega)]
  rw [hmap]
  exact tiles_chunks start chunkSize numConnections

theorem connectionRanges_all (n start chunkSize stop : ℕ) :
    connectionRanges (n + 1) (n + 1) start chunkSize stop =
      connectionRanges (n + 1) n start chunkSize stop ++ [⟨start + n * chunkSize, stop⟩] := by
  unfold connectionRanges
  rw [List.range_succ, List.map_append, List.map_singleton, Nat.add_sub_cancel, if_pos rfl]

end Lantern.ProductQuantization
