import Mathlib.Data.PNat.Basic
import Lantern.ByteStrings
import Lantern.TokenGroups

set_option autoImplicit false

/-!
# Inputs of a text model

The tokens of a batch of texts, their attention masks and their types are long lists with
one piece for each text. Each list is cut by itself into as many texts as fit into memory,
and the pieces are collected by their number into groups that the model takes one after
another. The embeddings of the groups are put together.
-/
namespace Lantern.SessionChunks
open ByteStrings Fallible
open TokenGroups (EmbeddingResult)

inductive Failure where
  | bailed (message : String)
  | panicked (message : String)
  deriving DecidableEq, Repr

structure Array2 where
  rows : ℕ
  cols : ℕ
  data : List ℤ
  shape : data.length = rows * cols

def fromShapeVec (rows cols : ℕ) (data : List ℤ) : Except Failure Array2 :=
  if h : data.length = rows * cols then .ok ⟨rows, cols, data, h⟩
  else .error (.bailed "ShapeError/IncompatibleShape: incompatible shapes")

/-- Counts that the builder was given, for models whose memory is estimated. -/
structure ModelParams where
  layerCnt : Option ℕ+
  headCnt : Option ℕ+
  headDim : Option ℕ+

def totalMemory (numLayers numHeads headDim seqLength : ℕ) : ℕ :=
  (4 * numLayers * numHeads ^ 2 * headDim ^ 2 + numLayers * numHeads * seqLength *
    (seqLength + 2 * headDim)) * 8

def getRequiredMemory (params : ModelParams) (seqLength : ℕ) : ℕ :=
  match params.headCnt, params.headDim, params.layerCnt with
  | some numHeads, some headDim, some numLayers =>
    totalMemory numLayers numHeads headDim seqLength * 6 / 5
  | _, _, _ => 1

def pushChunk (tokenCnt : ℕ) (inputs : List (List Array2)) (chunk : List ℤ × ℕ) :
    Except Failure (List (List Array2)) :=
  let inputs := if inputs.length = chunk.2 then inputs ++ [[]] else inputs
  match inputs[chunk.2]? with
  | some group =>
    (fromShapeVec (chunk.1.length / tokenCnt) tokenCnt chunk.1).map fun array =>
      inputs.set chunk.2 (group ++ [array])
  | none => .error (.panicked "called Option::unwrap() on a None value")

def pushInput (tokenCnt maxTokenCnt : ℕ) (inputs : List (List Array2)) (input : List ℤ) :
    Except Failure (List (List Array2)) :=
  ((chunks maxTokenCnt input.length input).zipIdx).foldlM (pushChunk tokenCnt) inputs

def chunkSessionInput (params : ModelParams) (availableMemory : Except String ℕ)
    (vecs : List (List ℤ)) (batchSize : ℕ) :
    Except Failure (List (List Array2)) :=
  match vecs.head? with
  | none => .error (.panicked "index out of bounds")
  | some first =>
    if batchSize = 0 then .error (.panicked "attempt to divide by zero")
    else
      (availableMemory.mapError Failure.bailed).bind fun available =>
        let tokenCnt := first.length / batchSize
        let needed := getRequiredMemory params tokenCnt
        if needed = 0 then .error (.panicked "attempt to divide by zero")
        else
          let maxBatchSize := min batchSize (max 1 (available / needed))
          let maxTokenCnt := maxBatchSize * tokenCnt
          if maxTokenCnt = 0 then .error (.panicked "chunk size must be non-zero")
          else vecs.foldlM (pushInput tokenCnt maxTokenCnt) []

theorem getRequiredMemory_pos (params : ModelParams) {seqLength : ℕ} (h : 0 < seqLength) :
    0 < getRequiredMemory params seqLength := by
  unfold getRequiredMemory
  split
  · next numHeads headDim numLayers _ _ _ =>
    have htotal : 0 < totalMemory numLayers numHeads headDim seqLength := by
      unfold totalMemory
      positivity
    omega
  · exact Nat.one_pos

theorem fromShapeVec_ok {rows cols : ℕ} {data : List ℤ} (h : data.length = rows * cols) :
    ∃ array, fromShapeVec rows cols data = .ok array ∧ array.rows = rows ∧ array.cols = cols ∧
      array.data = data :=
  ⟨⟨rows, cols, data, h⟩, dif_pos h, rfl, rfl, rfl⟩

/-- Groups of `m` texts, the last of which may have fewer: each has the next texts of every
    list, as one array a list. -/
inductive Aligned (m t : ℕ) : ℕ → List (List ℤ) → List (List Array2) → Prop where
  | done {vecs : List (List ℤ)} : Aligned m t 0 vecs []
  | group {b : ℕ} {vecs : List (List ℤ)} {arrays : List Array2}
    {groups : List (List Array2)} (hb : 0 < b)
      (hdata : arrays.map Array2.data = vecs.map (List.take (m * t)))
      (hshape : ∀ array ∈ arrays, array.rows = min m b ∧ array.cols = t)
      (hrest : Aligned m t (b - m) (vecs.map (List.drop (m * t))) groups) :
        Aligned m t b vecs (arrays :: groups)

section Loops
variable {m t : ℕ}

theorem pushChunk_new {tokenCnt : ℕ} {inputs : List (List Array2)} {chunk : List ℤ} {array : Array2}
    (harray : fromShapeVec (chunk.length / tokenCnt) tokenCnt chunk = .ok array) :
    pushChunk tokenCnt inputs (chunk, inputs.length) = .ok (inputs ++ [[array]]) := by
  have hget : (inputs ++ [[]])[inputs.length]? = some [] := List.getElem?_concat_length
  simp only [pushChunk, if_true, hget, harray]
  change Except.ok ((inputs ++ [[]]).set inputs.length [array]) = _
  rw [List.set_append_right _ _ (Nat.le_refl _), Nat.sub_self, List.set_cons_zero]

theorem pushChunk_old {tokenCnt : ℕ} {front groups : List (List Array2)} {group : List Array2}
    {chunk : List ℤ} {array : Array2}
    (harray : fromShapeVec (chunk.length / tokenCnt) tokenCnt chunk = .ok array) :
    pushChunk tokenCnt (front ++ group :: groups) (chunk, front.length) =
      .ok (front ++ (group ++ [array]) :: groups) := by
  have hlong : (front ++ group :: groups).length ≠ front.length := by
    rw [List.length_append, List.length_cons]
    omega
  have hget : (front ++ group :: groups)[front.length]? = some group := by
    rw [List.getElem?_append_right (Nat.le_refl _), Nat.sub_self, List.getElem?_cons_zero]
  simp only [pushChunk, if_neg hlong, hget, harray]
  change Except.ok ((front ++ group :: groups).set front.length (group ++ [array])) = _
  rw [List.set_append_right _ _ (Nat.le_refl _), Nat.sub_self, List.set_cons_zero]

theorem fromShapeVec_take {b : ℕ} (ht : 0 < t) {v : List ℤ} (hv : v.length = b * t) :
    ∃ array, fromShapeVec ((v.take (m * t)).length / t) t (v.take (m * t)) = .ok array ∧
      array.rows = min m b ∧
      array.cols = t ∧ array.data = v.take (m * t) := by
  have hlength : (v.take (m * t)).length = min m b * t := by
    rw [List.length_take, hv, Nat.mul_min_mul_right]
  have hrows : (v.take (m * t)).length / t = min m b := by rw [hlength, Nat.mul_div_cancel _ ht]
  rw [hrows]
  exact fromShapeVec_ok hlength

theorem length_drop_texts {b : ℕ} {v : List ℤ} (hv : v.length = b * t) :
    (v.drop (m * t)).length = (b - m) * t := by
  rw [List.length_drop, hv, Nat.sub_mul]

theorem ne_nil_of_texts {b : ℕ} (ht : 0 < t) (hb : 0 < b) {v : List ℤ} (hv : v.length = b * t) :
    v ≠ [] := by
  intro hempty
  rw [hempty, List.length_nil] at hv
  exact absurd hv (Nat.mul_pos hb ht).ne

theorem foldlM_first (hm : 0 < m) (ht : 0 < t) {b fuel : ℕ} {v : List ℤ}
    {front : List (List Array2)} (hv : v.length = b * t) (hfuel : v.length ≤ fuel) :
    ∃ groups, ((chunks (m * t) fuel v).zipIdx front.length).foldlM
      (pushChunk t) front = .ok (front ++ groups) ∧
      Aligned m t b [v] groups := by
  induction fuel generalizing b v front with
  | zero =>
    have hb : b = 0 := by
      by_contra hb
      exact ne_nil_of_texts ht (Nat.pos_of_ne_zero hb) hv
        (List.length_eq_zero_iff.mp (Nat.le_zero.mp hfuel))
    subst hb
    exact ⟨[], by rw [List.append_nil]; rfl, .done⟩
  | succ fuel ih =>
    rcases Nat.eq_zero_or_pos b with rfl | hb
    · have hempty : v = [] := List.length_eq_zero_iff.mp (hv.trans (Nat.zero_mul t))
      subst hempty
      exact ⟨[], by rw [List.append_nil]; rfl, .done⟩
    · obtain ⟨array, harray, hrows, hcols, hdata⟩ := @fromShapeVec_take m t b ht v hv
      have hdrop := @length_drop_texts m t b v hv
      have hsmall : (v.drop (m * t)).length ≤ fuel := by
        have hpos := Nat.mul_pos hm ht
        have hlen := List.length_pos_iff.mpr (ne_nil_of_texts ht hb hv)
        rw [List.length_drop]
        omega
      obtain ⟨groups, hrun, haligned⟩ :=
        @ih (b - m) (v.drop (m * t)) (front ++ [[array]]) hdrop hsmall
      refine ⟨[array] :: groups, ?_, .group hb (by rw [List.map_singleton, hdata]; rfl) ?_ haligned⟩
      · rw [chunks_of_ne_nil (ne_nil_of_texts ht hb hv), List.zipIdx_cons, List.foldlM_cons,
          pushChunk_new harray]
        rw [List.length_append, List.length_singleton, List.append_assoc,
          List.singleton_append] at hrun
        exact hrun
      · intro a ha
        rw [List.mem_singleton.mp ha]
        exact ⟨hrows, hcols⟩

theorem foldlM_next (hm : 0 < m) (ht : 0 < t) {b fuel : ℕ} {vecs : List (List ℤ)}
    {groups : List (List Array2)} (haligned : Aligned m t b vecs groups) {v : List ℤ}
    {front : List (List Array2)} (hv : v.length = b * t) (hfuel : v.length ≤ fuel) :
    ∃ groups', ((chunks (m * t) fuel v).zipIdx front.length).foldlM (pushChunk t)
      (front ++ groups) =
        .ok (front ++ groups') ∧
      Aligned m t b (vecs ++ [v]) groups' := by
  induction haligned generalizing fuel v front with
  | done =>
    have hempty : v = [] := List.length_eq_zero_iff.mp (hv.trans (Nat.zero_mul t))
    subst hempty
    exact ⟨[], by cases fuel <;> rfl, .done⟩
  | @group b vecs arrays groups hb hdata hshape hrest ih =>
    obtain ⟨array, harray, hrows, hcols, hvalues⟩ := @fromShapeVec_take m t b ht v hv
    have hdrop := @length_drop_texts m t b v hv
    obtain ⟨fuel, rfl⟩ : ∃ n, fuel = n + 1 := by
      have hlen := List.length_pos_iff.mpr (ne_nil_of_texts ht hb hv)
      exact Nat.exists_eq_succ_of_ne_zero (by omega)
    have hsmall : (v.drop (m * t)).length ≤ fuel := by
      have hpos := Nat.mul_pos hm ht
      rw [List.length_drop]
      omega
    obtain ⟨groups', hrun, haligned'⟩ :=
      @ih fuel (v.drop (m * t)) (front ++ [arrays ++ [array]]) hdrop hsmall
    refine ⟨(arrays ++ [array]) :: groups', ?_, .group hb ?_ ?_ ?_⟩
    · rw [chunks_of_ne_nil (ne_nil_of_texts ht hb hv), List.zipIdx_cons, List.foldlM_cons,
        pushChunk_old harray]
      rw [List.length_append, List.length_singleton, List.append_assoc, List.append_assoc,
        List.singleton_append, List.singleton_append] at hrun
      exact hrun
    · rw [List.map_append, List.map_append, hdata, List.map_singleton, List.map_singleton, hvalues]
    · intro a ha
      rcases List.mem_append.mp ha with ha | ha
      · exact hshape a ha
      · rw [List.mem_singleton.mp ha]
        exact ⟨hrows, hcols⟩
    · rw [List.map_append, List.map_singleton]
      exact haligned'

theorem foldlM_aligned (hm : 0 < m) (ht : 0 < t) {b : ℕ} {vecs vecs' : List (List ℤ)}
    {groups : List (List Array2)} (haligned : Aligned m t b vecs groups)
    (hvecs : ∀ v ∈ vecs', v.length = b * t) :
    ∃ groups', vecs'.foldlM (pushInput t (m * t)) groups = .ok groups' ∧
      Aligned m t b (vecs ++ vecs') groups' := by
  induction vecs' generalizing vecs groups with
  | nil => exact ⟨groups, rfl, by rwa [List.append_nil]⟩
  | cons v vecs' ih =>
    obtain ⟨hv, hrest⟩ := List.forall_mem_cons.mp hvecs
    obtain ⟨groups', hrun, haligned'⟩ :=
      @foldlM_next m t hm ht b v.length vecs groups haligned v [] hv (Nat.le_refl _)
    obtain ⟨groups'', hrun', haligned''⟩ := ih haligned' hrest
    refine ⟨groups'', ?_, ?_⟩
    · rw [List.foldlM_cons]
      change (pushInput t (m * t) groups v).bind _ = _
      rw [show pushInput t (m * t) groups v = .ok groups' from hrun]
      exact hrun'
    · rwa [List.append_assoc, List.singleton_append] at haligned''

end Loops

def Array2.row (array : Array2) (i : ℕ) : List ℤ :=
  (array.data.drop (i * array.cols)).take array.cols

def groupRows (group : List Array2) : List (List (List ℤ)) :=
  (List.range (group.head?.elim 0 Array2.rows)).map fun i => group.map fun array => array.row i

def textRows (t b : ℕ) (vecs : List (List ℤ)) : List (List (List ℤ)) :=
  (List.range b).map fun i => vecs.map fun v => (v.drop (i * t)).take t

def pieces (j : ℕ) (groups : List (List Array2)) : List ℤ :=
  groups.flatMap fun group => (group[j]?).elim [] Array2.data

section Groups
variable {m t b : ℕ} {vecs : List (List ℤ)} {groups : List (List Array2)}

theorem Aligned.shape (h : Aligned m t b vecs groups) (hm : 0 < m) {group : List Array2}
    (hgroup : group ∈ groups) :
    group.length = vecs.length ∧ ∃ rows, 1 ≤ rows ∧ rows ≤ b ∧ ∀ array ∈ group, array.rows = rows ∧
      array.cols = t := by
  induction h with
  | done => cases hgroup
  | @group b vecs arrays groups hb hdata hshape hrest ih =>
    rcases List.mem_cons.mp hgroup with rfl | hgroup
    · refine ⟨?_, min m b, by omega, Nat.min_le_right m b, hshape⟩
      have hlength := congrArg List.length hdata
      rwa [List.length_map, List.length_map] at hlength
    · obtain ⟨hlength, rows, hpos, hle, harrays⟩ := ih hgroup
      rw [List.length_map] at hlength
      exact ⟨hlength, rows, hpos, hle.trans (Nat.sub_le b m), harrays⟩

theorem Aligned.pieces_eq (h : Aligned m t b vecs groups) {j : ℕ} {v : List ℤ}
    (hj : vecs[j]? = some v) (hv : v.length = b * t) : pieces j groups = v := by
  induction h generalizing v with
  | done => exact (List.length_eq_zero_iff.mp (hv.trans (Nat.zero_mul t))).symm
  | @group b vecs arrays groups hb hdata hshape hrest ih =>
    have hfirst : (arrays[j]?).map Array2.data = some (v.take (m * t)) := by
      rw [← List.getElem?_map, hdata, List.getElem?_map, hj, Option.map_some]
    obtain ⟨array, harray, hvalues⟩ := Option.map_eq_some_iff.mp hfirst
    have hrest' : pieces j groups = v.drop (m * t) :=
      ih (by rw [List.getElem?_map, hj, Option.map_some]) (length_drop_texts hv)
    rw [pieces, List.flatMap_cons, harray, ← pieces, hrest', Option.elim_some, hvalues,
      List.take_append_drop]

theorem range_split (m b : ℕ) :
    List.range b = List.range (min m b) ++ (List.range (b - m)).map (m + ·) := by
  rcases Nat.le_total m b with h | h
  · rw [Nat.min_eq_left h, ← List.range_add, Nat.add_sub_cancel' h]
  · rw [Nat.min_eq_right h, Nat.sub_eq_zero_of_le h, List.range_zero, List.map_nil, List.append_nil]

theorem textRows_split (m t b : ℕ) (vecs : List (List ℤ)) :
    textRows t b vecs = textRows t (min m b) vecs ++ textRows t (b - m)
      (vecs.map (List.drop (m * t))) := by
  rw [textRows, range_split m b, List.map_append, List.map_map]
  congr 1
  apply List.map_congr_left
  intro i _
  rw [Function.comp_apply, List.map_map]
  apply List.map_congr_left
  intro v _
  rw [Function.comp_apply, List.drop_drop, Nat.add_mul]

theorem groupRows_eq {arrays : List Array2} {r : ℕ} (hsome : arrays ≠ [])
    (hshape : ∀ array ∈ arrays, array.rows = r ∧ array.cols = t) :
    groupRows arrays = textRows t r (arrays.map Array2.data) := by
  obtain ⟨first, rest, rfl⟩ := List.exists_cons_of_ne_nil hsome
  rw [groupRows, textRows, List.head?_cons, Option.elim_some, (hshape first List.mem_cons_self).1]
  apply List.map_congr_left
  intro i _
  rw [List.map_map]
  apply List.map_congr_left
  intro array harray
  rw [Array2.row, (hshape array harray).2, Function.comp_apply]

theorem textRows_take {r : ℕ} (hr : r ≤ m) (vecs : List (List ℤ)) :
    textRows t r (vecs.map (List.take (m * t))) = textRows t r vecs := by
  apply List.map_congr_left
  intro i hi
  rw [List.map_map]
  apply List.map_congr_left
  intro v _
  have hfits : i * t + t ≤ m * t := by
    rw [← Nat.succ_mul]
    exact Nat.mul_le_mul_right t (Nat.lt_of_lt_of_le (List.mem_range.mp hi) hr)
  rw [Function.comp_apply, List.drop_take, List.take_take, Nat.min_eq_left (by omega)]

theorem Aligned.rows_eq (h : Aligned m t b vecs groups) (hvecs : vecs ≠ []) :
    groups.flatMap groupRows = textRows t b vecs := by
  induction h with
  | done => rfl
  | @group b vecs arrays groups hb hdata hshape hrest ih =>
    have hsome : arrays ≠ [] := by
      intro hempty
      rw [hempty, List.map_nil] at hdata
      exact hvecs (List.map_eq_nil_iff.mp hdata.symm)
    have hrest' := ih (List.map_eq_nil_iff.not.mpr hvecs)
    rw [List.flatMap_cons, hrest', groupRows_eq hsome hshape, hdata,
      textRows_take (Nat.min_le_left m b), ← textRows_split]

end Groups

theorem chunkSessionInput_aligned (params : ModelParams) (available : ℕ) {b t : ℕ}
    (hb : 0 < b) (ht : 0 < t) {vecs : List (List ℤ)} (hvecs : vecs ≠ [])
    (hlength : ∀ v ∈ vecs, v.length = b * t) :
    ∃ m groups, 0 < m ∧ m ≤ b ∧ chunkSessionInput params (.ok available) vecs b = .ok groups ∧
      Aligned m t b vecs groups := by
  obtain ⟨v, rest, rfl⟩ := List.exists_cons_of_ne_nil hvecs
  obtain ⟨hv, hrest⟩ := List.forall_mem_cons.mp hlength
  have hcnt : v.length / b = t := by rw [hv, Nat.mul_div_cancel_left _ hb]
  have hneeded : getRequiredMemory params t ≠ 0 := (getRequiredMemory_pos params ht).ne'
  generalize hm : min b (max 1 (available / getRequiredMemory params t)) = m
  have hpos : 0 < m := by omega
  have hle : m ≤ b := by omega
  obtain ⟨groups, hfirst, haligned⟩ := @foldlM_first m t hpos ht b v.length v [] hv (Nat.le_refl _)
  obtain ⟨groups', hrun, haligned'⟩ := foldlM_aligned hpos ht haligned hrest
  refine ⟨m, groups', hpos, hle, ?_, haligned'⟩
  simp only [chunkSessionInput, List.head?_cons, if_neg hb.ne', hcnt]
  change (if getRequiredMemory params t = 0 then _ else _) = _
  rw [if_neg hneeded, hm, if_neg (Nat.mul_pos hpos ht).ne', List.foldlM_cons]
  change (pushInput t (m * t) [] v).bind _ = _
  rw [show pushInput t (m * t) [] v = .ok groups from hfirst]
  exact hrun

structure Encoding where
  ids : List UInt32
  attentionMask : List UInt32
  typeIds : List UInt32

def asI64 (values : List UInt32) : List ℤ := values.map fun b => (b.toNat : ℤ)

def tokenField (name : String) : Option (Encoding → List ℤ) :=
  if name = "input_ids" then some fun e => asI64 e.ids
  else if name = "attention_mask" then some fun e => asI64 e.attentionMask
  else if name = "token_type_ids" then some fun e => asI64 e.typeIds
  else none

structure Collected where
  vecs : List (List ℤ)
  processedTokens : ℕ
  attentionMaskIdx : Option ℕ

def Collected.add (preprocessed : List Encoding) (c : Collected) (name : String) : Collected :=
  match tokenField name with
  | none => c
  | some field =>
    let v := (preprocessed.map field).flatten
    { vecs := c.vecs ++ [v]
      processedTokens := if name = "input_ids" then v.length else c.processedTokens
      attentionMaskIdx := if name = "attention_mask" then some c.vecs.length
      else c.attentionMaskIdx }

def collect (names : List String) (preprocessed : List Encoding) : Collected :=
  names.foldl (Collected.add preprocessed) ⟨[], 0, none⟩

structure Session (Out Emb : Type) where
  inputs : List String
  run : List Array2 → Except String Out
  /-- The first output, pooled with the attention mask. -/
  pool : Out → Array2 → Except String (List Emb)

section Bert
variable {Out Emb : Type}

def embedChunk (session : Session Out Emb) (attentionMaskIdx : ℕ) (chunk : List Array2) :
    Except Failure (List Emb) :=
  ((session.run chunk).mapError Failure.bailed).bind fun outputs =>
    match chunk[attentionMaskIdx]? with
    | some attentionMask => (session.pool outputs attentionMask).mapError Failure.bailed
    | none => .error (.panicked "index out of bounds")

def processTextBert (session : Session Out Emb) (params : ModelParams)
    (availableMemory : Except String ℕ) (preprocessed : List Encoding) :
    Except Failure (EmbeddingResult Emb) :=
  let collected := collect session.inputs preprocessed
  match collected.attentionMaskIdx with
  | none =>
    .error (.bailed ("Could not get attention_mask_idx from sesssion inputs: " ++
      ", ".intercalate session.inputs))
  | some attentionMaskIdx =>
    (chunkSessionInput params availableMemory collected.vecs preprocessed.length).bind
      fun inputChunks =>
      (inputChunks.mapM (embedChunk session attentionMaskIdx)).map fun embeddings =>
        ⟨collected.processedTokens, embeddings.flatten⟩

def fields (names : List String) : List (Encoding → List ℤ) := names.filterMap tokenField

theorem foldl_vecs (names : List String) (preprocessed : List Encoding) (c : Collected) :
    (names.foldl (Collected.add preprocessed) c).vecs =
      c.vecs ++ (fields names).map fun field => (preprocessed.map field).flatten := by
  induction names generalizing c with
  | nil => exact (List.append_nil _).symm
  | cons name names ih =>
    rw [List.foldl_cons, ih, Collected.add, fields, fields, List.filterMap_cons]
    cases hfield : tokenField name with
    | none => rfl
    | some field => exact List.append_assoc _ _ _

theorem collect_vecs (names : List String) (preprocessed : List Encoding) :
    (collect names preprocessed).vecs = (fields names).map fun field =>
      (preprocessed.map field).flatten :=
  foldl_vecs names preprocessed _

/-- The index of the attention mask is that of a list, and there is one if the model takes
    an attention mask. -/
structure Indexed (c : Collected) (seen : List String) : Prop where
  lt_length : ∀ idx, c.attentionMaskIdx = some idx → idx < c.vecs.length
  found : "attention_mask" ∈ seen → c.attentionMaskIdx ≠ none

theorem Indexed.add {c : Collected} {seen : List String} (h : Indexed c seen)
    (preprocessed : List Encoding) (name : String) :
    Indexed (c.add preprocessed name) (seen ++ [name]) := by
  rw [Collected.add]
  cases hfield : tokenField name with
  | none =>
    refine ⟨h.lt_length, fun hmem => ?_⟩
    rcases List.mem_append.mp hmem with hmem | hmem
    · exact h.found hmem
    · rw [← List.mem_singleton.mp hmem] at hfield
      cases hfield
  | some field =>
    constructor
    · intro idx hidx
      rw [List.length_append, List.length_singleton]
      by_cases hname : name = "attention_mask"
      · rw [if_pos hname] at hidx
        cases hidx
        exact Nat.lt_succ_self _
      · rw [if_neg hname] at hidx
        exact (h.lt_length idx hidx).trans (Nat.lt_succ_self _)
    · intro hmem
      by_cases hname : name = "attention_mask"
      · rw [if_pos hname]
        exact Option.some_ne_none _
      · rw [if_neg hname]
        rcases List.mem_append.mp hmem with hmem | hmem
        · exact h.found hmem
        · exact absurd (List.mem_singleton.mp hmem).symm hname

theorem indexed_collect (names : List String) (preprocessed : List Encoding) :
    Indexed (collect names preprocessed) names := by
  have hrun : ∀ rest seen c, Indexed c seen →
      Indexed (rest.foldl (Collected.add preprocessed) c) (seen ++ rest) := by
    intro rest
    induction rest with
    | nil =>
      intro seen c h
      rwa [List.append_nil]
    | cons name rest ih =>
      intro seen c h
      have hnext := ih (seen ++ [name]) (c.add preprocessed name) (h.add preprocessed name)
      rwa [List.append_assoc, List.singleton_append] at hnext
  have hnone : Indexed ⟨[], 0, none⟩ [] := ⟨fun _ h => (nomatch h), fun h => (nomatch h)⟩
  exact hrun names [] _ hnone

def Padded (t : ℕ) (preprocessed : List Encoding) : Prop :=
  ∀ e ∈ preprocessed, e.ids.length = t ∧ e.attentionMask.length = t ∧ e.typeIds.length = t

theorem length_field {t : ℕ} {preprocessed : List Encoding} (h : Padded t preprocessed)
    {names : List String} {field : Encoding → List ℤ} (hfield : field ∈ fields names) {e : Encoding}
    (he : e ∈ preprocessed) :
    (field e).length = t := by
  obtain ⟨name, _, hname⟩ := List.mem_filterMap.mp hfield
  obtain ⟨hids, hmask, htypes⟩ := h e he
  rw [tokenField] at hname
  split_ifs at hname <;> cases hname <;> exact (List.length_map _).trans ‹_›

theorem length_collected {t : ℕ} {preprocessed : List Encoding} (h : Padded t preprocessed)
    {names : List String} {v : List ℤ} (hv : v ∈ (collect names preprocessed).vecs) :
    v.length = preprocessed.length * t := by
  rw [collect_vecs] at hv
  obtain ⟨field, hfield, rfl⟩ := List.mem_map.mp hv
  have hpieces : ∀ piece ∈ preprocessed.map field, piece.length = t :=
    List.forall_mem_map.mpr fun e he => length_field h hfield he
  rw [length_flatten_of_length hpieces, List.length_map]

theorem textRows_flatten {t : ℕ} {preprocessed : List Encoding} {fs : List (Encoding → List ℤ)}
    (hfs : ∀ field ∈ fs, ∀ e ∈ preprocessed, (field e).length = t) :
    textRows t preprocessed.length (fs.map fun field => (preprocessed.map field).flatten) =
      preprocessed.map fun e => fs.map fun field => field e := by
  induction preprocessed with
  | nil => rfl
  | cons e rest ih =>
    have hrest := ih fun field hfield e' he' => hfs field hfield e' (List.mem_cons_of_mem _ he')
    have hhead : ∀ field ∈ fs, (field e).length = t :=
      fun field hfield => hfs field hfield e List.mem_cons_self
    rw [List.map_cons, ← hrest, textRows, textRows, List.length_cons, List.range_succ_eq_map,
      List.map_cons, List.map_map, List.map_map]
    congr 1
    · apply List.map_congr_left
      intro field hfield
      rw [Function.comp_apply, Nat.zero_mul, List.drop_zero, List.map_cons, List.flatten_cons,
        List.take_left' (hhead field hfield)]
    · apply List.map_congr_left
      intro i _
      rw [Function.comp_apply, List.map_map, List.map_map]
      apply List.map_congr_left
      intro field hfield
      rw [Function.comp_apply, Function.comp_apply, List.map_cons, List.flatten_cons,
        Nat.succ_mul, Nat.add_comm, ← List.drop_drop, List.drop_left' (hhead field hfield)]

def OnePerRow (session : Session Out Emb) (embeds : List (List ℤ) → Emb → Prop) : Prop :=
  ∀ group, group.length = (fields session.inputs).length →
    ∀ mask ∈ group, (∀ array ∈ group, array.rows = mask.rows ∧ array.cols = mask.cols) →
      ∃ outputs embeddings, session.run group = .ok outputs ∧
      session.pool outputs mask = .ok embeddings ∧
        List.Forall₂ embeds (groupRows group) embeddings

theorem embedChunk_rows {session : Session Out Emb} {embeds : List (List ℤ) → Emb → Prop}
    (hmodel : OnePerRow session embeds) {idx rows t : ℕ}
    (hidx : idx < (fields session.inputs).length) {group : List Array2}
    (hlength : group.length = (fields session.inputs).length)
    (hshape : ∀ array ∈ group, array.rows = rows ∧ array.cols = t) :
    ∃ embeddings, embedChunk session idx group = .ok embeddings ∧
      List.Forall₂ embeds (groupRows group) embeddings := by
  obtain ⟨mask, hmask⟩ : ∃ mask, group[idx]? = some mask :=
    ⟨_, List.getElem?_eq_getElem (hlength ▸ hidx)⟩
  have hmem := List.mem_of_getElem? hmask
  have hsame : ∀ array ∈ group, array.rows = mask.rows ∧ array.cols = mask.cols :=
    fun array harray =>
    ⟨(hshape array harray).1.trans (hshape mask hmem).1.symm,
      (hshape array harray).2.trans (hshape mask hmem).2.symm⟩
  obtain ⟨outputs, embeddings, hrun, hpool, hembeds⟩ := hmodel group hlength mask hmem hsame
  refine ⟨embeddings, ?_, hembeds⟩
  simp only [embedChunk, hrun, hmask]
  change (session.pool outputs mask).mapError Failure.bailed = _
  rw [hpool]
  rfl

theorem mapM_embedChunk {session : Session Out Emb} {embeds : List (List ℤ) → Emb → Prop} {idx : ℕ}
    {groups : List (List Array2)}
    (h : ∀ group ∈ groups, ∃ embeddings, embedChunk session idx group = .ok embeddings ∧
      List.Forall₂ embeds (groupRows group) embeddings) :
    ∃ results, groups.mapM (embedChunk session idx) = .ok results ∧
      List.Forall₂ embeds (groups.flatMap groupRows) results.flatten := by
  induction groups with
  | nil => exact ⟨[], rfl, .nil⟩
  | cons group groups ih =>
    obtain ⟨⟨embeddings, hfirst, hembeds⟩, hrest⟩ := List.forall_mem_cons.mp h
    obtain ⟨results, hresults, hall⟩ := ih hrest
    refine ⟨embeddings :: results,
      mapM_cons_ok.mpr ⟨embeddings, results, hfirst, hresults, rfl⟩, ?_⟩
    rw [List.flatMap_cons, List.flatten_cons]
    exact List.rel_append hembeds hall

theorem processTextBert_embeds {session : Session Out Emb} {embeds : List (List ℤ) → Emb → Prop}
    (hmodel : OnePerRow session embeds) (hmask : "attention_mask" ∈ session.inputs)
    (params : ModelParams) (available : ℕ) {t : ℕ} (ht : 0 < t) {preprocessed : List Encoding}
    (hsome : 0 < preprocessed.length) (hpadded : Padded t preprocessed) :
    ∃ result, processTextBert session params (.ok available) preprocessed = .ok result ∧
      List.Forall₂
        (fun e emb => embeds ((fields session.inputs).map fun field => field e) emb) preprocessed
        result.embeddings := by
  have hindexed := indexed_collect session.inputs preprocessed
  obtain ⟨idx, hidx⟩ := Option.ne_none_iff_exists'.mp (hindexed.found hmask)
  have hlt := hindexed.lt_length idx hidx
  have hnonempty : (collect session.inputs preprocessed).vecs ≠ [] :=
    List.ne_nil_of_length_pos (Nat.zero_lt_of_lt hlt)
  obtain ⟨m, groups, hm, -, hchunks, haligned⟩ :=
    chunkSessionInput_aligned params available hsome ht hnonempty fun _ hv =>
      length_collected hpadded hv
  have hcount :
      (collect session.inputs preprocessed).vecs.length = (fields session.inputs).length := by
    rw [collect_vecs, List.length_map]
  have hgroups : ∀ group ∈ groups, ∃ embeddings, embedChunk session idx group = .ok embeddings ∧
      List.Forall₂ embeds (groupRows group) embeddings := by
    intro group hgroup
    obtain ⟨hwidth, rows, -, -, hshape⟩ := haligned.shape hm hgroup
    exact embedChunk_rows hmodel (hcount ▸ hlt) (hwidth.trans hcount) hshape
  obtain ⟨results, hresults, hembeds⟩ := mapM_embedChunk hgroups
  refine ⟨⟨(collect session.inputs preprocessed).processedTokens, results.flatten⟩, ?_, ?_⟩
  · simp only [processTextBert, hidx, hchunks]
    change Except.map _ (groups.mapM (embedChunk session idx)) = _
    rw [hresults]
    rfl
  · have hrows := textRows_flatten fun field (hfield : field ∈ fields session.inputs) e he =>
      length_field hpadded hfield he
    rw [haligned.rows_eq hnonempty, collect_vecs, hrows] at hembeds
    exact List.forall₂_map_left_iff.mp hembeds

/-- However much memory there is, every list of the model is cut into groups at the same
    texts and the groups have all of it; a model that gives an embedding for each row so
    gives one for each text, in the order of the texts. -/
theorem chunks_aligned_embedded {b t : ℕ} (hb : 1 ≤ b) (ht : 1 ≤ t) (params : ModelParams)
    (available : ℕ) :
    (∀ vecs : List (List ℤ), vecs ≠ [] → (∀ v ∈ vecs, v.length = b * t) →
      ∃ groups, chunkSessionInput params (.ok available) vecs b = .ok groups ∧
        (∀ group ∈ groups, group.length = vecs.length ∧
          ∃ rows, 1 ≤ rows ∧ rows ≤ b ∧ ∀ array ∈ group, array.rows = rows ∧ array.cols = t) ∧
        ∀ j v, vecs[j]? = some v → pieces j groups = v) ∧
      ∀ (session : Session Out Emb) (embeds : List (List ℤ) → Emb → Prop)
        (preprocessed : List Encoding), "attention_mask" ∈ session.inputs →
          OnePerRow session embeds → preprocessed.length = b → Padded t preprocessed →
          ∃ result, processTextBert session params (.ok available) preprocessed = .ok result ∧
            List.Forall₂
              (fun e emb => embeds ((fields session.inputs).map fun field => field e) emb)
                preprocessed
              result.embeddings := by
  constructor
  · intro vecs hvecs hlength
    obtain ⟨m, groups, hm, -, hrun, haligned⟩ :=
      chunkSessionInput_aligned params available hb ht hvecs hlength
    refine ⟨groups, hrun, fun group hgroup => haligned.shape hm hgroup, fun j v hj => ?_⟩
    exact haligned.pieces_eq hj (hlength v (List.mem_of_getElem? hj))
  · rintro session embeds preprocessed hmask hmodel rfl hpadded
    exact processTextBert_embeds hmodel hmask params available ht hb hpadded

def echo : Session (List Array2) (List (List ℤ)) :=
  ⟨["input_ids", "token_type_ids", "attention_mask"], .ok, fun outputs _ => .ok (groupRows outputs)⟩

def threeEncodings : List Encoding :=
  [⟨[101, 7], [1, 1], [0, 0]⟩, ⟨[102, 0], [1, 0], [0, 0]⟩, ⟨[103, 9], [1, 1], [0, 1]⟩]

theorem echo_onePerRow : OnePerRow echo fun row shown => shown = row := by
  intro group _ mask _ _
  exact ⟨group, groupRows group, rfl, rfl, List.forall₂_same.mpr fun _ _ => rfl⟩

theorem threeEncodings_padded : Padded 2 threeEncodings := by
  intro e he
  rw [threeEncodings] at he
  rcases he with _ | ⟨_, _ | ⟨_, _ | ⟨_, he⟩⟩⟩
  · exact ⟨rfl, rfl, rfl⟩
  · exact ⟨rfl, rfl, rfl⟩
  · exact ⟨rfl, rfl, rfl⟩
  · cases he

theorem threeEncodings_embedded :
    (∃ groups, chunkSessionInput ⟨none, none, none⟩ (.ok 2) [[101, 7, 102, 0, 103, 9],
      [1, 1, 1, 0, 1, 1]] 3 = .ok groups ∧
      pieces 0 groups = [101, 7, 102, 0, 103, 9]) ∧
    ∃ result, processTextBert echo ⟨none, none, none⟩ (.ok 2) threeEncodings = .ok result ∧
      List.Forall₂
        (fun e shown => shown = (fields echo.inputs).map fun field => field e) threeEncodings
        result.embeddings := by
  have h := @chunks_aligned_embedded (List Array2) (List (List ℤ)) 3 2 (by decide) (by decide)
    ⟨none, none, none⟩ 2
  obtain ⟨groups, hrun, _, hpieces⟩ :=
    h.1 [[101, 7, 102, 0, 103, 9], [1, 1, 1, 0, 1, 1]] (by decide) (by decide)
  exact ⟨⟨groups, hrun, hpieces 0 _ rfl⟩,
    h.2 echo _ threeEncodings (by decide) echo_onePerRow rfl threeEncodings_padded⟩

end Bert

end Lantern.SessionChunks
