import Lantern.SystemRuns
import Lantern.TokenGroups

set_option autoImplicit false

/-!
# Embeddings of images

The images of a batch are read or downloaded several at a time, and their bytes are
collected in the order of the inputs whatever the order in which they arrive. An image that
could not be read leaves an empty buffer. Only the other buffers go to the model, and its
embeddings are dealt out again by an index that counts them.
-/
namespace Lantern.ImageEmbeddings
open CharText SystemRuns
open TokenGroups (EmbeddingResult)

abbrev Buffer := List UInt8

structure HttpResponse where
  contentLength : Option ℕ
  bytes : Except String Buffer

structure ImageSource where
  pathOrUrl : String
  parsesAsUrl : Bool
  isAbsolute : Bool
  response : Except String HttpResponse
  file : Except String Buffer

def MAX_IMAGE_SIZE : ℕ := 1024 * 1024 * 20

def HttpResponse.length (response : HttpResponse) : ℕ :=
  response.contentLength.getD (MAX_IMAGE_SIZE + 1)

def getImageBuffer (source : ImageSource) : Except String Buffer :=
  if source.parsesAsUrl then
    source.response.bind fun response =>
      if MAX_IMAGE_SIZE < response.length then
        .error ("[X] Maximum supported image size is " ++ toString (MAX_IMAGE_SIZE / 1024 / 1024) ++
          "MB, downloaded file size is " ++ toString (response.length / 1024 / 1024) ++ "MB")
      else response.bytes
  else if source.isAbsolute then
    match source.file with
    | .ok bytes => .ok bytes
    | .error e => .error ("[X] Error while reading file \"" ++ source.pathOrUrl ++ "\" - " ++ e)
  else .error ("[X] Expected URL or absolute path got: " ++ source.pathOrUrl)

def ImageSource.buffer (source : ImageSource) : Buffer :=
  match getImageBuffer source with
  | .ok bytes => bytes
  | .error _ => []

/-- A stream of futures with a bound on those that run: results are handed out in the
    order of the futures. -/
structure Reading where
  waiting : List ImageSource
  /-- Whether it has finished, for each image that was started. -/
  running : List (ImageSource × Bool)
  buffers : List Buffer

inductive Action where
  | start
  | finish (i : ℕ)
  | next
  deriving DecidableEq, Repr

def step (chunkSize : ℕ) (s : Reading) : Action → Option Reading
  | .start =>
    match s.waiting with
    | source :: rest =>
      if s.running.length < chunkSize then
        some { s with waiting := rest, running := s.running ++ [(source, false)] }
      else none
    | [] => none
  | .finish i =>
    match s.running[i]? with
    | some (source, false) => some { s with running := s.running.set i (source, true) }
    | _ => none
  | .next =>
    match s.running with
    | (source, true) :: rest =>
      some { s with running := rest, buffers := s.buffers ++ [source.buffer] }
    | _ => none

def imageSystem (chunkSize : ℕ) (sources : List ImageSource) : System Reading :=
  actionSystem (fun s => s = ⟨sources, [], []⟩) (step chunkSize) fun _ _ => True

def Reading.Done (s : Reading) : Prop := s.waiting = [] ∧ s.running = []

def Reading.remaining (s : Reading) : List ImageSource := s.running.map Prod.fst ++ s.waiting

section Steps
variable {chunkSize : ℕ} {s t : Reading} {a : Action}

theorem step_cases (h : step chunkSize s a = some t) :
    (∃ source rest, s.waiting = source :: rest ∧ s.running.length < chunkSize ∧
      t = ⟨rest, s.running ++ [(source, false)], s.buffers⟩) ∨
    (∃ i source, s.running[i]? = some (source, false) ∧
      t = ⟨s.waiting, s.running.set i (source, true), s.buffers⟩) ∨
    (∃ source rest, s.running = (source, true) :: rest ∧
      t = ⟨s.waiting, rest, s.buffers ++ [source.buffer]⟩) := by
  cases a with
  | start =>
    rw [step] at h
    split at h
    · next source rest hwaiting =>
      split_ifs at h with hroom
      exact .inl ⟨source, rest, hwaiting, hroom, (Option.some.inj h).symm⟩
    · cases h
  | finish i =>
    rw [step] at h
    split at h
    · next source hrunning => exact .inr (.inl ⟨i, source, hrunning, (Option.some.inj h).symm⟩)
    · cases h
  | next =>
    rw [step] at h
    split at h
    · next source rest hrunning =>
        exact .inr (.inr ⟨source, rest, hrunning, (Option.some.inj h).symm⟩)
    · cases h

theorem map_fst_set {running : List (ImageSource × Bool)} {i : ℕ} {source : ImageSource}
    (h : running[i]? = some (source, false)) :
    (running.set i (source, true)).map Prod.fst = running.map Prod.fst := by
  have hfst : (running.map Prod.fst)[i]? = some source := by
    rw [List.getElem?_map, h, Option.map_some]
  obtain ⟨hi, hvalue⟩ := List.getElem?_eq_some_iff.mp hfst
  rw [List.map_set]
  exact (congrArg _ hvalue.symm).trans (List.set_getElem_self hi)

theorem step_collected (h : step chunkSize s a = some t) :
    t.buffers ++ t.remaining.map ImageSource.buffer = s.buffers ++
      s.remaining.map ImageSource.buffer := by
  rcases step_cases h with ⟨source, rest, hwaiting, -, rfl⟩ | ⟨i, source, hrunning, rfl⟩ | ⟨source,
    rest, hrunning, rfl⟩
  · simp [Reading.remaining, hwaiting]
  · rw [Reading.remaining, Reading.remaining, map_fst_set hrunning]
  · simp [Reading.remaining, hrunning]

theorem reachable_collected {sources : List ImageSource}
    (h : Reachable (imageSystem chunkSize sources) s) :
    s.buffers ++ s.remaining.map ImageSource.buffer = sources.map ImageSource.buffer := by
  apply h.invariant fun s =>
    s.buffers ++ s.remaining.map ImageSource.buffer = sources.map ImageSource.buffer
  · rintro s rfl
    rfl
  · rintro s t hs ⟨a, -, hstep⟩
    exact (step_collected hstep).trans hs

theorem buffers_of_done {sources : List ImageSource}
    (h : Reachable (imageSystem chunkSize sources) s) (hdone : s.Done) :
    s.buffers = sources.map ImageSource.buffer := by
  have hall := reachable_collected h
  rw [Reading.remaining, hdone.1, hdone.2] at hall
  simpa using hall

def Reading.work (s : Reading) : ℕ :=
  3 * s.waiting.length + (s.running.map fun r => if r.2 then 1 else 2).sum

theorem sum_set_finished {running : List (ImageSource × Bool)} {i : ℕ} {source : ImageSource}
    (h : running[i]? = some (source, false)) :
    ((running.set i (source, true)).map fun r => if r.2 then 1 else 2).sum + 1 =
      (running.map fun r => if r.2 then 1 else 2).sum := by
  induction running generalizing i with
  | nil => cases h
  | cons r running ih =>
    cases i with
    | zero =>
      cases h
      simp only [List.set_cons_zero, List.map_cons, List.sum_cons]
      simp only [if_true, Bool.false_eq_true, if_false]
      omega
    | succ i =>
      have hrest := ih h
      simp only [List.set_cons_succ, List.map_cons, List.sum_cons] at hrest ⊢
      omega

theorem step_work (h : step chunkSize s a = some t) : t.work < s.work := by
  rcases step_cases h with ⟨source, rest, hwaiting, -, rfl⟩ | ⟨i, source, hrunning, rfl⟩ | ⟨source,
    rest, hrunning, rfl⟩
  · simp [Reading.work, hwaiting]
    omega
  · have hsum := sum_set_finished hrunning
    simp only [Reading.work]
    omega
  · simp [Reading.work, hrunning]

theorem exists_step (hchunk : 0 < chunkSize) (hdone : ¬ s.Done) :
    ∃ a t, step chunkSize s a = some t := by
  cases hrunning : s.running with
  | cons r running =>
    obtain ⟨source, finished⟩ := r
    cases finished with
    | true => exact ⟨.next, _, by rw [step, hrunning]⟩
    | false =>
      refine ⟨.finish 0, ⟨s.waiting, (source, true) :: running, s.buffers⟩, ?_⟩
      simp only [step, hrunning, List.getElem?_cons_zero, List.set_cons_zero]
  | nil =>
    cases hwaiting : s.waiting with
    | nil => exact absurd ⟨hwaiting, hrunning⟩ hdone
    | cons source rest =>
      refine ⟨.start, ⟨rest, [(source, false)], s.buffers⟩, ?_⟩
      simp only [step, hwaiting, hrunning, List.length_nil, if_pos hchunk, List.nil_append]

theorem exists_done (hchunk : 0 < chunkSize) :
    ∃ as t, runActions (step chunkSize) s as = some t ∧ t.Done := by
  induction hwork : s.work using Nat.strong_induction_on generalizing s with
  | _ n ih =>
    by_cases hdone : s.Done
    · exact ⟨[], s, rfl, hdone⟩
    · obtain ⟨a, t, hstep⟩ := exists_step hchunk hdone
      obtain ⟨as, u, hrun, hu⟩ := ih t.work (hwork ▸ step_work hstep) rfl
      exact ⟨a :: as, u, Option.bind_eq_some_iff.mpr ⟨t, hstep, hrun⟩, hu⟩

end Steps

inductive Failure where
  | bailed (message : String)
  | panicked (message : String)
  deriving DecidableEq, Repr

structure Encoder (F : Type) where
  processImage : List Buffer → Except String (EmbeddingResult (List F))
  outputDims : ℕ

section Visual
variable {F : Type}

def mapBack (embeddings : List (List F)) (invalidVec : List F) : ℕ → List Buffer →
      Except Failure (List (List F))
  | _, [] => .ok []
  | idx, el :: rest =>
    if el.length = 0 then (mapBack embeddings invalidVec idx rest).map (invalidVec :: ·)
    else
      match embeddings[idx]? with
      | some vec => (mapBack embeddings invalidVec (idx + 1) rest).map (vec :: ·)
      | none => .error (.panicked "index out of bounds")

def filteredBuffers (buffers : List Buffer) : List Buffer := buffers.filter fun b => 0 < b.length

def modelResult (encoder : Encoder F) (buffers : List Buffer) :
    Except Failure (EmbeddingResult (List F)) :=
  if 0 < (filteredBuffers buffers).length then
    (encoder.processImage (filteredBuffers buffers)).mapError fun err =>
      .bailed ("Error happened while generating image embeddings " ++ err)
  else .ok ⟨0, []⟩

variable [One F] [Neg F]

def processVisual (encoder : Encoder F) (buffers : List Buffer) :
    Except Failure (EmbeddingResult (List F)) :=
  (modelResult encoder buffers).bind fun result =>
    (mapBack result.embeddings (List.replicate encoder.outputDims (-1)) 0 buffers).map
      fun vectors =>
      ⟨result.processedTokens, vectors⟩

def OwnVector (embeds : Buffer → List F → Prop) (outputDims : ℕ) (buffer : Buffer)
    (vector : List F) : Prop :=
  if buffer = [] then vector = List.replicate outputDims (-1) else embeds buffer vector

theorem mapBack_own {embeds : Buffer → List F → Prop} {embeddings : List (List F)}
    {buffers : List Buffer} {idx : ℕ} (outputDims : ℕ)
    (h : List.Forall₂ embeds (filteredBuffers buffers) (embeddings.drop idx)) :
    ∃ vectors, mapBack embeddings (List.replicate outputDims (-1)) idx buffers = .ok vectors ∧
      List.Forall₂ (OwnVector embeds outputDims) buffers vectors := by
  induction buffers generalizing idx with
  | nil => exact ⟨[], rfl, .nil⟩
  | cons el rest ih =>
    rw [mapBack]
    split_ifs with hel
    · have hempty : el = [] := List.length_eq_zero_iff.mp hel
      rw [filteredBuffers, List.filter_cons_of_neg (by simp [hempty])] at h
      obtain ⟨vectors, hvectors, hown⟩ := ih h
      refine ⟨_, by rw [hvectors]; rfl, .cons ?_ hown⟩
      rw [OwnVector, if_pos hempty]
    · have hsome : el ≠ [] := fun hempty => hel (by rw [hempty]; rfl)
      rw [filteredBuffers,
        List.filter_cons_of_pos (by simpa using List.length_pos_iff.mpr hsome)] at h
      obtain ⟨vec, tail, hvec, htail, hdrop⟩ := List.forall₂_cons_left_iff.mp h
      have hget : embeddings[idx]? = some vec := by rw [← List.head?_drop, hdrop, List.head?_cons]
      have hrest :
          embeddings.drop (idx + 1) = tail := by rw [← List.tail_drop, hdrop, List.tail_cons]
      obtain ⟨vectors, hvectors, hown⟩ := ih (hrest ▸ htail)
      refine ⟨vec :: vectors, ?_, .cons ?_ hown⟩
      · rw [hget]
        change (mapBack embeddings _ (idx + 1) rest).map _ = _
        rw [hvectors]
        rfl
      · rw [OwnVector, if_neg hsome]
        exact hvec

theorem processVisual_own {encoder : Encoder F} {embeds : Buffer → List F → Prop}
    (buffers : List Buffer) (hmodel : ∀ images, images ≠ [] →
      ∃ result, encoder.processImage images = .ok result ∧
        List.Forall₂ embeds images result.embeddings) :
    ∃ result, processVisual encoder buffers = .ok result ∧
      List.Forall₂ (OwnVector embeds encoder.outputDims) buffers result.embeddings := by
  have hresult : ∃ result, modelResult encoder buffers = .ok result ∧
      List.Forall₂ embeds (filteredBuffers buffers) result.embeddings := by
    rw [modelResult]
    split_ifs with hsome
    · obtain ⟨result, hok, hembeds⟩ :=
        hmodel (filteredBuffers buffers) (List.length_pos_iff.mp hsome)
      exact ⟨result, by rw [hok]; rfl, hembeds⟩
    · have hnone : filteredBuffers buffers = [] :=
        List.length_eq_zero_iff.mp (Nat.eq_zero_of_not_pos hsome)
      exact ⟨⟨0, []⟩, rfl, hnone ▸ .nil⟩
  obtain ⟨result, hok, hembeds⟩ := hresult
  obtain ⟨vectors, hvectors, hown⟩ :=
    @mapBack_own F _ _ embeds result.embeddings buffers 0 encoder.outputDims hembeds
  refine ⟨⟨result.processedTokens, vectors⟩, ?_, hown⟩
  rw [processVisual, hok]
  change (mapBack _ _ 0 buffers).map _ = _
  rw [hvectors]
  rfl

/-- However the reading of the images is scheduled: it can always be finished, and not
    after more steps than `work` counts. If the model gives one embedding for each image
    it is given, in order, then the result at the end has for each input, in order, the
    embedding of its own image if that was read, and -1 everywhere if not. -/
theorem images_own_vectors (sources : List ImageSource) (chunkSize : ℕ) {s : Reading}
    (hs : Reachable (imageSystem chunkSize sources) s) (encoder : Encoder F)
    (embeds : Buffer → List F → Prop) (hmodel : ∀ images, images ≠ [] →
      ∃ result, encoder.processImage images = .ok result ∧
        List.Forall₂ embeds images result.embeddings) :
    (0 < chunkSize → ∃ as t, runActions (step chunkSize) s as = some t ∧ t.Done) ∧
    (∀ as t, runActions (step chunkSize) s as = some t → as.length ≤ s.work) ∧
    (s.Done → ∃ result, processVisual encoder s.buffers = .ok result ∧
      List.Forall₂
        (fun source vector => OwnVector embeds encoder.outputDims source.buffer vector) sources
        result.embeddings) := by
  refine ⟨exists_done, fun as t => runActions_length_le Reading.work fun _ _ _ =>
    step_work, fun hdone => ?_⟩
  obtain ⟨result, hok, hown⟩ := processVisual_own s.buffers hmodel
  refine ⟨result, hok, ?_⟩
  rw [buffers_of_done hs hdone] at hown
  exact List.forall₂_map_left_iff.mp hown

end Visual

def fileSource (name : String) (bytes : Buffer) : ImageSource :=
  ⟨name, false, true, .error "not a URL", .ok bytes⟩

def lostSource : ImageSource := ⟨"https://lost", true, false, .error "404", .error "no file"⟩

def firstByte : Encoder ℤ :=
  ⟨fun images => .ok ⟨images.length, images.map fun image => [(image.headD 0).toNat]⟩, 1⟩

theorem threeImages_own_vectors :
    ∃ result, processVisual firstByte [[7], [], [9]] = .ok result ∧
      List.Forall₂
        (fun source vector =>
          OwnVector (fun image v => v = [((image.headD 0).toNat : ℤ)]) 1 source.buffer vector)
        [fileSource "/a" [7], lostSource, fileSource "/b" [9]] result.embeddings := by
  have hrun : runActions (step 2) ⟨[fileSource "/a" [7], lostSource, fileSource "/b" [9]], [], []⟩
      [.start, .start, .finish 0, .next, .start, .finish 1, .finish 0, .next, .next] =
        some ⟨[], [], [[7], [], [9]]⟩ := rfl
  refine (images_own_vectors _ 2 (reachable_runActions (.start rfl)
    (fun _ _ _ => trivial) hrun) firstByte _ ?_).2.2
    ⟨rfl, rfl⟩
  intro images _
  exact ⟨_, rfl, List.forall₂_map_right_iff.mpr (List.forall₂_same.mpr fun _ _ => rfl)⟩

end Lantern.ImageEmbeddings
