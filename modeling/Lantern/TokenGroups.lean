import Mathlib.Data.List.Chain
import Mathlib.Algebra.BigOperators.Group.List.Basic
import Lantern.CharText
import Lantern.Fallible

set_option autoImplicit false

/-!
# Requests of the OpenAI runtime

The texts are cut into tokens, each list of tokens is truncated to what the model takes,
and the lists go out in groups that together have no more tokens than that. A group is
closed when the next list does not fit. The answers of the requests are put together in
the order in which the requests were made.
-/
namespace Lantern.TokenGroups
open CharText Fallible

variable {Token Emb : Type}

structure Grouping (Token : Type) where
  result : List (List (List Token))
  currentGroup : List (List Token)
  currentGroupTokenCount : ℕ

def Grouping.push (maxTokenCount : ℕ) (s : Grouping Token) (innerVec : List Token) :
    Grouping Token :=
  if s.currentGroupTokenCount + innerVec.length ≤ maxTokenCount then
    { s with
      currentGroup := s.currentGroup ++ [innerVec]
      currentGroupTokenCount := s.currentGroupTokenCount + innerVec.length }
  else ⟨s.result ++ [s.currentGroup], [innerVec], innerVec.length⟩

def groupVectorsByTokenCount (input : List (List Token)) (maxTokenCount : ℕ) :
    List (List (List Token)) :=
  let s := input.foldl (Grouping.push maxTokenCount) ⟨[], [], 0⟩
  if s.currentGroup = [] then s.result else s.result ++ [s.currentGroup]

def tokenCount (group : List (List Token)) : ℕ := (group.map List.length).sum

def Full (maxTokenCount : ℕ) (group next : List (List Token)) : Prop :=
  ∀ first ∈ next.head?, maxTokenCount < tokenCount group + first.length

structure Grouped (maxTokenCount : ℕ) (input : List (List Token))
    (groups : List (List (List Token))) : Prop where
  flatten : groups.flatten = input
  nonempty : [] ∉ groups
  fits : ∀ group ∈ groups, tokenCount group ≤ maxTokenCount
  full : groups.IsChain (Full maxTokenCount)

/-- The state of the loop after it has seen some of the lists. The group that is being
    filled is empty only at the start. -/
structure Filling (maxTokenCount : ℕ) (seen : List (List Token)) (s : Grouping Token) : Prop where
  flatten : s.result.flatten ++ s.currentGroup = seen
  count : s.currentGroupTokenCount = tokenCount s.currentGroup
  nonempty : [] ∉ s.result
  started : s.currentGroup = [] → s.result = []
  fits : ∀ group ∈ s.result ++ [s.currentGroup], tokenCount group ≤ maxTokenCount
  full : (s.result ++ [s.currentGroup]).IsChain (Full maxTokenCount)

section Loop
variable {maxTokenCount : ℕ} {seen : List (List Token)} {s : Grouping Token} {innerVec : List Token}

theorem tokenCount_concat (group : List (List Token)) (innerVec : List Token) :
    tokenCount (group ++ [innerVec]) = tokenCount group + innerVec.length := by
  simp [tokenCount]

theorem filling_start : Filling maxTokenCount ([] : List (List Token)) ⟨[], [], 0⟩ := by
  refine ⟨rfl, rfl, List.not_mem_nil, fun _ => rfl, ?_, List.isChain_singleton _⟩
  intro group hgroup
  rw [List.mem_singleton.mp hgroup]
  exact Nat.zero_le _

theorem Filling.push_fitting (h : Filling maxTokenCount seen s)
    (hfit : s.currentGroupTokenCount + innerVec.length ≤ maxTokenCount) :
    Filling maxTokenCount (seen ++ [innerVec])
      ⟨s.result, s.currentGroup ++ [innerVec], s.currentGroupTokenCount + innerVec.length⟩ := by
  refine ⟨?_, ?_, h.nonempty, fun hempty => absurd hempty (by simp), ?_, ?_⟩
  · rw [← h.flatten, List.append_assoc]
  · rw [tokenCount_concat, h.count]
  · intro group hgroup
    rcases List.mem_append.mp hgroup with hgroup | hgroup
    · exact h.fits group (List.mem_append_left _ hgroup)
    · rw [List.mem_singleton.mp hgroup, tokenCount_concat, ← h.count]
      exact hfit
  · -- The head of the last group changes only if that group was empty, and then it is the only one.
    obtain ⟨hresult, -, hlast⟩ := List.isChain_append.mp h.full
    refine List.isChain_append.mpr ⟨hresult, List.isChain_singleton _, ?_⟩
    intro group hgroup next hnext first hfirst
    have hsome : s.currentGroup ≠ [] := by
      intro hempty
      rw [h.started hempty] at hgroup
      cases hgroup
    cases hnext
    refine hlast group hgroup _ rfl first ?_
    rw [List.head?_append_of_ne_nil _ hsome] at hfirst
    exact hfirst

theorem Filling.push_closing (h : Filling maxTokenCount seen s)
    (hinner : innerVec.length ≤ maxTokenCount)
    (hfit : ¬ s.currentGroupTokenCount + innerVec.length ≤ maxTokenCount) :
    Filling maxTokenCount
      (seen ++ [innerVec]) ⟨s.result ++ [s.currentGroup], [innerVec], innerVec.length⟩ := by
  have hsome : s.currentGroup ≠ [] := by
    intro hempty
    have hzero : s.currentGroupTokenCount = 0 := by rw [h.count, hempty]; rfl
    omega
  refine ⟨?_, ?_, ?_, fun hempty => absurd hempty (by simp), ?_, ?_⟩
  · rw [← h.flatten]
    simp
  · simp [tokenCount]
  · intro hmem
    rcases List.mem_append.mp hmem with hmem | hmem
    · exact h.nonempty hmem
    · exact hsome (List.mem_singleton.mp hmem).symm
  · intro group hgroup
    rcases List.mem_append.mp hgroup with hgroup | hgroup
    · exact h.fits group hgroup
    · rw [List.mem_singleton.mp hgroup]
      simpa [tokenCount] using hinner
  · refine List.isChain_append.mpr ⟨h.full, List.isChain_singleton _, ?_⟩
    intro group hgroup next hnext first hfirst
    rw [List.getLast?_concat] at hgroup
    cases hgroup
    cases hnext
    cases hfirst
    rw [← h.count]
    omega

theorem Filling.push (h : Filling maxTokenCount seen s) (hinner : innerVec.length ≤ maxTokenCount) :
    Filling maxTokenCount (seen ++ [innerVec]) (s.push maxTokenCount innerVec) := by
  rw [Grouping.push]
  split_ifs with hfit
  · exact h.push_fitting hfit
  · exact h.push_closing hinner hfit

theorem Filling.foldl (h : Filling maxTokenCount seen s) {input : List (List Token)}
    (hinput : ∀ innerVec ∈ input, innerVec.length ≤ maxTokenCount) :
    Filling maxTokenCount (seen ++ input) (input.foldl (Grouping.push maxTokenCount) s) := by
  induction input generalizing seen s with
  | nil => simpa using h
  | cons innerVec input ih =>
    obtain ⟨hinner, hrest⟩ := List.forall_mem_cons.mp hinput
    have hnext := ih (h.push hinner) hrest
    rwa [List.append_assoc, List.singleton_append] at hnext

end Loop

theorem grouped_of_fitting {maxTokenCount : ℕ} {input : List (List Token)}
    (hinput : ∀ innerVec ∈ input, innerVec.length ≤ maxTokenCount) :
    Grouped maxTokenCount input (groupVectorsByTokenCount input maxTokenCount) := by
  have h := filling_start.foldl hinput
  rw [List.nil_append] at h
  rw [groupVectorsByTokenCount]
  generalize input.foldl (Grouping.push maxTokenCount) ⟨[], [], 0⟩ = s at h
  split_ifs with hempty
  · refine ⟨?_, h.nonempty, fun group hgroup => h.fits group (List.mem_append_left _ hgroup),
      h.full.left_of_append⟩
    rw [← h.flatten, hempty, List.append_nil]
  · refine ⟨?_, ?_, h.fits, h.full⟩
    · rw [← h.flatten]
      simp
    · intro hmem
      rcases List.mem_append.mp hmem with hmem | hmem
      · exact h.nonempty hmem
      · exact hempty (List.mem_singleton.mp hmem).symm

structure ModelInfo where
  name : String
  sequenceLen : ℕ
  dimensions : ℕ
  varDimension : Bool
  deriving DecidableEq, Repr

inductive OpenAiDeployment where
  | azure
  | openAi
  | custom
  deriving DecidableEq, Repr

structure OpenAiRuntime where
  deploymentType : OpenAiDeployment
  dimensions : Option ℕ
  deriving DecidableEq, Repr

inductive Input (Token : Type) where
  | texts (inputs : List Text)
  | tokens (tokenGroup : List (List Token))

structure RequestBody (Token : Type) where
  input : Input Token
  model : String
  dimensions : Option ℕ

def truncate (sequenceLen : ℕ) (tokens : List Token) : List Token :=
  if sequenceLen < tokens.length then tokens.take sequenceLen else tokens

def OpenAiRuntime.tokenRequest (runtime : OpenAiRuntime) (info : ModelInfo)
    (tokenGroup : List (List Token)) :
    RequestBody Token :=
  ⟨.tokens tokenGroup, info.name, if info.varDimension then runtime.dimensions else none⟩

def tokenGroups (info : ModelInfo) (inputs : List (List Token)) : List (List (List Token)) :=
  groupVectorsByTokenCount (inputs.map (truncate info.sequenceLen)) info.sequenceLen

inductive Attempt (Answer : Type) where
  | sendFailed (error : String)
  | bodyFailed (error : String)
  | received (response : Except String Answer)

def retry {Answer : Type} (maxRetries : ℕ) (attempt : ℕ → Attempt Answer) : ℕ → ℕ → String →
      Except String Answer
  | 0, _, lastError =>
    .error ("All " ++ toString maxRetries ++ " requests failed. Last error was: " ++ lastError)
  | n + 1, i, _ =>
    match attempt i with
    | .sendFailed error => retry maxRetries attempt n (i + 1) error
    | .bodyFailed error => .error error
    | .received (.error error) => retry maxRetries attempt n (i + 1) error
    | .received (.ok answer) => .ok answer

def postWithRetries {Answer : Type} (maxRetries : ℕ) (attempt : ℕ → Attempt Answer) :
    Except String Answer :=
  retry maxRetries attempt maxRetries 0 ""

structure EmbeddingResult (Emb : Type) where
  processedTokens : ℕ
  embeddings : List Emb
  deriving DecidableEq, Repr

def EmbeddingResult.extend (responses answer : EmbeddingResult Emb) : EmbeddingResult Emb :=
  ⟨responses.processedTokens + answer.processedTokens, responses.embeddings ++ answer.embeddings⟩

def postRequests (service : RequestBody Token → ℕ → Attempt (EmbeddingResult Emb))
    (bodies : List (RequestBody Token)) :
    Except String (EmbeddingResult Emb) :=
  bodies.foldlM (fun responses body =>
    (postWithRetries 5 (service body)).map responses.extend) ⟨0, []⟩

theorem length_truncate (sequenceLen : ℕ) (tokens : List Token) :
    (truncate sequenceLen tokens).length ≤ sequenceLen := by
  rw [truncate]
  split_ifs with h
  · exact List.length_take_le _ _
  · exact Nat.le_of_not_lt h

theorem grouped_tokenGroups (info : ModelInfo) (inputs : List (List Token)) :
    Grouped info.sequenceLen (inputs.map (truncate info.sequenceLen))
      (tokenGroups info inputs) := by
  apply grouped_of_fitting
  intro innerVec hmem
  obtain ⟨tokens, -, rfl⟩ := List.mem_map.mp hmem
  exact length_truncate _ tokens

section Answers
variable {runtime : OpenAiRuntime} {info : ModelInfo} {service : RequestBody Token → ℕ →
  Attempt (EmbeddingResult Emb)}
  {embed : List Token → Emb}

/-- The request for a group is answered, in one of the attempts, with one embedding for
    each of its lists, in their order. -/
def Answered (runtime : OpenAiRuntime) (info : ModelInfo)
    (service : RequestBody Token → ℕ → Attempt (EmbeddingResult Emb)) (embed : List Token → Emb)
    (group : List (List Token)) : Prop :=
  ∃ used, postWithRetries 5 (service (runtime.tokenRequest info group)) =
    .ok ⟨used, group.map embed⟩

theorem foldlM_answered {groups : List (List (List Token))}
    (h : ∀ group ∈ groups, Answered runtime info service embed group)
    (responses : EmbeddingResult Emb) :
    ∃ used, (groups.map (runtime.tokenRequest info)).foldlM
        (fun responses body => (postWithRetries 5 (service body)).map responses.extend) responses =
      .ok ⟨used, responses.embeddings ++ groups.flatten.map embed⟩ := by
  induction groups generalizing responses with
  | nil => exact ⟨responses.processedTokens, by simp; rfl⟩
  | cons group groups ih =>
    obtain ⟨⟨used, hanswer⟩, hrest⟩ := List.forall_mem_cons.mp h
    obtain ⟨total, htotal⟩ := ih hrest (responses.extend ⟨used, group.map embed⟩)
    refine ⟨total, ?_⟩
    rw [List.map_cons, List.foldlM_cons, hanswer]
    change List.foldlM _ (responses.extend ⟨used, group.map embed⟩) _ = _
    rw [htotal, EmbeddingResult.extend, List.flatten_cons, List.map_append, List.append_assoc]

end Answers

/-- The groups of any list of tokenized inputs are full but not over-full and keep the
    order, and if every request is answered for its group, then the result is one
    embedding for each input in the order of the inputs. -/
theorem tokenGroups_answered (runtime : OpenAiRuntime) (info : ModelInfo)
    (inputs : List (List Token)) (service : RequestBody Token → ℕ → Attempt (EmbeddingResult Emb))
    (embed : List Token → Emb) :
    Grouped info.sequenceLen (inputs.map (truncate info.sequenceLen)) (tokenGroups info inputs) ∧
      ((∀ group ∈ tokenGroups info inputs, Answered runtime info service embed group) →
        ∃ used, postRequests service ((tokenGroups info inputs).map (runtime.tokenRequest info)) =
          .ok ⟨used, inputs.map fun tokens => embed (truncate info.sequenceLen tokens)⟩) := by
  have hgrouped := grouped_tokenGroups info inputs
  refine ⟨hgrouped, fun hanswers => ?_⟩
  obtain ⟨used, hused⟩ := foldlM_answered hanswers ⟨0, []⟩
  refine ⟨used, ?_⟩
  rw [postRequests, hused, hgrouped.flatten, List.nil_append, List.map_map]
  rfl

def threeTokens : ModelInfo := ⟨"three", 3, 1, false⟩

def countingService (body : RequestBody ℕ) (i : ℕ) : Attempt (EmbeddingResult ℕ) :=
  match i, body.input with
  | 0, _ => .sendFailed "connection reset"
  | _, .tokens group => .received (.ok ⟨tokenCount group, group.map List.length⟩)
  | _, .texts _ => .received (.error "expected tokens")

theorem threeTokens_answered :
    tokenGroups threeTokens [[1, 2], [3], [4, 5, 6, 7]] = [[[1, 2], [3]], [[4, 5, 6]]] ∧
      ∃ used, postRequests countingService
        ((tokenGroups threeTokens [[1, 2], [3], [4, 5, 6, 7]]).map
        (OpenAiRuntime.tokenRequest ⟨.openAi, none⟩ threeTokens)) = .ok ⟨used, [2, 1, 3]⟩ :=
  ⟨by decide, (tokenGroups_answered ⟨.openAi, none⟩ threeTokens _ countingService List.length).2
    fun _ _ => ⟨_, rfl⟩⟩

end Lantern.TokenGroups
