import Lantern.StoreIndex
import Lantern.SystemRuns

set_option autoImplicit false

/-!
# What the store does with any bytes

The loop of `storeExternalIndexNodes` takes whatever stands in its buffer for nodes. The
bytes at hand start with a node that is stored, with one that is refused with an error,
or with one whose copy runs past a buffer.
-/
namespace Lantern.StoreVisits
open FuelLoop SystemRuns ByteStrings NodeLayout PageLayout IndexRelation PageChain
  StoreNodes StoreIndex

section Nodes
variable {md : Metadata} {dim : ℕ} {data : List UInt8}

structure Accepted (md : Metadata) (dim : ℕ) (node : List UInt8) : Prop extends
    Storable md dim node where
  level_lt : levelFromNode node < 100

/-- The node at hand is refused: its level is too large, or it fits the staging
    buffer and no page. -/
def Raises (md : Metadata) (dim : ℕ) (data : List UInt8) : Prop :=
  nodeHeadBytes ≤ data.length ∧ (100 ≤ levelFromNode data ∨
    nodeTupleSize data dim md ≤ data.length ∧
      sizeofHnswIndexTuple + nodeTupleSize data dim md ≤ BLCKSZ ∧
      ¬ FitsFreshPage (nodeTupleSize data dim md))

/-- The node at hand is not all in the buffer, or too large for the staging buffer. -/
def Overruns (md : Metadata) (dim : ℕ) (data : List UInt8) : Prop :=
  data.length < nodeHeadBytes ∨ levelFromNode data < 100 ∧
    (BLCKSZ < sizeofHnswIndexTuple + nodeTupleSize data dim md ∨
      data.length < nodeTupleSize data dim md)

end Nodes

variable {tuple : HnswIndexTuple} {t : StoreState} {l : StoreLoop}

section Visits
variable {md : Metadata} {dim room bufferSize w : ℕ} {data node rest : List UInt8} {s : StoreState}

theorem storeNode_headed (hhead : nodeHeadBytes ≤ data.length) (s : StoreState) :
    storeNode md dim data s = (preparePage (nodeTupleSize data dim md) s).bind fun u =>
      if 100 ≤ levelFromNode data then .fault (levelTooLarge u.nodeId (levelFromNode data))
      else (stageNode data (nodeTupleSize data dim md)).bind fun node =>
        putNode ⟨u.nodeId, nodeTupleSize data dim md, node⟩ u :=
  if_neg (by omega)

def PageInHand (s : StoreState) : Prop :=
  s.lastBlock ≠ InvalidBlockNumber → (getPage s.pages s.lastBlock).pdSpecial = dataPageSpecial

def created (s : StoreState) : StoreState :=
  { s with
    pages := setPage (linkedPages s ++ [zeroPage]) (s.pages.length + 1) (freshPage s.nodeId)
    buf := some (s.pages.length + 1)
    lastBlock := s.pages.length + 1
    forceCreatePage := false }

theorem created_length (s : StoreState) : (created s).pages.length = s.pages.length + 1 := by
  simp [created]

theorem created_page (s : StoreState) :
    getPage (created s).pages (s.pages.length + 1) = freshPage s.nodeId :=
  getPage_setPage_self (Nat.succ_pos _) (by simp) _

theorem Ready.created (s : StoreState) (hlen : s.pages.length + 1 < InvalidBlockNumber) :
    Ready (StoreVisits.created s) where
  buf_eq := (if_neg (ne_of_lt hlen)).symm
  forced := fun h => absurd h (ne_of_lt hlen)
  in_range := fun _ => ⟨Nat.succ_pos _, (created_length s).ge⟩

theorem PageInHand.created (s : StoreState) : PageInHand (StoreVisits.created s) := by
  intro _
  exact congrArg Page.pdSpecial (created_page s)

def noBlockLeft : Fault := .elog "cannot extend relation beyond 4294967295 blocks"

theorem createPage_cases (hs : Ready s) :
    InvalidBlockNumber ≤ s.pages.length + 1 ∧ createPage s = .fault noBlockLeft ∨
      s.pages.length + 1 < InvalidBlockNumber ∧ createPage s = .done (created s) := by
  rw [createPage_eq hs.buf_le]
  split_ifs with hlen
  · exact .inr ⟨hlen, rfl⟩
  · exact .inl ⟨Nat.le_of_not_lt hlen, rfl⟩

theorem preparePage_cases (hs : Ready s) (nodeSize : ℕ) :
    (InvalidBlockNumber ≤ s.pages.length + 1 ∧ preparePage nodeSize s = .fault noBlockLeft) ∨
      (s.forceCreatePage = false ∧ preparePage nodeSize s = .done s) ∨
      s.pages.length + 1 < InvalidBlockNumber ∧ preparePage nodeSize s = .done (created s) := by
  unfold preparePage
  split_ifs with h
  · rcases createPage_cases hs with hc | hc
    · exact .inl hc
    · exact .inr (.inr hc)
  · exact .inr (.inl ⟨by simpa using (not_or.mp h).1, rfl⟩)

theorem pageAddItem_unfit {p : Page} (hp : p.pdSpecial = dataPageSpecial)
    (hfits : ¬ FitsFreshPage tuple.node.length) : pageAddItem p tuple = none := by
  unfold pageAddItem
  rw [if_neg]
  intro hroom
  apply hfits
  have hlower : pdLower p = sizeOfPageHeaderData + sizeofItemIdData * p.items.length :=
    if_neg (by rw [hp]; decide)
  have hupper : pdUpper p ≤ dataPageSpecial := by
    rw [pdUpper, hp]
    exact Nat.sub_le _ _
  have hspecial : dataPageSpecial = BLCKSZ - maxAlign sizeofHnswIndexPageSpecialBlock := rfl
  rw [hlower, itemSpace] at hroom
  rw [FitsFreshPage, ← hspecial]
  omega

theorem putNode_unfit (hs : Ready s) (hforce : s.forceCreatePage = false) (hp : PageInHand s)
    (hfits : ¬ FitsFreshPage tuple.node.length) :
    putNode tuple s = .done { s with forceCreatePage := true } := by
  have hl : s.lastBlock ≠ InvalidBlockNumber := by
    intro hl
    rw [hs.forced hl] at hforce
    cases hforce
  have hb : s.buf = some s.lastBlock := by rw [hs.buf_eq, if_neg hl]
  exact putNode_none hb (pageAddItem_unfit (hp hl) hfits)

abbrev EndsWith (md : Metadata) (dim room bufferSize : ℕ) (data : List UInt8) (l : StoreLoop)
    (r : Outcome Fault StoreLoop) : Prop :=
  Ends (fun l => decide (l.bytesWritten < bufferSize)) (storePass md dim room data) l r

def storeLoop (md : Metadata) (dim room bufferSize : ℕ) (data : List UInt8) (start : StoreState) :
    System StoreLoop where
  init := fun l => l = ⟨start, 0⟩
  step := fun l l' => l.bytesWritten < bufferSize ∧ storePass md dim room data l = .done l'

def Leads (md : Metadata) (dim room bufferSize : ℕ) (data : List UInt8) : StoreLoop →
      StoreLoop → Prop :=
  Relation.ReflTransGen fun l l' =>
    l.bytesWritten < bufferSize ∧ storePass md dim room data l = .done l'

theorem Leads.ends {l' : StoreLoop} {r : Outcome Fault StoreLoop}
    (h : Leads md dim room bufferSize data l l') (hr : EndsWith md dim room bufferSize data l' r) :
    EndsWith md dim room bufferSize data l r := by
  induction h using Relation.ReflTransGen.head_induction_on with
  | refl => exact hr
  | head hstep _ ih => exact .next (by simpa using hstep.1) hstep.2 ih

theorem ends_fault (hw : w < bufferSize) {e : Fault}
    (h : storeNode md dim (data.drop w) s = .fault e) :
    EndsWith md dim room bufferSize data ⟨s, w⟩ (.fault e) :=
  .fault (by simpa using hw) (by rw [storePass, h, Outcome.bind_fault])

theorem storePass_levelTooLarge (hhead : nodeHeadBytes ≤ (data.drop w).length) (hs : Ready s)
    (hlevel : 100 ≤ levelFromNode (data.drop w)) :
    ∃ text, storePass md dim room data ⟨s, w⟩ = .fault (.elog text) := by
  simp only [storePass, storeNode_headed hhead, if_pos hlevel]
  rcases preparePage_cases hs (nodeTupleSize (data.drop w) dim md) with ⟨-, hp⟩ | ⟨-, hp⟩ | ⟨-, hp⟩
  · exact ⟨_, by rw [hp]; rfl⟩
  · exact ⟨_, by rw [hp]; rfl⟩
  · exact ⟨_, by rw [hp]; rfl⟩

theorem ends_levelTooLarge (hw : w < bufferSize) (hhead : nodeHeadBytes ≤ (data.drop w).length)
    (hs : Ready s) (hlevel : 100 ≤ levelFromNode (data.drop w)) :
    ∃ text, EndsWith md dim room bufferSize data ⟨s, w⟩ (.fault (.elog text)) := by
  obtain ⟨text, h⟩ := @storePass_levelTooLarge md dim room w data s hhead hs hlevel
  exact ⟨text, .fault (by simpa using hw) h⟩

/-- A copy to the staging buffer that fails is reached unless a page has to be added
    before and there is none. -/
theorem ends_staging {e : Fault} (hw : w < bufferSize)
    (hhead : nodeHeadBytes ≤ (data.drop w).length) (hs : Ready s)
    (hlevel : levelFromNode (data.drop w) < 100)
    (hstage : stageNode (data.drop w) (nodeTupleSize (data.drop w) dim md) = .fault e) :
    (InvalidBlockNumber ≤ s.pages.length + 1 ∧
        EndsWith md dim room bufferSize data ⟨s, w⟩ (.fault noBlockLeft)) ∨
      EndsWith md dim room bufferSize data ⟨s, w⟩ (.fault e) := by
  have heq := @storeNode_headed md dim _ hhead s
  have hl : ¬ 100 ≤ levelFromNode (data.drop w) := by omega
  rcases preparePage_cases hs (nodeTupleSize (data.drop w) dim md)
    with ⟨hfull, hp⟩ | ⟨-, hp⟩ | ⟨-, hp⟩
  · rw [hp, Outcome.bind_fault] at heq
    exact .inl ⟨hfull, ends_fault hw heq⟩
  · rw [hp, Outcome.bind_done, if_neg hl, hstage, Outcome.bind_fault] at heq
    exact .inr (ends_fault hw heq)
  · rw [hp, Outcome.bind_done, if_neg hl, hstage, Outcome.bind_fault] at heq
    exact .inr (ends_fault hw heq)

/-- One pass over a node that no page takes: a page may be added, and the next
    pass has to add one. -/
theorem storePass_unfit (hhead : nodeHeadBytes ≤ (data.drop w).length) (hs : Ready s)
    (hp : PageInHand s) (hlevel : levelFromNode (data.drop w) < 100)
    (hwhole : nodeTupleSize (data.drop w) dim md ≤ (data.drop w).length)
    (hsize : sizeofHnswIndexTuple + nodeTupleSize (data.drop w) dim md ≤ BLCKSZ)
    (hfits : ¬ FitsFreshPage (nodeTupleSize (data.drop w) dim md)) :
    storePass md dim room data ⟨s, w⟩ = .fault noBlockLeft ∨
      (s.forceCreatePage = false ∧
        storePass md dim room data ⟨s, w⟩ = .done ⟨{ s with forceCreatePage := true }, w⟩) ∨
      s.pages.length + 1 < InvalidBlockNumber ∧
        storePass md dim room data ⟨s, w⟩ =
          .done ⟨{ created s with forceCreatePage := true }, w⟩ := by
  have hl : ¬ 100 ≤ levelFromNode (data.drop w) := by omega
  have hstage : stageNode (data.drop w) (nodeTupleSize (data.drop w) dim md) =
      .done ((data.drop w).take (nodeTupleSize (data.drop w) dim md)) := by
    rw [stageNode, if_neg (by omega), if_neg (by omega)]
  have hput : ∀ u : StoreState, Ready u → u.forceCreatePage = false → PageInHand u →
      putNode ⟨u.nodeId, nodeTupleSize (data.drop w) dim md,
        (data.drop w).take (nodeTupleSize (data.drop w) dim md)⟩ u =
          .done { u with forceCreatePage := true } := by
    intro u hu hforce hpage
    exact putNode_unfit hu hforce hpage (by rwa [List.length_take_of_le hwhole])
  simp only [storePass, storeNode_headed hhead, hstage, Outcome.bind_done, if_neg hl]
  rcases preparePage_cases hs (nodeTupleSize (data.drop w) dim md)
    with ⟨-, hprep⟩ | ⟨hforce, hprep⟩ |
    ⟨hlen, hprep⟩
  · exact .inl (by rw [hprep]; rfl)
  · refine .inr (.inl ⟨hforce, ?_⟩)
    rw [hprep, Outcome.bind_done, hput s hs hforce hp]
    rfl
  · refine .inr (.inr ⟨hlen, ?_⟩)
    rw [hprep, Outcome.bind_done, hput _ (Ready.created s hlen) rfl (PageInHand.created s)]
    rfl

theorem ends_unfit (hw : w < bufferSize) (hhead : nodeHeadBytes ≤ (data.drop w).length)
    (hs : Ready s) (hp : PageInHand s) (hlevel : levelFromNode (data.drop w) < 100)
    (hwhole : nodeTupleSize (data.drop w) dim md ≤ (data.drop w).length)
    (hsize : sizeofHnswIndexTuple + nodeTupleSize (data.drop w) dim md ≤ BLCKSZ)
    (hfits : ¬ FitsFreshPage (nodeTupleSize (data.drop w) dim md)) :
    EndsWith md dim room bufferSize data ⟨s, w⟩ (.fault noBlockLeft) := by
  have hcond : decide (w < bufferSize) = true := by simpa using hw
  -- from a state that must add a page, by the number of blocks that are left
  have hforced : ∀ (k : ℕ) (s : StoreState), InvalidBlockNumber - s.pages.length ≤ k → Ready s →
      PageInHand s → s.forceCreatePage = true →
      EndsWith md dim room bufferSize data ⟨s, w⟩ (.fault noBlockLeft) := by
    intro k
    induction k with
    | zero =>
      intro s hk hs hp hforce
      rcases @storePass_unfit md dim room w data s hhead hs hp hlevel hwhole hsize hfits with
        h | ⟨hf, -⟩ | ⟨hlen, -⟩
      · exact .fault hcond h
      · rw [hf] at hforce
        cases hforce
      · omega
    | succ k ih =>
      intro s hk hs hp hforce
      rcases @storePass_unfit md dim room w data s hhead hs hp hlevel hwhole hsize hfits with
        h | ⟨hf, -⟩ | ⟨hlen, h⟩
      · exact .fault hcond h
      · rw [hf] at hforce
        cases hforce
      · have hless : InvalidBlockNumber - (created s).pages.length ≤ k := by
          rw [created_length]
          omega
        exact .next hcond h (ih _ hless (Ready.created s hlen).force (PageInHand.created s) rfl)
  rcases @storePass_unfit md dim room w data s hhead hs hp hlevel hwhole hsize hfits with
    h | ⟨-, h⟩ | ⟨hlen, h⟩
  · exact .fault hcond h
  · exact .next hcond h (hforced _ _ (le_refl _) hs.force hp rfl)
  · exact .next hcond h
      (hforced _ _ (le_refl _) (Ready.created s hlen).force (PageInHand.created s) rfl)

theorem ends_raises (hw : w < bufferSize) (hs : Ready s) (hp : PageInHand s)
    (h : Raises md dim (data.drop w)) :
    ∃ text, EndsWith md dim room bufferSize data ⟨s, w⟩ (.fault (.elog text)) := by
  by_cases hlevel : 100 ≤ levelFromNode (data.drop w)
  · exact ends_levelTooLarge hw h.1 hs hlevel
  · obtain ⟨hwhole, hsize, hfits⟩ := h.2.resolve_left hlevel
    exact ⟨_, ends_unfit hw h.1 hs hp (by omega) hwhole hsize hfits⟩

/-- A storable node takes the loop to the state with the node added, if
    `item_pointers` has an element for it, and makes it write past that array
    otherwise. -/
theorem visit_storable (hw : w < bufferSize) (hn : Storable md dim node)
    (hd : data.drop w = node ++ rest) (hs : Ready s) :
    (∀ t, addNode md dim s node = .done t →
      (t.nodeId ≤ room → Leads md dim room bufferSize data ⟨s, w⟩ ⟨t, w + node.length⟩) ∧
        (room < t.nodeId → EndsWith md dim room bufferSize data ⟨s, w⟩ (.fault .writePastBuffer))) ∧
      ∀ e, addNode md dim s node = .fault e →
        EndsWith md dim room bufferSize data ⟨s, w⟩ (.fault e) := by
  have hcond : decide (w < bufferSize) = true := by simpa using hw
  have hpass : ∀ s, storePass md dim room data ⟨s, w⟩ = _ := fun s => storePass_node hn hd
  have hstored : ∀ {u t : StoreState}, storeNode md dim node u = .done t →
      t.forceCreatePage ≠ true →
      (t.nodeId ≤ room → storePass md dim room data ⟨u, w⟩ = .done ⟨t, w + node.length⟩) ∧
        (room < t.nodeId → storePass md dim room data ⟨u, w⟩ = .fault .writePastBuffer) := by
    intro u t ht hforce
    rw [hpass, ht, Outcome.bind_done, if_neg hforce]
    exact ⟨fun hin => if_neg (by omega), fun hout => if_pos hout⟩
  rw [addNode]
  cases ht : storeNode md dim node s with
  | fault e =>
    refine ⟨fun t h => ?_, fun e' he => ?_⟩
    · cases h
    · cases he
      exact .fault hcond (by rw [hpass, ht, Outcome.bind_fault])
  | unfinished => exact ⟨fun t h => (by cases h), fun e h => (by cases h)⟩
  | done t =>
    rw [Outcome.bind_done]
    by_cases hforce : t.forceCreatePage = true
    · -- refused: one more pass, on a page of its own
      have hfirst : storePass md dim room data ⟨s, w⟩ = .done ⟨t, w⟩ := by
        rw [hpass, ht, Outcome.bind_done, if_pos hforce]
      have hready := storeNode_ready hn hs ht
      rw [if_pos hforce]
      refine ⟨fun u hu => ?_, fun e he => ?_⟩
      · have hnot : u.forceCreatePage ≠ true := by simp [storeNode_forced hn hready hforce hu]
        exact ⟨fun hin => .head ⟨hw, hfirst⟩ (.single ⟨hw, (hstored hu hnot).1 hin⟩),
          fun hout => .next hcond hfirst (.fault hcond ((hstored hu hnot).2 hout))⟩
      · exact .next hcond hfirst (.fault hcond (by rw [hpass, he, Outcome.bind_fault]))
    · rw [if_neg hforce]
      refine ⟨fun u hu => ?_, fun e he => (by cases he)⟩
      cases hu
      exact ⟨fun hin => .single ⟨hw, (hstored ht hforce).1 hin⟩,
        fun hout => .fault hcond ((hstored ht hforce).2 hout)⟩

theorem PageInHand.onNewPage (s : StoreState) (node : List UInt8) :
    PageInHand (StoreNodes.onNewPage s node) := by
  intro _
  have hget : getPage (StoreNodes.onNewPage s node).pages (s.pages.length + 1) =
      { freshPage s.nodeId with items := [⟨s.nodeId, node.length, node⟩] } :=
    getPage_setPage_self (Nat.succ_pos _) (by simp) _
  exact congrArg Page.pdSpecial hget

theorem PageInHand.recorded {b off : ℕ} {p : Page} (hp : PageInHand s) (hs : Ready s)
    (hb : s.buf = some b) (ha : pageAddItem (getPage s.pages b) tuple = some (p, off)) :
    PageInHand (StoreNodes.recorded s b off p) := by
  intro hl
  have hsl : s.lastBlock ≠ InvalidBlockNumber := hl
  obtain ⟨h1, h2⟩ := hs.in_range hsl
  have hbuf : b = s.lastBlock := by
    rw [hs.buf_eq, if_neg hsl] at hb
    exact (Option.some.inj hb).symm
  subst hbuf
  have hget : getPage (StoreNodes.recorded s s.lastBlock off p).pages s.lastBlock = p :=
    getPage_setPage_self h1 h2 p
  change (getPage (StoreNodes.recorded s s.lastBlock off p).pages s.lastBlock).pdSpecial = _
  rw [hget, (pageAddItem_eq_some ha).1]
  exact hp hsl

theorem addNode_page (hn : Storable md dim node) (hs : Ready s) (hp : PageInHand s)
    (h : addNode md dim s node = .done t) : PageInHand t := by
  rcases addNode_done hn hs h with ⟨-, rfl⟩ | ⟨b, p, off, hb, -, ha, rfl⟩
  · exact .onNewPage s node
  · exact hp.recorded hs hb ha

theorem foldSteps_page {nodes : List (List UInt8)} (hn : ∀ node ∈ nodes, Storable md dim node)
    (hs : Ready s) (hp : PageInHand s) (h : foldSteps (addNode md dim) nodes s = .done t) :
    PageInHand t := by
  induction nodes generalizing s with
  | nil =>
    cases h
    exact hp
  | cons node nodes ih =>
    obtain ⟨u, hu, ht⟩ := Outcome.bind_eq_done.mp h
    have hnode := hn node List.mem_cons_self
    exact ih (fun n hmem => hn n (List.mem_cons_of_mem _ hmem)) (addNode_ready hnode hs hu).1
      (addNode_page hnode hs hp hu) ht

theorem leads_nodes {nodes : List (List UInt8)} (hn : ∀ node ∈ nodes, Storable md dim node)
    (hs : Ready s) (hd : data.drop w = nodes.flatten ++ rest)
    (hstarts : ∀ pre node post, nodes = pre ++ node :: post → w + pre.flatten.length < bufferSize)
    (hroom : s.nodeId + nodes.length ≤ room) (h : foldSteps (addNode md dim) nodes s = .done t) :
    Leads md dim room bufferSize data ⟨s, w⟩ ⟨t, w + nodes.flatten.length⟩ := by
  induction nodes generalizing s w with
  | nil =>
    cases h
    exact .refl
  | cons node nodes ih =>
    obtain ⟨u, hu, ht⟩ := Outcome.bind_eq_done.mp h
    have hnode := hn node List.mem_cons_self
    obtain ⟨hready, -, -, hid⟩ := addNode_ready hnode hs hu
    rw [List.length_cons] at hroom
    rw [List.flatten_cons, List.append_assoc] at hd
    have hw : w < bufferSize := by simpa using hstarts [] node nodes rfl
    have hfirst := ((@visit_storable md dim room _ _ _ _ _ _ hw hnode hd hs).1 u hu).1 (by omega)
    have hrest := ih (fun n hmem => hn n (List.mem_cons_of_mem _ hmem)) hready
      (by rw [← List.drop_drop, hd, List.drop_left])
      (fun pre node' post hsplit => by
        have := hstarts (node :: pre) node' post (by rw [hsplit]; rfl)
        rw [List.flatten_cons, List.length_append] at this
        omega) (by omega) ht
    rw [List.flatten_cons, List.length_append, ← Nat.add_assoc]
    exact hfirst.trans hrest

end Visits

end Lantern.StoreVisits
