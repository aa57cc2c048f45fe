import Lantern.IndexRelation

set_option autoImplicit false

/-!
# The chain of data pages

`dataPages` lists the blocks that hold items. `Chained` is the shape every writer has to
keep: consecutive sequence numbers, special blocks that agree with the items, and links
from each data page to the next.
-/
namespace Lantern.PageChain
open PageLayout IndexRelation NodeLayout

def dataPages (start : ℕ) : List Page → List (ℕ × Page)
  | [] => []
  | p :: ps =>
    if p.items = [] then dataPages (start + 1) ps else (start, p) :: dataPages (start + 1) ps

def seqids (p : Page) : List ℕ := p.items.map (·.seqid)

def dataPageSpecial : ℕ := BLCKSZ - maxAlign sizeofHnswIndexPageSpecialBlock

structure Chained (n lastBlock : ℕ) (ds : List (ℕ × Page)) : Prop where
  numbered : (ds.flatMap fun d => seqids d.2) = List.range n
  bounds : ∀ d ∈ ds, (seqids d.2).head? = some d.2.special.firstId ∧
    (seqids d.2).getLast? = some d.2.special.lastId
  linked : ds.IsChain fun d e => d.2.special.nextblockno = e.1
  ends : ds.getLast?.map (fun d => (d.1, d.2.special.nextblockno)) =
    if lastBlock = InvalidBlockNumber then none else some (lastBlock, InvalidBlockNumber)
  formatted : ∀ d ∈ ds, d.2.pdSpecial = dataPageSpecial
  counted : ∀ d ∈ ds, (seqids d.2).length < 2 ^ 16

/-- The page that a writer of the first item of a new block leaves behind. -/
def singlePage (t : HnswIndexTuple) : Page :=
  ⟨dataPageSpecial, ⟨t.seqid, t.seqid, InvalidBlockNumber⟩, [t]⟩

def extendedPage (p : Page) (t : HnswIndexTuple) : Page :=
  { p with items := p.items ++ [t], special := { p.special with lastId := t.seqid } }

def relinkedPage (p : Page) (next : ℕ) : Page :=
  { p with special := { p.special with nextblockno := next } }

theorem dataPages_append (start : ℕ) (ps qs : List Page) :
    dataPages start (ps ++ qs) = dataPages start ps ++ dataPages (start + ps.length) qs := by
  induction ps generalizing start with
  | nil => rfl
  | cons p ps ih =>
    have hs : start + 1 + ps.length = start + (p :: ps).length := by simp; omega
    simp only [List.cons_append, dataPages, ih, hs]
    split <;> rfl

theorem dataPages_empty {start : ℕ} {ps : List Page} (h : ∀ p ∈ ps, p.items = []) :
    dataPages start ps = [] := by
  induction ps generalizing start with
  | nil => rfl
  | cons p ps ih =>
    rw [dataPages, if_pos (h p List.mem_cons_self)]
    exact ih fun q hq => h q (List.mem_cons_of_mem _ hq)

theorem dataPages_append_zero (start : ℕ) (ps : List Page) :
    dataPages start (ps ++ [zeroPage]) = dataPages start ps := by
  rw [dataPages_append, @dataPages_empty _ [zeroPage] (by simp [zeroPage]), List.append_nil]

variable {t u : HnswIndexTuple} {ds : List (ℕ × Page)} {pages pages' ps qs : List Page}
  {tid : ItemPointerData} {p q : Page} {b lastBlock lastBlock' n : ℕ}

theorem dataPages_split {start : ℕ} (h : dataPages start ps = ds ++ [(b, p)]) :
    ∃ pre post, ps = pre ++ p :: post ∧ b = start + pre.length ∧ dataPages start pre = ds ∧
      p.items ≠ [] ∧ ∀ q ∈ post, q.items = [] := by
  induction ps generalizing start ds with
  | nil => simp [dataPages] at h
  | cons q ps ih =>
    by_cases hq : q.items = []
    · rw [dataPages, if_pos hq] at h
      obtain ⟨pre, post, hps, hb, hpre, hp, hpost⟩ := ih h
      refine ⟨q :: pre, post, by rw [hps]; rfl, by simp; omega, ?_, hp, hpost⟩
      rw [dataPages, if_pos hq, hpre]
    · rw [dataPages, if_neg hq] at h
      cases ds with
      | nil =>
        obtain ⟨hd, ht⟩ := List.cons.inj h
        cases hd
        refine ⟨[], ps, rfl, by simp, rfl, hq, ?_⟩
        intro r hr
        by_contra hne
        obtain ⟨xs, ys, rfl⟩ := List.append_of_mem hr
        rw [dataPages_append, dataPages, if_neg hne] at ht
        simp at ht
      | cons d ds =>
        obtain ⟨hd, ht⟩ := List.cons.inj h
        obtain ⟨pre, post, hps, hb, hpre, hp, hpost⟩ := ih ht
        refine ⟨q :: pre, post, by rw [hps]; rfl, by simp; omega, ?_, hp, hpost⟩
        rw [dataPages, if_neg hq, hpre, hd]

theorem getPage_at (pre post : List Page) (p : Page) :
    getPage (pre ++ p :: post) (1 + pre.length) = p := by
  rw [Nat.add_comm]
  simp [getPage]

theorem setPage_at (pre post : List Page) (p q : Page) :
    setPage (pre ++ p :: post) (1 + pre.length) q = pre ++ q :: post := by
  rw [Nat.add_comm]
  simp [setPage]

theorem getPage_dataPages {start : ℕ} (h : (b, p) ∈ dataPages start ps) :
    start ≤ b ∧ b < start + ps.length ∧ ps[b - start]? = some p ∧ p.items ≠ [] := by
  induction ps generalizing start with
  | nil => simp [dataPages] at h
  | cons q ps ih =>
    by_cases hq : q.items = []
    · rw [dataPages, if_pos hq] at h
      obtain ⟨h1, h2, h3, h4⟩ := ih h
      refine ⟨by omega, by simp; omega, ?_, h4⟩
      rw [show b - start = (b - (start + 1)) + 1 by omega]
      simpa using h3
    · rw [dataPages, if_neg hq] at h
      rcases List.mem_cons.mp h with h | h
      · cases h
        simp [hq]
      · obtain ⟨h1, h2, h3, h4⟩ := ih h
        refine ⟨by omega, by simp; omega, ?_, h4⟩
        rw [show b - start = (b - (start + 1)) + 1 by omega]
        simpa using h3

theorem getPage_of_mem_dataPages (h : (b, p) ∈ dataPages 1 ps) :
    1 ≤ b ∧ b ≤ ps.length ∧ getPage ps b = p ∧ p.items ≠ [] := by
  obtain ⟨h1, h2, h3, h4⟩ := getPage_dataPages h
  refine ⟨h1, by omega, ?_, h4⟩
  obtain ⟨c, rfl⟩ : ∃ c, b = c + 1 := ⟨b - 1, by omega⟩
  simp only [Nat.add_sub_cancel] at h3
  simp [getPage, h3]

theorem getPage_mem_dataPages (h1 : 1 ≤ b) (h2 : b ≤ ps.length) (h : (getPage ps b).items ≠ []) :
    (b, getPage ps b) ∈ dataPages 1 ps := by
  obtain ⟨c, rfl⟩ : ∃ c, b = 1 + c := ⟨b - 1, by omega⟩
  obtain ⟨xs, p, ys, rfl, rfl⟩ : ∃ xs p ys, ps = xs ++ p :: ys ∧ xs.length = c :=
    ⟨ps.take c, ps[c], ps.drop (c + 1), by simp, by simp; omega⟩
  rw [getPage_at] at h ⊢
  rw [dataPages_append, dataPages, if_neg h]
  simp

theorem dataPages_setPage_last {b : ℕ} {ps : List Page} {ds : List (ℕ × Page)} {p q : Page}
    (h : dataPages 1 ps = ds ++ [(b, p)]) (hq : q.items ≠ []) :
    dataPages 1 (setPage ps b q) = ds ++ [(b, q)] := by
  obtain ⟨pre, post, rfl, rfl, hpre, -, hpost⟩ := dataPages_split h
  rw [setPage_at, dataPages_append, hpre, dataPages, if_neg hq, dataPages_empty hpost]

theorem dataPages_setPage_new (hq : q.items ≠ []) :
    dataPages 1 (setPage (ps ++ [zeroPage]) (ps.length + 1) q) =
      dataPages 1 ps ++ [(ps.length + 1, q)] := by
  rw [Nat.add_comm, setPage_at, dataPages_append]
  simp [dataPages, hq]

theorem Chained.nil : Chained 0 InvalidBlockNumber [] where
  numbered := rfl
  bounds := by simp
  linked := .nil
  ends := rfl
  formatted := by simp
  counted := by simp

theorem Chained.eq_nil_iff (h : Chained n lastBlock ds) :
    ds = [] ↔ lastBlock = InvalidBlockNumber := by
  have he := h.ends
  constructor
  · rintro rfl
    by_contra hl
    simp [hl] at he
  · intro hl
    simpa [hl] using he

theorem Chained.last (h : Chained n lastBlock ds) (hl : lastBlock ≠ InvalidBlockNumber) :
    ∃ ds' p, ds = ds' ++ [(lastBlock, p)] ∧ p.special.nextblockno = InvalidBlockNumber := by
  have he := h.ends
  rcases List.eq_nil_or_concat ds with rfl | ⟨ds', d, rfl⟩
  · simp [hl] at he
  · simp only [List.concat_eq_append, List.getLast?_concat, Option.map_some, hl, if_false,
      Option.some.injEq, Prod.mk.injEq] at he
    exact ⟨ds', d.2, by rw [← he.1]; simp, he.2⟩

theorem Chained.lastId_eq (h : Chained n b (ds ++ [(b, p)])) (hp : p.items ≠ []) :
    p.special.lastId + 1 = n := by
  have hb := (h.bounds (b, p) (by simp)).2
  have hn := congrArg List.getLast? h.numbered
  have hs : seqids p ≠ [] := by simpa [seqids] using hp
  rw [List.flatMap_append, List.getLast?_append_of_ne_nil _ (by simpa using hs)] at hn
  simp only [List.flatMap_cons, List.flatMap_nil, List.append_nil, hb, List.getLast?_range] at hn
  split at hn
  · cases hn
  · have := Option.some.inj hn
    omega

theorem Chained.extend_last (h : Chained n b (ds ++ [(b, p)])) (ht : t.seqid = n)
    (hroom : p.items.length + 1 < 2 ^ 16) :
    Chained (n + 1) b (ds ++ [(b, extendedPage p t)]) := by
  obtain ⟨hn, hb, hl, he, hf, hc⟩ := h
  have hlast := hb (b, p) (by simp)
  refine ⟨?_, ?_, ?_, ?_, ?_, ?_⟩
  · rw [List.range_succ, ← hn]
    simp [extendedPage, seqids, ht]
  · intro d hd
    rcases List.mem_append.mp hd with hd | hd
    · exact hb d (List.mem_append_left _ hd)
    · rw [List.mem_singleton.mp hd]
      have hh := hlast.1
      simp only [extendedPage, seqids, List.map_append, List.map_cons, List.map_nil,
        List.getLast?_concat, and_true]
      rw [List.head?_append, ← seqids, hh]
      rfl
  · rw [List.isChain_append] at hl ⊢
    exact ⟨hl.1, .singleton _, by simpa using hl.2.2⟩
  · simpa [extendedPage] using he
  · intro d hd
    rcases List.mem_append.mp hd with hd | hd
    · exact hf d (List.mem_append_left _ hd)
    · rw [List.mem_singleton.mp hd]
      exact hf (b, p) (by simp)
  · intro d hd
    rcases List.mem_append.mp hd with hd | hd
    · exact hc d (List.mem_append_left _ hd)
    · rw [List.mem_singleton.mp hd]
      simpa [extendedPage, seqids] using hroom

theorem Chained.extend_new {c : ℕ} (h : Chained n b (ds ++ [(b, p)])) (ht : t.seqid = n)
    (hc : c ≠ InvalidBlockNumber) :
    Chained (n + 1) c (ds ++ [(b, relinkedPage p c)] ++ [(c, singlePage t)]) := by
  obtain ⟨hn, hb, hl, he, hf, hcount⟩ := h
  refine ⟨?_, ?_, ?_, ?_, ?_, ?_⟩
  · rw [List.range_succ, ← hn]
    simp [relinkedPage, singlePage, seqids, ht]
  · intro d hd
    rcases List.mem_append.mp hd with hd | hd
    · rcases List.mem_append.mp hd with hd | hd
      · exact hb d (List.mem_append_left _ hd)
      · rw [List.mem_singleton.mp hd]
        exact hb (b, p) (by simp)
    · rw [List.mem_singleton.mp hd]
      exact ⟨rfl, rfl⟩
  · rw [List.isChain_append] at hl ⊢
    refine ⟨?_, .singleton _, by simp [relinkedPage]⟩
    rw [List.isChain_append]
    exact ⟨hl.1, .singleton _, by simpa using hl.2.2⟩
  · simp [singlePage, hc]
  · intro d hd
    rcases List.mem_append.mp hd with hd | hd
    · rcases List.mem_append.mp hd with hd | hd
      · exact hf d (List.mem_append_left _ hd)
      · rw [List.mem_singleton.mp hd]
        exact hf (b, p) (by simp)
    · rw [List.mem_singleton.mp hd]
      rfl
  · intro d hd
    rcases List.mem_append.mp hd with hd | hd
    · rcases List.mem_append.mp hd with hd | hd
      · exact hcount d (List.mem_append_left _ hd)
      · rw [List.mem_singleton.mp hd]
        exact hcount (b, p) (by simp)
    · rw [List.mem_singleton.mp hd]
      simp [singlePage, seqids]

theorem Chained.first {c : ℕ} (ht : t.seqid = 0) (hc : c ≠ InvalidBlockNumber) :
    Chained 1 c [(c, singlePage t)] where
  numbered := by simp [seqids, singlePage, ht]
  bounds := by simp [seqids, singlePage]
  linked := .singleton _
  ends := by simp [singlePage, hc]
  formatted := by simp [singlePage]
  counted := by simp [singlePage, seqids]

/-- What one stored item does to the pages: `off` is its offset on the block
    that is last afterwards. -/
inductive Grown (pages : List Page) (lastBlock : ℕ) (t : HnswIndexTuple) :
    List Page → ℕ → ℕ → Prop where
  | last {p : Page} {off : ℕ} (hl : lastBlock ≠ InvalidBlockNumber)
      (hadd : pageAddItem (getPage pages lastBlock) t = some (p, off)) :
      Grown pages lastBlock t
        (setPage pages lastBlock (extendedPage (getPage pages lastBlock) t)) lastBlock off
  | new (hl : lastBlock ≠ InvalidBlockNumber) (hlen : pages.length + 1 < InvalidBlockNumber) :
      Grown pages lastBlock t
        (setPage (setPage pages lastBlock
          (relinkedPage (getPage pages lastBlock) (pages.length + 1)) ++ [zeroPage])
          (pages.length + 1) (singlePage t)) (pages.length + 1) 1
  | first (hl : lastBlock = InvalidBlockNumber) (hlen : pages.length + 1 < InvalidBlockNumber) :
      Grown pages lastBlock t
        (setPage (pages ++ [zeroPage]) (pages.length + 1) (singlePage t)) (pages.length + 1) 1

theorem pageAddItem_room {off : ℕ} (hp : p.pdSpecial = dataPageSpecial)
    (h : pageAddItem p t = some (q, off)) :
    p.items.length + 1 < 2 ^ 16 := by
  unfold pageAddItem at h
  split at h
  · rename_i hle
    have hs : dataPageSpecial = 8176 := rfl
    unfold pdLower pdUpper sizeofItemIdData sizeOfPageHeaderData at hle
    rw [hp, hs] at hle
    simp only [show (8176 : ℕ) ≠ 0 by decide, if_false] at hle
    omega
  · cases h

theorem Chained.lastPage (h : Chained n lastBlock (dataPages 1 pages))
    (hl : lastBlock ≠ InvalidBlockNumber) :
    ∃ ds, dataPages 1 pages = ds ++ [(lastBlock, getPage pages lastBlock)] ∧
      1 ≤ lastBlock ∧ lastBlock ≤ pages.length ∧ (getPage pages lastBlock).items ≠ [] := by
  obtain ⟨ds, p, hd, -⟩ := h.last hl
  obtain ⟨h1, h2, h3, h4⟩ := getPage_of_mem_dataPages (b := lastBlock) (p := p) (by rw [hd]; simp)
  exact ⟨ds, by rw [h3]; exact hd, h1, h2, by rw [h3]; exact h4⟩

theorem Chained.lastSpecial (h : Chained n lastBlock (dataPages 1 pages))
    (hl : lastBlock ≠ InvalidBlockNumber) :
    (getPage pages lastBlock).special.nextblockno = InvalidBlockNumber ∧
      (getPage pages lastBlock).special.lastId + 1 = n := by
  obtain ⟨ds, hd, -, -, hi⟩ := h.lastPage hl
  rw [hd] at h
  have he := h.ends
  simp only [List.getLast?_concat, Option.map_some, if_neg hl, Option.some.injEq, Prod.mk.injEq,
    true_and] at he
  exact ⟨he, h.lastId_eq hi⟩

theorem Grown.chained {pages pages' : List Page} {lastBlock lastBlock' off n : ℕ}
    {t : HnswIndexTuple} (hg : Grown pages lastBlock t pages' lastBlock' off)
    (h : Chained n lastBlock (dataPages 1 pages)) (ht : t.seqid = n) :
    Chained (n + 1) lastBlock' (dataPages 1 pages') := by
  cases hg with
  | last hl hadd =>
    obtain ⟨ds, hd, -, -, hi⟩ := h.lastPage hl
    rw [dataPages_setPage_last hd (by simp [extendedPage])]
    rw [hd] at h
    exact h.extend_last ht (pageAddItem_room
      (h.formatted (lastBlock, getPage pages lastBlock) (by simp)) hadd)
  | new hl hlen =>
    obtain ⟨ds, hd, -, -, hi⟩ := h.lastPage hl
    have hlen' := setPage_length pages lastBlock
      (relinkedPage (getPage pages lastBlock) (pages.length + 1))
    have hnew := @dataPages_setPage_new (setPage pages lastBlock
      (relinkedPage (getPage pages lastBlock) (pages.length + 1))) (singlePage t)
      (by simp [singlePage])
    rw [hlen'] at hnew
    have hold := @dataPages_setPage_last _ _ _ _
      (relinkedPage (getPage pages lastBlock) (pages.length + 1)) hd hi
    rw [hnew, hold]
    rw [hd] at h
    exact h.extend_new ht (by omega)
  | first hl hlen =>
    have hd : dataPages 1 pages = [] := h.eq_nil_iff.mpr hl
    have hn : n = 0 := by
      have := congrArg List.length h.numbered
      simpa [hd] using this.symm
    rw [dataPages_setPage_new (by simp [singlePage]), hd, hn, List.nil_append]
    exact Chained.first (by omega) (by omega)

theorem Grown.length_lt {off : ℕ} (hg : Grown pages lastBlock t pages' lastBlock' off)
    (h : pages.length < InvalidBlockNumber) :
    pages.length ≤ pages'.length ∧ pages'.length < InvalidBlockNumber := by
  cases hg <;> simp_all

theorem tupleAt_setPage_ne (h : tid.block ≠ b) (p : Page) :
    tupleAt (setPage pages b p) tid = tupleAt pages tid := by
  simp only [tupleAt, getPage_setPage_ne h]

theorem tupleAt_append_zero (pages : List Page) (tid : ItemPointerData) :
    tupleAt (pages ++ [zeroPage]) tid = tupleAt pages tid := by
  simp only [tupleAt, getPage_append_zero]

theorem tupleAt_eq_some (h : tupleAt pages tid = some t) :
    1 ≤ tid.block ∧ tid.block ≤ pages.length ∧ 1 ≤ tid.posid ∧
      (getPage pages tid.block).items[tid.posid - 1]? = some t := by
  unfold tupleAt at h
  split at h
  · cases h
  · rename_i hp
    have hlen : tid.block ≤ pages.length := by
      by_contra hc
      rw [getPage_beyond (by omega)] at h
      simp [zeroPage] at h
    have hpos : tid.block ≠ 0 := by
      intro h0
      rw [h0] at h
      simp [getPage, zeroPage] at h
    exact ⟨by omega, hlen, by omega, h⟩

theorem Grown.tupleAt_old {off : ℕ} (hg : Grown pages lastBlock t pages' lastBlock' off)
    (h : tupleAt pages tid = some u) :
    tupleAt pages' tid = some u := by
  obtain ⟨h1, h2, h3, h4⟩ := tupleAt_eq_some h
  have same : ∀ ps : List Page, ps.length = pages.length →
      (∃ extra, (getPage ps tid.block).items = (getPage pages tid.block).items ++ extra) →
      tupleAt ps tid = some u := by
    rintro ps - ⟨extra, he⟩
    rw [tupleAt, if_neg (by omega), he]
    rw [List.getElem?_append_left]
    · exact h4
    · exact (List.getElem?_eq_some_iff.mp h4).1
  cases hg with
  | last hl hadd =>
    refine same _ (by simp) ?_
    by_cases hb : tid.block = lastBlock
    · subst hb
      rw [getPage_setPage_self (by omega) h2]
      exact ⟨[t], rfl⟩
    · rw [getPage_setPage_ne hb]
      exact ⟨[], by simp⟩
  | new hl hlen =>
    rw [tupleAt_setPage_ne (by omega), tupleAt_append_zero]
    refine same _ (by simp) ?_
    by_cases hb : tid.block = lastBlock
    · subst hb
      rw [getPage_setPage_self (by omega) h2]
      exact ⟨[], by simp [relinkedPage]⟩
    · rw [getPage_setPage_ne hb]
      exact ⟨[], by simp⟩
  | first hl hlen =>
    rw [tupleAt_setPage_ne (by omega), tupleAt_append_zero]
    exact h

theorem Grown.tupleAt_new {off : ℕ} (hg : Grown pages lastBlock t pages' lastBlock' off)
    (hb : lastBlock = InvalidBlockNumber ∨ 1 ≤ lastBlock ∧ lastBlock ≤ pages.length) :
    tupleAt pages' ⟨lastBlock', off⟩ = some t := by
  cases hg with
  | last hl hadd =>
    obtain ⟨-, rfl⟩ := pageAddItem_eq_some hadd
    rw [tupleAt, if_neg (by simp), getPage_setPage_self (by omega) (by omega)]
    simp [extendedPage]
  | new hl hlen =>
    rw [tupleAt, if_neg (by simp), getPage_setPage_self (by omega) (by simp)]
    rfl
  | first hl hlen =>
    rw [tupleAt, if_neg (by simp), getPage_setPage_self (by omega) (by simp)]
    rfl

theorem tupleAt_setPage_cases (h : tupleAt (setPage pages b p) tid = some u) :
    tupleAt pages tid = some u ∨
      (tid.block = b ∧ 1 ≤ tid.posid ∧ p.items[tid.posid - 1]? = some u) := by
  by_cases hb : tid.block = b
  · obtain ⟨h1, h2, h3, h4⟩ := tupleAt_eq_some h
    rw [setPage_length] at h2
    rw [hb, getPage_setPage_self (by omega) (by omega)] at h4
    exact .inr ⟨hb, h3, h4⟩
  · rw [tupleAt_setPage_ne hb] at h
    exact .inl h

theorem Grown.tupleAt_inv {off : ℕ} (hg : Grown pages lastBlock t pages' lastBlock' off)
    (h : tupleAt pages' tid = some u) :
    tupleAt pages tid = some u ∨ (tid = ⟨lastBlock', off⟩ ∧ u = t) := by
  obtain ⟨block, posid⟩ := tid
  have old : ∀ {q : Page} {b : ℕ}, q.items = (getPage pages b).items → block = b → 1 ≤ posid →
      q.items[posid - 1]? = some u → tupleAt pages ⟨block, posid⟩ = some u := by
    rintro q b hq rfl hp hu
    rw [tupleAt, if_neg (by simp; omega), ← hq]
    exact hu
  have single : ∀ {b : ℕ}, block = b → 1 ≤ posid → (singlePage t).items[posid - 1]? = some u →
      (⟨block, posid⟩ : ItemPointerData) = ⟨b, 1⟩ ∧ u = t := by
    rintro b rfl hp hu
    obtain ⟨hlt, hu⟩ := List.getElem?_eq_some_iff.mp hu
    have : posid = 1 := by simp [singlePage] at hlt; omega
    subst this
    exact ⟨rfl, hu.symm⟩
  cases hg with
  | last hl hadd =>
    rcases tupleAt_setPage_cases h with h | ⟨rfl, hp, hu⟩
    · exact .inl h
    · have hoff := (pageAddItem_eq_some hadd).2
      simp only at hoff hp
      simp only [extendedPage, List.getElem?_append] at hu
      split at hu
      · exact .inl (by rw [tupleAt, if_neg (by simp only; omega)]; exact hu)
      · obtain ⟨hlt, hu⟩ := List.getElem?_eq_some_iff.mp hu
        simp only [List.length_singleton, List.getElem_singleton] at hlt hu
        refine .inr ⟨?_, hu.symm⟩
        rw [ItemPointerData.mk.injEq]
        exact ⟨rfl, by omega⟩
  | new hl hlen =>
    rcases tupleAt_setPage_cases h with h | ⟨hb, hp, hu⟩
    · rw [tupleAt_append_zero] at h
      rcases tupleAt_setPage_cases h with h | ⟨hb, hp, hu⟩
      · exact .inl h
      · exact .inl
          (old (q := relinkedPage (getPage pages lastBlock) (pages.length + 1)) rfl hb hp hu)
    · exact .inr (single hb hp hu)
  | first hl hlen =>
    rcases tupleAt_setPage_cases h with h | ⟨hb, hp, hu⟩
    · rw [tupleAt_append_zero] at h
      exact .inl h
    · exact .inr (single hb hp hu)

def SameShape (p q : Page) : Prop :=
  p.pdSpecial = q.pdSpecial ∧ p.special = q.special ∧ seqids p = seqids q

theorem SameShape.refl (p : Page) : SameShape p p := ⟨rfl, rfl, rfl⟩

theorem SameShape.trans {r : Page} (h : SameShape p q) (h' : SameShape q r) : SameShape p r :=
  ⟨h.1.trans h'.1, h.2.1.trans h'.2.1, h.2.2.trans h'.2.2⟩

theorem SameShape.items_length (h : SameShape p q) : p.items.length = q.items.length := by
  simpa [seqids] using congrArg List.length h.2.2

theorem SameShape.items_eq_nil (h : SameShape p q) : p.items = [] ↔ q.items = [] := by
  rw [← List.length_eq_zero_iff, ← List.length_eq_zero_iff, h.items_length]

theorem dataPages_sameShape (h : List.Forall₂ SameShape ps qs) (start : ℕ) :
    List.Forall₂ (fun d e : ℕ × Page => d.1 = e.1 ∧ SameShape d.2 e.2)
      (dataPages start ps) (dataPages start qs) := by
  induction h generalizing start with
  | nil => exact .nil
  | cons hpq _ ih =>
    simp only [dataPages, hpq.items_eq_nil]
    split
    · exact ih _
    · exact .cons ⟨rfl, hpq⟩ (ih _)

theorem Chained.sameShape {es : List (ℕ × Page)} (h : Chained n b ds)
    (hs : List.Forall₂ (fun d e : ℕ × Page => d.1 = e.1 ∧ SameShape d.2 e.2) ds es) :
    Chained n b es := by
  have key : ∀ {α : Type} (f : ℕ → List ℕ → HnswIndexPageSpecialBlock → ℕ → α),
      ds.map (fun d => f d.1 (seqids d.2) d.2.special d.2.pdSpecial) =
        es.map fun d => f d.1 (seqids d.2) d.2.special d.2.pdSpecial := by
    intro α f
    clear h
    induction hs with
    | nil => rfl
    | cons hde _ ih =>
      obtain ⟨h1, h2, h3, h4⟩ := hde
      simp only [List.map_cons, ih, h1, h2, h3, h4]
  have mem : ∀ e ∈ es, ∃ d ∈ ds, seqids d.2 = seqids e.2 ∧ d.2.special = e.2.special ∧
      d.2.pdSpecial = e.2.pdSpecial := by
    intro e he
    have he' := List.mem_map_of_mem (f := fun d : ℕ × Page =>
      (seqids d.2, d.2.special, d.2.pdSpecial)) he
    rw [← key fun _ s sp pd => (s, sp, pd)] at he'
    obtain ⟨d, hd, hde⟩ := List.mem_map.mp he'
    simp only [Prod.mk.injEq] at hde
    exact ⟨d, hd, hde.1, hde.2.1, hde.2.2⟩
  refine ⟨?_, ?_, ?_, ?_, ?_, ?_⟩
  · rw [← h.numbered, List.flatMap_def, List.flatMap_def, key fun _ s _ _ => s]
  · intro e he
    obtain ⟨d, hd, hds, hsp, -⟩ := mem e he
    rw [← hds, ← hsp]
    exact h.bounds d hd
  · have hc := h.linked
    have hk := key fun b _ sp _ => (b, sp.nextblockno)
    rw [← List.isChain_map (R := fun x y : ℕ × ℕ => x.2 = y.1)
      (f := fun d : ℕ × Page => (d.1, d.2.special.nextblockno))] at hc ⊢
    rw [← hk]
    exact hc
  · rw [← h.ends, ← List.getLast?_map, ← List.getLast?_map, key fun b _ sp _ => (b, sp.nextblockno)]
  · intro e he
    obtain ⟨d, hd, -, -, hpd⟩ := mem e he
    rw [← hpd]
    exact h.formatted d hd
  · intro e he
    obtain ⟨d, hd, hds, -, -⟩ := mem e he
    rw [← hds]
    exact h.counted d hd

theorem sameShape_of_getPage (hl : ps.length = qs.length)
    (h : ∀ b, SameShape (getPage ps b) (getPage qs b)) : List.Forall₂ SameShape ps qs := by
  rw [List.forall₂_iff_get]
  refine ⟨hl, fun i hp hq => ?_⟩
  have hi := h (i + 1)
  simpa [getPage, List.getD_eq_getElem?_getD, hp, hq] using hi

theorem Chained.block_le (h : Chained n lastBlock (dataPages 1 pages))
    (hl : lastBlock ≠ InvalidBlockNumber) (ht : tupleAt pages tid = some t) :
    tid.block ≤ lastBlock := by
  obtain ⟨ds, hd, -, -, -⟩ := h.lastPage hl
  obtain ⟨pre, post, hps, hb, -, -, hpost⟩ := dataPages_split hd
  obtain ⟨h1, h2, h3, h4⟩ := tupleAt_eq_some ht
  by_contra hc
  obtain ⟨c, hc⟩ : ∃ c, tid.block = pre.length + 1 + c + 1 := ⟨tid.block - pre.length - 2, by omega⟩
  have hlt : c < post.length := by
    rw [hps, List.length_append, List.length_cons] at h2
    omega
  have hpage : getPage pages tid.block = post[c] := by
    rw [hps, hc]
    simp only [getPage, List.getD_eq_getElem?_getD]
    rw [List.getElem?_append_right (by omega), Nat.add_assoc, Nat.add_sub_cancel_left,
      Nat.add_comm 1 c, List.getElem?_cons_succ, List.getElem?_eq_getElem hlt]
    rfl
  rw [hpage, hpost _ (List.getElem_mem hlt)] at h4
  simp at h4

theorem Chained.itemPointer_bytes (h : Chained n lastBlock (dataPages 1 pages))
    (hlen : pages.length < InvalidBlockNumber) (ht : tupleAt pages tid = some t) :
    itemPointerOfBytes (itemPointerBytes tid) = tid := by
  obtain ⟨h1, h2, h3, h4⟩ := tupleAt_eq_some ht
  have hmem := getPage_mem_dataPages h1 h2 (by intro h0; simp [h0] at h4)
  have hcount : (getPage pages tid.block).items.length < 2 ^ 16 := by
    simpa [seqids] using h.counted _ hmem
  have hpos := (List.getElem?_eq_some_iff.mp h4).1
  have hinv : InvalidBlockNumber = 2 ^ 32 - 1 := rfl
  exact itemPointerOfBytes_bytes tid (by omega) (by omega)

theorem dataPages_congr (h : ∀ b, getPage ps b = getPage qs b) :
    dataPages 1 ps = dataPages 1 qs := by
  have longer : ∀ {xs ys : List Page}, (∀ b, getPage xs b = getPage ys b) → xs.length ≤ ys.length →
      dataPages 1 xs = dataPages 1 ys := by
    intro xs ys hxy hle
    have hys : ys = xs ++ List.replicate (ys.length - xs.length) zeroPage := by
      refine pages_ext (by simp; omega) fun b => ?_
      rw [getPage_append_replicate, hxy]
    have hzero : ∀ p ∈ List.replicate (ys.length - xs.length) zeroPage, p.items = [] := by
      intro p hp
      rw [List.eq_of_mem_replicate hp]
      rfl
    rw [hys, dataPages_append, dataPages_empty hzero, List.append_nil]
  rcases Nat.le_total ps.length qs.length with hle | hle
  · exact longer h hle
  · exact (longer (fun b => (h b).symm) hle).symm

theorem Chained.of_getPage (h : Chained n lastBlock (dataPages 1 ps))
    (hs : ∀ b, SameShape (getPage ps b) (getPage qs b)) :
    Chained n lastBlock (dataPages 1 qs) := by
  -- both lists at the same length
  rw [← dataPages_congr (getPage_append_replicate ps (qs.length - ps.length))] at h
  rw [← dataPages_congr (getPage_append_replicate qs (ps.length - qs.length))]
  refine h.sameShape (dataPages_sameShape (sameShape_of_getPage (by simp; omega) fun b => ?_) 1)
  rw [getPage_append_replicate, getPage_append_replicate]
  exact hs b

def followChain (pages : List Page) : ℕ → ℕ → List ℕ
  | 0, _ => []
  | fuel + 1, b =>
    if b = InvalidBlockNumber then []
    else b :: followChain pages fuel (getPage pages b).special.nextblockno

theorem dataPages_length_le (start : ℕ) (ps : List Page) :
    (dataPages start ps).length ≤ ps.length := by
  induction ps generalizing start with
  | nil => exact le_refl _
  | cons p ps ih =>
    have := ih (start + 1)
    simp only [dataPages]
    split <;> simp <;> omega

theorem followChain_suffix {pages : List Page} {ds : List (ℕ × Page)} {b : ℕ} {p : Page} {fuel : ℕ}
    (hmem : ∀ d ∈ (b, p) :: ds, getPage pages d.1 = d.2 ∧ d.1 ≠ InvalidBlockNumber)
    (hl : ((b, p) :: ds).IsChain fun d e => d.2.special.nextblockno = e.1)
    (he : (((b, p) :: ds).getLast (by simp)).2.special.nextblockno = InvalidBlockNumber)
    (hf : ds.length < fuel) :
    followChain pages fuel b = ((b, p) :: ds).map Prod.fst := by
  induction ds generalizing b p fuel with
  | nil =>
    obtain ⟨fuel, rfl⟩ : ∃ f, fuel = f + 1 := ⟨fuel - 1, by omega⟩
    obtain ⟨hp, hb⟩ := hmem (b, p) (by simp)
    simp only [List.getLast_singleton] at he
    rw [followChain, if_neg hb, hp, he]
    cases fuel <;> simp [followChain]
  | cons d ds ih =>
    obtain ⟨fuel, rfl⟩ : ∃ f, fuel = f + 1 := ⟨fuel - 1, by omega⟩
    obtain ⟨hp, hb⟩ := hmem (b, p) (by simp)
    rw [List.isChain_cons_cons] at hl
    have hi := @ih d.1 d.2 fuel (fun e he => hmem e (List.mem_cons_of_mem _ he)) hl.2
      (by simpa using he) (by simp at hf; omega)
    rw [followChain, if_neg hb, hp, hl.1, hi]
    rfl

theorem Chained.followChain_eq {fuel : ℕ} {d : ℕ × Page}
    (h : Chained n lastBlock (dataPages 1 pages)) (hlen : pages.length < InvalidBlockNumber)
    (hd : dataPages 1 pages = d :: ds) (hf : pages.length ≤ fuel) :
    followChain pages fuel d.1 = (dataPages 1 pages).map Prod.fst := by
  have hle := dataPages_length_le 1 pages
  obtain ⟨hn, -, hl, he, -, -⟩ := h
  have hmem : ∀ e ∈ dataPages 1 pages, getPage pages e.1 = e.2 ∧ e.1 ≠ InvalidBlockNumber := by
    intro e he
    obtain ⟨-, h2, h3, -⟩ := getPage_of_mem_dataPages he
    exact ⟨h3, by omega⟩
  rw [hd] at hl he hmem hle ⊢
  refine followChain_suffix hmem hl ?_ (by simp at hle; omega)
  by_cases hi : lastBlock = InvalidBlockNumber
  · simp [hi] at he
  · rw [List.getLast?_eq_some_getLast (by simp)] at he
    simp only [Option.map_some, hi, if_false, Option.some.injEq, Prod.mk.injEq] at he
    exact he.2

end Lantern.PageChain
