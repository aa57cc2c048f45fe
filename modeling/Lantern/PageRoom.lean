import Lantern.IndexRuns

set_option autoImplicit false

/-!
# Room on a data page

`PrepareIndexTuple` looks at the free space of the last page before it appends a
tuple. Its test counts a line pointer that the free space already leaves out, and
not the padding of the tuple. The free area of a page is a multiple of four bytes
and the test is strict, which makes up for the padding.
-/
namespace Lantern.PageRoom
open FuelLoop NodeLayout PageLayout IndexRelation PageChain InsertTuple SystemRuns IndexRuns

/-- Pages that `PageInit` and successful `PageAddItem` calls lead to. The index
    writes the special block of a page at any time. -/
inductive Formatted : Page → Prop where
  | init : Formatted (pageInit sizeofHnswIndexPageSpecialBlock)
  | addItem {p q : Page} {t : HnswIndexTuple} {off : ℕ} (hp : Formatted p)
      (h : pageAddItem p t = some (q, off)) : Formatted q
  | writeSpecial {p : Page} (hp : Formatted p) (s : HnswIndexPageSpecialBlock) :
      Formatted { p with special := s }

variable {t : HnswIndexTuple} {p : Page}

theorem Formatted.pdSpecial_eq (hp : Formatted p) : p.pdSpecial = dataPageSpecial := by
  induction hp with
  | init => rfl
  | addItem _ h ih => rw [(pageAddItem_eq_some h).1, ih]
  | writeSpecial _ _ ih => exact ih

theorem itemSpace_aligned (items : List HnswIndexTuple) : 8 ∣ (items.map itemSpace).sum := by
  apply List.dvd_sum
  intro n hn
  obtain ⟨t, -, rfl⟩ := List.mem_map.mp hn
  exact Nat.dvd_mul_left 8 _

theorem pageAddItem_of_freeSpace (hp : p.pdSpecial = dataPageSpecial)
    (htest : sizeofItemIdData + sizeofHnswIndexTuple + t.node.length < pageGetFreeSpace p) :
    pageAddItem p t = some ({ p with items := p.items ++ [t] }, p.items.length + 1) := by
  obtain ⟨used, hused⟩ := itemSpace_aligned p.items
  have hspecial : p.pdSpecial = 8176 := hp
  have hlower : pdLower p = 24 + 4 * p.items.length := if_neg (by omega)
  have hupper : pdUpper p = 8176 - 8 * used := by rw [pdUpper, hspecial, hused]
  have hspace : itemSpace t = (8 + t.node.length + 7) / 8 * 8 := rfl
  have hfits : pdLower p + sizeofItemIdData + itemSpace t ≤ pdUpper p := by
    rw [pageGetFreeSpace, hlower, hupper] at htest
    rw [hlower, hupper, hspace]
    simp only [sizeofItemIdData, sizeofHnswIndexTuple] at htest ⊢
    omega
  rw [pageAddItem, if_pos hfits]

theorem addVector_no_error {q : Page} {off : ℕ} (h : pageAddItem p t = some (q, off))
    (text : String) : hnswIndexPageAddVector p t ≠ .fault (.elog text) := by
  unfold hnswIndexPageAddVector
  rw [h]
  intro he
  simp only at he
  split_ifs at he
  · cases he
  · cases he

/-- The test of `PrepareIndexTuple` is enough for the `PageAddItem` behind it. -/
theorem freeSpace_test_suffices (hp : Formatted p) (hsize : t.node.length = t.size)
    (htest : sizeofItemIdData + sizeofHnswIndexTuple + t.size < pageGetFreeSpace p) :
    (∃ q off, pageAddItem p t = some (q, off)) ∧
      ∀ text, hnswIndexPageAddVector p t ≠ .fault (.elog text) := by
  rw [← hsize] at htest
  have hadd := pageAddItem_of_freeSpace hp.pdSpecial_eq htest
  exact ⟨⟨_, _, hadd⟩, addVector_no_error hadd⟩

def paddedPage : Page :=
  ⟨dataPageSpecial, ⟨0, 0, 0⟩, [⟨0, 5, [1, 2, 3, 4, 5]⟩]⟩

theorem paddedPage_appends :
    Formatted paddedPage ∧
      (∃ q off, pageAddItem paddedPage ⟨1, 3, [1, 2, 3]⟩ = some (q, off)) ∧
      ∀ text, hnswIndexPageAddVector paddedPage ⟨1, 3, [1, 2, 3]⟩ ≠ .fault (.elog text) := by
  have hformatted : Formatted paddedPage := by
    apply Formatted.addItem .init
    exact if_pos (by decide)
  exact ⟨hformatted, freeSpace_test_suffices hformatted rfl (by decide)⟩

theorem lastPage_format {r : Rel} (hr : IndexChain r)
    (hl : r.header.lastDataBlock ≠ InvalidBlockNumber) :
    (getPage r.pages r.header.lastDataBlock).pdSpecial = dataPageSpecial := by
  obtain ⟨ds, hd, -⟩ := hr.chained.lastPage hl
  apply hr.chained.formatted (r.header.lastDataBlock, getPage r.pages r.header.lastDataBlock)
  rw [hd]
  exact List.mem_append_right _ (List.mem_singleton.mpr rfl)

/-- In every reachable index a tuple that passes the test is placed on the last
    page. -/
theorem reachable_places_on_last_page {r : Rel} (h : Reachable indexSystem r)
    (ht : t.seqid = r.header.numVectors) (hsize : t.node.length = t.size)
    (hl : r.header.lastDataBlock ≠ InvalidBlockNumber)
    (htest : sizeofItemIdData + sizeofHnswIndexTuple + t.size <
      pageGetFreeSpace (getPage r.pages r.header.lastDataBlock)) :
    ∃ st off, placeTuple t ⟨r.pages, r.header, extraDirtiedNew⟩ =
      .done (st, ⟨r.header.lastDataBlock, off⟩) := by
  have hr := reachable_chain h
  obtain ⟨-, -, -, -, hitems⟩ := hr.chained.lastPage hl
  obtain ⟨hnext, hid⟩ := hr.chained.lastSpecial hl
  have hadd := pageAddItem_of_freeSpace (lastPage_format hr hl) (hsize ▸ htest)
  rw [placeTuple_last t hl]
  dsimp only
  rw [if_pos htest, addVector_last hitems (hid.trans ht.symm) hnext hadd]
  exact ⟨_, _, rfl⟩

end Lantern.PageRoom
