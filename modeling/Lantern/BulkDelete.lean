import Lantern.InsertTuple

set_option autoImplicit false

/-!
# Bulk deletion

Vacuum walks over the blocks up to `last_data_block` and clears the label of
every entry the callback condemns. No space is reclaimed.
-/
namespace Lantern.BulkDelete
open ByteStrings NodeLayout PageLayout IndexRelation PageChain

def INVALID_ELEMENT_LABEL : ℕ := 0

def resetNodeLabel (node : List UInt8) : List UInt8 :=
  patch 0 (leBytes 8 INVALID_ELEMENT_LABEL) node

def label2ItemPointer (label : ℕ) : ItemPointerData := itemPointerOfBytes (leBytes 8 label)

def itemPointer2Label (tid : ItemPointerData) : ℕ := leNat (itemPointerBytes tid)

def condemned (callback : ItemPointerData → Bool) (t : HnswIndexTuple) : Bool :=
  callback (label2ItemPointer (labelFromNode t.node))

def deleteOnPage (callback : ItemPointerData → Bool) (p : Page) : Page :=
  { p with items := p.items.map fun t =>
    if condemned callback t then { t with node := resetNodeLabel t.node } else t }

structure BulkDeleteState where
  pages : List Page
  tuplesRemoved : ℕ
  fault : Option Fault

/-- `remaining` blocks from `blockno` on. A block that is not there raises an
    error; what was deleted before stays deleted. -/
def bulkDeleteBlocks (callback : ItemPointerData → Bool) : ℕ → ℕ → List Page → ℕ → BulkDeleteState
  | 0, _, pages, removed => ⟨pages, removed, none⟩
  | remaining + 1, blockno, pages, removed =>
    if pages.length < blockno then ⟨pages, removed, some (.elog "could not read block")⟩
    else
      let page := getPage pages blockno
      bulkDeleteBlocks callback remaining (blockno + 1)
        (setPage pages blockno (deleteOnPage callback page))
        (removed + (page.items.filter (condemned callback)).length)

theorem deleteOnPage_sameShape (callback : ItemPointerData → Bool) (p : Page) :
    SameShape p (deleteOnPage callback p) := by
  refine ⟨rfl, rfl, ?_⟩
  simp only [seqids, deleteOnPage, List.map_map]
  refine List.map_congr_left fun t _ => ?_
  simp only [Function.comp_apply]
  split <;> rfl

theorem bulkDeleteBlocks_spec (callback : ItemPointerData → Bool) (remaining blockno removed : ℕ)
    (pages : List Page) (hb : 1 ≤ blockno) :
    (bulkDeleteBlocks callback remaining blockno pages removed).pages.length = pages.length ∧
    ∀ b, getPage (bulkDeleteBlocks callback remaining blockno pages removed).pages b =
      if blockno ≤ b ∧ b < blockno + remaining ∧ b ≤ pages.length then
        deleteOnPage callback (getPage pages b)
      else getPage pages b := by
  induction remaining generalizing blockno removed pages with
  | zero => exact ⟨rfl, fun b => by rw [if_neg (by omega)]; rfl⟩
  | succ remaining ih =>
    rw [bulkDeleteBlocks]
    split
    · exact ⟨rfl, fun b => by rw [if_neg (by omega)]⟩
    · rename_i hle
      obtain ⟨hlen, hget⟩ := ih (blockno + 1)
        (removed + ((getPage pages blockno).items.filter (condemned callback)).length)
        (setPage pages blockno (deleteOnPage callback (getPage pages blockno))) (by omega)
      rw [setPage_length] at hlen hget
      refine ⟨hlen, fun b => ?_⟩
      rw [hget b]
      by_cases hbb : b = blockno
      · subst hbb
        rw [if_neg (by omega), if_pos (by omega), getPage_setPage_self (by omega) (by omega)]
      · rw [getPage_setPage_ne hbb]
        by_cases hin : blockno + 1 ≤ b ∧ b < blockno + 1 + remaining ∧ b ≤ pages.length
        · rw [if_pos hin, if_pos (by omega)]
        · rw [if_neg hin, if_neg (by omega)]

theorem bulkDeleteBlocks_sameShape (callback : ItemPointerData → Bool) (remaining : ℕ)
    (pages : List Page) (b : ℕ) :
    SameShape (getPage pages b)
      (getPage (bulkDeleteBlocks callback remaining 1 pages 0).pages b) := by
  rw [(bulkDeleteBlocks_spec callback remaining 1 0 pages (le_refl _)).2 b]
  split
  · exact deleteOnPage_sameShape callback _
  · exact .refl _

end Lantern.BulkDelete
