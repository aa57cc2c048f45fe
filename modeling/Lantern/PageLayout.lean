import Lantern.NodeLayout

set_option autoImplicit false

/-!
# Index pages

A page is its special block and its items in line-pointer order. The line
pointer array and the free area are functions of the items, so a page whose
pointers disagree with its content cannot be built. A page that was only
allocated (`zeroPage`) has no special area and no room.
-/
namespace Lantern.PageLayout
open NodeLayout

def BLCKSZ : ℕ := 8192
def sizeOfPageHeaderData : ℕ := 24
def sizeofItemIdData : ℕ := 4
def sizeofHnswIndexTuple : ℕ := 8
def sizeofHnswIndexPageSpecialBlock : ℕ := 12
def InvalidBlockNumber : ℕ := 0xFFFFFFFF

def maxAlign (n : ℕ) : ℕ := (n + 7) / 8 * 8

structure HnswIndexTuple where
  seqid : ℕ
  size : ℕ
  node : List UInt8
  deriving DecidableEq, Repr

structure HnswIndexPageSpecialBlock where
  firstId : ℕ
  lastId : ℕ
  nextblockno : ℕ
  deriving DecidableEq, Repr

structure Page where
  pdSpecial : ℕ
  special : HnswIndexPageSpecialBlock
  items : List HnswIndexTuple
  deriving DecidableEq, Repr

def zeroPage : Page := ⟨0, ⟨0, 0, 0⟩, []⟩

def pageInit (specialSize : ℕ) : Page := ⟨BLCKSZ - maxAlign specialSize, ⟨0, 0, 0⟩, []⟩

def itemSpace (t : HnswIndexTuple) : ℕ := maxAlign (sizeofHnswIndexTuple + t.node.length)

def pdLower (p : Page) : ℕ :=
  if p.pdSpecial = 0 then 0 else sizeOfPageHeaderData + sizeofItemIdData * p.items.length

def pdUpper (p : Page) : ℕ := p.pdSpecial - (p.items.map itemSpace).sum

def pageGetFreeSpace (p : Page) : ℕ := pdUpper p - pdLower p - sizeofItemIdData

def pageGetMaxOffsetNumber (p : Page) : ℕ := p.items.length

/-- Append an item after the last line pointer; `none` is `InvalidOffsetNumber`. -/
def pageAddItem (p : Page) (t : HnswIndexTuple) : Option (Page × ℕ) :=
  if pdLower p + sizeofItemIdData + itemSpace t ≤ pdUpper p then
    some ({ p with items := p.items ++ [t] }, p.items.length + 1)
  else none

def FitsFreshPage (nodeBytes : ℕ) : Prop :=
  sizeOfPageHeaderData + sizeofItemIdData + maxAlign (sizeofHnswIndexTuple + nodeBytes) ≤
    BLCKSZ - maxAlign sizeofHnswIndexPageSpecialBlock

instance (nodeBytes : ℕ) : Decidable (FitsFreshPage nodeBytes) :=
  inferInstanceAs (Decidable (_ ≤ _))

theorem pageAddItem_eq_some {p p' : Page} {t : HnswIndexTuple} {off : ℕ}
    (h : pageAddItem p t = some (p', off)) :
    p' = { p with items := p.items ++ [t] } ∧ off = p.items.length + 1 := by
  unfold pageAddItem at h
  split at h
  · cases h
    exact ⟨rfl, rfl⟩
  · cases h

theorem pageAddItem_special (p : Page) (t : HnswIndexTuple) (s : HnswIndexPageSpecialBlock) :
    pageAddItem { p with special := s } t =
      (pageAddItem p t).map fun r => ({ r.1 with special := s }, r.2) := by
  unfold pageAddItem
  change (if pdLower p + _ + _ ≤ pdUpper p then _ else _) = _
  split <;> rfl

theorem pageAddItem_fresh (s : HnswIndexPageSpecialBlock) (t : HnswIndexTuple) :
    pageAddItem ⟨BLCKSZ - maxAlign sizeofHnswIndexPageSpecialBlock, s, []⟩ t =
      if FitsFreshPage t.node.length then
        some (⟨BLCKSZ - maxAlign sizeofHnswIndexPageSpecialBlock, s, [t]⟩, 1)
      else none := by
  unfold pageAddItem FitsFreshPage itemSpace
  rfl

theorem fitsFreshPage_le {n : ℕ} (h : FitsFreshPage n) : n ≤ 8140 := by
  unfold FitsFreshPage sizeOfPageHeaderData sizeofItemIdData sizeofHnswIndexTuple BLCKSZ
    sizeofHnswIndexPageSpecialBlock maxAlign at h
  omega

end Lantern.PageLayout
