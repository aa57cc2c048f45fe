import Lantern.IndexRuns

set_option autoImplicit false

/-!
# Nodes whose neighbours exist

What usearch may write into a node, and that such a write leaves a node whose
neighbour lists stay in their rooms and name existing tuples only.
-/
namespace Lantern.NodeEdits
open FuelLoop ByteStrings NodeLayout PageLayout IndexRelation PageChain StoreRewrite InsertTuple

variable {md : Metadata} {ex : ItemPointerData → Prop}

/-- `ex` tells which item pointers lead to a tuple. -/
structure NodeOk (md : Metadata) (ex : ItemPointerData → Prop) (node : List UInt8) : Prop where
  size_le : nodeSizeBytes md (levelFromNode node) ≤ node.length
  lists_fit : ∀ l ≤ levelFromNode node, 4 + 6 * neighborsCount md node l ≤ neighborsRoom md l
  slots : ∀ l ≤ levelFromNode node, ∀ j < neighborsCount md node l,
    ex (slotItemPointer node (slotOffset md l j))

variable {node : List UInt8} {slots : List ItemPointerData}

theorem NodeOk.mono {ex' : ItemPointerData → Prop} (h : NodeOk md ex node)
    (hex : ∀ tid, ex tid → ex' tid) : NodeOk md ex' node :=
  ⟨h.size_le, h.lists_fit, fun l hl j hj => hex _ (h.slots l hl j hj)⟩

def HasCounts (md : Metadata) : Prop := 4 ≤ md.neighborsBaseBytes ∧ 4 ≤ md.neighborsBytes

theorem HasCounts.room (h : HasCounts md) (l : ℕ) : 4 ≤ neighborsRoom md l := by
  cases l with
  | zero => exact h.1
  | succ l => exact h.2

/-- The writes usearch makes: vectors behind the lists, lists of levels that
    the node has, with room for them and existing tuples in them. -/
def EditFits (md : Metadata) (ex : ItemPointerData → Prop) : NodeEdit → List UInt8 → Prop
  | .storeVector bytes, node => nodeSizeBytes md (levelFromNode node) + bytes.length ≤ node.length
  | .setNeighbors level slots, node => level ≤ levelFromNode node ∧ slots.length < 2 ^ 32 ∧
      4 + 6 * slots.length ≤ neighborsRoom md level ∧ ∀ tid ∈ slots, ex tid

theorem EditFits.mono {ex' : ItemPointerData → Prop} {e : NodeEdit} (h : EditFits md ex e node)
    (hex : ∀ tid, ex tid → ex' tid) : EditFits md ex' e node := by
  cases e with
  | storeVector bytes => exact h
  | setNeighbors level slots =>
    obtain ⟨hl, hlen, hroom, hslots⟩ := h
    exact ⟨hl, hlen, hroom, fun tid htid => hex tid (hslots tid htid)⟩

theorem flatMap_itemPointerBytes_length (slots : List ItemPointerData) :
    (slots.flatMap itemPointerBytes).length = 6 * slots.length := by
  induction slots with
  | nil => rfl
  | cons p slots ih =>
    rw [List.flatMap_cons, List.length_append, itemPointerBytes_length, ih, List.length_cons]
    omega

theorem neighborListBytes_length (slots : List ItemPointerData) :
    (neighborListBytes slots).length = 4 + 6 * slots.length := by
  rw [neighborListBytes, List.length_append, leBytes_length, flatMap_itemPointerBytes_length]

theorem slice_flatMap_itemPointerBytes {j : ℕ} {p : ItemPointerData} (h : slots[j]? = some p) :
    slice (6 * j) 6 (slots.flatMap itemPointerBytes) = itemPointerBytes p := by
  induction slots generalizing j with
  | nil => simp at h
  | cons q slots ih =>
    rw [List.flatMap_cons]
    cases j with
    | zero =>
      obtain rfl : q = p := by simpa using h
      have hw := slice_whole (itemPointerBytes q)
      rw [itemPointerBytes_length] at hw
      rw [Nat.mul_zero, slice_append_left (by simp), hw]
    | succ j =>
      have hs := slice_append_right (6 * j) 6 (itemPointerBytes q) (slots.flatMap itemPointerBytes)
      rw [itemPointerBytes_length] at hs
      rw [show 6 * (j + 1) = 6 + 6 * j by omega, hs]
      exact ih (by simpa using h)

theorem slice_neighborListBytes {j : ℕ} {p : ItemPointerData} (h : slots[j]? = some p) :
    slice (4 + 6 * j) 6 (neighborListBytes slots) = itemPointerBytes p := by
  have hs := slice_append_right (6 * j) 6 (leBytes 4 slots.length) (slots.flatMap itemPointerBytes)
  rw [leBytes_length] at hs
  rw [neighborListBytes, hs, slice_flatMap_itemPointerBytes h]

theorem count_neighborListBytes (h : slots.length < 2 ^ 32) :
    leNat (slice 0 4 (neighborListBytes slots)) = slots.length := by
  have hw := slice_whole (leBytes 4 slots.length)
  rw [leBytes_length] at hw
  rw [neighborListBytes, slice_append_left (by simp), hw, leNat_leBytes_of_lt (by simpa using h)]

theorem slice_patch_inside {off a b : ℕ} {w bs : List UInt8} (h : off + w.length ≤ bs.length)
    (hab : a + b ≤ w.length) : slice (off + a) b (patch off w bs) = slice a b w := by
  rw [← slice_slice hab, slice_patch_self h]

theorem list_congr {node' : List UInt8} {l : ℕ} (hcount : 4 ≤ neighborsRoom md l)
    (h : ∀ a b, neighborsOffset md l ≤ a → a + b ≤ neighborsOffset md (l + 1) →
      slice a b node' = slice a b node) :
    neighborsCount md node' l = neighborsCount md node l ∧
      ∀ j, 4 + 6 * (j + 1) ≤ neighborsRoom md l →
        slotItemPointer node' (slotOffset md l j) = slotItemPointer node (slotOffset md l j) := by
  have hend := neighborsOffset_room md l
  refine ⟨?_, fun j hj => ?_⟩
  · rw [neighborsCount, neighborsCount, h _ _ (le_refl _) (by omega)]
  · rw [slotItemPointer, slotItemPointer, slotOffset, h _ _ (by omega) (by omega)]

theorem NodeOk.storeVector {bytes : List UInt8} (hmd : HasCounts md) (h : NodeOk md ex node)
    (hfit : nodeSizeBytes md (levelFromNode node) + bytes.length ≤ node.length) :
    NodeOk md ex (NodeEdit.apply md (.storeVector bytes) node) := by
  have hbelow : ∀ a b, a + b ≤ nodeSizeBytes md (levelFromNode node) →
      slice a b (NodeEdit.apply md (.storeVector bytes) node) = slice a b node :=
    fun a b hab => slice_patch_disjoint hfit (.inl hab)
  have hhead : 10 ≤ nodeSizeBytes md (levelFromNode node) := by
    simp only [nodeSizeBytes, nodeHeadBytes]
    omega
  have hlevel :
      levelFromNode (NodeEdit.apply md (.storeVector bytes) node) = levelFromNode node := by
    rw [levelFromNode, levelFromNode, hbelow 8 2 (by omega)]
  have hlist : ∀ l ≤ levelFromNode node, neighborsCount md _ l = _ ∧ _ := fun l hl =>
    list_congr (hmd.room l) fun a b _ hab => hbelow a b
      (hab.trans ((neighborsOffset_mono md (Nat.succ_le_succ hl)).trans
        (le_of_eq (neighborsOffset_end md _))))
  refine ⟨?_, ?_, ?_⟩
  · rw [hlevel]
    exact h.size_le.trans (le_of_eq (patch_length hfit).symm)
  · intro l hl
    rw [hlevel] at hl
    rw [(hlist l hl).1]
    exact h.lists_fit l hl
  · intro l hl j hj
    rw [hlevel] at hl
    rw [(hlist l hl).1] at hj
    have hfit := h.lists_fit l hl
    rw [(hlist l hl).2 j (by omega)]
    exact h.slots l hl j hj

theorem NodeOk.setNeighbors {level : ℕ} (hmd : HasCounts md)
    (hbytes : ∀ tid, ex tid → itemPointerOfBytes (itemPointerBytes tid) = tid)
    (h : NodeOk md ex node) (hfit : EditFits md ex (.setNeighbors level slots) node) :
    NodeOk md ex (NodeEdit.apply md (.setNeighbors level slots) node) := by
  obtain ⟨hl, hlen, hroom, hex⟩ := hfit
  have hw := neighborListBytes_length slots
  have hend := neighborsOffset_room md level
  have hsize := neighborsOffset_mono md (Nat.succ_le_succ hl)
  rw [Nat.succ_eq_add_one, Nat.succ_eq_add_one,
    neighborsOffset_end md (levelFromNode node)] at hsize
  have hin : neighborsOffset md level + (neighborListBytes slots).length ≤ node.length := by
    have := h.size_le
    omega
  have hhead := headBytes_le_neighborsOffset md level
  have hlevel : levelFromNode (NodeEdit.apply md (.setNeighbors level slots) node) =
      levelFromNode node := by
    rw [levelFromNode, levelFromNode]
    exact congrArg leNat (slice_patch_disjoint hin (.inl hhead))
  have hown : neighborsCount md (NodeEdit.apply md (.setNeighbors level slots) node) level =
      slots.length := by
    have hs := @slice_patch_inside (neighborsOffset md level) 0 4 _ _ hin (by omega)
    rw [← count_neighborListBytes hlen, ← hs]
    rfl
  have hother :
      ∀ l ≠ level, neighborsCount md (NodeEdit.apply md (.setNeighbors level slots) node) l =
      neighborsCount md node l ∧ ∀ j, 4 + 6 * (j + 1) ≤ neighborsRoom md l →
        slotItemPointer (NodeEdit.apply md (.setNeighbors level slots) node) (slotOffset md l j) =
          slotItemPointer node (slotOffset md l j) := by
    intro l hne
    refine list_congr (hmd.room l) fun a b ha hab => slice_patch_disjoint hin ?_
    rcases Nat.lt_or_gt_of_ne hne with hlt | hgt
    · exact .inl (hab.trans (neighborsOffset_mono md hlt))
    · exact .inr ((by omega : _ ≤ neighborsOffset md (level + 1)).trans
        ((neighborsOffset_mono md hgt).trans ha))
  refine ⟨?_, ?_, ?_⟩
  · rw [hlevel]
    exact h.size_le.trans (le_of_eq (patch_length hin).symm)
  · intro l hl'
    rw [hlevel] at hl'
    by_cases he : l = level
    · rw [he, hown]
      exact hroom
    · rw [(hother l he).1]
      exact h.lists_fit l hl'
  · intro l hl' j hj
    rw [hlevel] at hl'
    by_cases he : l = level
    · rw [he, hown] at hj
      have hget := List.getElem?_eq_getElem hj
      have hslot : slotItemPointer (NodeEdit.apply md (.setNeighbors level slots) node)
          (slotOffset md level j) = slots[j] := by
        rw [← hbytes _ (hex _ (List.getElem_mem hj)), ← slice_neighborListBytes hget,
          slotItemPointer, slotOffset, Nat.add_assoc]
        exact congrArg itemPointerOfBytes (slice_patch_inside hin (by omega))
      rw [he, hslot]
      exact hex _ (List.getElem_mem hj)
    · rw [(hother l he).1] at hj
      have hfit := h.lists_fit l hl'
      rw [(hother l he).2 j (by omega)]
      exact h.slots l hl' j hj

theorem NodeOk.apply {e : NodeEdit} (hmd : HasCounts md)
    (hbytes : ∀ tid, ex tid → itemPointerOfBytes (itemPointerBytes tid) = tid)
    (h : NodeOk md ex node) (hfit : EditFits md ex e node) : NodeOk md ex (e.apply md node) := by
  cases e with
  | storeVector bytes => exact h.storeVector hmd hfit
  | setNeighbors level slots => exact h.setNeighbors hmd hbytes hfit

theorem nodeOk_of_zeros (hmd : HasCounts md)
    (hsize : nodeSizeBytes md (levelFromNode node) ≤ node.length)
    (hzero : ∀ i ≥ nodeHeadBytes, i < node.length → node[i]? = some 0) : NodeOk md ex node := by
  have hcount : ∀ l, neighborsCount md node l = 0 := by
    intro l
    have hz : ∀ bs : List UInt8, (∀ x ∈ bs, x = 0) → leNat bs = 0 := by
      intro bs hbs
      induction bs with
      | nil => rfl
      | cons x bs ih =>
        rw [leNat, hbs x List.mem_cons_self, ih fun y hy => hbs y (List.mem_cons_of_mem _ hy)]
        rfl
    refine hz _ fun x hx => ?_
    obtain ⟨i, hi⟩ := List.mem_iff_getElem?.mp hx
    rw [slice_getElem?] at hi
    split at hi
    · have hoff := headBytes_le_neighborsOffset md l
      have hlt := (List.getElem?_eq_some_iff.mp hi).1
      rw [hzero _ (by omega) hlt] at hi
      exact (Option.some.inj hi).symm
    · cases hi
  refine ⟨hsize, fun l _ => ?_, fun l _ j hj => ?_⟩
  · rw [hcount l]
    exact hmd.room l
  · rw [hcount l] at hj
    exact absurd hj (Nat.not_lt_zero j)

theorem usearchNodeBytes_ge (md : Metadata) (vectorByteCount level : ℕ) :
    nodeSizeBytes md level ≤ usearchNodeBytes md vectorByteCount level := by
  unfold nodeSizeBytes usearchNodeBytes
  omega

theorem nodeOk_replicate (hmd : HasCounts md) (vectorByteCount level : ℕ) :
    NodeOk md ex (List.replicate (usearchNodeBytes md vectorByteCount level) 0) := by
  have hlevel : ∀ n, levelFromNode (List.replicate n 0) = 0 := by
    intro n
    have hslice : slice 8 2 (List.replicate n (0 : UInt8)) = List.replicate (min 2 (n - 8)) 0 := by
      simp [slice]
    rw [levelFromNode, hslice]
    rcases Nat.lt_or_ge (n - 8) 1 with h | h
    · rw [show min 2 (n - 8) = 0 by omega]
      rfl
    · rcases Nat.lt_or_ge (n - 8) 2 with h' | h'
      · rw [show min 2 (n - 8) = 1 by omega]
        rfl
      · rw [show min 2 (n - 8) = 2 by omega]
        rfl
  refine nodeOk_of_zeros hmd ?_ fun i _ hi => ?_
  · rw [hlevel, List.length_replicate]
    have hmono : nodeSizeBytes md 0 ≤ nodeSizeBytes md level := by
      simp only [nodeSizeBytes]
      omega
    exact hmono.trans (usearchNodeBytes_ge md vectorByteCount level)
  · rw [List.length_replicate] at hi
    simp [hi]

theorem nodeOk_usearchInitNode (hmd : HasCounts md) (vectorByteCount label : ℕ) {level : ℕ}
    (hlevel : level < 2 ^ 16) :
    NodeOk md ex (usearchInitNode (usearchNodeBytes md vectorByteCount level) label level) := by
  have hsize := usearchNodeBytes_ge md vectorByteCount level
  have hhead : nodeHeadBytes ≤ nodeSizeBytes md level := by
    simp only [nodeSizeBytes]
    omega
  have hlen : (usearchInitNode (usearchNodeBytes md vectorByteCount level) label level).length =
      usearchNodeBytes md vectorByteCount level := by
    simp only [usearchInitNode, List.length_append, leBytes_length, List.length_replicate]
    simp only [nodeHeadBytes] at hhead ⊢
    omega
  have hread :
      levelFromNode (usearchInitNode (usearchNodeBytes md vectorByteCount level) label level) =
      level := by
    have hs := slice_append_right 0 2 (leBytes 8 label) (leBytes 2 level)
    have hw := slice_whole (leBytes 2 level)
    rw [leBytes_length] at hs hw
    rw [levelFromNode, usearchInitNode, slice_append_left (by simp), hs, hw]
    exact leNat_leBytes_of_lt (by simpa using hlevel)
  refine nodeOk_of_zeros hmd ?_ fun i hi hlt => ?_
  · rw [hread, hlen]
    exact hsize
  · rw [hlen] at hlt
    rw [usearchInitNode, List.getElem?_append_right (by simpa [nodeHeadBytes] using hi)]
    simp only [List.length_append, leBytes_length, nodeHeadBytes] at hi ⊢
    rw [List.getElem?_replicate, if_pos (by omega)]

theorem nodeOk_of_rewritten {dim n : ℕ} {ips : ℕ → ItemPointerData} {node' : List UInt8}
    (hwf : WellFormedNode md dim node) (h : NodeRewritten md ips node node')
    (hslots : ∀ l ≤ levelFromNode node, ∀ j < neighborsCount md node l,
      slotSeqid node (slotOffset md l j) < n) (hex : ∀ i < n, ex (ips i)) : NodeOk md ex node' := by
  have hhead : ∀ l, nodeHeadBytes ≤ neighborsOffset md l := headBytes_le_neighborsOffset md
  have hlevel : levelFromNode node' = levelFromNode node := by
    refine congrArg leNat (slice_congr fun i _ hi => h.others i fun l _ j _ hc => ?_)
    have := hhead l
    simp only [slotOffset, nodeHeadBytes] at hc this
    omega
  -- a count lies behind the lists of the lower levels and before its own slots
  have hcount : ∀ l ≤ levelFromNode node, neighborsCount md node' l = neighborsCount md node l := by
    intro l hl
    refine congrArg leNat (slice_congr fun i hi hi' => h.others i fun l' hl' j hj hc => ?_)
    have hfit := hwf.lists_fit l' hl'
    have hend := neighborsOffset_room md l'
    simp only [slotOffset] at hc
    have hroom := hwf.lists_fit l hl
    have hend' := neighborsOffset_room md l
    rcases Nat.lt_trichotomy l' l with hlt | rfl | hgt
    · have := neighborsOffset_mono md hlt
      rw [Nat.succ_eq_add_one] at this
      omega
    · omega
    · have := neighborsOffset_mono md hgt
      rw [Nat.succ_eq_add_one] at this
      omega
  refine ⟨?_, ?_, ?_⟩
  · rw [hlevel, h.length_eq, hwf.size_eq, nodeTupleSize]
    exact Nat.le_add_right _ _
  · intro l hl
    rw [hlevel] at hl
    rw [hcount l hl]
    exact hwf.lists_fit l hl
  · intro l hl j hj
    rw [hlevel] at hl
    rw [hcount l hl] at hj
    rw [h.slots l hl j hj]
    exact hex _ (hslots l hl j hj)

end Lantern.NodeEdits
