import Mathlib.Tactic

set_option autoImplicit false

/-!
# Locks and what is held under them

Items are marked when they are taken and unmarked when they are let go. The marks are in
balance with the items held if the marked items are those held, each of them once.
-/
namespace Lantern.LockLedger

variable {α : Type}

structure Balanced (marked : α → Bool) (held : Multiset α) : Prop where
  nodup : held.Nodup
  marked_iff : ∀ a, marked a = true ↔ a ∈ held

variable {marked : α → Bool} {held : Multiset α}

theorem balanced_empty (h : ∀ a, marked a = false) : Balanced marked 0 :=
  ⟨Multiset.nodup_zero, fun a => by simp [h a]⟩

theorem Balanced.take [DecidableEq α] (h : Balanced marked held) {a : α} (ha : marked a = false) :
    Balanced (Function.update marked a true) (a ::ₘ held) := by
  have hnot : a ∉ held := by
    intro hmem
    rw [(h.marked_iff a).mpr hmem] at ha
    cases ha
  refine ⟨Multiset.nodup_cons.mpr ⟨hnot, h.nodup⟩, fun b => ?_⟩
  rw [Multiset.mem_cons]
  by_cases hb : b = a
  · subst hb
    simp
  · rw [Function.update_of_ne hb, h.marked_iff]
    simp [hb]

theorem Balanced.release {gone : List α} {marked' : α → Bool} (h : Balanced marked (gone + held))
    (hmarked : ∀ a, marked' a = true ↔ marked a = true ∧ a ∉ gone) : Balanced marked' held := by
  have hdisjoint := (Multiset.nodup_add.mp h.nodup).2.2
  refine ⟨(Multiset.nodup_add.mp h.nodup).2.1, fun a => ?_⟩
  rw [hmarked, h.marked_iff, Multiset.mem_add, Multiset.mem_coe]
  constructor
  · rintro ⟨hgone | hheld, hnot⟩
    · exact absurd hgone hnot
    · exact hheld
  · intro hheld
    exact ⟨Or.inr hheld, fun hgone =>
      Multiset.disjoint_left.mp hdisjoint (Multiset.mem_coe.mpr hgone) hheld⟩

theorem Balanced.leak_iff {gone : List α} (h : Balanced marked (gone + held)) :
    Balanced marked held ↔ gone = [] := by
  constructor
  · intro hheld
    apply List.eq_nil_iff_forall_not_mem.mpr
    intro a ha
    have hmem : a ∈ held := by
      rw [← hheld.marked_iff, h.marked_iff]
      exact Multiset.mem_add.mpr (Or.inl ha)
    exact Multiset.disjoint_left.mp (Multiset.nodup_add.mp h.nodup).2.2
      (Multiset.mem_coe.mpr ha) hmem
  · rintro rfl
    rw [Multiset.coe_nil, zero_add] at h
    exact h

theorem Balanced.copy_iff {new : List α} (h : Balanced marked held) :
    Balanced marked (new + held) ↔ new = [] := by
  constructor
  · intro hnew
    exact hnew.leak_iff.mp h
  · rintro rfl
    rw [Multiset.coe_nil, zero_add]
    exact h

end Lantern.LockLedger
