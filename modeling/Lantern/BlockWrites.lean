import Mathlib.Data.List.Basic

set_option autoImplicit false

/-!
# Blocks copied into a memory

Blocks are copied to places in a memory, one after the other. Where all of them are
pieces of one picture of the memory, the result is that picture on what they cover,
whatever their order.
-/
namespace Lantern.BlockWrites
variable {α : Type}

structure Block (α : Type) where
  off : ℕ
  data : List α

namespace Block

def stop (b : Block α) : ℕ := b.off + b.data.length

def Covers (b : Block α) (i : ℕ) : Prop := b.off ≤ i ∧ i < b.stop

def PieceOf (b : Block α) (f : ℕ → α) : Prop :=
  ∀ j < b.data.length, b.data[j]? = some (f (b.off + j))

end Block

/-- `memcpy`, with no result if it goes past the end. -/
def write (mem : List α) (b : Block α) : Option (List α) :=
  if b.stop ≤ mem.length then some (mem.take b.off ++ b.data ++ mem.drop b.stop) else none

/-- The memory has the picture where one of the blocks is, and is as before elsewhere. -/
structure Written (blocks : List (Block α)) (f : ℕ → α) (before after : List α) : Prop where
  length_eq : after.length = before.length
  covered : ∀ i, (∃ b ∈ blocks, b.Covers i) → after[i]? = some (f i)
  kept : ∀ i, (¬∃ b ∈ blocks, b.Covers i) → after[i]? = before[i]?

variable {f : ℕ → α} {b : Block α} {mem : List α}

theorem write_piece (hpiece : b.PieceOf f) (hinside : b.stop ≤ mem.length) :
    ∃ after, write mem b = some after ∧ Written [b] f mem after := by
  have hoff : b.off ≤ mem.length := Nat.le_trans (Nat.le_add_right _ _) hinside
  have htake : (mem.take b.off).length = b.off := by rw [List.length_take, Nat.min_eq_left hoff]
  refine ⟨_, if_pos hinside, ?_, ?_, ?_⟩
  · simp only [List.length_append, List.length_drop, htake]
    unfold Block.stop at hinside ⊢
    omega
  · rintro i ⟨c, hc, hlow, hhigh⟩
    obtain rfl := List.mem_singleton.mp hc
    unfold Block.stop at hhigh
    have hj : i - c.off < c.data.length := by omega
    rw [List.getElem?_append_left (by rw [List.length_append, htake]; omega),
      List.getElem?_append_right (by omega), htake, hpiece _ hj, Nat.add_sub_cancel' hlow]
  · intro i hi
    rcases Nat.lt_or_ge i b.off with hlow | hlow
    · rw [List.append_assoc, List.getElem?_append_left (by omega), List.getElem?_take_of_lt hlow]
    · have hhigh : b.stop ≤ i :=
        Nat.le_of_not_lt fun h => hi ⟨b, List.mem_singleton_self b, hlow, h⟩
      have hlength : (mem.take b.off ++ b.data).length = b.stop := by
        rw [List.length_append, htake, Block.stop]
      rw [List.getElem?_append_right (by omega), hlength, List.getElem?_drop,
        Nat.add_sub_cancel' hhigh]

theorem Written.nil : Written [] f mem mem :=
  ⟨rfl, fun _ h => absurd h (by simp), fun _ _ => rfl⟩

variable {blocks : List (Block α)} {before : List α}

theorem Written.concat {middle after : List α} (h : Written blocks f before middle)
    (hb : Written [b] f middle after) : Written (blocks ++ [b]) f before after := by
  have hone : ∀ i, (∃ c ∈ [b], c.Covers i) ↔ b.Covers i := by simp
  have hmore : ∀ i, (∃ c ∈ blocks ++ [b], c.Covers i) ↔
      (∃ c ∈ blocks, c.Covers i) ∨ b.Covers i := by
    simp [or_and_right, exists_or]
  refine ⟨hb.length_eq.trans h.length_eq, fun i hi => ?_, fun i hi => ?_⟩
  · by_cases hlast : b.Covers i
    · exact hb.covered i ((hone i).mpr hlast)
    · rw [hb.kept i (mt (hone i).mp hlast)]
      exact h.covered i (((hmore i).mp hi).resolve_right hlast)
  · obtain ⟨hrest, hlast⟩ := not_or.mp (mt (hmore i).mpr hi)
    rw [hb.kept i (mt (hone i).mp hlast), h.kept i hrest]

theorem Written.eq_of_perm {blocks' : List (Block α)} {after after' : List α}
    (h : Written blocks f before after) (h' : Written blocks' f before after')
    (hperm : blocks.Perm blocks') : after = after' := by
  have hsame : ∀ i, (∃ c ∈ blocks, c.Covers i) ↔ ∃ c ∈ blocks', c.Covers i := fun i => by
    simp only [hperm.mem_iff]
  apply List.ext_getElem?
  intro i
  by_cases hi : ∃ c ∈ blocks, c.Covers i
  · rw [h.covered i hi, h'.covered i ((hsame i).mp hi)]
  · rw [h.kept i hi, h'.kept i (mt (hsame i).mpr hi)]

end Lantern.BlockWrites
