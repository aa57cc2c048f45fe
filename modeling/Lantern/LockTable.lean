import Mathlib.Tactic

set_option autoImplicit false

/-!
# Shared and exclusive locks, and who waits for whom

Owners hold locks on resources and each waits for at most one more. The rule at the end
excludes circular waits: an owner that waits while it holds anything holds one common
key, and exclusively as soon as it holds anything else.
-/
namespace Lantern.LockTable

variable {P B π : Type}

inductive Mode where
  | share
  | exclusive
  deriving DecidableEq, Repr

structure Lock (B : Type) where
  resource : B
  mode : Mode
  deriving DecidableEq, Repr

/-- `proc` is where the owner's code continues, once a wait is over. -/
structure Owner (B π : Type) where
  proc : π
  held : List (Lock B)
  waiting : Option (Lock B)

def Exclusive (os : P → Owner B π) : Prop :=
  ∀ p q, p ≠ q → ∀ h ∈ (os p).held, ∀ h' ∈ (os q).held, h.resource = h'.resource →
    h.mode = .share ∧ h'.mode = .share

def CanGrant (os : P → Owner B π) (p : P) (l : Lock B) : Prop :=
  ∀ q, q ≠ p → ∀ h ∈ (os q).held, h.resource = l.resource → h.mode = .share ∧ l.mode = .share

instance [Fintype P] [DecidableEq P] [DecidableEq B] (os : P → Owner B π) (p : P) (l : Lock B) :
    Decidable (CanGrant os p l) := by
  unfold CanGrant
  infer_instance

def grant [Fintype P] [DecidableEq P] [DecidableEq B] (os : P → Owner B π) (p : P) :
    Option (P → Owner B π) :=
  match (os p).waiting with
  | none => none
  | some l =>
    if CanGrant os p l then
      some (Function.update os p { os p with held := (os p).held ++ [l], waiting := none })
    else none

def Owner.release [DecidableEq B] (o : Owner B π) (b : B) (next : π) : Owner B π :=
  { o with proc := next, held := o.held.filter fun h => h.resource ≠ b }

def WaitsFor (os : P → Owner B π) (p q : P) : Prop :=
  ∃ l, (os p).waiting = some l ∧ ∃ h ∈ (os q).held, h.resource = l.resource

variable {os : P → Owner B π}

theorem grant_eq_some [Fintype P] [DecidableEq P] [DecidableEq B] {os' : P → Owner B π} {p : P} :
    grant os p = some os' ↔ ∃ l, (os p).waiting = some l ∧ CanGrant os p l ∧
      os' = Function.update os p { os p with held := (os p).held ++ [l], waiting := none } := by
  unfold grant
  cases (os p).waiting with
  | none => simp
  | some l =>
    simp only [Option.ite_none_right_eq_some, Option.some.injEq, exists_eq_left']
    exact ⟨fun h => ⟨h.1, h.2.symm⟩, fun h => ⟨h.1, h.2.symm⟩⟩

theorem Exclusive.update [DecidableEq P] (h : Exclusive os) {p : P} {o : Owner B π}
    (hnew : ∀ l ∈ o.held, l ∈ (os p).held ∨ CanGrant os p l) :
    Exclusive (Function.update os p o) := by
  have hone : ∀ q, q ≠ p → ∀ l ∈ o.held, ∀ k ∈ (os q).held, l.resource = k.resource →
      l.mode = .share ∧ k.mode = .share := by
    intro q hq l hl k hk he
    rcases hnew l hl with hold | hgrant
    · exact h p q hq.symm l hold k hk he
    · exact (hgrant q hq k hk he.symm).symm
  intro q r hqr l hl k hk he
  by_cases hq : q = p
  · subst hq
    rw [Function.update_self] at hl
    rw [Function.update_of_ne hqr.symm] at hk
    exact hone r hqr.symm l hl k hk he
  · rw [Function.update_of_ne hq] at hl
    by_cases hr : r = p
    · subst hr
      rw [Function.update_self] at hk
      exact (hone q hq k hk l hl he.symm).symm
    · rw [Function.update_of_ne hr] at hk
      exact h q r hqr l hl k hk he

theorem release_held [DecidableEq B] (o : Owner B π) (b : B) (next : π) :
    ∀ l ∈ (o.release b next).held, l ∈ o.held := fun _ hl => List.mem_of_mem_filter hl

theorem filter_concat_self [DecidableEq B] {ls : List (Lock B)} {l : Lock B}
    (h : l.resource ∉ ls.map Lock.resource) :
    (ls ++ [l]).filter (fun k => k.resource ≠ l.resource) = ls := by
  rw [List.filter_append, List.filter_eq_self.mpr]
  · simp
  · intro k hk
    simp only [ne_eq, decide_eq_true_eq]
    exact fun he => h (he ▸ List.mem_map_of_mem hk)

theorem cycle_edge {r : P → P → Prop} {p : P} (h : Relation.TransGen r p p) :
    ∃ a b, r a b ∧ (∃ c, r c a) ∧ ∃ d, r b d := by
  obtain ⟨b, hpb, hbp⟩ := Relation.TransGen.head'_iff.mp h
  obtain ⟨c, -, hcp⟩ := Relation.TransGen.tail'_iff.mp h
  refine ⟨p, b, hpb, ⟨c, hcp⟩, ?_⟩
  rcases Relation.ReflTransGen.cases_head hbp with rfl | ⟨d, hbd, -⟩
  · exact ⟨_, hpb⟩
  · exact ⟨d, hbd⟩

/-- An owner that waits with locks in hand has the key, alone if it has more. -/
structure Keyed (os : P → Owner B π) (key : B) : Prop where
  exclusive : Exclusive os
  fresh : ∀ p l, (os p).waiting = some l → ∀ h ∈ (os p).held, h.resource ≠ l.resource
  key_held : ∀ p l h, (os p).waiting = some l → h ∈ (os p).held →
    ∃ k ∈ (os p).held, k.resource = key
  key_alone : ∀ p l h, (os p).waiting = some l → h ∈ (os p).held → h.resource ≠ key →
    ∃ k ∈ (os p).held, k.resource = key ∧ k.mode = .exclusive

theorem Keyed.no_cycle {key : B} (hk : Keyed os key) (p : P) :
    ¬Relation.TransGen (WaitsFor os) p p := by
  intro hcycle
  obtain ⟨a, b, ⟨l, hwait, h, hheld, hres⟩, ⟨c, -, -, ha, hamem, -⟩, ⟨d, lb, hbwait, -⟩⟩ :=
    cycle_edge hcycle
  -- `a` waits with a lock in hand, so it has the key and waits for something else
  obtain ⟨ka, hka, hkey⟩ := hk.key_held a l ha hwait hamem
  have hne : h.resource ≠ key := by
    intro he
    exact hk.fresh a l hwait ka hka (hkey.trans (he.symm.trans hres))
  obtain ⟨kb, hkb, hkeyb, hmode⟩ := hk.key_alone b lb h hbwait hheld hne
  by_cases hab : a = b
  · subst hab
    exact hk.fresh a l hwait h hheld hres
  · have hshare := (hk.exclusive a b hab ka hka kb hkb (hkey.trans hkeyb.symm)).2
    rw [hmode] at hshare
    cases hshare

end Lantern.LockTable
