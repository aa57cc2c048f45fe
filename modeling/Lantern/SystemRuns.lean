import Mathlib.Tactic

set_option autoImplicit false

/-!
# Transition systems and their runs

A system is a set of initial states with a step relation. Systems whose steps
are chosen by an action have an executable step function, so that a particular
run can be evaluated.
-/
namespace Lantern.SystemRuns

variable {σ α : Type}

structure System (σ : Type) where
  init : σ → Prop
  step : σ → σ → Prop

inductive Reachable (S : System σ) : σ → Prop where
  | start {s : σ} (h : S.init s) : Reachable S s
  | next {s t : σ} (h : Reachable S s) (hs : S.step s t) : Reachable S t

theorem Reachable.invariant {S : System σ} (I : σ → Prop) (init : ∀ s, S.init s → I s)
    (step : ∀ s t, I s → S.step s t → I t) {s : σ} (h : Reachable S s) : I s := by
  induction h with
  | start h => exact init _ h
  | next _ hs ih => exact step _ _ ih hs

/-- Steps chosen by an action, of which only those that `ok` admits are taken. -/
def actionSystem (init : σ → Prop) (step : σ → α → Option σ) (ok : σ → α → Prop) : System σ where
  init := init
  step := fun s t => ∃ a, ok s a ∧ step s a = some t

def runActions (step : σ → α → Option σ) : σ → List α → Option σ
  | s, [] => some s
  | s, a :: as => (step s a).bind fun t => runActions step t as

theorem runActions_append {step : σ → α → Option σ} {s t u : σ} {as bs : List α}
    (h : runActions step s as = some t) (h' : runActions step t bs = some u) :
    runActions step s (as ++ bs) = some u := by
  induction as generalizing s with
  | nil =>
    cases h
    exact h'
  | cons a as ih =>
    obtain ⟨v, hv, ht⟩ := Option.bind_eq_some_iff.mp h
    exact Option.bind_eq_some_iff.mpr ⟨v, hv, ih ht⟩

theorem reachable_runActions {init : σ → Prop} {step : σ → α → Option σ}
    {ok : σ → α → Prop} {s t : σ} {as : List α} (hs : Reachable (actionSystem init step ok) s)
    (hok : ∀ a ∈ as, ∀ u, ok u a) (h : runActions step s as = some t) :
    Reachable (actionSystem init step ok) t := by
  induction as generalizing s with
  | nil =>
    cases h
    exact hs
  | cons a as ih =>
    obtain ⟨u, hu, ht⟩ := Option.bind_eq_some_iff.mp h
    exact ih (.next hs ⟨a, hok a List.mem_cons_self s, hu⟩)
      (fun b hb => hok b (List.mem_cons_of_mem _ hb)) ht

/-- Forward simulation: each step of one system is a run of the other. -/
theorem Reachable.simulated {τ β : Type} {S : System σ} {init : τ → Prop} {step : τ → β → Option τ}
    (R : σ → τ → Prop)
    (hinit : ∀ s, S.init s → ∃ t, R s t ∧ Reachable (actionSystem init step fun _ _ => True) t)
    (hstep : ∀ s s' t, R s t → S.step s s' → ∃ bs t', runActions step t bs = some t' ∧ R s' t')
    {s : σ} (h : Reachable S s) : ∃ t, R s t ∧
      Reachable (actionSystem init step fun _ _ => True) t := by
  induction h with
  | start h => exact hinit _ h
  | next _ hs ih =>
    obtain ⟨t, hR, ht⟩ := ih
    obtain ⟨bs, t', hrun, hR'⟩ := hstep _ _ t hR hs
    exact ⟨t', hR', reachable_runActions ht (fun _ _ _ => trivial) hrun⟩

def admittedStep (step : σ → α → Option σ) (ok : σ → α → Prop) [∀ s a, Decidable (ok s a)]
    (s : σ) (a : α) :
    Option σ :=
  if ok s a then step s a else none

theorem reachable_admitted {init : σ → Prop} {step : σ → α → Option σ} {ok : σ → α → Prop}
    [∀ s a, Decidable (ok s a)] {s t : σ} {as : List α}
    (hs : Reachable (actionSystem init step ok) s)
    (h : runActions (admittedStep step ok) s as = some t) :
    Reachable (actionSystem init step ok) t := by
  induction as generalizing s with
  | nil =>
    cases h
    exact hs
  | cons a as ih =>
    obtain ⟨u, hu, ht⟩ := Option.bind_eq_some_iff.mp h
    unfold admittedStep at hu
    split_ifs at hu with hok
    exact ih (.next hs ⟨a, hok, hu⟩) ht

theorem runActions_length_le {step : σ → α → Option σ} (μ : σ → ℕ)
    (decreases : ∀ s a t, step s a = some t → μ t < μ s) {s t : σ} {as : List α}
    (h : runActions step s as = some t) : as.length ≤ μ s := by
  induction as generalizing s with
  | nil => exact Nat.zero_le _
  | cons a as ih =>
    obtain ⟨u, hu, ht⟩ := Option.bind_eq_some_iff.mp h
    have hle := ih ht
    have hlt := decreases s a u hu
    rw [List.length_cons]
    omega

end Lantern.SystemRuns
