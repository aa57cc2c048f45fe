import Mathlib.Tactic

set_option autoImplicit false

/-!
# Computations that may fault, and loops over them

`Outcome` is a result, a fault, or no answer within the fuel given. `loop` is a
`while` loop whose condition is tested at most `fuel` times; more fuel never
changes an answer already given.
-/
namespace Lantern.FuelLoop

inductive Outcome (ε α : Type) where
  | done (a : α)
  | fault (e : ε)
  | unfinished
  deriving DecidableEq, Repr

variable {ε α β γ σ : Type}

variable {x : Outcome ε α} {s : σ}

namespace Outcome

def bind (x : Outcome ε α) (f : α → Outcome ε β) : Outcome ε β :=
  match x with
  | .done a => f a
  | .fault e => .fault e
  | .unfinished => .unfinished

def map (f : α → β) (x : Outcome ε α) : Outcome ε β := x.bind fun a => .done (f a)

instance : Monad (Outcome ε) where
  pure := .done
  bind := Outcome.bind

@[simp] theorem pure_eq (a : α) : (pure a : Outcome ε α) = .done a := rfl
@[simp] theorem monad_bind_eq (x : Outcome ε α) (f : α → Outcome ε β) : (x >>= f) = x.bind f := rfl
@[simp] theorem bind_done (a : α) (f : α → Outcome ε β) : (done a : Outcome ε α).bind f = f a := rfl
@[simp] theorem bind_fault (e : ε) (f : α → Outcome ε β) :
    (fault e : Outcome ε α).bind f = fault e := rfl
@[simp] theorem bind_unfinished (f : α → Outcome ε β) :
    (unfinished : Outcome ε α).bind f = unfinished := rfl

theorem bind_assoc (x : Outcome ε α) (f : α → Outcome ε β) (g : β → Outcome ε γ) :
    (x.bind f).bind g = x.bind fun a => (f a).bind g := by
  cases x <;> rfl

theorem bind_eq_done {f : α → Outcome ε β} {b : β} :
    x.bind f = done b ↔ ∃ a, x = done a ∧ f a = done b := by
  cases x <;> simp

@[simp] theorem map_done (f : α → β) (a : α) : map f (done a : Outcome ε α) = done (f a) := rfl
@[simp] theorem map_fault (f : α → β) (e : ε) : map f (fault e : Outcome ε α) = fault e := rfl

theorem map_eq_done {f : α → β} {b : β} :
    map f x = done b ↔ ∃ a, x = done a ∧ f a = b := by
  cases x <;> simp [map]

theorem map_bind (f : α → β) (x : Outcome ε γ) (g : γ → Outcome ε α) :
    map f (x.bind g) = x.bind fun c => map f (g c) := by
  cases x <;> rfl

theorem map_map (f : α → β) (g : β → γ) (x : Outcome ε α) :
    map g (map f x) = map (fun a => g (f a)) x := by
  cases x <;> rfl

theorem bind_map (f : α → β) (x : Outcome ε α) (g : β → Outcome ε γ) :
    (map f x).bind g = x.bind fun a => g (f a) := by
  cases x <;> rfl

theorem bind_eq_bind_of_map_eq {f : α → γ} {y : Outcome ε α} {g k : α → Outcome ε β}
    (h : map f x = map f y) (hk : ∀ a b, x = done a → y = done b → f a = f b → g a = k b) :
    x.bind g = y.bind k := by
  cases x <;> cases y <;> simp_all [map]

end Outcome

def foldSteps (f : σ → α → Outcome ε σ) : List α → σ → Outcome ε σ
  | [], s => .done s
  | a :: as, s => (f s a).bind (foldSteps f as)

theorem foldSteps_append (f : σ → α → Outcome ε σ) (xs ys : List α) (s : σ) :
    foldSteps f (xs ++ ys) s = (foldSteps f xs s).bind (foldSteps f ys) := by
  induction xs generalizing s with
  | nil => rfl
  | cons x xs ih =>
    have hf : foldSteps f (xs ++ ys) = fun t => (foldSteps f xs t).bind (foldSteps f ys) :=
      funext ih
    simp only [List.cons_append, foldSteps, hf, Outcome.bind_assoc]

theorem foldSteps_invariant {f : σ → α → Outcome ε σ} (I : List α → σ → Prop) {xs : List α}
    (seen : List α) (step : ∀ seen s a t, a ∈ xs → I seen s → f s a = .done t → I (seen ++ [a]) t)
    {t : σ} (hs : I seen s) (h : foldSteps f xs s = .done t) :
    I (seen ++ xs) t := by
  induction xs generalizing seen s with
  | nil =>
    simp only [foldSteps, Outcome.done.injEq] at h
    subst h
    simpa using hs
  | cons x xs ih =>
    obtain ⟨u, hu, ht⟩ := Outcome.bind_eq_done.mp h
    have h' := ih (seen ++ [x]) (fun seen s a t ha => step seen s a t (List.mem_cons_of_mem _ ha))
      (step seen s x u List.mem_cons_self hs hu) ht
    simpa using h'

/-- `while (cond s) s = body s`, with at most `fuel` tests of the condition. -/
def loop (cond : σ → Bool) (body : σ → Outcome ε σ) : ℕ → σ → Outcome ε σ
  | 0, _ => .unfinished
  | fuel + 1, s => if cond s then (body s).bind (loop cond body fuel) else .done s

variable {r : Outcome ε σ}

section Loop
variable {cond : σ → Bool} {body : σ → Outcome ε σ}

theorem loop_exit (h : cond s = false) (fuel : ℕ) :
    loop cond body (fuel + 1) s = .done s := by
  simp [loop, h]

theorem loop_enter (h : cond s = true) (fuel : ℕ) :
    loop cond body (fuel + 1) s = (body s).bind (loop cond body fuel) := by
  simp [loop, h]

theorem loop_single {t : σ} {fuel : ℕ} (hf : 2 ≤ fuel) (hs : cond s = true) (hb : body s = .done t)
    (ht : cond t = false) : loop cond body fuel s = .done t := by
  obtain ⟨k, rfl⟩ : ∃ k, fuel = k + 1 + 1 := ⟨fuel - 2, by omega⟩
  rw [loop_enter hs, hb, Outcome.bind_done, loop_exit ht]

inductive Ends (cond : σ → Bool) (body : σ → Outcome ε σ) : σ → Outcome ε σ → Prop where
  | exit {s : σ} (h : cond s = false) : Ends cond body s (.done s)
  | fault {s : σ} {e : ε} (h : cond s = true) (hb : body s = .fault e) : Ends cond body s (.fault e)
  | next {s t : σ} {r : Outcome ε σ} (h : cond s = true) (hb : body s = .done t)
    (ht : Ends cond body t r) :
      Ends cond body s r

theorem Ends.loop_eq (h : Ends cond body s r) :
    ∃ n, ∀ fuel ≥ n, loop cond body fuel s = r := by
  induction h with
  | exit h =>
    refine ⟨1, fun fuel hf => ?_⟩
    obtain ⟨k, rfl⟩ : ∃ k, fuel = k + 1 := ⟨fuel - 1, by omega⟩
    exact loop_exit h k
  | fault h hb =>
    refine ⟨1, fun fuel hf => ?_⟩
    obtain ⟨k, rfl⟩ : ∃ k, fuel = k + 1 := ⟨fuel - 1, by omega⟩
    rw [loop_enter h, hb, Outcome.bind_fault]
  | next h hb _ ih =>
    obtain ⟨n, hn⟩ := ih
    refine ⟨n + 1, fun fuel hf => ?_⟩
    obtain ⟨k, rfl⟩ : ∃ k, fuel = k + 1 := ⟨fuel - 1, by omega⟩
    rw [loop_enter h, hb, Outcome.bind_done, hn k (by omega)]

theorem Ends.loop_cases (h : Ends cond body s r) (fuel : ℕ) :
    loop cond body fuel s = .unfinished ∨ loop cond body fuel s = r := by
  induction h generalizing fuel with
  | exit h =>
    cases fuel with
    | zero => exact .inl rfl
    | succ k => exact .inr (loop_exit h k)
  | fault h hb =>
    cases fuel with
    | zero => exact .inl rfl
    | succ k => exact .inr (by rw [loop_enter h, hb, Outcome.bind_fault])
  | next h hb _ ih =>
    cases fuel with
    | zero => exact .inl rfl
    | succ k =>
      rw [loop_enter h, hb, Outcome.bind_done]
      exact ih k

/-- How a loop ends whose body takes fuel of its own, with enough for both. -/
inductive Settles (cond : σ → Bool) (body : ℕ → σ → Outcome ε σ) : σ → Outcome ε σ → Prop where
  | exit {s : σ} (h : cond s = false) : Settles cond body s (.done s)
  | fault {s : σ} {e : ε} (h : cond s = true) (hb : ∃ n, ∀ fuel ≥ n, body fuel s = .fault e) :
      Settles cond body s (.fault e)
  | next {s t : σ} {r : Outcome ε σ} (h : cond s = true)
      (hb : ∃ n, ∀ fuel ≥ n, body fuel s = .done t) (ht : Settles cond body t r) :
      Settles cond body s r

theorem Settles.loop_eq {body : ℕ → σ → Outcome ε σ} (h : Settles cond body s r) :
    ∃ n, ∀ fuel ≥ n, ∀ inner ≥ n, loop cond (body inner) fuel s = r := by
  induction h with
  | exit h =>
    refine ⟨1, fun fuel hf inner _ => ?_⟩
    obtain ⟨k, rfl⟩ : ∃ k, fuel = k + 1 := ⟨fuel - 1, by omega⟩
    exact loop_exit h k
  | fault h hb =>
    obtain ⟨n, hn⟩ := hb
    refine ⟨n + 1, fun fuel hf inner hi => ?_⟩
    obtain ⟨k, rfl⟩ : ∃ k, fuel = k + 1 := ⟨fuel - 1, by omega⟩
    rw [loop_enter h, hn inner (by omega), Outcome.bind_fault]
  | next h hb _ ih =>
    obtain ⟨n, hn⟩ := hb
    obtain ⟨m, hm⟩ := ih
    refine ⟨max n m + 1, fun fuel hf inner hi => ?_⟩
    obtain ⟨k, rfl⟩ : ∃ k, fuel = k + 1 := ⟨fuel - 1, by omega⟩
    rw [loop_enter h, hn inner (by omega), Outcome.bind_done, hm k (by omega) inner (by omega)]

end Loop

end Lantern.FuelLoop
