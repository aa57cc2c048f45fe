import Mathlib.Tactic

set_option autoImplicit false

/-!
# Computations in `Except` that return

What a sequence of steps, or one step for each element of a list, has done when it
returned: every step returned, and the result is put together from theirs.
-/
namespace Lantern.Fallible

variable {ε α β γ : Type}

variable {f : α → Except ε β} {x : Except ε α} {xs : List α} {ys : List β}

theorem bind_eq_ok {b : β} :
    x.bind f = .ok b ↔ ∃ a, x = .ok a ∧ f a = .ok b := by
  cases x <;> simp [Except.bind]

theorem map_map (f : α → β) (g : β → γ) (x : Except ε α) :
    (x.map f).map g = x.map fun a => g (f a) := by
  cases x <;> rfl

theorem isOk_map (f : α → β) (x : Except ε α) : (x.map f).isOk = x.isOk := by
  cases x <;> rfl

theorem map_eq_ok {f : α → β} {b : β} : x.map f = .ok b ↔ ∃ a, x = .ok a ∧ f a = b := by
  cases x <;> simp [Except.map]

theorem map_eq_ok_of {a : α} {defined : Prop} (hx : ∀ t, x = .ok t ↔ defined ∧ t = a) {f : α → β}
    {b : β} : x.map f = .ok b ↔ defined ∧ b = f a := by
  simp only [map_eq_ok, hx]
  constructor
  · rintro ⟨_, ⟨hdefined, rfl⟩, rfl⟩
    exact ⟨hdefined, rfl⟩
  · rintro ⟨hdefined, rfl⟩
    exact ⟨a, ⟨hdefined, rfl⟩, rfl⟩

theorem mapM_cons_ok {x : α} {zs : List β} :
    (x :: xs).mapM f = .ok zs ↔ ∃ y ys, f x = .ok y ∧ xs.mapM f = .ok ys ∧ zs = y :: ys := by
  rw [List.mapM_cons]
  cases hx : f x with
  | error e => simp [bind, Except.bind]
  | ok y =>
    cases hxs : xs.mapM f with
    | error e => simp [bind, Except.bind]
    | ok ys =>
      simp only [bind, Except.bind, pure, Except.pure, Except.ok.injEq]
      constructor
      · rintro rfl
        exact ⟨y, ys, rfl, rfl, rfl⟩
      · rintro ⟨y', ys', rfl, rfl, rfl⟩
        rfl

theorem mapM_nil_ok {zs : List β} : ([] : List α).mapM f = .ok zs ↔ zs = [] := by
  simp only [List.mapM_nil, pure, Except.pure, Except.ok.injEq]
  exact eq_comm

theorem mapM_range_ok {f : ℕ → Except ε α} {n : ℕ} {ys : List α}
    (h : (List.range n).mapM f = .ok ys) :
    ys.length = n ∧ ∀ i < n, ∃ y, ys[i]? = some y ∧ f i = .ok y := by
  have hplace : ∀ (start n : ℕ) (ys : List α), (List.range' start n).mapM f = .ok ys →
      ys.length = n ∧ ∀ i < n, ∃ y, ys[i]? = some y ∧ f (start + i) = .ok y := by
    intro start n
    induction n generalizing start with
    | zero =>
      intro ys hys
      rw [mapM_nil_ok.mp hys]
      exact ⟨rfl, fun i hi => absurd hi (Nat.not_lt_zero i)⟩
    | succ n ih =>
      intro ys hys
      obtain ⟨y, ys, hy, htail, rfl⟩ := mapM_cons_ok.mp hys
      obtain ⟨hlength, hget⟩ := ih (start + 1) ys htail
      refine ⟨by rw [List.length_cons, hlength], fun i hi => ?_⟩
      cases i with
      | zero => exact ⟨y, rfl, hy⟩
      | succ i =>
        obtain ⟨z, hz, hf⟩ := hget i (by omega)
        rw [Nat.add_right_comm] at hf
        exact ⟨z, hz, hf⟩
  rw [List.range_eq_range'] at h
  simpa using hplace 0 n ys h

theorem mapM_returns (h : ∀ x ∈ xs, ∃ y, f x = .ok y) :
    ∃ ys, xs.mapM f = .ok ys := by
  induction xs with
  | nil => exact ⟨[], rfl⟩
  | cons x xs ih =>
    obtain ⟨y, hy⟩ := h x List.mem_cons_self
    obtain ⟨ys, hys⟩ := ih fun x hx => h x (List.mem_cons_of_mem _ hx)
    exact ⟨y :: ys, mapM_cons_ok.mpr ⟨y, ys, hy, hys, rfl⟩⟩

theorem mapM_ok_mem (h : xs.mapM f = .ok ys) {x : α} (hx : x ∈ xs) : ∃ y, f x = .ok y := by
  induction xs generalizing ys with
  | nil => exact absurd hx List.not_mem_nil
  | cons z xs ih =>
    obtain ⟨y, ys, hy, hys, rfl⟩ := mapM_cons_ok.mp h
    rcases List.mem_cons.mp hx with rfl | hx
    · exact ⟨y, hy⟩
    · exact ih hys hx

theorem mapM_map_back {g : β → α} (hg : ∀ x y, f x = .ok y → g y = x) (h : xs.mapM f = .ok ys) :
    ys.map g = xs := by
  induction xs generalizing ys with
  | nil => rw [mapM_nil_ok.mp h, List.map_nil]
  | cons x xs ih =>
    obtain ⟨y, ys, hy, hys, rfl⟩ := mapM_cons_ok.mp h
    rw [List.map_cons, hg x y hy, ih hys]

theorem mapM_congr_ok {g : α → Except ε β} (h : ∀ x ∈ xs, ∀ y, f x = .ok y ↔ g x = .ok y) :
    xs.mapM f = .ok ys ↔ xs.mapM g = .ok ys := by
  induction xs generalizing ys with
  | nil => rw [mapM_nil_ok, mapM_nil_ok]
  | cons x xs ih =>
    rw [mapM_cons_ok, mapM_cons_ok]
    simp only [h x List.mem_cons_self, ih fun x hx => h x (List.mem_cons_of_mem _ hx)]

end Lantern.Fallible
