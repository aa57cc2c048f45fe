import Lantern.Fallible

set_option autoImplicit false

/-!
# Passes over lists in `Except`

How the passes of a program over a list compose: one after the other, over the parts of
a list, over groups, and as a fold.
-/
namespace Lantern.Fallible

variable {ε α β γ : Type}

variable {f : α → Except ε β} {xs : List α} {zs : List β}

theorem mapM_bind_ok {g : β → Except ε γ} {zs : List γ} :
    ((xs.mapM f).bind fun ys => ys.mapM g) = .ok zs ↔ xs.mapM (fun x => (f x).bind g) = .ok zs := by
  induction xs generalizing zs with
  | nil =>
    rw [mapM_nil_ok]
    exact mapM_nil_ok
  | cons x xs ih =>
    rw [mapM_cons_ok, bind_eq_ok]
    constructor
    · rintro ⟨ys, hys, hzs⟩
      obtain ⟨y, ys, hy, htail, rfl⟩ := mapM_cons_ok.mp hys
      obtain ⟨z, zs, hz, hrest, rfl⟩ := mapM_cons_ok.mp hzs
      exact ⟨z, zs, bind_eq_ok.mpr ⟨y, hy, hz⟩, ih.mp (bind_eq_ok.mpr ⟨ys, htail, hrest⟩), rfl⟩
    · rintro ⟨z, zs, hz, hrest, rfl⟩
      obtain ⟨y, hy, hz⟩ := bind_eq_ok.mp hz
      obtain ⟨ys, hys, hzs⟩ := bind_eq_ok.mp (ih.mpr hrest)
      exact ⟨y :: ys, mapM_cons_ok.mpr ⟨y, ys, hy, hys, rfl⟩,
        mapM_cons_ok.mpr ⟨z, zs, hz, hzs, rfl⟩⟩

theorem mapM_append_ok {ys : List α} :
    (xs ++ ys).mapM f = .ok zs ↔ ∃ as bs, xs.mapM f = .ok as ∧
      ys.mapM f = .ok bs ∧ zs = as ++ bs := by
  induction xs generalizing zs with
  | nil =>
    constructor
    · intro h
      exact ⟨[], zs, rfl, h, rfl⟩
    · rintro ⟨as, bs, has, hbs, rfl⟩
      rw [mapM_nil_ok] at has
      rw [has]
      exact hbs
  | cons x xs ih =>
    rw [List.cons_append, mapM_cons_ok]
    constructor
    · rintro ⟨y, zs, hy, hzs, rfl⟩
      obtain ⟨as, bs, has, hbs, rfl⟩ := ih.mp hzs
      exact ⟨y :: as, bs, mapM_cons_ok.mpr ⟨y, as, hy, has, rfl⟩, hbs, rfl⟩
    · rintro ⟨as, bs, has, hbs, rfl⟩
      obtain ⟨y, as, hy, htail, rfl⟩ := mapM_cons_ok.mp has
      exact ⟨y, as ++ bs, hy, ih.mpr ⟨as, bs, htail, hbs, rfl⟩, rfl⟩

theorem mapM_flatten_ok {σ δ : Type} (tag : σ → δ) (elems : σ → List α) {f : δ → α → Except ε β}
    {xss : List σ} :
    (xss.mapM fun x => (elems x).mapM (f (tag x))).map List.flatten = .ok zs ↔
      (xss.flatMap fun x => (elems x).map fun a => (tag x, a)).mapM
        (fun x => f x.1 x.2) = .ok zs := by
  have hmap : ∀ d (as : List α) bs,
      (as.map fun a => (d, a)).mapM (fun x : δ × α => f x.1 x.2) = .ok bs ↔
      as.mapM (f d) = .ok bs := by
    intro d as
    induction as with
    | nil => exact fun bs => Iff.rfl
    | cons a as ih =>
      intro bs
      rw [List.map_cons, mapM_cons_ok, mapM_cons_ok]
      simp only [ih]
  rw [map_eq_ok]
  induction xss generalizing zs with
  | nil =>
    rw [List.flatMap_nil, mapM_nil_ok]
    simp only [mapM_nil_ok]
    constructor
    · rintro ⟨_, rfl, rfl⟩
      rfl
    · rintro rfl
      exact ⟨[], rfl, rfl⟩
  | cons x xss ih =>
    rw [List.flatMap_cons, mapM_append_ok]
    constructor
    · rintro ⟨zss, hzss, rfl⟩
      obtain ⟨as, ass, has, hass, rfl⟩ := mapM_cons_ok.mp hzss
      exact ⟨as, ass.flatten, (hmap _ _ _).mpr has, ih.mp ⟨ass, hass, rfl⟩, rfl⟩
    · rintro ⟨as, bs, has, hbs, rfl⟩
      obtain ⟨bss, hbss, rfl⟩ := ih.mpr hbs
      exact ⟨as :: bss, mapM_cons_ok.mpr ⟨as, bss, (hmap _ _ _).mp has, hbss, rfl⟩, rfl⟩

theorem mapM_map_ok {g : α → β} :
    xs.mapM f = .ok (xs.map g) ↔ ∀ x ∈ xs, f x = .ok (g x) := by
  induction xs with
  | nil => exact ⟨fun _ x hx => absurd hx List.not_mem_nil, fun _ => rfl⟩
  | cons x xs ih =>
    rw [mapM_cons_ok, List.forall_mem_cons, ← ih]
    constructor
    · rintro ⟨y, ys, hy, hys, heq⟩
      cases heq
      exact ⟨hy, hys⟩
    · rintro ⟨hx, hxs⟩
      exact ⟨g x, xs.map g, hx, hxs, rfl⟩

theorem mapM_forall₂_iff {g : γ → α} {r : β → γ → Prop} {xs : List γ} :
    (∃ ys, (xs.map g).mapM f = .ok ys ∧ List.Forall₂ r ys xs) ↔
    ∀ x ∈ xs, ∃ y, f (g x) = .ok y ∧ r y x := by
  induction xs with
  | nil =>
    refine ⟨fun _ x hx => absurd hx List.not_mem_nil, fun _ => ⟨[], rfl, .nil⟩⟩
  | cons x xs ih =>
    rw [List.forall_mem_cons, ← ih, List.map_cons]
    constructor
    · rintro ⟨zs, hzs, hr⟩
      obtain ⟨y, ys, hy, hys, rfl⟩ := mapM_cons_ok.mp hzs
      cases hr with
      | cons hxy hrest => exact ⟨⟨y, hy, hxy⟩, ys, hys, hrest⟩
    · rintro ⟨⟨y, hy, hxy⟩, ys, hys, hrest⟩
      exact ⟨y :: ys, mapM_cons_ok.mpr ⟨y, ys, hy, hys, rfl⟩, .cons hxy hrest⟩

theorem foldlM_eq_ok {σ : Type} {f : σ → α → Except ε σ} {defined : α → Prop} {g : σ → α → σ}
    (hf : ∀ x ∈ xs, ∀ s t, f s x = .ok t ↔ defined x ∧ t = g s x) {s t : σ} :
    xs.foldlM f s = .ok t ↔ (∀ x ∈ xs, defined x) ∧ t = xs.foldl g s := by
  induction xs generalizing s with
  | nil =>
    simp only [List.foldlM_nil, pure, Except.pure, Except.ok.injEq, List.foldl_nil]
    exact ⟨fun h => ⟨fun x hx => absurd hx List.not_mem_nil, h.symm⟩, fun h => h.2.symm⟩
  | cons x xs ih =>
    have htail := fun s => @ih (fun y hy => hf y (List.mem_cons_of_mem x hy)) s
    rw [List.foldlM_cons, List.foldl_cons, List.forall_mem_cons]
    refine bind_eq_ok.trans ?_
    simp only [hf x List.mem_cons_self, htail]
    constructor
    · rintro ⟨_, ⟨hx, rfl⟩, hxs, rfl⟩
      exact ⟨⟨hx, hxs⟩, rfl⟩
    · rintro ⟨⟨hx, hxs⟩, rfl⟩
      exact ⟨g s x, ⟨hx, rfl⟩, hxs, rfl⟩

end Lantern.Fallible
