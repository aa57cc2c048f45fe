import Lantern.FuelLoop

set_option autoImplicit false

/-!
# Computations that leave a trail

A computation with an outcome and the events on the way to it. The trail is there
whatever the outcome is. `Guarantees A G` says that, as long as every event meets the
assumption `A`, every event has the property `G`; the rules below follow the way the
computation is put together.
-/
namespace Lantern.EventTrail
open FuelLoop

structure Trail (η ε α : Type) where
  events : List η
  outcome : Outcome ε α

variable {η ε α β σ : Type}

variable {x : Trail η ε α}

namespace Trail

def pure (a : α) : Trail η ε α := ⟨[], .done a⟩

def emit (e : η) : Trail η ε Unit := ⟨[e], .done ()⟩

def raise (e : ε) : Trail η ε α := ⟨[], .fault e⟩

def bind (x : Trail η ε α) (f : α → Trail η ε β) : Trail η ε β :=
  match x.outcome with
  | .done a => ⟨x.events ++ (f a).events, (f a).outcome⟩
  | .fault e => ⟨x.events, .fault e⟩
  | .unfinished => ⟨x.events, .unfinished⟩

/-- A `while` loop whose condition is tested at most `fuel` times. -/
def loop (cond : σ → Bool) (body : σ → Trail η ε σ) : ℕ → σ → Trail η ε σ
  | 0, _ => ⟨[], .unfinished⟩
  | fuel + 1, s => if cond s then (body s).bind (loop cond body fuel) else pure s

@[simp] theorem outcome_emit (e : η) : (emit e : Trail η ε Unit).outcome = .done () := rfl
@[simp] theorem outcome_bind (x : Trail η ε α) (f : α → Trail η ε β) :
    (x.bind f).outcome = x.outcome.bind fun a => (f a).outcome := by
  unfold bind
  cases x.outcome <;> rfl

@[simp] theorem pure_bind (a : α) (f : α → Trail η ε β) : (pure a).bind f = f a := rfl
@[simp] theorem raise_bind (e : ε) (f : α → Trail η ε β) :
    (raise e : Trail η ε α).bind f = raise e := rfl
@[simp] theorem done_bind (es : List η) (a : α) (f : α → Trail η ε β) :
    (⟨es, .done a⟩ : Trail η ε α).bind f = ⟨es ++ (f a).events, (f a).outcome⟩ := rfl

theorem mem_bind {f : α → Trail η ε β} {e : η} :
    e ∈ (x.bind f).events ↔ e ∈ x.events ∨ ∃ a, x.outcome = .done a ∧ e ∈ (f a).events := by
  unfold bind
  cases x.outcome <;> simp

end Trail

open Trail

def Guarantees (A G : η → Prop) (x : Trail η ε α) : Prop :=
  (∀ e ∈ x.events, A e) → ∀ e ∈ x.events, G e

variable {A G : η → Prop}

theorem Guarantees.pure (a : α) : Guarantees A G (Trail.pure a : Trail η ε α) :=
  fun _ => List.forall_mem_nil _

theorem Guarantees.raise (e : ε) : Guarantees A G (Trail.raise e : Trail η ε α) :=
  fun _ => List.forall_mem_nil _

theorem Guarantees.emit {e : η} (h : A e → G e) :
    Guarantees A G (Trail.emit e : Trail η ε Unit) := by
  intro hA
  exact List.forall_mem_singleton.mpr (h (hA e List.mem_cons_self))

theorem Guarantees.bind {f : α → Trail η ε β} (hx : Guarantees A G x)
    (hf : ∀ a, x.outcome = .done a → (∀ e ∈ x.events, A e) → Guarantees A G (f a)) :
    Guarantees A G (x.bind f) := by
  intro hA
  have hAx : ∀ e ∈ x.events, A e := fun e he => hA e (mem_bind.mpr (.inl he))
  intro e he
  rcases mem_bind.mp he with he | ⟨a, ha, he⟩
  · exact hx hAx e he
  · exact hf a ha hAx (fun e' he' => hA e' (mem_bind.mpr (.inr ⟨a, ha, he'⟩))) e he

theorem Guarantees.loop {cond : σ → Bool} {body : σ → Trail η ε σ}
    (h : ∀ s, cond s = true → Guarantees A G (body s)) (fuel : ℕ) (s : σ) :
    Guarantees A G (Trail.loop cond body fuel s) := by
  induction fuel generalizing s with
  | zero => exact fun _ => List.forall_mem_nil _
  | succ fuel ih =>
    rw [Trail.loop]
    split_ifs with hcond
    · exact (h s hcond).bind fun t _ _ => ih t
    · exact .pure s

theorem Guarantees.ite {c : Prop} [Decidable c] {y : Trail η ε α} (hx : c → Guarantees A G x)
    (hy : ¬ c → Guarantees A G y) : Guarantees A G (if c then x else y) := by
  split_ifs with hc
  · exact hx hc
  · exact hy hc

end Lantern.EventTrail
