import Mathlib.Data.List.Basic
import Mathlib.Algebra.Ring.Nat

/-!
# Runs of a deterministic system under a per-step condition

A system here is a step function on a state, its input a list of calls. What a
run keeps is decided one step at a time, and a run may be asked to meet a
condition on the state each of its steps starts from.
-/

namespace BleedKernel.Lib

variable {σ α : Type*}

variable {step : σ → α → σ} {s : σ} {l l' calls : List α} {C : σ → α → Prop}

/-- The state after a list of calls. -/
def run (step : σ → α → σ) (s : σ) (calls : List α) : σ :=
  calls.foldl step s

/-- What the calls of a run give, one after the other, where `f` says what one call
gives in the state it is made from. -/
def trace {β : Type*} (step : σ → α → σ) (f : σ → α → List β) : σ → List α → List β
  | _, [] => []
  | s, a :: l => f s a ++ trace step f (step s a) l

/-- Every call of the run meets `C` in the state it is made from. -/
def Meets (step : σ → α → σ) (C : σ → α → Prop) : σ → List α → Prop
  | _, [] => True
  | s, a :: l => C s a ∧ Meets step C (step s a) l

/-- Some call of the run meets `C` in the state it is made from. -/
def Sometime (step : σ → α → σ) (C : σ → α → Prop) : σ → List α → Prop
  | _, [] => False
  | s, a :: l => C s a ∨ Sometime step C (step s a) l

instance Meets.decidable {step : σ → α → σ} {C : σ → α → Prop}
    [∀ s a, Decidable (C s a)] : ∀ (s : σ) (l : List α), Decidable (Meets step C s l)
  | _, [] => .isTrue trivial
  | s, a :: l =>
    have : Decidable (Meets step C (step s a) l) := Meets.decidable _ l
    inferInstanceAs (Decidable (C s a ∧ Meets step C (step s a) l))

instance Sometime.decidable {step : σ → α → σ} {C : σ → α → Prop}
    [∀ s a, Decidable (C s a)] : ∀ (s : σ) (l : List α), Decidable (Sometime step C s l)
  | _, [] => .isFalse fun h => h
  | s, a :: l =>
    have : Decidable (Sometime step C (step s a) l) := Sometime.decidable _ l
    inferInstanceAs (Decidable (C s a ∨ Sometime step C (step s a) l))

@[simp] theorem run_nil : run step s [] = s := rfl

@[simp] theorem run_cons {a : α} : run step s (a :: l) = run step (step s a) l := rfl

theorem run_append : run step s (l ++ l') = run step (run step s l) l' := by
  simp [run]

theorem trace_append {β : Type*} {f : σ → α → List β} :
    trace step f s (l ++ l') = trace step f s l ++ trace step f (run step s l) l' := by
  induction l generalizing s with
  | nil => rfl
  | cons a l ih => rw [List.cons_append, trace, trace, ih, List.append_assoc, run_cons]

theorem Meets.of_all {C : α → Prop}
    (h : ∀ a ∈ calls, C a) : Meets step (fun _ a => C a) s calls := by
  induction calls generalizing s with
  | nil => trivial
  | cons a l ih => exact ⟨h a (by simp), ih fun b hb => h b (by simp [hb])⟩

theorem Meets.of_not_sometime (h : ¬Sometime step C s calls) :
    Meets step (fun s a => ¬C s a) s calls := by
  induction calls generalizing s with
  | nil => trivial
  | cons a l ih => exact ⟨fun hc => h (.inl hc), ih fun hs => h (.inr hs)⟩

theorem Meets.and {D : σ → α → Prop} (hc : Meets step C s calls) (hd : Meets step D s calls) :
    Meets step (fun s a => C s a ∧ D s a) s calls := by
  induction calls generalizing s with
  | nil => trivial
  | cons a l ih => exact ⟨⟨hc.1, hd.1⟩, ih hc.2 hd.2⟩

theorem Meets.imp {D : σ → α → Prop}
    (h : ∀ s a, C s a → D s a) (hc : Meets step C s calls) : Meets step D s calls := by
  induction calls generalizing s with
  | nil => trivial
  | cons a l ih => exact ⟨h s a hc.1, ih hc.2⟩

theorem Meets.append :
    Meets step C s (l ++ l') ↔ Meets step C s l ∧ Meets step C (run step s l) l' := by
  induction l generalizing s with
  | nil => simp [Meets]
  | cons a l ih =>
    rw [List.cons_append, Meets, Meets, ih, and_assoc, run_cons]

/-- An invariant that every step keeps when its condition is met holds after
every run that meets the condition throughout. -/
theorem run_inv {I : σ → Prop} (hstep : ∀ s a, I s → C s a → I (step s a))
    (h : I s) (hc : Meets step C s calls) : I (run step s calls) := by
  induction calls generalizing s with
  | nil => exact h
  | cons a l ih => exact ih (hstep s a h hc.1) hc.2

end BleedKernel.Lib
