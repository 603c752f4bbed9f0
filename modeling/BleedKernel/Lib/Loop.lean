import Mathlib.Data.List.Basic

/-!
# Loops over a list of indices

A `for` loop of the modelled code is one of two folds: `List.foldl` when the
body cannot fail, and `forEach` when the body may stop the loop early and the
function returns at once, leaving whatever the body had done so far in place.
The rules say what such a loop keeps and what it establishes, so that a proof
about a loop is a proof about its body.
-/

namespace BleedKernel.Lib

open List

variable {ι σ : Type*}

variable {f : ι → σ → Bool × σ} {s : σ} {l : List ι} {P : σ → Prop} {ε : Type*}

/-- Run `f` on each index in turn and stop at the first one that answers
`false`. The state that body left behind is the state of the loop. -/
def forEach (f : ι → σ → Bool × σ) : List ι → σ → Bool × σ
  | [], s => (true, s)
  | i :: l, s =>
    match f i s with
    | (true, s') => forEach f l s'
    | (false, s') => (false, s')

@[simp] theorem forEach_nil : forEach f [] s = (true, s) := rfl

theorem forEach_cons_ok {i : ι}
    (h : (f i s).1 = true) : forEach f (i :: l) s = forEach f l (f i s).2 := by
  rw [forEach]
  split
  · next s' hs => rw [hs]
  · next s' hs => rw [hs] at h; cases h

theorem forEach_cons_fail {i : ι}
    (h : (f i s).1 = false) : forEach f (i :: l) s = (false, (f i s).2) := by
  rw [forEach]
  split
  · next s' hs => rw [hs] at h; cases h
  · next s' hs => rw [hs]

/-- What every round keeps, failing rounds included, the loop keeps. -/
theorem forEach_inv (hf : ∀ i ∈ l, ∀ s, P s → P (f i s).2) (h : P s) : P (forEach f l s).2 := by
  induction l generalizing s with
  | nil => exact h
  | cons i l ih =>
    have hi := hf i (by simp) s h
    cases hr : (f i s).1 with
    | true =>
      rw [forEach_cons_ok hr]
      exact ih (fun j hj => hf j (by simp [hj])) hi
    | false => rw [forEach_cons_fail hr]; exact hi

theorem forEach_append_ok {l' : List ι} (h : (forEach f l s).1 = true) :
    forEach f (l ++ l') s = forEach f l' (forEach f l s).2 := by
  induction l generalizing s with
  | nil => rfl
  | cons i l ih =>
    cases hr : (f i s).1 with
    | false => rw [forEach_cons_fail hr] at h; cases h
    | true =>
      rw [forEach_cons_ok hr] at h
      rw [cons_append, forEach_cons_ok hr, forEach_cons_ok hr, ih h]

theorem forEach_append_fail {l' : List ι}
    (h : (forEach f l s).1 = false) : forEach f (l ++ l') s = forEach f l s := by
  induction l generalizing s with
  | nil => cases h
  | cons i l ih =>
    cases hr : (f i s).1 with
    | false =>
      rw [cons_append, forEach_cons_fail hr, forEach_cons_fail hr]
    | true =>
      rw [forEach_cons_ok hr] at h
      rw [cons_append, forEach_cons_ok hr, forEach_cons_ok hr, ih h]

/-- A counting loop whose invariant knows how far it has come. A loop that
stops early has come less far, so the invariant must not mind claiming less. -/
theorem forEach_range {f : Nat → σ → Bool × σ} {P : Nat → σ → Prop} {n : Nat}
    (mono : ∀ i s, P i s → P (i + 1) s)
    (step : ∀ i, i < n → ∀ s, P i s → P (i + 1) (f i s).2) (h : P 0 s) :
    P n (forEach f (range n) s).2 := by
  induction n with
  | zero => exact h
  | succ n ih =>
    have ih := ih fun i hi => step i (Nat.lt_succ_of_lt hi)
    rw [range_succ]
    cases hr : (forEach f (range n) s).1 with
    | false => rw [forEach_append_fail hr]; exact mono _ _ ih
    | true =>
      rw [forEach_append_ok hr]
      have := step n (Nat.lt_succ_self n) _ ih
      cases hl : (f n (forEach f (range n) s).2).1 with
      | false => rw [forEach_cons_fail hl]; exact this
      | true => rw [forEach_cons_ok hl]; exact this

/-- A loop that failed failed in its last round. -/
theorem forEach_fail {Q : σ → Prop}
    (hf : ∀ i s, (f i s).1 = false → Q (f i s).2) (h : (forEach f l s).1 = false) :
    Q (forEach f l s).2 := by
  induction l generalizing s with
  | nil => cases h
  | cons i l ih =>
    cases hr : (f i s).1 with
    | true => rw [forEach_cons_ok hr] at h ⊢; exact ih h
    | false => rw [forEach_cons_fail hr]; exact hf i s hr

/-- A loop that stops at the first error and returns it. -/
def tryEach {ε : Type*} (f : ι → σ → Except ε Unit × σ) : List ι → σ → Except ε Unit × σ
  | [], s => (.ok (), s)
  | i :: l, s =>
    match f i s with
    | (.error e, s') => (.error e, s')
    | (.ok (), s') => tryEach f l s'

/-- What the rounds that went well keep, and what the one that did not leaves. -/
theorem tryEach_cases {f : ι → σ → Except ε Unit × σ} {Q : σ → Prop}
    (hok : ∀ i ∈ l, ∀ s, P s → (f i s).1 = .ok () → P (f i s).2)
    (herr : ∀ i ∈ l, ∀ s e, P s → (f i s).1 = .error e → Q (f i s).2) (h : P s) :
    ((tryEach f l s).1 = .ok () → P (tryEach f l s).2) ∧
      ∀ e, (tryEach f l s).1 = .error e → Q (tryEach f l s).2 := by
  induction l generalizing s with
  | nil => exact ⟨fun _ => h, fun _ he => by cases he⟩
  | cons i l ih =>
    rw [tryEach]
    split
    · rename_i e s' he
      have := herr i (by simp) s e h (by rw [he])
      rw [he] at this
      exact ⟨fun hf => (by cases hf), fun _ _ => this⟩
    · rename_i he
      have := hok i (by simp) s h (by rw [he])
      rw [he] at this
      exact ih (fun j hj => hok j (by simp [hj])) (fun j hj => herr j (by simp [hj])) this

/-- Every round leaves its mark, and no later round rubs it out. -/
theorem tryEach_all {f : ι → σ → Except ε Unit × σ} {Q : ι → σ → Prop}
    (hP : ∀ i ∈ l, ∀ s, P s → (f i s).1 = .ok () → P (f i s).2)
    (hQ : ∀ i ∈ l, ∀ s, P s → (f i s).1 = .ok () → Q i (f i s).2)
    (hkeep : ∀ i ∈ l, ∀ j s, P s → (f i s).1 = .ok () → Q j s → Q j (f i s).2)
    (h : P s) (hok : (tryEach f l s).1 = .ok ()) :
    (∀ i ∈ l, Q i (tryEach f l s).2) ∧ ∀ j, Q j s → Q j (tryEach f l s).2 := by
  induction l generalizing s with
  | nil => exact ⟨fun _ hi => by simp at hi, fun _ hj => hj⟩
  | cons i l ih =>
    rw [tryEach] at hok ⊢
    split
    · next he => rw [he] at hok; cases hok
    rename_i he
    rw [he] at hok
    have hi : (f i s).1 = .ok () := by rw [he]
    have h1 := hP i (by simp) s h hi
    have h2 := hQ i (by simp) s h hi
    have h3 := fun j => hkeep i (by simp) j s h hi
    rw [he] at h1 h2 h3
    obtain ⟨h4, h5⟩ := ih (fun j hj => hP j (by simp [hj]))
      (fun j hj => hQ j (by simp [hj])) (fun j hj => hkeep j (by simp [hj])) h1 hok
    refine ⟨fun j hj => ?_, fun j hj => h5 j (h3 j hj)⟩
    rcases mem_cons.mp hj with rfl | hj
    · exact h5 _ h2
    · exact h4 j hj

theorem tryEach_inv {f : ι → σ → Except ε Unit × σ} (hf : ∀ i ∈ l, ∀ s, P s → P (f i s).2)
    (h : P s) :
    P (tryEach f l s).2 := by
  obtain ⟨hgood, hbad⟩ := tryEach_cases (fun i hi s hs _ => hf i hi s hs)
    (fun i hi s _ hs _ => hf i hi s hs) h
  cases hr : (tryEach f l s).1 with
  | ok => exact hgood hr
  | error e => exact hbad e hr

/-- The same rule for a loop whose body cannot fail. -/
theorem foldl_inv {f : σ → ι → σ}
    (hf : ∀ i ∈ l, ∀ s, P s → P (f s i)) (h : P s) : P (l.foldl f s) := by
  induction l generalizing s with
  | nil => exact h
  | cons i l ih =>
    exact ih (fun j hj => hf j (by simp [hj])) (hf i (by simp) s h)

/-- A fold reaches every index of its list, and keeps what it reached. -/
theorem foldl_all {f : σ → ι → σ} {Q : ι → σ → Prop} (hP : ∀ i ∈ l, ∀ s, P s → P (f s i))
    (hQ : ∀ i ∈ l, ∀ s, P s → Q i (f s i))
    (hkeep : ∀ i ∈ l, ∀ j s, P s → Q j s → Q j (f s i)) (h : P s) :
    (∀ i ∈ l, Q i (l.foldl f s)) ∧ (∀ j, Q j s → Q j (l.foldl f s)) ∧ P (l.foldl f s) := by
  induction l generalizing s with
  | nil => exact ⟨by simp, fun _ hj => hj, h⟩
  | cons i l ih =>
    obtain ⟨hall, hold, hp⟩ :=
      ih (fun j hj => hP j (by simp [hj])) (fun j hj => hQ j (by simp [hj]))
        (fun j hj => hkeep j (by simp [hj])) (hP i (by simp) s h)
    refine ⟨?_, fun j hj => hold j (hkeep i (by simp) j s h hj), hp⟩
    intro j hj
    rcases mem_cons.mp hj with rfl | hj
    · exact hold _ (hQ _ (by simp) s h)
    · exact hall j hj

/-- The same for a loop that counts up: the invariant may speak of the place the
loop has got to. -/
theorem foldl_range {f : σ → Nat → σ} {P : Nat → σ → Prop} {n : Nat}
    (step : ∀ i, i < n → ∀ s, P i s → P (i + 1) (f s i)) (h : P 0 s) :
    P n ((range n).foldl f s) := by
  induction n with
  | zero => exact h
  | succ n ih =>
    rw [range_succ, foldl_append]
    exact step n (by omega) _ (ih fun i hi => step i (by omega))

/-! ## Loops with a budget

Every round may use up to `c` of it, and there is enough for all of them. -/

theorem forEach_budget {P : Nat → σ → Prop} {c k K : Nat} (mono : ∀ j j' s, j ≤ j' → P j s → P j' s)
    (hf : ∀ i ∈ l, ∀ j s, j + c ≤ K → P j s → P (j + c) (f i s).2) (h : P k s)
    (hK : k + l.length * c ≤ K) : P (k + l.length * c) (forEach f l s).2 := by
  induction l generalizing s k with
  | nil => simpa using h
  | cons i l ih =>
    have he : k + (i :: l).length * c = k + c + l.length * c := by
      rw [length_cons, Nat.succ_mul]; omega
    rw [he] at hK ⊢
    have h1 := hf i (by simp) k s (by omega) h
    cases hr : (f i s).1 with
    | true =>
      rw [forEach_cons_ok hr]
      exact ih (fun j hj => hf j (by simp [hj])) h1 hK
    | false =>
      rw [forEach_cons_fail hr]
      exact mono _ _ _ (by omega) h1

theorem foldl_budget {f : σ → ι → σ} {P : Nat → σ → Prop} {c k K : Nat}
    (hf : ∀ i ∈ l, ∀ j s, j + c ≤ K → P j s → P (j + c) (f s i)) (h : P k s)
    (hK : k + l.length * c ≤ K) : P (k + l.length * c) (l.foldl f s) := by
  induction l generalizing s k with
  | nil => simpa using h
  | cons i l ih =>
    have he : k + (i :: l).length * c = k + c + l.length * c := by
      rw [length_cons, Nat.succ_mul]; omega
    rw [he] at hK ⊢
    exact ih (fun j hj => hf j (by simp [hj])) (hf i (by simp) k s (by omega) h) hK

end BleedKernel.Lib
