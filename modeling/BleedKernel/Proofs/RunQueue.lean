import BleedKernel.Lib.Links
import BleedKernel.Model.Sched

/-!
# The links of the run queue

Each level of each array is a list linked both ways through the nodes of its
tasks. `Queued` names the lists and says how the arrays and the nodes hold them:
where a node says it is queued is where it is, and nowhere else, and the bitmaps
have the bits of the levels that have someone in them. The two edits keep this.
-/

namespace BleedKernel.Sched

open BleedKernel.Lib RunQueue List Function

variable {L : Arr → Nat → List Tid} {m : BitVec 32}

variable {q : RunQueue} {a : Arr} {p : Nat} {t : Tid}

/-- The queue `q` holds the list `L a p` at level `p` of array `a`. -/
structure Queued (q : RunQueue) (L : Arr → Nat → List Tid) : Prop where
  linked : ∀ a p, Linked (fun t => (q.node t).next) (fun t => (q.node t).prev)
    ((q.arrays a).head p) ((q.arrays a).tail p) (L a p)
  mem : ∀ a p t, t ∈ L a p ↔ (q.node t).array = some a ∧ (q.node t).prio = p
  bit : ∀ a p, (q.arrays a).bitmap.getLsbD p = true ↔ L a p ≠ []
  low : ∀ a p, L a p ≠ [] → p < prioLevels

theorem Queued.empty : Queued {} fun _ _ => [] where
  linked := fun _ _ => Linked.nil
  mem := by simp
  bit := by simp
  low := by simp

theorem Queued.array_of_mem (h : Queued q L) (ht : t ∈ L a p) : (q.node t).array = some a :=
  ((h.mem a p t).1 ht).1

theorem Queued.mem_of_array (h : Queued q L) (ht : (q.node t).array = some a) :
    t ∈ L a (q.node t).prio :=
  (h.mem a _ t).2 ⟨ht, rfl⟩

/-! ## The cells an edit writes -/

section cells

variable {q : RunQueue} {a b : Arr} {p r : Nat} {t x : Tid} {l v : Option Tid} {n : Node}

@[simp] theorem setNode_node : (q.setNode t n).node x = if x = t then n else q.node x := by
  simp [setNode, update_apply]

theorem setNode_keeps {β : Type} (g : Node → β) (h : g n = g (q.node t)) :
    g ((q.setNode t n).node x) = g (q.node x) := by
  rw [setNode_node]
  split
  · next hx => rw [h, hx]
  · rfl

theorem setArray_keeps {β : Type} {v : PrioArray} (g : PrioArray → β) (h : g v = g (q.arrays a)) :
    g ((q.setArray a v).arrays b) = g (q.arrays b) := by
  simp only [setArray, update_apply]
  split
  · next hb => rw [h, hb]
  · rfl

@[simp] theorem setNode_arrays : (q.setNode t n).arrays = q.arrays := rfl

@[simp] theorem setBitmap_node : (q.setBitmap a m).node = q.node := rfl

@[simp] theorem setBitmap_bitmap :
    ((q.setBitmap a m).arrays b).bitmap = if b = a then m else (q.arrays b).bitmap := by
  simp only [setBitmap, setArray, update_apply]
  split <;> rfl

@[simp] theorem setBitmap_head : ((q.setBitmap a m).arrays b).head = (q.arrays b).head :=
  setArray_keeps (·.head) rfl

@[simp] theorem setBitmap_tail : ((q.setBitmap a m).arrays b).tail = (q.arrays b).tail :=
  setArray_keeps (·.tail) rfl

@[simp] theorem storeNext_next :
    ((q.storeNext a p l v).node x).next = if l = some x then v else (q.node x).next := by
  cases l with
  | none => simp [storeNext, setArray]
  | some l =>
    simp only [storeNext, setNode_node, Option.some.injEq, eq_comm]
    split <;> rfl

@[simp] theorem storeNext_prev : ((q.storeNext a p l v).node x).prev = (q.node x).prev := by
  cases l with
  | none => rfl
  | some l => exact setNode_keeps (·.prev) rfl

@[simp] theorem storeNext_array : ((q.storeNext a p l v).node x).array = (q.node x).array := by
  cases l with
  | none => rfl
  | some l => exact setNode_keeps (·.array) rfl

@[simp] theorem storeNext_prio : ((q.storeNext a p l v).node x).prio = (q.node x).prio := by
  cases l with
  | none => rfl
  | some l => exact setNode_keeps (·.prio) rfl

@[simp] theorem storeNext_head : ((q.storeNext a p l v).arrays b).head r =
    if l = none ∧ b = a ∧ r = p then v else (q.arrays b).head r := by
  cases l with
  | some l => simp [storeNext]
  | none =>
    simp only [storeNext, setArray]
    by_cases hb : b = a
    · simp [hb, update_apply]
    · simp [hb]

@[simp] theorem storeNext_tail : ((q.storeNext a p l v).arrays b).tail = (q.arrays b).tail := by
  cases l with
  | some l => rfl
  | none => exact setArray_keeps (·.tail) rfl

@[simp] theorem storeNext_bitmap :
    ((q.storeNext a p l v).arrays b).bitmap = (q.arrays b).bitmap := by
  cases l with
  | some l => rfl
  | none => exact setArray_keeps (·.bitmap) rfl

@[simp] theorem storePrev_prev :
    ((q.storePrev a p l v).node x).prev = if l = some x then v else (q.node x).prev := by
  cases l with
  | none => simp [storePrev, setArray]
  | some l =>
    simp only [storePrev, setNode_node, Option.some.injEq, eq_comm]
    split <;> rfl

@[simp] theorem storePrev_next : ((q.storePrev a p l v).node x).next = (q.node x).next := by
  cases l with
  | none => rfl
  | some l => exact setNode_keeps (·.next) rfl

@[simp] theorem storePrev_array : ((q.storePrev a p l v).node x).array = (q.node x).array := by
  cases l with
  | none => rfl
  | some l => exact setNode_keeps (·.array) rfl

@[simp] theorem storePrev_prio : ((q.storePrev a p l v).node x).prio = (q.node x).prio := by
  cases l with
  | none => rfl
  | some l => exact setNode_keeps (·.prio) rfl

@[simp] theorem storePrev_tail : ((q.storePrev a p l v).arrays b).tail r =
    if l = none ∧ b = a ∧ r = p then v else (q.arrays b).tail r := by
  cases l with
  | some l => simp [storePrev]
  | none =>
    simp only [storePrev, setArray]
    by_cases hb : b = a
    · simp [hb, update_apply]
    · simp [hb]

@[simp] theorem storePrev_head : ((q.storePrev a p l v).arrays b).head = (q.arrays b).head := by
  cases l with
  | some l => rfl
  | none => exact setArray_keeps (·.head) rfl

@[simp] theorem storePrev_bitmap :
    ((q.storePrev a p l v).arrays b).bitmap = (q.arrays b).bitmap := by
  cases l with
  | some l => rfl
  | none => exact setArray_keeps (·.bitmap) rfl

end cells

/-! ## Behind the tail -/

section append

variable {q : RunQueue} {a b : Arr} {p r : Nat} {t x : Tid}

theorem append_next : ((q.append a p t).node x).next = if (q.arrays a).tail p = some x then some t
    else if x = t then none else (q.node x).next := by
  by_cases hx : x = t
  · subst hx
    simp [append]
  · simp [append, hx]

theorem append_prev : ((q.append a p t).node x).prev =
    if x = t then (q.arrays a).tail p else (q.node x).prev := by
  by_cases hx : x = t
  · subst hx
    simp [append]
  · simp [append, hx]

theorem append_array : ((q.append a p t).node x).array =
    if x = t then some a else (q.node x).array := by
  by_cases hx : x = t <;> simp [append, hx]

theorem append_prio : ((q.append a p t).node x).prio = if x = t then p else (q.node x).prio := by
  by_cases hx : x = t <;> simp [append, hx]

theorem append_head : ((q.append a p t).arrays b).head r =
    if (q.arrays a).tail p = none ∧ b = a ∧ r = p then some t
    else (q.arrays b).head r := by
  simp [append]

theorem append_tail : ((q.append a p t).arrays b).tail r =
    if b = a ∧ r = p then some t else (q.arrays b).tail r := by
  simp [append]

theorem append_bitmap : ((q.append a p t).arrays b).bitmap =
    if b = a then (q.arrays a).bitmap ||| (1#32 <<< p) else (q.arrays b).bitmap := by
  simp [append]

end append

/-- The lists after `t` went behind the tail of level `p` of `a`. -/
def appended (L : Arr → Nat → List Tid) (a : Arr) (p : Nat) (t : Tid) : Arr → Nat → List Tid :=
  fun b r => if b = a ∧ r = p then L b r ++ [t] else L b r

theorem bit_or {b : BitVec 32} {r : Nat} (hp : p < prioLevels) :
    (b ||| (1#32 <<< p)).getLsbD r = (b.getLsbD r || decide (r = p)) := by
  simp only [prioLevels] at hp
  by_cases hr : r = p
  · subst hr
    simp [hp]
  rcases Nat.lt_or_ge r p with h | h
  · simp [hr, h]
  · have : r - p ≠ 0 := by omega
    simp [hr, this]

theorem bit_andNot {b : BitVec 32} {r : Nat} (hp : p < prioLevels) :
    (b &&& ~~~(1#32 <<< p)).getLsbD r = (b.getLsbD r && decide (r ≠ p)) := by
  have hone : (1#32 <<< p).getLsbD r = decide (r = p) := by
    simpa using bit_or (b := 0#32) hp
  rw [BitVec.getLsbD_and, BitVec.getLsbD_not, hone]
  by_cases h32 : r < 32
  · simp [h32]
  · rw [BitVec.getLsbD_of_ge b r (by omega), Bool.false_and, Bool.false_and]

theorem Queued.append (h : Queued q L) (hp : p < prioLevels) (ht : (q.node t).array = none) :
    Queued (q.append a p t) (appended L a p t) := by
  have hne : ∀ {b r x}, x ∈ L b r → x ≠ t := fun hx heq => by
    subst heq
    rw [h.array_of_mem hx] at ht
    cases ht
  have htail : (q.arrays a).tail p ≠ some t := fun heq => by
    rw [(h.linked a p).tail_eq] at heq
    exact hne (mem_of_getLast? heq) rfl
  refine ⟨fun b r => ?_, fun b r x => ?_, fun b r => ?_, fun b r => ?_⟩
  · simp only [append_head, append_tail]
    by_cases hbr : b = a ∧ r = p
    · obtain ⟨rfl, rfl⟩ := hbr
      simp only [appended]
      refine (h.linked b r).push (fun hx => hne hx rfl) ?_ ?_ ⟨?_, fun x hx hxt => ?_⟩
        fun x hx => ?_
      · simp [append_next, htail]
      · simp [append_prev]
      · cases htl : (q.arrays b).tail r <;> simp [append_next, htl]
      · simp [append_next, hxt, hne hx]
      · simp [append_prev, hne hx]
    · rw [appended, if_neg hbr, if_neg hbr, if_neg fun hh => hbr hh.2]
      refine (h.linked b r).congr (fun x hx => ?_) fun x hx => ?_
      · -- the tail of the level that changed is in that level's list only
        have hxt : (q.arrays a).tail p ≠ some x := by
          intro hx'
          rw [(h.linked a p).tail_eq] at hx'
          have h1 := (h.mem a p x).1 (mem_of_getLast? hx')
          have h2 := (h.mem b r x).1 hx
          exact hbr ⟨Option.mem_unique h2.1 h1.1, h2.2.symm.trans h1.2⟩
        simp [append_next, hxt, hne hx]
      · simp [append_prev, hne hx]
  · rw [append_array, append_prio, appended]
    by_cases hx : x = t
    · subst hx
      by_cases hbr : b = a ∧ r = p
      · simp [hbr]
      rw [if_neg hbr, if_pos rfl, if_pos rfl]
      refine ⟨fun hm => absurd rfl (hne hm), fun hm => absurd ?_ hbr⟩
      exact ⟨(Option.some.inj hm.1).symm, hm.2.symm⟩
    · rw [if_neg hx, if_neg hx, ← h.mem b r x]
      split <;> simp [hx]
  · rw [append_bitmap, appended]
    by_cases hb : b = a
    · subst hb
      rw [if_pos rfl, bit_or hp]
      by_cases hr : r = p
      · simp [hr]
      · simp [hr, h.bit b r]
    · rw [if_neg hb, h.bit b r, if_neg fun hbr => hb hbr.1]
  · rw [appended]
    split
    · next hbr => exact fun _ => hbr.2 ▸ hp
    · exact h.low b r

/-! ## Taken out -/

section dequeue

variable {q : RunQueue} {a b : Arr} {r : Nat} {t x : Tid}

theorem dequeue_eq_self (h : (q.node t).array = none) : q.dequeue t = q := by
  simp [dequeue, h]

theorem dequeue_next (h : (q.node t).array = some a) (hx : x ≠ t) : ((q.dequeue t).node x).next =
      if (q.node t).prev = some x then (q.node t).next else (q.node x).next := by
  simp only [dequeue, h, setNode_node, if_neg hx]
  split <;> simp

theorem dequeue_prev (h : (q.node t).array = some a) (hx : x ≠ t) : ((q.dequeue t).node x).prev =
      if (q.node t).next = some x then (q.node t).prev else (q.node x).prev := by
  simp only [dequeue, h, setNode_node, if_neg hx]
  split <;> simp

theorem dequeue_array : ((q.dequeue t).node x).array =
    if x = t then none else (q.node x).array := by
  cases h : (q.node t).array with
  | none =>
    rw [dequeue_eq_self h]
    by_cases hx : x = t <;> simp [hx, h]
  | some a =>
    simp only [dequeue, h, setNode_node]
    by_cases hx : x = t
    · simp [hx]
    · simp only [if_neg hx]
      split <;> simp

theorem dequeue_prio : ((q.dequeue t).node x).prio = (q.node x).prio := by
  cases h : (q.node t).array with
  | none => rw [dequeue_eq_self h]
  | some a =>
    simp only [dequeue, h, setNode_node]
    by_cases hx : x = t
    · subst hx
      simp only [if_true]
      split <;> simp
    · simp only [if_neg hx]
      split <;> simp

theorem dequeue_head (h : (q.node t).array = some a) : ((q.dequeue t).arrays b).head r =
      if (q.node t).prev = none ∧ b = a ∧ r = (q.node t).prio then (q.node t).next
      else (q.arrays b).head r := by
  simp only [dequeue, h]
  split <;> simp

theorem dequeue_tail (h : (q.node t).array = some a) : ((q.dequeue t).arrays b).tail r =
      if (q.node t).next = none ∧ b = a ∧ r = (q.node t).prio then (q.node t).prev
      else (q.arrays b).tail r := by
  simp only [dequeue, h]
  split <;> simp

theorem dequeue_bitmap (h : (q.node t).array = some a) : ((q.dequeue t).arrays b).bitmap =
      if b = a ∧ ((q.dequeue t).arrays a).head (q.node t).prio = none then
        (q.arrays a).bitmap &&& ~~~(1#32 <<< (q.node t).prio)
      else (q.arrays b).bitmap := by
  simp only [dequeue, h]
  by_cases hp : (q.node t).prev = none
  · by_cases hn : (q.node t).next = none <;> simp [hp, hn]
  · by_cases hn : (q.arrays a).head (q.node t).prio = none <;> simp [hp, hn]

end dequeue

/-- The lists after `t` was taken out. -/
def removed (L : Arr → Nat → List Tid) (t : Tid) : Arr → Nat → List Tid :=
  fun b r => (L b r).filter fun x => decide (x ≠ t)

theorem filter_ne_of_not_mem {l : List Tid} (h : t ∉ l) : l.filter (fun x => decide (x ≠ t)) = l :=
  filter_eq_self.2 fun x hx => by
    simpa using fun heq : x = t => h (heq ▸ hx)

theorem filter_ne_middle {l r : List Tid} (h : (l ++ t :: r).Nodup) :
    (l ++ t :: r).filter (fun x => decide (x ≠ t)) = l ++ r := by
  have hl : t ∉ l := fun ht => (nodup_append.1 h).2.2 t ht t (by simp) rfl
  have hr : t ∉ r := (nodup_cons.1 (nodup_append.1 h).2.1).1
  rw [filter_append, filter_cons_of_neg (by simp), filter_ne_of_not_mem hl, filter_ne_of_not_mem hr]

theorem Queued.dequeue (h : Queued q L) (t : Tid) : Queued (q.dequeue t) (removed L t) := by
  cases hta : (q.node t).array with
  | none =>
    have hL : removed L t = L := by
      funext b r
      refine filter_ne_of_not_mem fun hm => ?_
      rw [h.array_of_mem hm] at hta
      cases hta
    rw [dequeue_eq_self hta, hL]
    exact h
  | some a =>
    have hlinked : ∀ b r, Linked (fun x => ((q.dequeue t).node x).next)
        (fun x => ((q.dequeue t).node x).prev) (((q.dequeue t).arrays b).head r)
        (((q.dequeue t).arrays b).tail r) (removed L t b r) := fun b r => by
      obtain ⟨l, m, hlm⟩ := append_of_mem (h.mem_of_array hta)
      have hlk := h.linked a (q.node t).prio
      rw [hlm] at hlk
      rw [dequeue_head hta, dequeue_tail hta]
      by_cases hbr : b = a ∧ r = (q.node t).prio
      · obtain ⟨rfl, rfl⟩ := hbr
        have hrm : removed L t b (q.node t).prio = l ++ m := by
          rw [removed, hlm, filter_ne_middle hlk.nodup]
        have hne : ∀ x ∈ l ++ m, x ≠ t := fun x hx => by
          rw [← hrm] at hx
          simpa using (mem_filter.1 hx).2
        rw [hrm]
        refine hlk.unlink ⟨?_, fun x hx hxt => ?_⟩ ⟨?_, fun x hx hxt => ?_⟩
        · cases hp : (q.node t).prev with
          | none => simp
          | some p =>
            have hpt : p ≠ t := hne p (by
              rw [hlk.prev_eq] at hp
              simp [mem_of_getLast? hp])
            simp [dequeue_next hta hpt, hp]
        · show ((q.dequeue t).node x).next = (q.node x).next
          rw [dequeue_next hta (hne x hx), if_neg hxt]
        · cases hn : (q.node t).next with
          | none => simp
          | some n =>
            have hnt : n ≠ t := hne n (by
              rw [hlk.next_eq] at hn
              simp [mem_of_head? hn])
            simp [dequeue_prev hta hnt, hn]
        · show ((q.dequeue t).node x).prev = (q.node x).prev
          rw [dequeue_prev hta (hne x hx), if_neg hxt]
      · -- the neighbours of `t` are in its own list only
        have hout : ∀ {x}, x ∈ L a (q.node t).prio → x ∉ L b r := fun hx hx' => by
          have h1 := (h.mem _ _ _).1 hx
          have h2 := (h.mem _ _ _).1 hx'
          exact hbr ⟨Option.mem_unique h2.1 h1.1, h2.2.symm.trans h1.2⟩
        have hrm : removed L t b r = L b r := filter_ne_of_not_mem (hout (h.mem_of_array hta))
        rw [hrm, if_neg fun hh => hbr hh.2, if_neg fun hh => hbr hh.2]
        have hne : ∀ x ∈ L b r, x ≠ t := fun x hx heq =>
          hout (h.mem_of_array hta) (heq ▸ hx)
        refine (h.linked b r).congr (fun x hx => ?_) fun x hx => ?_
        · rw [dequeue_next hta (hne x hx), if_neg]
          intro hxt
          rw [hlk.prev_eq] at hxt
          exact hout (hlm ▸ by simp [mem_of_getLast? hxt]) hx
        · rw [dequeue_prev hta (hne x hx), if_neg]
          intro hxt
          rw [hlk.next_eq] at hxt
          exact hout (hlm ▸ by simp [mem_of_head? hxt]) hx
    refine ⟨hlinked, fun b r x => ?_, fun b r => ?_, fun b r hne => ?_⟩
    · rw [dequeue_array, dequeue_prio, removed, mem_filter, h.mem b r x]
      by_cases hx : x = t <;> simp [hx]
    · have hp : (q.node t).prio < prioLevels := h.low a _ (ne_nil_of_mem (h.mem_of_array hta))
      have hempty := (hlinked a (q.node t).prio).head_isNone
      rw [dequeue_bitmap hta]
      by_cases hb : b = a
      · subst hb
        by_cases hnil : removed L t b (q.node t).prio = []
        · rw [if_pos ⟨rfl, hempty.2 hnil⟩, bit_andNot hp]
          by_cases hr : r = (q.node t).prio
          · simp [hr, hnil]
          have hrm : removed L t b r = L b r := filter_ne_of_not_mem fun hm =>
            hr ((h.mem b r t).1 hm).2.symm
          rw [hrm, ← h.bit b r]
          simp [hr]
        · rw [if_neg fun hh => hnil (hempty.1 hh.2), h.bit b r]
          by_cases hr : r = (q.node t).prio
          · rw [hr]
            exact ⟨fun _ => hnil, fun _ => ne_nil_of_mem (h.mem_of_array hta)⟩
          · have hrm : removed L t b r = L b r := filter_ne_of_not_mem fun hm =>
              hr ((h.mem b r t).1 hm).2.symm
            rw [hrm]
      · have hrm : removed L t b r = L b r := filter_ne_of_not_mem fun hm =>
          hb (Option.some.inj (((h.mem b r t).1 hm).1.symm.trans hta))
        rw [if_neg fun hh => hb hh.1, hrm, h.bit b r]
    · refine h.low b r fun hnil => hne ?_
      rw [removed, hnil, filter_nil]

end BleedKernel.Sched
