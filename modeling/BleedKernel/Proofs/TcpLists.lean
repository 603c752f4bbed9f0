import BleedKernel.Lib.Links
import BleedKernel.Proofs.TcpStages

/-!
# The lists of connections hold together

`Inv` says what holds between two steps: which connections are on `tcp_list`, which of a
listener's children are half open and which wait in its queue, and who is going to free
each of them: a socket, the listener it belongs to, or the next tick.

A listener that is going away frees its queue without taking it apart, so its own fields
are wrong for a while. `d` names such a listener, and what is said of a listener's fields
is not said of it.
-/

namespace BleedKernel.TcpList

open Function Lib Tcp Net List

variable {cell : Ptr} {u : Tcb}

/-- `xs` are the connections on the list. -/
structure Listing (s : Net) (xs : List Nat) : Prop where
  chain : Lead s.next s.tcpList xs none
  nodup : xs.Nodup
  listed : ∀ a, a ∈ xs ↔ s.live a = true ∧ s.linked a = true

/-- The memory was used as it should be. -/
structure Memory (s : Net) : Prop where
  sound : s.stale = false
  once : ∀ a, s.frees a ≤ 1
  beyond : ∀ a, s.born ≤ a → s.frees a = 0

/-- `Q l` are the connections in the queue of `l`, `H l` its half open ones. -/
structure Queues (s : Net) (d : Ptr) (Q H : Nat → List Nat) : Prop where
  queue : ∀ l, s.live l = true → d ≠ some l →
    Lead s.acceptNext (s.acceptHead l) (Q l) none ∧ s.acceptTail l = (Q l).getLast?
  queued : ∀ l, s.live l = true → (Q l).Nodup ∧
    ∀ c, c ∈ Q l ↔ s.live c = true ∧ s.parent c = some l ∧ s.state c ≠ .synRcvd
  half : ∀ l, s.live l = true → (H l).Nodup ∧
    ∀ c, c ∈ H l ↔ s.live c = true ∧ s.parent c = some l ∧ s.state c = .synRcvd
  pending : ∀ l, s.live l = true → d ≠ some l → s.pending l = ((H l).length + (Q l).length : Nat)

/-- One connection is where it belongs. -/
structure Placed (s : Net) (d : Ptr) (a : Nat) : Prop where
  parent : ∀ l, s.parent a = some l → s.live l = true ∧ s.state l = .listen
  rcvd : s.state a = .synRcvd → s.parent a ≠ none ∧ s.acceptNext a = none
  owner : s.owned a = true → s.parent a = none ∧ (s.tcb a).detached = false
  child : s.parent a ≠ none → (s.tcb a).detached = false
  orphan : s.owned a = false → s.parent a = none → (s.tcb a).detached = true ∧ s.linked a = true
  opened : s.state a ≠ .closed → s.linked a = true
  listens : d ≠ some a → s.state a = .listen → s.owned a = true
  idle : Idle (s.tcb a)

/-- The invariant: memory, list and queues are in order, and what is in use has its place. -/
structure Inv (s : Net) (d : Ptr) (xs : List Nat) (Q H : Nat → List Nat) : Prop
    extends Memory s, Listing s xs, Queues s d Q H where
  held : ∀ a, s.owned a = true → s.live a = true
  placed : ∀ a, s.live a = true → Placed s d a

section

variable {s s' : Net} {d : Ptr} {xs : List Nat} {Q H : Nat → List Nat} {a b c l t : Nat}

theorem touch_of_live (h : s.live a = true) : s.touch a = s := by
  rw [touch, h, Bool.not_true, Bool.or_false]

theorem live_iff : s.live a = true ↔ a < s.born ∧ s.frees a = 0 := by
  rw [live, Bool.and_eq_true, decide_eq_true_eq, beq_iff_eq]

theorem work_of_live (h : s.live a = true) {f : Work → Work} : s.work a f = { s with
      tcb := update s.tcb a (f ⟨s.tcb a, s.out⟩).t
      out := (f ⟨s.tcb a, s.out⟩).out } := by
  rw [work, touch_of_live h]

theorem length_le_born (hnd : xs.Nodup) (hl : ∀ a ∈ xs, s.live a = true) : xs.length ≤ s.born := by
  have hsub : xs ⊆ range s.born := by
    intro a ha
    exact mem_range.mpr (live_iff.mp (hl a ha)).1
  have hle := (subperm_of_subset hnd hsub).length_le
  rwa [length_range] at hle

/-! ## The list by itself -/

/-- The loop of `tcp_unlink` comes to the cell that leads to `t`, and stores what is
behind `t` there. -/
theorem unlinkLoop_eq {fuel : Nat} {p r : List Nat}
    (hc : Lead s.next (s.cell cell) (p ++ t :: r) none) (hl : ∀ x ∈ p ++ [t], s.live x = true)
    (hp : t ∉ p) (hf : p.length < fuel) :
    unlinkLoop t fuel cell s = s.setCell (s.next t) (p.getLast?.or cell) := by
  induction p, fuel, hf using fuel_induction generalizing cell with
  | nil fuel =>
    rw [unlinkLoop, hc.1]
    show (if t = t then (s.touch t).setCell ((s.touch t).next t) cell else _) = _
    rw [if_pos rfl, touch_of_live (hl t (by simp))]
    rfl
  | cons x p fuel hf ih =>
    have hne : x ≠ t := fun he => hp (he ▸ mem_cons_self)
    rw [unlinkLoop, hc.1]
    show (if x = t then _ else unlinkLoop t fuel (some x) (s.touch x)) = _
    have hrest : Lead s.next (s.cell (some x)) (p ++ t :: r) none := hc.2
    rw [if_neg hne, touch_of_live (hl x (by simp)),
      ih hrest (fun y hy => hl y (mem_cons_of_mem _ hy)) (fun hm => hp (mem_cons_of_mem _ hm)),
      getLast?_cons]
    cases p.getLast? <;> rfl

theorem setCell_eq {v : Ptr} : s.setCell v cell = { s with
      tcpList := (s.setCell v cell).tcpList
      next := (s.setCell v cell).next } := by
  cases cell <;> rfl

theorem setCell_stored {v : Ptr} {ys : List Nat} :
    Stored s.next (s.setCell v cell).next s.tcpList (s.setCell v cell).tcpList cell v ys := by
  cases cell with
  | none => exact ⟨rfl, fun _ _ _ => rfl⟩
  | some p =>
    refine ⟨⟨rfl, update_self _ _ _⟩, ?_⟩
    intro x _ hx
    exact update_of_ne (fun he => hx (congrArg some he.symm)) _ _

theorem Listing.live (h : Listing s xs) : ∀ a ∈ xs, s.live a = true :=
  fun a ha => ((h.listed a).mp ha).1

/-- `tcp_unlink` changes the list and nothing else. -/
theorem Listing.unlink (h : Listing s xs) (hl : s.live a = true) (ha : s.linked a = true) :
    ∃ root next, s.tcpUnlink a = { s with
        tcpList := root
        next := next
        linked := update s.linked a false } ∧
      Lead next root (xs.erase a) none := by
  have hmem : a ∈ xs := (h.listed a).mpr ⟨hl, ha⟩
  obtain ⟨p, r, rfl⟩ := append_of_mem hmem
  have hap : a ∉ p := by
    intro hm
    exact (nodup_append.1 h.nodup).2.2 a hm a mem_cons_self rfl
  have hlen := length_le_born h.nodup h.live
  rw [length_append] at hlen
  have hlive : ∀ x ∈ p ++ [a], s.live x = true := by
    intro x hx
    refine h.live x ?_
    rcases mem_append.mp hx with hx | hx
    · exact mem_append_left _ hx
    · rw [mem_singleton.mp hx]
      exact hmem
  have hloop : unlinkLoop a (s.born + 1) none s = s.setCell (s.next a) p.getLast? := by
    have hchain : Lead s.next (s.cell none) (p ++ a :: r) none := h.chain
    rw [unlinkLoop_eq hchain hlive hap (by omega), Option.or_none]
  refine ⟨(s.setCell (s.next a) p.getLast?).tcpList, (s.setCell (s.next a) p.getLast?).next, ?_, ?_⟩
  · rw [tcpUnlink, touch_of_live hl, hloop]
    conv_lhs => rw [setCell_eq]
  · rw [erase_append_right _ hap, erase_cons_head]
    exact h.chain.unlink (h.nodup.sublist (by simp)) setCell_stored

/-- So does `tcp_free`, and it gives the memory back. -/
theorem Listing.free (h : Listing s xs) (hl : s.live a = true) :
    ∃ root next linked, s.tcpFree a = { s with
        tcpList := root
        next := next
        linked := linked
        frees := update s.frees a (s.frees a + 1) } ∧
      Lead next root (xs.erase a) none ∧ ∀ b, b ≠ a → linked b = s.linked b := by
  rw [tcpFree, touch_of_live hl]
  by_cases ha : s.linked a = true
  · obtain ⟨root, next, heq, hchain⟩ := h.unlink hl ha
    refine ⟨root, next, _, ?_, hchain, fun b hb => update_of_ne hb false s.linked⟩
    rw [if_pos ha, heq]
    have hlive : Net.live { s with
        tcpList := root
        next := next
        linked := update s.linked a false } a = true := hl
    rw [kfree, touch_of_live hlive]
  · refine ⟨s.tcpList, s.next, s.linked, ?_, ?_, fun _ _ => rfl⟩
    · rw [if_neg ha, kfree, touch_of_live hl]
    · rw [erase_of_not_mem fun hm => ha ((h.listed a).mp hm).2]
      exact h.chain

/-! ## What is stored for a listener -/

theorem dropParent_eq (ht : s.live t = true) (hp : s.parent t = some l) (hl : s.live l = true) :
    s.dropParent t = { s with
      parent := update s.parent t none
      pending := update s.pending l (s.pending l - 1) } := by
  simp only [Net.dropParent]
  rw [touch_of_live ht, hp]
  simp only [touch_of_live hl]

/-- What `tcp_syn_rcvd` stores when it puts a connection behind the queue `q` of `l`. -/
theorem enqueue_eq {q : List Nat} (hp : s.parent t = some l) (hl : s.live l = true)
    (htail : s.acceptTail l = q.getLast?) (hq : ∀ c ∈ q, s.live c = true) :
    ∃ head next, s.enqueue t = { s with
        acceptHead := head
        acceptNext := next
        acceptTail := update s.acceptTail l (some t) } ∧
      Stored s.acceptNext next (s.acceptHead l) (head l) q.getLast? (some t) q ∧
      (∀ b, b ≠ l → head b = s.acceptHead b) ∧ ∀ c, c ∉ q → next c = s.acceptNext c := by
  simp only [enqueue, hp]
  rw [touch_of_live hl, htail]
  cases hlast : q.getLast? with
  | none =>
    refine ⟨_, _, rfl, ⟨update_self _ _ _, fun _ _ _ => rfl⟩, ?_, fun _ _ => rfl⟩
    exact fun b hb => update_of_ne hb _ _
  | some tail =>
    have hmem : tail ∈ q := mem_of_getLast? hlast
    simp only [touch_of_live (hq tail hmem)]
    refine ⟨_, _, rfl, ⟨⟨rfl, update_self _ _ _⟩, ?_⟩, fun _ _ => rfl, ?_⟩
    · exact fun c _ hc => update_of_ne (fun he => hc (congrArg some he.symm)) _ _
    · exact fun c hc => update_of_ne (ne_of_mem_of_not_mem hmem hc).symm _ _

/-! ## One connection changes -/

/-- What is true of a connection whose own fields are as before. -/
theorem Placed.frame (h : Placed s d a) (htcb : s'.tcb a = s.tcb a)
    (hparent : s'.parent a = s.parent a) (howned : s'.owned a = s.owned a)
    (hlinked : s'.linked a = s.linked a)
    (hnext : s.state a = .synRcvd → s'.acceptNext a = s.acceptNext a)
    (hl : ∀ l, s.parent a = some l → s.live l = true → s.state l = .listen →
      s'.live l = true ∧ s'.state l = .listen) : Placed s' d a := by
  have hstate : s'.state a = s.state a := congrArg _ htcb
  refine ⟨?_, ?_, ?_, ?_, ?_, ?_, ?_, ?_⟩
  · intro l hp
    rw [hparent] at hp
    exact hl l hp (h.parent l hp).1 (h.parent l hp).2
  · intro hs
    rw [hstate] at hs
    rw [hparent, hnext hs]
    exact h.rcvd hs
  · rw [howned, hparent, htcb]
    exact h.owner
  · rw [hparent, htcb]
    exact h.child
  · rw [howned, hparent, htcb, hlinked]
    exact h.orphan
  · rw [hstate, hlinked]
    exact h.opened
  · rw [hstate, howned]
    exact h.listens
  · rw [htcb]
    exact h.idle

/-- Only the fields of `t` are others, and those of queues. -/
structure Only (s s' : Net) (t : Nat) : Prop where
  born : s'.born = s.born
  frees : s'.frees = s.frees
  stale : s'.stale = s.stale
  tcpList : s'.tcpList = s.tcpList
  next : s'.next = s.next
  linked : s'.linked = s.linked
  tcb : ∀ c, c ≠ t → s'.tcb c = s.tcb c
  parent : ∀ c, c ≠ t → s'.parent c = s.parent c
  owned : ∀ c, c ≠ t → s'.owned c = s.owned c

theorem Only.live (h : Only s s' t) : s'.live = s.live := by
  funext a
  rw [Net.live, Net.live, h.born, h.frees]

theorem Only.state (h : Only s s' t) (hc : c ≠ t) : s'.state c = s.state c :=
  congrArg _ (h.tcb c hc)

/-- `ys` are the children of `l` in a state of `P`. -/
def Members (s : Net) (P : State → Prop) (l : Nat) (ys : List Nat) : Prop :=
  ys.Nodup ∧ ∀ c, c ∈ ys ↔ s.live c = true ∧ s.parent c = some l ∧ P (s.state c)

section

variable {P : State → Prop} {ys zs : List Nat} (h : Members s P l ys) (ho : Only s s' t)

include h ho

theorem Members.only (hnd : zs.Nodup) (hsame : ∀ c, c ≠ t → (c ∈ zs ↔ c ∈ ys))
    (ht : t ∈ zs ↔ s.live t = true ∧ s'.parent t = some l ∧ P (s'.state t)) :
    Members s' P l zs := by
  refine ⟨hnd, fun c => ?_⟩
  by_cases hct : c = t
  · rw [hct, ht, ho.live]
  · rw [hsame c hct, h.2 c, ho.live, ho.parent c hct, ho.state hct]

theorem Members.stay (ht : s.live t = true →
      (s.parent t = some l ∧ P (s.state t) ↔ s'.parent t = some l ∧ P (s'.state t))) :
    Members s' P l ys :=
  h.only ho h.1 (fun _ _ => Iff.rfl) ((h.2 t).trans (and_congr_right ht))

theorem Members.leave (ht : ¬(s'.parent t = some l ∧ P (s'.state t))) :
    Members s' P l (ys.erase t) :=
  h.only ho (h.1.erase t) (fun _ => mem_erase_of_ne)
    (iff_of_false h.1.not_mem_erase fun hc => ht hc.2)

theorem Members.join (hno : t ∉ ys) (hz : zs ~ t :: ys) (hl : s.live t = true)
    (ht : s'.parent t = some l ∧ P (s'.state t)) : Members s' P l zs := by
  refine h.only ho (hz.nodup_iff.mpr (nodup_cons.mpr ⟨hno, h.1⟩)) (fun c hc => ?_)
    (iff_of_true (hz.mem_iff.mpr mem_cons_self) ⟨hl, ht⟩)
  rw [hz.mem_iff, mem_cons, or_iff_right hc]

end

theorem Queues.waiting (h : Queues s d Q H) (hl : s.live l = true) :
    Members s (· ≠ .synRcvd) l (Q l) := h.queued l hl

theorem Queues.opening (h : Queues s d Q H) (hl : s.live l = true) :
    Members s (· = .synRcvd) l (H l) := h.half l hl

theorem Queues.of_only (ho : Only s s' t) (hq : ∀ l, s.live l = true → d ≠ some l →
      Lead s'.acceptNext (s'.acceptHead l) (Q l) none ∧ s'.acceptTail l = (Q l).getLast?)
    (hQ : ∀ l, s.live l = true → Members s' (· ≠ .synRcvd) l (Q l))
    (hH : ∀ l, s.live l = true → Members s' (· = .synRcvd) l (H l))
    (hp : ∀ l, s.live l = true → d ≠ some l →
      s'.pending l = ((H l).length + (Q l).length : Nat)) : Queues s' d Q H := by
  rw [← ho.live] at hq hQ hH hp
  exact ⟨hq, hQ, hH, hp⟩

/-- The queues as they are then, and the one connection in its place, make up all of it. -/
theorem Inv.only (h : Inv s d xs Q H) (ho : Only s s' t) {Q' H' : Nat → List Nat}
    (hq : Queues s' d Q' H')
    (hlisten : s.live t = true → s.state t = .listen → s'.state t = .listen)
    (hnext : ∀ c, c ≠ t → s.live c = true → s.state c = .synRcvd → s'.acceptNext c = s.acceptNext c)
    (hheld : s'.owned t = true → s.live t = true) (hp : s.live t = true → Placed s' d t) :
    Inv s' d xs Q' H' := by
  refine { hq with
    sound := by rw [ho.stale]; exact h.sound
    once := by rw [ho.frees]; exact h.once
    beyond := by rw [ho.frees, ho.born]; exact h.beyond
    chain := by rw [ho.next, ho.tcpList]; exact h.chain
    nodup := h.nodup
    listed := by rw [ho.live, ho.linked]; exact h.listed
    held := fun a ha => ?_
    placed := fun a ha => ?_ }
  · rw [ho.live]
    by_cases hat : a = t
    · rw [hat] at ha ⊢
      exact hheld ha
    · rw [ho.owned a hat] at ha
      exact h.held a ha
  · rw [ho.live] at ha
    by_cases hat : a = t
    · rw [hat] at ha ⊢
      exact hp ha
    refine (h.placed a ha).frame (ho.tcb a hat) (ho.parent a hat) (ho.owned a hat)
      (congrFun ho.linked a) (hnext a hat ha) ?_
    intro l _ hl hs
    rw [ho.live]
    refine ⟨hl, ?_⟩
    by_cases hlt : l = t
    · rw [hlt] at hl hs ⊢
      exact hlisten hl hs
    · rwa [ho.state hlt]

/-- A connection that is where it was before leaves the queues alone. -/
theorem Queues.stays (h : Queues s d Q H) (ho : Only s s' t) (hnext : s'.acceptNext = s.acceptNext)
    (hhead : s'.acceptHead = s.acceptHead) (htail : s'.acceptTail = s.acceptTail)
    (hpending : s'.pending = s.pending)
    (hs : s.live t = true → s'.parent t = s.parent t ∧
      (s.parent t ≠ none → (s'.state t = .synRcvd ↔ s.state t = .synRcvd))) :
    Queues s' d Q H := by
  refine .of_only ho ?_ ?_ ?_ ?_
  · rw [hnext, hhead, htail]
    exact h.queue
  · refine fun l hl => (h.waiting hl).stay ho fun ht => ?_
    rw [(hs ht).1]
    exact and_congr_right fun hp => not_congr ((hs ht).2 (by rw [hp]; exact nofun)).symm
  · refine fun l hl => (h.opening hl).stay ho fun ht => ?_
    rw [(hs ht).1]
    exact and_congr_right fun hp => ((hs ht).2 (by rw [hp]; exact nofun)).symm
  · rw [hpending]
    exact h.pending

namespace Inv

/-- A connection changes, and is in the hands of a socket or not, but is where it was. -/
theorem change (h : Inv s d xs Q H) (ht : s.live t = true) {o : Bool} {out : Out}
    (hrcvd : u.state = .synRcvd ↔ s.state t = .synRcvd)
    (hlisten : s.state t = .listen → u.state = .listen)
    (howner : o = true → s.parent t = none ∧ u.detached = false)
    (hchild : s.parent t ≠ none → u.detached = false)
    (horphan : o = false → s.parent t = none → u.detached = true ∧ s.linked t = true)
    (hopened : u.state ≠ .closed → s.linked t = true)
    (hlistens : d ≠ some t → u.state = .listen → o = true) (hidle : Idle u) :
    Inv { s with
      tcb := update s.tcb t u
      owned := update s.owned t o
      out := out } d xs Q H := by
  generalize hs' : Net.mk _ _ _ _ _ _ _ _ _ _ _ _ _ _ _ = s'
  have ho : Only s s' t := by
    subst hs'
    exact ⟨rfl, rfl, rfl, rfl, rfl, rfl, fun c hc => update_of_ne hc _ _, fun _ _ => rfl,
      fun c hc => update_of_ne hc _ _⟩
  have htcb : s'.tcb t = u := by
    subst hs'
    exact update_self _ _ _
  have hstate : s'.state t = u.state := congrArg _ htcb
  have howned : s'.owned t = o := by
    subst hs'
    exact update_self _ _ _
  have hnext : s'.acceptNext = s.acceptNext := by rw [← hs']
  have hpar : s'.parent = s.parent := by rw [← hs']
  refine h.only ho ?_ ?_ ?_ ?_ ?_
  · refine h.toQueues.stays ho hnext (by rw [← hs']) (by rw [← hs']) (by rw [← hs']) fun _ => ?_
    rw [hpar, hstate]
    exact ⟨rfl, fun _ => hrcvd⟩
  · rw [hstate]
    exact fun _ => hlisten
  · rw [hnext]
    exact fun _ _ _ _ => rfl
  · exact fun _ => ht
  · intro _
    have hp := h.placed t ht
    refine ⟨?_, ?_, ?_, ?_, ?_, ?_, ?_, ?_⟩
    · intro l hl
      rw [hpar] at hl
      obtain ⟨hlv, hs⟩ := hp.parent l hl
      rw [ho.live]
      refine ⟨hlv, ?_⟩
      by_cases hlt : l = t
      · rw [hlt] at hs ⊢
        exact hstate.trans (hlisten hs)
      · rwa [ho.state hlt]
    · rw [hstate, hpar, hnext]
      exact fun hs => hp.rcvd (hrcvd.mp hs)
    · rw [howned, hpar, htcb]
      exact howner
    · rw [hpar, htcb]
      exact hchild
    · rw [howned, hpar, htcb, ho.linked]
      exact horphan
    · rw [hstate, ho.linked]
      exact hopened
    · rw [hstate, howned]
      exact hlistens
    · rw [htcb]
      exact hidle

/-- The stage of a connection is as before, or it was open and is closed now. -/
structure Kept (t u : Tcb) : Prop where
  rcvd : u.state = .synRcvd ↔ t.state = .synRcvd
  listen : u.state = .listen ↔ t.state = .listen
  closed : t.state = .closed → u.state = .closed
  detached : u.detached = t.detached
  idle : Idle u

theorem Kept.of_ends {t : Tcb} (h : Ends t u) (ho : t.state.stage = .open) : Kept t u := by
  have hu : u.state ≠ .synRcvd ∧ u.state ≠ .listen := by
    rcases h.stage with hs | ⟨hs, -⟩
    · constructor <;> (intro he; rw [he] at hs; cases hs)
    · rw [hs]
      exact ⟨nofun, nofun⟩
  have ht : t.state ≠ .synRcvd ∧ t.state ≠ .listen ∧ t.state ≠ .closed := by
    refine ⟨?_, ?_, ?_⟩ <;> (intro he; rw [he] at ho; cases ho)
  exact ⟨⟨fun he => absurd he hu.1, fun he => absurd he ht.1⟩,
    ⟨fun he => absurd he hu.2, fun he => absurd he ht.2.1⟩, fun he => absurd he ht.2.2,
    h.detached, h.idle⟩

theorem Kept.of_state {t : Tcb} (hs : u.state = t.state) (hd : u.detached = t.detached)
    (hi : Idle u) : Kept t u :=
  ⟨by rw [hs], by rw [hs], hs.trans, hd, hi⟩

theorem Kept.of_waits {t : Tcb} (h : Waits t u) (hs : t.state = .synRcvd) : Kept t u :=
  .of_state (h.state.trans hs.symm) h.detached h.idle

/-- A function works on a connection. -/
theorem work (h : Inv s d xs Q H) (ht : s.live t = true) {f : Work → Work}
    (hk : Kept (s.tcb t) (f ⟨s.tcb t, s.out⟩).t) : Inv (s.work t f) d xs Q H := by
  have hp := h.placed t ht
  rw [work_of_live ht]
  have hsame : s.owned = update s.owned t (s.owned t) := (update_eq_self t s.owned).symm
  rw [hsame]
  refine h.change ht hk.rcvd hk.listen.mpr ?_ ?_ ?_ ?_ ?_ hk.idle
  · rw [hk.detached]
    exact hp.owner
  · rw [hk.detached]
    exact hp.child
  · rw [hk.detached]
    exact hp.orphan
  · exact fun hs => hp.opened fun hc => hs (hk.closed hc)
  · exact fun hd hs => hp.listens hd (hk.listen.mp hs)

/-- A closed connection in the hands of a socket sets out, or begins to listen. -/
theorem raise (h : Inv s d xs Q H) (ht : s.owned t = true) (hlk : s.linked t = true)
    (hs : s.state t = .closed) (hu : u.state ≠ .synRcvd)
    (hd : u.detached = (s.tcb t).detached) (hi : Idle u) (out : Out) :
    Inv { s with tcb := update s.tcb t u, out := out } d xs Q H := by
  have hl := h.held t ht
  obtain ⟨hpar, hdet⟩ := (h.placed t hl).owner ht
  have hsame : s.owned = update s.owned t true := by
    rw [← ht, update_eq_self]
  rw [hsame]
  refine h.change hl ?_ ?_ ?_ ?_ ?_ ?_ ?_ hi
  · rw [hs]
    exact ⟨fun hc => absurd hc hu, nofun⟩
  · rw [hs]
    exact nofun
  · exact fun _ => ⟨hpar, hd.trans hdet⟩
  · exact fun _ => hd.trans hdet
  · exact nofun
  · exact fun _ => hlk
  · exact fun _ _ => rfl

/-- A socket lets go of an open connection. -/
theorem letGo (h : Inv s d xs Q H) (ht : s.owned t = true) (hs : (s.state t).stage = .open)
    (hu : u.state.stage = .open) (hd : u.detached = true) (out : Out) :
    Inv { s with
      tcb := update s.tcb t u
      owned := update s.owned t false
      out := out } d xs Q H := by
  have hl := h.held t ht
  obtain ⟨hpar, -⟩ := (h.placed t hl).owner ht
  have hlk : s.linked t = true := by
    refine (h.placed t hl).opened ?_
    intro hc
    rw [hc] at hs
    cases hs
  have hnot : ∀ {x : State}, x.stage = .open → x ≠ .synRcvd ∧ x ≠ .listen := by
    intro x hx
    constructor <;> (rintro rfl; cases hx)
  refine h.change hl ?_ ?_ nofun ?_ ?_ ?_ ?_ (Ends.refl hu).idle
  · exact ⟨fun hc => absurd hc (hnot hu).1, fun hc => absurd hc (hnot hs).1⟩
  · exact fun hc => absurd hc (hnot hs).2
  · exact absurd hpar
  · exact fun _ _ => ⟨hd, hlk⟩
  · exact fun _ => hlk
  · exact fun _ hc => absurd hc (hnot hu).2

/-- A socket lets go of a listener, which goes away now. -/
theorem retire (h : Inv s none xs Q H) (ht : s.owned t = true) (hs : s.state t = .listen) :
    Inv { s with
      tcb := update s.tcb t { s.tcb t with detached := true }
      owned := update s.owned t false } (some t) xs Q H := by
  have hl := h.held t ht
  have hp := h.placed t hl
  obtain ⟨hpar, -⟩ := hp.owner ht
  have hleave : Inv s (some t) xs Q H := { h with
      queue := fun l hl _ => h.queue l hl nofun
      pending := fun l hl _ => h.pending l hl nofun
      placed := fun a ha => { h.placed a ha with listens := fun _ => (h.placed a ha).listens nofun } }
  have hlk : s.linked t = true := hp.opened (by rw [hs]; exact nofun)
  refine hleave.change hl Iff.rfl id nofun ?_ ?_ ?_ ?_ ?_
  · exact absurd hpar
  · exact fun _ _ => ⟨rfl, hlk⟩
  · exact fun _ => hlk
  · exact absurd rfl
  · exact ⟨hp.idle.recovery, hp.idle.timer, hp.idle.fresh⟩

/-! ## The list -/

theorem link (h : Inv s d xs Q H) (ha : s.live a = true) (hno : s.linked a = false) :
    Inv (s.link a) d (a :: xs) Q H := by
  have hnot : a ∉ xs := by
    intro hmem
    rw [((h.listed a).mp hmem).2] at hno
    cases hno
  have hlinked : ∀ b, b ≠ a → (s.link a).linked b = s.linked b := fun b hb => update_of_ne hb _ _
  have hself : (s.link a).linked a = true := update_self _ _ _
  refine { h with
    chain := ⟨rfl, ?_⟩
    nodup := nodup_cons.mpr ⟨hnot, h.nodup⟩
    listed := fun b => ?_
    placed := fun b hb => ?_ }
  · show Lead (update s.next a s.tcpList) (update s.next a s.tcpList a) xs none
    rw [update_self]
    exact h.chain.congr fun x hx => update_of_ne (ne_of_mem_of_not_mem hx hnot) _ _
  · show b ∈ a :: xs ↔ s.live b = true ∧ (s.link a).linked b = true
    rw [mem_cons]
    by_cases hba : b = a
    · rw [hba, hself]
      exact ⟨fun _ => ⟨ha, rfl⟩, fun _ => .inl rfl⟩
    · rw [hlinked b hba, h.listed b]
      exact ⟨fun hb => hb.resolve_left hba, .inr⟩
  · have hp := h.placed b hb
    by_cases hba : b = a
    · subst hba
      exact { hp with
        orphan := fun ho hpar => ⟨(hp.orphan ho hpar).1, hself⟩
        opened := fun _ => hself }
    · exact hp.frame rfl rfl rfl (hlinked b hba) (fun _ => rfl) fun _ _ hl hs => ⟨hl, hs⟩

/-- A closed connection is taken off the list; someone still has it. -/
theorem unlink (h : Inv s d xs Q H) (hl : s.live a = true) (ha : s.linked a = true)
    (hs : s.state a = .closed) (hd : (s.tcb a).detached = false) :
    Inv (s.tcpUnlink a) d (xs.erase a) Q H := by
  obtain ⟨root, next, heq, hchain⟩ := h.toListing.unlink hl ha
  rw [heq]
  have hlinked : ∀ b, b ≠ a → update s.linked a false b = s.linked b :=
    fun b hb => update_of_ne hb _ _
  refine { h with
    chain := hchain
    nodup := h.nodup.erase a
    listed := fun b => ?_
    placed := fun b hb => ?_ }
  · rw [h.nodup.mem_erase_iff, h.listed b]
    show b ≠ a ∧ s.live b = true ∧ _ ↔ s.live b = true ∧ update s.linked a false b = true
    by_cases hba : b = a
    · subst hba
      rw [update_self]
      exact ⟨fun hc => absurd rfl hc.1, fun hc => (by cases hc.2)⟩
    · rw [hlinked b hba]
      exact ⟨fun hc => hc.2, fun hc => ⟨hba, hc⟩⟩
  · have hp := h.placed b hb
    by_cases hba : b = a
    · subst hba
      refine { hp with
        orphan := fun ho hpar => ?_
        opened := absurd hs }
      have hdet := (hp.orphan ho hpar).1
      rw [hd] at hdet
      cases hdet
    · exact hp.frame rfl rfl rfl (hlinked b hba) (fun _ => rfl) fun _ _ hl hs => ⟨hl, hs⟩

/-! ## Memory that is given back -/

/-- The last hold of a connection is given up and it is freed: it has no children, and it
is not a child itself, unless of the listener that goes away, whose queue it is in. What
became of its fields before no longer matters. -/
theorem release (h : Inv s d xs Q H) (hl : s.live a = true)
    (hno : ∀ c, s.live c = true → s.parent c ≠ some a)
    (hp : s.parent a = none ∨ (s.parent a = d ∧ s.state a ≠ .synRcvd)) (u : Tcb) (out : Out) :
    Inv (Net.tcpFree { s with
        tcb := update s.tcb a u
        owned := update s.owned a false
        out := out } a)
      d (xs.erase a) (fun l => (Q l).erase a) H := by
  have hlist : Listing { s with
      tcb := update s.tcb a u
      owned := update s.owned a false
      out := out } xs := ⟨h.chain, h.nodup, h.listed⟩
  obtain ⟨root, next, linked, heq, hchain, hlinked⟩ := hlist.free hl
  rw [heq]
  generalize hs' : Net.mk _ _ _ _ _ _ _ _ _ _ _ _ _ _ _ = s'
  have hfrees : s'.frees = update s.frees a (s.frees a + 1) := by rw [← hs']
  have hborn : s'.born = s.born := by rw [← hs']
  have hlive : ∀ b, s'.live b = true ↔ b ≠ a ∧ s.live b = true := by
    intro b
    rw [live_iff, live_iff, hfrees, hborn]
    by_cases hb : b = a
    · subst hb
      rw [update_self]
      exact ⟨fun hc => absurd hc.2 (Nat.succ_ne_zero _), fun hc => absurd rfl hc.1⟩
    · rw [update_of_ne hb]
      exact ⟨fun hc => ⟨hb, hc⟩, fun hc => hc.2⟩
  -- Of the others nothing changes.
  have htcb : ∀ b, b ≠ a → s'.tcb b = s.tcb b := by
    intro b hb
    rw [← hs']
    exact update_of_ne hb _ _
  have hstate : ∀ b, b ≠ a → s'.state b = s.state b := fun b hb => congrArg _ (htcb b hb)
  have howned : ∀ b, b ≠ a → s'.owned b = s.owned b := by
    intro b hb
    rw [← hs']
    exact update_of_ne hb _ _
  have hparent : s'.parent = s.parent := by rw [← hs']
  have hsame : ∀ l, s.live l = true → d ≠ some l → (Q l).erase a = Q l := by
    intro l hlv hd
    refine erase_of_not_mem fun hm => ?_
    have hpa := (((h.queued l hlv).2 a).mp hm).2.1
    rcases hp with hp | ⟨hp, -⟩
    · rw [hpa] at hp
      cases hp
    · exact hd (hp.symm.trans hpa)
  refine {
    sound := by rw [← hs']; exact h.sound
    once := fun b => ?_
    beyond := fun b hb => ?_
    chain := by rw [← hs']; exact hchain
    nodup := h.nodup.erase a
    listed := fun b => ?_
    queue := fun l hlv hd => ?_
    queued := fun l hlv => ?_
    half := fun l hlv => ?_
    pending := fun l hlv hd => ?_
    held := fun b hb => ?_
    placed := fun b hb => ?_ }
  · rw [hfrees]
    by_cases hb : b = a
    · rw [hb, update_self, (live_iff.mp hl).2]
    · rw [update_of_ne hb]
      exact h.once b
  · rw [hborn] at hb
    have hba : b ≠ a := by
      rintro rfl
      exact absurd hb (Nat.not_le.mpr (live_iff.mp hl).1)
    rw [hfrees, update_of_ne hba]
    exact h.beyond b hb
  · rw [h.nodup.mem_erase_iff, h.listed b, hlive b, and_assoc]
    refine and_congr_right fun hba => ?_
    rw [← hs', ← hlinked b hba]
  · have hlv := ((hlive l).mp hlv).2
    rw [hsame l hlv hd, ← hs']
    exact h.queue l hlv hd
  · obtain ⟨hnd, hiff⟩ := h.queued l ((hlive l).mp hlv).2
    refine ⟨hnd.erase a, fun c => ?_⟩
    rw [hnd.mem_erase_iff, hiff c, hlive c, and_assoc, hparent]
    exact and_congr_right fun hca => by rw [hstate c hca]
  · obtain ⟨hnd, hiff⟩ := h.half l ((hlive l).mp hlv).2
    refine ⟨hnd, fun c => ?_⟩
    rw [hiff c, hlive c, and_assoc, hparent]
    have hca : s.parent c = some l → s.state c = .synRcvd → c ≠ a := by
      rintro hpc hsc rfl
      rcases hp with hp | ⟨-, hp⟩
      · rw [hpc] at hp
        cases hp
      · exact hp hsc
    constructor
    · intro hc
      have hne := hca hc.2.1 hc.2.2
      rw [hstate c hne]
      exact ⟨hne, hc⟩
    · rintro ⟨hne, hc⟩
      rwa [hstate c hne] at hc
  · have hlv := ((hlive l).mp hlv).2
    rw [hsame l hlv hd, ← hs']
    exact h.pending l hlv hd
  · have hba : b ≠ a := by
      rintro rfl
      rw [← hs'] at hb
      exact absurd ((update_self b false s.owned).symm.trans hb) nofun
    rw [howned b hba] at hb
    exact (hlive b).mpr ⟨hba, h.held b hb⟩
  · obtain ⟨hba, hlv⟩ := (hlive b).mp hb
    refine (h.placed b hlv).frame (htcb b hba) (congrFun hparent b) (howned b hba) ?_ ?_ ?_
    · rw [← hs']
      exact hlinked b hba
    · exact fun _ => by rw [← hs']
    · intro l hpl hll hs
      have hla : l ≠ a := by
        rintro rfl
        exact hno b hlv hpl
      exact ⟨(hlive l).mpr ⟨hla, hll⟩, (hstate l hla).trans hs⟩

/-- A connection that no socket has is freed. -/
theorem free (h : Inv s d xs Q H) (hl : s.live a = true) (ho : s.owned a = false)
    (hno : ∀ c, s.live c = true → s.parent c ≠ some a)
    (hp : s.parent a = none ∨ (s.parent a = d ∧ s.state a ≠ .synRcvd)) :
    Inv (s.tcpFree a) d (xs.erase a) (fun l => (Q l).erase a) H := by
  have hsame : s = { s with
      tcb := update s.tcb a (s.tcb a)
      owned := update s.owned a false
      out := s.out } := by
    rw [update_eq_self, ← ho, update_eq_self]
  rw [hsame]
  exact h.release hl hno hp _ _

/-- The listener that was going away is gone. -/
theorem settle (h : Inv s (some l) xs Q H) (hl : s.live l = false) : Inv s none xs Q H := by
  have hne : ∀ b, s.live b = true → some l ≠ some b := by
    intro b hb he
    rw [Option.some.inj he, hb] at hl
    cases hl
  exact { h with
    queue := fun b hb _ => h.queue b hb (hne b hb)
    pending := fun b hb _ => h.pending b hb (hne b hb)
    placed := fun b hb => { h.placed b hb with
      listens := fun _ => (h.placed b hb).listens (hne b hb) } }

/-! ## Children -/

theorem length_erase (h : Inv s d xs Q H) (ht : s.live t = true) (hs : s.state t = .synRcvd)
    (hp : s.parent t = some l) (b : Nat) (hb : s.live b = true) :
    (((H b).erase t).length : Int) = if b = l then ((H b).length : Int) - 1 else (H b).length := by
  split
  · rename_i he
    have hmem : t ∈ H b := ((h.half b hb).2 t).mpr ⟨ht, by rw [he]; exact hp, hs⟩
    have hpos := length_pos_of_mem hmem
    rw [length_erase_of_mem hmem]
    omega
  · rename_i he
    rw [erase_of_not_mem]
    intro hmem
    have hpb := (((h.half b hb).2 t).mp hmem).2.1
    rw [hp] at hpb
    exact he (Option.some.inj hpb).symm

/-- A half open connection is given up; the next tick frees it. -/
theorem drop (h : Inv s d xs Q H) (ht : s.live t = true) (hs : s.state t = .synRcvd)
    (hp : s.parent t = some l) (hu : Dropped u) (out : Out) :
    Inv { s with
      tcb := update s.tcb t u
      parent := update s.parent t none
      pending := update s.pending l (s.pending l - 1)
      out := out } d xs Q (fun b => (H b).erase t) := by
  have hpt := h.placed t ht
  have hparent : s.parent t ≠ none := by rw [hp]; exact nofun
  have hfree : s.owned t = false := by
    rw [Bool.eq_false_iff]
    exact fun ho => hparent (hpt.owner ho).1
  have hlk : s.linked t = true := hpt.opened (by rw [hs]; exact nofun)
  have hlen := h.length_erase ht hs hp
  generalize hs' : Net.mk _ _ _ _ _ _ _ _ _ _ _ _ _ _ _ = s'
  have ho : Only s s' t := by
    subst hs'
    exact ⟨rfl, rfl, rfl, rfl, rfl, rfl, fun c hc => update_of_ne hc _ _,
      fun c hc => update_of_ne hc _ _, fun _ _ => rfl⟩
  have htcb : s'.tcb t = u := by
    subst hs'
    exact update_self _ _ _
  have hstate : s'.state t = .closed := (congrArg _ htcb).trans hu.state
  have hpar : s'.parent t = none := by
    subst hs'
    exact update_self _ _ _
  refine h.only ho (.of_only ho ?_ ?_ ?_ ?_) ?_ ?_ ?_ ?_
  · rw [← hs']
    exact h.queue
  · refine fun b hb => (h.waiting hb).stay ho fun _ => ?_
    rw [hpar]
    exact ⟨fun hc => absurd hs hc.2, fun hc => (by cases hc.1)⟩
  · refine fun b hb => (h.opening hb).leave ho ?_
    rw [hpar]
    exact fun hc => (by cases hc.1)
  · intro b hb hd
    have hold := h.pending b hb hd
    rw [Nat.cast_add] at hold ⊢
    rw [hlen b hb, ← hs']
    show update s.pending l (s.pending l - 1) b = _
    by_cases hbl : b = l
    · subst hbl
      rw [update_self]
      omega
    · rw [update_of_ne hbl, if_neg hbl, hold]
  · rw [hs]
    exact nofun
  · rw [← hs']
    exact fun _ _ _ _ => rfl
  · exact fun _ => ht
  · intro _
    refine ⟨?_, ?_, ?_, ?_, ?_, ?_, ?_, ?_⟩
    · rw [hpar]
      exact nofun
    · rw [hstate]
      exact nofun
    · rw [← hs']
      exact fun hc => absurd (hfree.symm.trans hc) nofun
    · exact absurd hpar
    · rw [htcb, ho.linked]
      exact fun _ _ => ⟨hu.detached, hlk⟩
    · exact absurd hstate
    · rw [hstate]
      exact nofun
    · rw [htcb]
      exact hu.idle

/-- A closed connection that is on the list becomes a half open child. -/
theorem adopt (h : Inv s d xs Q H) (ht : s.owned t = true) (hlk : s.linked t = true)
    (hs : s.state t = .closed) (hnext : s.acceptNext t = none) (hl : s.live l = true)
    (hlisten : s.state l = .listen) (hu : u.state = .synRcvd) (hd : u.detached = false)
    (hi : Idle u) (out : Out) :
    Inv { s with
      tcb := update s.tcb t u
      owned := update s.owned t false
      parent := update s.parent t (some l)
      pending := update s.pending l (s.pending l + 1)
      out := out } d xs Q (update H l (t :: H l)) := by
  have htl := h.held t ht
  obtain ⟨hnone, -⟩ := (h.placed t htl).owner ht
  have hne : l ≠ t := by
    rintro rfl
    rw [hs] at hlisten
    cases hlisten
  generalize hs' : Net.mk _ _ _ _ _ _ _ _ _ _ _ _ _ _ _ = s'
  have ho : Only s s' t := by
    subst hs'
    exact ⟨rfl, rfl, rfl, rfl, rfl, rfl, fun c hc => update_of_ne hc _ _,
      fun c hc => update_of_ne hc _ _, fun c hc => update_of_ne hc _ _⟩
  have htcb : s'.tcb t = u := by
    subst hs'
    exact update_self _ _ _
  have hstate : s'.state t = .synRcvd := (congrArg _ htcb).trans hu
  have hpar : s'.parent t = some l := by
    subst hs'
    exact update_self _ _ _
  have howned : s'.owned t = false := by
    subst hs'
    exact update_self _ _ _
  have hnot : ∀ b, s.live b = true → t ∉ H b := by
    intro b hb hm
    have hpb := (((h.half b hb).2 t).mp hm).2.1
    rw [hnone] at hpb
    cases hpb
  refine h.only ho (.of_only ho ?_ ?_ ?_ ?_) ?_ ?_ ?_ ?_
  · rw [← hs']
    exact h.queue
  · refine fun b hb => (h.waiting hb).stay ho fun _ => ?_
    rw [hnone, hstate]
    exact ⟨fun hc => (by cases hc.1), fun hc => absurd rfl hc.2⟩
  · intro b hb
    by_cases hbl : b = l
    · subst hbl
      rw [update_self]
      exact (h.opening hb).join ho (hnot b hb) (.refl _) htl ⟨hpar, hstate⟩
    · rw [update_of_ne hbl]
      refine (h.opening hb).stay ho fun _ => ?_
      rw [hpar, hnone]
      exact ⟨fun hc => (by cases hc.1), fun hc => absurd (Option.some.inj hc.1).symm hbl⟩
  · intro b hb hd
    have hold := h.pending b hb hd
    rw [← hs']
    show update s.pending l (s.pending l + 1) b = _
    by_cases hbl : b = l
    · subst hbl
      rw [update_self, update_self, length_cons]
      omega
    · rw [update_of_ne hbl, update_of_ne hbl, hold]
  · rw [hs]
    exact nofun
  · rw [← hs']
    exact fun _ _ _ _ => rfl
  · exact fun _ => htl
  · intro _
    refine ⟨?_, ?_, ?_, ?_, ?_, ?_, ?_, ?_⟩
    · rw [hpar]
      rintro b hb
      rw [← Option.some.inj hb, ho.live, ho.state hne]
      exact ⟨hl, hlisten⟩
    · rw [hpar, ← hs']
      exact fun _ => ⟨nofun, hnext⟩
    · rw [howned]
      exact nofun
    · rw [htcb]
      exact fun _ => hd
    · rw [hpar]
      exact fun _ => nofun
    · rw [ho.linked]
      exact fun _ => hlk
    · rw [hstate]
      exact fun _ => nofun
    · rw [htcb]
      exact hi

/-- A half open connection opens, and goes behind the queue of its listener. -/
theorem land (h : Inv s none xs Q H) (ht : s.live t = true) (hs : s.state t = .synRcvd)
    (hp : s.parent t = some l) (hu : u.state = .established)
    (hd : u.detached = (s.tcb t).detached) (out : Out) :
    Inv (Net.enqueue { s with tcb := update s.tcb t u, out := out } t) none xs
      (update Q l (Q l ++ [t])) (fun b => (H b).erase t) := by
  have hpt := h.placed t ht
  obtain ⟨hl, hlisten⟩ := hpt.parent l hp
  have hparent : s.parent t ≠ none := by rw [hp]; exact nofun
  have hlen := h.length_erase ht hs hp
  obtain ⟨hqnd, hqiff⟩ := h.queued l hl
  obtain ⟨hchain, htail⟩ := h.queue l hl nofun
  have htq : t ∉ Q l := fun hm => ((hqiff t).mp hm).2.2 hs
  obtain ⟨head, next, heq, hstored, hhead, hnext⟩ := enqueue_eq
    (s := { s with tcb := update s.tcb t u, out := out }) hp hl htail
    fun c hc => ((hqiff c).mp hc).1
  rw [heq]
  generalize hs' : Net.mk _ _ _ _ _ _ _ _ _ _ _ _ _ _ _ = s'
  have ho : Only s s' t := by
    subst hs'
    exact ⟨rfl, rfl, rfl, rfl, rfl, rfl, fun c hc => update_of_ne hc _ _,
      fun _ _ => rfl, fun _ _ => rfl⟩
  have htcb : s'.tcb t = u := by
    subst hs'
    exact update_self _ _ _
  have hstate : s'.state t = .established := (congrArg _ htcb).trans hu
  have hpar : s'.parent = s.parent := by rw [← hs']
  -- The queues of others have other members.
  have hother : ∀ b, s.live b = true → b ≠ l → ∀ c ∈ Q b, c ∉ Q l := by
    intro b hb hbl c hcb hcl
    have h1 := (((h.queued b hb).2 c).mp hcb).2.1
    have h2 := ((hqiff c).mp hcl).2.1
    exact hbl (Option.mem_unique h1 h2)
  refine h.only ho (.of_only ho ?_ ?_ ?_ ?_) ?_ ?_ ?_ ?_
  · intro b hb hd
    by_cases hbl : b = l
    · subst hbl
      rw [update_self, lead_concat, getLast?_concat, ← hs']
      refine ⟨⟨hstored.lead hchain hqnd, ?_⟩, update_self _ _ _⟩
      exact (hnext t htq).trans (hpt.rcvd hs).2
    · obtain ⟨hc, ht⟩ := h.queue b hb hd
      rw [update_of_ne hbl, ← hs']
      refine ⟨?_, (update_of_ne hbl _ _).trans ht⟩
      show Lead next (head b) (Q b) none
      rw [hhead b hbl]
      exact hc.congr fun c hcb => hnext c (hother b hb hbl c hcb)
  · intro b hb
    by_cases hbl : b = l
    · subst hbl
      rw [update_self]
      refine (h.waiting hb).join ho htq (perm_append_singleton ..) ht ?_
      rw [hpar, hstate]
      exact ⟨hp, nofun⟩
    · rw [update_of_ne hbl]
      refine (h.waiting hb).stay ho fun _ => ?_
      have hno : some l ≠ some b := fun he => hbl (Option.some.inj he).symm
      rw [hpar, hp]
      exact ⟨fun hc => absurd hc.1 hno, fun hc => absurd hc.1 hno⟩
  · refine fun b hb => (h.opening hb).leave ho ?_
    rw [hstate]
    exact fun hc => (by cases hc.2)
  · intro b hb hd
    have hold := h.pending b hb hd
    rw [Nat.cast_add] at hold ⊢
    rw [hlen b hb, ← hs']
    show s.pending b = _
    by_cases hbl : b = l
    · subst hbl
      rw [update_self, length_append, length_singleton]
      omega
    · rw [update_of_ne hbl, if_neg hbl, hold]
  · rw [hs]
    exact nofun
  · intro c _ hc hsc
    rw [← hs']
    exact hnext c fun hm => ((hqiff c).mp hm).2.2 hsc
  · exact fun _ => ht
  · intro _
    refine ⟨?_, ?_, ?_, ?_, ?_, ?_, ?_, ?_⟩
    · rw [hpar]
      intro b hb
      obtain ⟨hbl, hbs⟩ := hpt.parent b hb
      have hbt : b ≠ t := by
        rintro rfl
        rw [hs] at hbs
        cases hbs
      rw [ho.live, ho.state hbt]
      exact ⟨hbl, hbs⟩
    · rw [hstate]
      exact nofun
    · rw [hpar]
      have howned : s'.owned = s.owned := by rw [← hs']
      rw [howned, htcb, hd]
      exact hpt.owner
    · rw [htcb, hd, hpar]
      exact hpt.child
    · rw [hpar]
      exact fun _ hc => absurd hc hparent
    · rw [ho.linked]
      exact fun _ => hpt.opened (by rw [hs]; exact nofun)
    · rw [hstate]
      exact fun _ => nofun
    · rw [htcb]
      exact (Ends.refl (by rw [hu]; rfl)).idle

/-- The first of the queue goes to a socket. -/
theorem take {rest : List Nat} (h : Inv s none xs Q H) (hl : s.live l = true)
    (hq : Q l = c :: rest) :
    Inv { s with
      acceptHead := update s.acceptHead l (s.acceptNext c)
      acceptTail := if (s.acceptNext c).isNone then update s.acceptTail l none else s.acceptTail
      pending := update s.pending l (s.pending l - 1)
      acceptNext := update s.acceptNext c none
      parent := update s.parent c none
      owned := update s.owned c true } none xs (update Q l rest) H := by
  obtain ⟨hqnd, hqiff⟩ := h.queued l hl
  obtain ⟨hchain, htail⟩ := h.queue l hl nofun
  rw [hq] at hqnd hqiff hchain htail
  obtain ⟨hcr, hrnd⟩ := nodup_cons.mp hqnd
  obtain ⟨hcl, hcp, hcs⟩ := (hqiff c).mp mem_cons_self
  have hpc := h.placed c hcl
  have hrest : s.acceptNext c = rest.head? := hchain.2.head_eq
  generalize hs' : Net.mk _ _ _ _ _ _ _ _ _ _ _ _ _ _ _ = s'
  have ho : Only s s' c := by
    subst hs'
    exact ⟨rfl, rfl, rfl, rfl, rfl, rfl, fun _ _ => rfl,
      fun c hc => update_of_ne hc _ _, fun c hc => update_of_ne hc _ _⟩
  have htcb : s'.tcb = s.tcb := by rw [← hs']
  have hstate : s'.state = s.state := by rw [← hs']; rfl
  have hpar : s'.parent c = none := by
    subst hs'
    exact update_self _ _ _
  have howned : s'.owned c = true := by
    subst hs'
    exact update_self _ _ _
  have hnext : ∀ b, b ≠ c → s'.acceptNext b = s.acceptNext b := by
    subst hs'
    exact fun b hb => update_of_ne hb _ _
  refine h.only ho (.of_only ho ?_ ?_ ?_ ?_) ?_ ?_ ?_ ?_
  · intro b hb hd
    by_cases hbl : b = l
    · subst hbl
      rw [update_self]
      have hhead : s'.acceptHead b = s.acceptNext c := by
        subst hs'
        exact update_self _ _ _
      have hlast : s'.acceptTail b =
          (if (s.acceptNext c).isNone then update s.acceptTail b none else s.acceptTail) b := by
        rw [← hs']
      rw [hhead, hlast]
      refine ⟨hchain.2.congr fun x hx => hnext x (ne_of_mem_of_not_mem hx hcr), ?_⟩
      rw [hrest]
      cases rest with
      | nil => exact update_self _ _ _
      | cons y rest =>
        show s.acceptTail b = _
        rw [htail, getLast?_cons_cons]
    · obtain ⟨hlead, hlast⟩ := h.queue b hb hd
      have hhead : s'.acceptHead b = s.acceptHead b := by
        subst hs'
        exact update_of_ne hbl _ _
      have htails : s'.acceptTail b = s.acceptTail b := by
        subst hs'
        show (if _ then update s.acceptTail l none else s.acceptTail) b = _
        split
        · exact update_of_ne hbl _ _
        · rfl
      rw [update_of_ne hbl, hhead, htails]
      refine ⟨hlead.congr fun x hx => hnext x ?_, hlast⟩
      rintro rfl
      have hpx := (((h.queued b hb).2 x).mp hx).2.1
      exact hbl (Option.mem_unique hpx hcp)
  · intro b hb
    by_cases hbl : b = l
    · subst hbl
      have hleft := (h.waiting hb).leave ho (by rw [hpar]; exact fun hc => (by cases hc.1))
      rw [hq, erase_cons_head] at hleft
      rw [update_self]
      exact hleft
    · rw [update_of_ne hbl]
      refine (h.waiting hb).stay ho fun _ => ?_
      rw [hpar, hcp]
      exact ⟨fun hx => absurd (Option.some.inj hx.1).symm hbl, fun hx => (by cases hx.1)⟩
  · refine fun b hb => (h.opening hb).stay ho fun _ => ?_
    rw [hpar]
    exact ⟨fun hx => absurd hx.2 hcs, fun hx => (by cases hx.1)⟩
  · intro b hb hd
    have hold := h.pending b hb hd
    rw [← hs']
    show update s.pending l (s.pending l - 1) b = _
    by_cases hbl : b = l
    · subst hbl
      rw [hq, length_cons] at hold
      rw [update_self, update_self]
      omega
    · rw [update_of_ne hbl, update_of_ne hbl, hold]
  · rw [hstate]
    exact fun _ hs => hs
  · exact fun b hb _ _ => hnext b hb
  · exact fun _ => hcl
  · intro _
    refine ⟨?_, ?_, ?_, ?_, ?_, ?_, ?_, ?_⟩
    · rw [hpar]
      exact nofun
    · rw [hstate]
      exact fun hc => absurd hc hcs
    · rw [htcb]
      exact fun _ => ⟨hpar, hpc.child (by rw [hcp]; exact nofun)⟩
    · exact absurd hpar
    · rw [howned]
      exact nofun
    · rw [hstate, ho.linked]
      exact hpc.opened
    · exact fun _ _ => howned
    · rw [htcb]
      exact hpc.idle

theorem accept (h : Inv s none xs Q H) (ho : s.owned l = true) :
    ∃ Q', Inv (s.tcpAccept l) none xs Q' H := by
  have hl := h.held l ho
  simp only [tcpAccept]
  rw [touch_of_live hl]
  split
  · exact ⟨Q, h⟩
  cases hhead : s.acceptHead l with
  | none => exact ⟨Q, h⟩
  | some c =>
    have hroot := (h.queue l hl nofun).1.head_eq
    rw [hhead] at hroot
    obtain ⟨rest, hq⟩ := head?_eq_some_iff.mp hroot.symm
    have hcl : s.live c = true := (((h.queued l hl).2 c).mp (by rw [hq]; exact mem_cons_self)).1
    simp only [touch_of_live hcl]
    exact ⟨_, h.take hl hq⟩

/-! ## New ones -/

/-- A socket gets memory for a connection. -/
theorem create (h : Inv s d xs Q H) (hu : u.state = .closed)
    (hdet : u.detached = false) (hi : Idle u) :
    Inv { s.tcpAlloc u with owned := update (s.tcpAlloc u).owned s.born true } d xs
      (update Q s.born []) (update H s.born []) := by
  have hdead : s.live s.born = false := by
    rw [Bool.eq_false_iff]
    exact fun hl => absurd (live_iff.mp hl).1 (Nat.lt_irrefl _)
  have hne : ∀ b, s.live b = true → b ≠ s.born := by
    rintro b hb rfl
    rw [hdead] at hb
    cases hb
  simp only [Net.tcpAlloc]
  generalize hs' : Net.mk _ _ _ _ _ _ _ _ _ _ _ _ _ _ _ = s'
  have hborn : s'.born = s.born + 1 := by rw [← hs']
  have hfrees : s'.frees = s.frees := by rw [← hs']
  have hlive : ∀ b, s'.live b = true ↔ b = s.born ∨ s.live b = true := by
    intro b
    rw [live_iff, live_iff, hborn, hfrees]
    constructor
    · rintro ⟨hlt, hz⟩
      rcases Nat.lt_succ_iff_lt_or_eq.mp hlt with hb | hb
      · exact .inr ⟨hb, hz⟩
      · exact .inl hb
    · rintro (rfl | ⟨hlt, hz⟩)
      · exact ⟨Nat.lt_succ_self _, h.beyond _ (Nat.le_refl _)⟩
      · exact ⟨Nat.lt_succ_of_lt hlt, hz⟩
  -- The fields of the new one, and of the others.
  have htcb : s'.tcb s.born = u := by
    subst hs'
    exact update_self _ _ _
  have hstate : s'.state s.born = .closed := (congrArg _ htcb).trans hu
  have hpar : s'.parent s.born = none := by
    subst hs'
    exact update_self _ _ _
  have howned : s'.owned s.born = true := by
    subst hs'
    exact update_self _ _ _
  have hlinked : s'.linked s.born = false := by
    subst hs'
    exact update_self _ _ _
  have hold : ∀ b, b ≠ s.born → s'.tcb b = s.tcb b ∧ s'.parent b = s.parent b ∧
      s'.owned b = s.owned b ∧ s'.linked b = s.linked b ∧ s'.next b = s.next b ∧
      s'.acceptNext b = s.acceptNext b ∧ s'.acceptHead b = s.acceptHead b ∧
      s'.acceptTail b = s.acceptTail b ∧ s'.pending b = s.pending b := by
    intro b hb
    subst hs'
    have hup : ∀ {α : Type} (f : Nat → α) (x : α), update f s.born x b = f b :=
      fun f x => update_of_ne hb x f
    exact ⟨hup _ _, hup _ _, (hup _ _).trans (hup _ _), hup _ _, hup _ _, hup _ _, hup _ _, hup _ _,
      hup _ _⟩
  have hstates : ∀ b, b ≠ s.born → s'.state b = s.state b := fun b hb => congrArg _ (hold b hb).1
  have hnone : ∀ c, s'.live c = true → s'.parent c ≠ some s.born := by
    intro c hc
    by_cases hcb : c = s.born
    · rw [hcb, hpar]
      exact nofun
    · rw [(hold c hcb).2.1]
      intro hp
      exact hne _ ((h.placed c (((hlive c).mp hc).resolve_left hcb)).parent _ hp).1 rfl
  have hmem : ∀ (P : State → Prop) (R : Nat → List Nat) l,
      (s.live l = true → Members s P l (R l)) → s'.live l = true →
      Members s' P l (update R s.born [] l) := by
    intro P R l hm hl
    by_cases hlb : l = s.born
    · rw [hlb, update_self]
      exact ⟨nodup_nil, fun c => ⟨nofun, fun hc => absurd hc.2.1 (hnone c hc.1)⟩⟩
    obtain ⟨hnd, hm⟩ := hm (((hlive l).mp hl).resolve_left hlb)
    rw [update_of_ne hlb]
    refine ⟨hnd, fun c => ?_⟩
    rw [hm c, hlive c]
    by_cases hcb : c = s.born
    · rw [hcb, hpar, hdead]
      exact ⟨fun hc => (by cases hc.1), fun hc => (by cases hc.2.1)⟩
    · rw [(hold c hcb).2.1, hstates c hcb]
      exact and_congr_left fun _ => ⟨.inr, fun hc => hc.resolve_left hcb⟩
  refine {
    sound := by rw [← hs']; exact h.sound
    once := by rw [hfrees]; exact h.once
    beyond := fun b hb => ?_
    chain := ?_
    nodup := h.nodup
    listed := fun b => ?_
    queue := fun l hl hd => ?_
    queued := fun l => hmem (· ≠ .synRcvd) Q l (h.queued l)
    half := fun l => hmem (· = .synRcvd) H l (h.half l)
    pending := fun l hl hd => ?_
    held := fun b hb => ?_
    placed := fun b hb => ?_ }
  · rw [hborn] at hb
    rw [hfrees]
    exact h.beyond b (Nat.le_of_succ_le hb)
  · have hroot : s'.tcpList = s.tcpList := by rw [← hs']
    rw [hroot]
    exact h.chain.congr fun x hx => (hold x (hne x (h.live x hx))).2.2.2.2.1
  · rw [h.listed b, hlive b]
    by_cases hb : b = s.born
    · rw [hb, hlinked, hdead]
      exact ⟨fun hc => (by cases hc.1), fun hc => (by cases hc.2)⟩
    · rw [(hold b hb).2.2.2.1]
      exact and_congr_left fun _ => ⟨.inr, fun hc => hc.resolve_left hb⟩
  · by_cases hlb : l = s.born
    · rw [hlb, update_self, ← hs']
      exact ⟨update_self _ _ _, update_self _ _ _⟩
    · have hlv := ((hlive l).mp hl).resolve_left hlb
      obtain ⟨hlead, htail⟩ := h.queue l hlv hd
      have hl := hold l hlb
      rw [update_of_ne hlb, hl.2.2.2.2.2.2.1, hl.2.2.2.2.2.2.2.1]
      refine ⟨hlead.congr fun x hx => ?_, htail⟩
      exact (hold x (hne x (((h.queued l hlv).2 x).mp hx).1)).2.2.2.2.2.1
  · by_cases hlb : l = s.born
    · rw [hlb, update_self, update_self, ← hs']
      exact update_self _ _ _
    · rw [update_of_ne hlb, update_of_ne hlb, (hold l hlb).2.2.2.2.2.2.2.2]
      exact h.pending l (((hlive l).mp hl).resolve_left hlb) hd
  · rw [hlive b]
    by_cases hbb : b = s.born
    · exact .inl hbb
    · rw [(hold b hbb).2.2.1] at hb
      exact .inr (h.held b hb)
  · by_cases hbb : b = s.born
    · rw [hbb]
      refine ⟨?_, ?_, ?_, ?_, ?_, ?_, ?_, ?_⟩
      · rw [hpar]
        exact nofun
      · rw [hstate]
        exact nofun
      · rw [htcb]
        exact fun _ => ⟨hpar, hdet⟩
      · exact absurd hpar
      · rw [howned]
        exact nofun
      · exact absurd hstate
      · rw [hstate]
        exact fun _ => nofun
      · rw [htcb]
        exact hi
    · have hbl := ((hlive b).mp hb).resolve_left hbb
      obtain ⟨h1, h2, h3, h4, -, h6, -⟩ := hold b hbb
      refine (h.placed b hbl).frame h1 h2 h3 h4 (fun _ => h6) fun l _ hl hs => ?_
      exact ⟨(hlive l).mpr (.inr hl), (hstates l (hne l hl)).trans hs⟩

end Inv

end

end BleedKernel.TcpList
