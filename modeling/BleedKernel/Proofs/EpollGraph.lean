import Mathlib.Data.Finset.Lattice.Fold
import BleedKernel.Lib.Descent
import BleedKernel.Lib.Run
import BleedKernel.Proofs.Descriptors

/-!
# How deep readiness goes

`item_ready` on an epoll file asks the interests of that file, and so on. Seen
from one descriptor table, an epoll file watches the files of those of its
interests that are alive there, and the nesting is finite from a file on exactly
if every path of watched files from it ends.

Nothing in `epoll_ctl` sees to that. Its only test compares descriptor numbers, and
a duplicate of the epoll file, or a second epoll file that watches the first, passes
it. What is proved is that nothing else goes wrong: in a run in which no step closes
a circle of watched files, `epoll_poll` and `epoll_collect` always come to an end.

A circle can also be closed without a control. An interest whose descriptor was
closed is not removed, only passed over, and it counts again as soon as the file is
back under that number.
-/

namespace BleedKernel.Fs

open BleedKernel.Lib Relation

variable {it : Item} {s s' : Sys} {t : Nat} {a : Addr}

/-- Seen from table `t`, the epoll file at `a` watches the file at `b`. -/
def Watches (s : Sys) (t : Nat) (a b : Addr) : Prop :=
  ∃ it ∈ s.items a, it.file = b ∧ s.slot t it.fd = some b

/-- The epoll file at `a` has an interest in the file at `b` under `fd`, alive or
not. -/
def Lists (s : Sys) (a b : Addr) (fd : Nat) : Prop :=
  ∃ it ∈ s.items a, it.file = b ∧ it.fd = fd

/-- The step closes no circle of watched files. A file that comes back under a
number it was registered for does not lead to a file that listed it so, and
`EPOLL_CTL_ADD` adds no file that leads to the epoll file it is added to, as seen
from any table that has the file under that number. -/
structure NoCircle (s : Sys) (act : Act) : Prop where
  filled : ∀ x ∈ fills s act, ∀ a, Lists s a x.file x.fd →
    ¬ ReflTransGen (Watches (s.setSlot x.t x.fd none) x.t) x.file a
  added : ∀ t epfd fd ev mem, act = .ctl t epfd .add fd ev mem → ∀ a b,
    epollFromFd s t epfd = some a → s.slot t fd = some b → ∀ t', s.slot t' fd = some b →
      ¬ ReflTransGen (Watches s t') b a

/-- From every table and every file, every path of watched files ends. -/
def AllEnd (s : Sys) : Prop := ∀ t a, Ends (Watches s t) a

/-! ## What keeps paths finite -/

theorem Watches.of_shrinks (h : Shrinks Item.key s s') (t' : Nat) :
    ∃ t, ∀ a b, Watches s' t' a b → Watches s t a b := by
  obtain ⟨t, ht⟩ := h.slots t'
  refine ⟨t, fun a b ⟨it, hit, hfile, hslot⟩ => ?_⟩
  obtain ⟨it0, hit0, hk⟩ := h.items a it hit
  obtain ⟨hfd, hfile0, -⟩ := key_eq hk
  exact ⟨it0, hit0, hfile0.trans hfile, by rw [hfd]; exact ht _ _ hslot⟩

theorem AllEnd.of_shrinks (h : AllEnd s) (hs : Shrinks Item.key s s') : AllEnd s' := by
  intro t' a
  obtain ⟨t, ht⟩ := Watches.of_shrinks hs t'
  exact (h t a).mono ht

theorem AllEnd.moved {x : Place} (h : AllEnd s) (hm : Moved Item.key s x s')
    (hno : ∀ a, Lists s a x.file x.fd →
      ¬ ReflTransGen (Watches (s.setSlot x.t x.fd none) x.t) x.file a) : AllEnd s' := by
  intro t a
  by_cases ht : t = x.t
  · subst ht
    have hcleared : AllEnd (s.setSlot x.t x.fd none) := h.of_shrinks (.clearSlot s _ _)
    refine Ends.of_added (hcleared x.t) (f := x.file) (fun a b hab => ?_) a
    obtain ⟨it, hit, hfile, hslot⟩ := hab
    obtain ⟨it0, hit0, hk⟩ := hm.items a it hit
    obtain ⟨hfd, hfile0, -⟩ := key_eq hk
    rcases hm.slots _ _ hslot with ⟨hf, hb⟩ | ⟨hf, hb⟩
    · refine .inr ⟨hb, hno a ⟨it0, hit0, ?_, hfd.trans hf⟩⟩
      rw [hfile0, hfile, hb]
    refine .inl ⟨it0, by rw [items_setSlot]; exact hit0, hfile0.trans hfile, ?_⟩
    rw [slot_setSlot (table_isSome_of_slot hb) hm.inTable, if_neg (fun he => hf (hfd ▸ he.2)), hfd]
    exact hb
  · refine (h t a).mono fun a b hab => ?_
    obtain ⟨it, hit, hfile, hslot⟩ := hab
    obtain ⟨it0, hit0, hk⟩ := hm.items a it hit
    obtain ⟨hfd, hfile0, -⟩ := key_eq hk
    exact ⟨it0, hit0, hfile0.trans hfile, by rw [hfd]; exact hm.others t ht _ _ hslot⟩

/-- A file without interests leads nowhere. -/
theorem leads_nowhere {b : Addr} (hb : s.items b = [])
    (h : ReflTransGen (Watches s t) b a) : a = b := by
  rcases ReflTransGen.cases_head h with h | ⟨c, ⟨it, hit, -⟩, -⟩
  · exact h.symm
  · rw [hb] at hit; cases hit

/-- A file that is new closes no circle. -/
theorem AllEnd.opened {lowest : Nat} {addr : Option Addr} {x : Place} {f : File}
    (h : AllEnd s) (hx : opens s t lowest addr = some x) (hw : f.watch.items = []) :
    AllEnd (s.withFile x f) := by
  refine h.moved (.opened hx hw) fun a ⟨it, hit, _, _⟩ hlead => ?_
  have hitems : s.items x.file = [] := by
    simp [Sys.items, interests, (opens_some hx).2.1]
  have ha := leads_nowhere (by rw [items_setSlot]; exact hitems) hlead
  rw [ha, hitems] at hit
  cases hit

theorem AllEnd.added {b : Addr} {fd : Nat} (h : AllEnd s) (ha : Added s a b fd s')
    (hno : ∀ t, s.slot t fd = some b → ¬ ReflTransGen (Watches s t) b a) : AllEnd s' := by
  intro t x
  refine Ends.of_added (h t) (f := b) (fun c d hcd => ?_) x
  obtain ⟨it, hit, hfile, hslot⟩ := hcd
  rw [ha.slots] at hslot
  rcases ha.items c it hit with ⟨it0, hit0, hk⟩ | ⟨hc, hk⟩
  · obtain ⟨hfd, hfile0, -⟩ := key_eq hk
    exact .inl ⟨it0, hit0, hfile0.trans hfile, by rw [hfd]; exact hslot⟩
  simp only [Item.key, Prod.mk.injEq] at hk
  have hd : d = b := by rw [← hfile, hk.2.1]
  subst hd
  rw [hk.1] at hslot
  exact .inr ⟨rfl, by rw [hc]; exact hno t hslot⟩

theorem AllEnd.step {act : Act} (h : AllEnd s) (hc : NoCircle s act) : AllEnd (step s act) := by
  rcases step_cases_key s act with hs | ⟨x, hx, hm⟩ |
    ⟨t, r, w, addr, addr', x, _, y, _, hx, hy, he⟩ | ⟨t, epfd, fd, ev, mem, a, b, he, ha, hb, hadd⟩
  · exact h.of_shrinks hs
  · exact h.moved hm (hc.filled x hx)
  · rw [he]
    exact (h.opened hx (plain_items r)).opened hy (plain_items w)
  · exact h.added hadd (hc.added t epfd fd ev mem he a b ha hb)

theorem AllEnd.init : AllEnd Sys.init := by
  intro t a
  refine .of_next fun b ⟨it, hit, _⟩ => ?_
  cases hit

/-! ## Readiness -/

theorem pollItems_isSome {ready : Item → Option UInt32} {items : List Item}
    (h : ∀ it ∈ items, itemAlive s t it = true → (ready it).isSome) :
    (pollItems ready s t items).isSome := by
  induction items with
  | nil => rfl
  | cons it items ih =>
    have ih := ih fun it hit => h it (by simp [hit])
    rw [pollItems]
    split
    · rename_i halive
      rw [Bool.and_eq_true] at halive
      have hs := h it (by simp) halive.1
      split
      · next hn => rw [hn] at hs; cases hs
      split
      · rfl
      · exact ih
    · exact ih

theorem itemReadyWith_isSome {poll : Addr → Option UInt32}
    (h : (poll it.file).isSome) : (itemReadyWith poll s it).isSome := by
  unfold itemReadyWith pollFile
  rw [Option.isSome_map]
  split
  · rfl
  split
  · exact h
  · rfl

theorem watches_of_alive (hit : it ∈ s.items a)
    (h : itemAlive s t it = true) : Watches s t a it.file :=
  ⟨it, hit, rfl, of_decide_eq_true h⟩

/-- On depth `m` and more, `epoll_poll` comes to an end on the file at `a`, also in
every state that watches less. -/
def Answers (s : Sys) (t m : Nat) (a : Addr) : Prop :=
  ∀ s', (∀ x y, Watches s' t x y → Watches s t x y) → (epollPoll s' t m a).isSome

/-- Every watched file has a depth of its own; the largest of them does for all. -/
theorem exists_depth (h : ∀ b, Watches s t a b → ∃ n, ∀ m, n ≤ m → Answers s t m b) :
    ∃ n, ∀ m, n ≤ m → ∀ b, Watches s t a b → Answers s t m b := by
  have hall : ∀ b, ∃ n, Watches s t a b → ∀ m, n ≤ m → Answers s t m b := by
    intro b
    by_cases hb : Watches s t a b
    · obtain ⟨n, hn⟩ := h b hb
      exact ⟨n, fun _ => hn⟩
    · exact ⟨0, fun hw => absurd hw hb⟩
  choose N hN using hall
  refine ⟨((s.items a).map Item.file).toFinset.sup N, fun m hm b hb => hN b hb m ?_⟩
  obtain ⟨it, hit, rfl, -⟩ := id hb
  refine Nat.le_trans (Finset.le_sup ?_) hm
  simpa using ⟨it, hit, rfl⟩

/-- `epoll_poll` comes to an end on a file from which every path ends. -/
theorem epollPoll_returns (h : Ends (Watches s t) a) : ∃ n, ∀ m, n ≤ m → Answers s t m a := by
  refine h.induct (P := fun a => ∃ n, ∀ m, n ≤ m → Answers s t m a) fun a ih => ?_
  obtain ⟨n, hn⟩ := exists_depth ih
  refine ⟨n + 1, fun m hm s' hsub => ?_⟩
  obtain ⟨m, rfl⟩ : ∃ k, m = k + 1 := ⟨m - 1, by omega⟩
  refine pollItems_isSome fun it hit halive => itemReadyWith_isSome ?_
  exact hn m (by omega) _ (hsub a it.file (watches_of_alive hit halive)) s' hsub

theorem watches_setItems {l : List Item}
    (hl : (l.map Item.key).Subperm ((s.items a).map Item.key)) {x y : Addr}
    (h : Watches (s.setItems a l) t x y) : Watches s t x y := by
  obtain ⟨it, hit, hfile, hslot⟩ := h
  obtain ⟨it0, hit0, hk⟩ := (Shrinks.setItems hl).items x it hit
  obtain ⟨hfd, hfile0, -⟩ := key_eq hk
  rw [slot_setItems] at hslot
  exact ⟨it0, hit0, hfile0.trans hfile, by rw [hfd]; exact hslot⟩

theorem collectLoop_isSome {depth : Nat} {max left i : Nat}
    {turns : List Turn} (s0 : Sys) (hsub : ∀ x y, Watches s t x y → Watches s0 t x y)
    (h : ∀ b, Watches s0 t a b → Answers s0 t depth b) :
    (collectLoop t depth a max left i s turns).isSome := by
  induction left generalizing i s turns with
  | zero => rfl
  | succ left ih =>
    rw [collectLoop]
    split
    · rfl
    rename_i it hit
    have hmem := List.mem_of_getElem? hit
    split
    · exact ih fun x y hxy =>
        hsub x y (watches_setItems (subperm_map itemRemove_subperm _) hxy)
    rename_i halive
    split
    · exact ih hsub
    have hready : (itemReady s t depth it).isSome := by
      refine itemReadyWith_isSome (h _ (hsub _ _ ?_) s hsub)
      exact watches_of_alive hmem (by simpa using halive)
    split
    · next hn => rw [hn] at hready; cases hready
    · exact ih fun x y hxy =>
        hsub x y (watches_setItems (by rw [map_key_set hit _ _]) hxy)

theorem epollCollect_returns (h : Ends (Watches s t) a) :
    ∃ n, ∀ m, n ≤ m → ∀ max, (epollCollect s t m a max).isSome := by
  obtain ⟨n, hn⟩ := exists_depth fun b hb => epollPoll_returns (h.next hb)
  exact ⟨n, fun m hm max => collectLoop_isSome s (fun _ _ h => h) (hn m hm)⟩

/-- **Readiness comes to an end.** In a run in which no step closes a circle of
watched files, no epoll file watches itself, directly or through others, and
`epoll_poll` and `epoll_collect` return on every file, from every table. -/
theorem readiness_returns (acts : List Act) (h : Meets step NoCircle Sys.init acts)
    (t : Nat) (a : Addr) :
    ¬ TransGen (Watches (run step Sys.init acts) t) a a ∧ ∃ n, ∀ depth, n ≤ depth →
        (epollPoll (run step Sys.init acts) t depth a).isSome ∧
          ∀ max, (epollCollect (run step Sys.init acts) t depth a max).isSome := by
  have hend : AllEnd (run step Sys.init acts) := run_inv (fun s act => AllEnd.step) AllEnd.init h
  obtain ⟨n, hn⟩ := epollPoll_returns (hend t a)
  obtain ⟨n', hn'⟩ := epollCollect_returns (hend t a)
  refine ⟨(hend t a).not_self, max n n', fun depth hd => ⟨?_, hn' depth (by omega)⟩⟩
  exact hn depth (by omega) _ fun _ _ h => h

/-- While no interest is listed, filling slots closes nothing. -/
theorem noCircle_create {valid mem : Bool} {addr : Option Addr}
    (h : ∀ a, s.items a = []) : NoCircle s (.create t valid mem addr) := by
  refine ⟨fun x _ a ⟨it, hit, _⟩ => ?_, fun _ _ _ _ _ he => by cases he⟩
  rw [h a] at hit
  cases hit

/-- One epoll file, at descriptor 3, watches another, at descriptor 4. -/
theorem readiness_returns_nested :
    let acts : List Act := [.create 0 true true (some 100), .create 0 true true (some 101),
      .ctl 0 3 .add 4 ⟨POLLIN, 0⟩ true]
    Meets step NoCircle Sys.init acts ∧ Watches (run step Sys.init acts) 0 100 101 ∧
      ∃ n, ∀ depth, n ≤ depth → (epollPoll (run step Sys.init acts) 0 depth 100).isSome := by
  intro acts
  have hmeets : Meets step NoCircle Sys.init acts := by
    refine ⟨noCircle_create fun _ => rfl, noCircle_create fun a => ?_, ⟨?_, ?_⟩, trivial⟩
    · show interests (Function.update (fun _ => none) 100 _ a) = []
      rw [Function.update_apply]
      split <;> rfl
    · intro x hx
      cases hx
    · intro t epfd fd ev mem he a b ha hb t' _ hlead
      cases he
      have ha : a = 100 := (Option.some.inj ha).symm
      have hb : b = 101 := (Option.some.inj hb).symm
      subst ha hb
      exact absurd (leads_nowhere rfl hlead) (by decide)
  obtain ⟨-, n, hn⟩ := readiness_returns acts hmeets 0 100
  exact ⟨hmeets, ⟨_, List.mem_singleton.mpr rfl, rfl, rfl⟩, n, fun d hd => (hn d hd).1⟩

/-- An epoll file whose one interest is itself never answers. -/
theorem epollPoll_self (it : Item) (hi : s.items a = [it])
    (halive : itemAlive s t it = true) (harmed : it.disarmed = false) (hself : it.file = a)
    (depth : Nat) : epollPoll s t depth a = none ∧ itemReady s t depth it = none := by
  have hmem : it ∈ s.items a := by simp [hi]
  obtain ⟨f, hf, hty⟩ := epoll_of_mem hmem
  have hready : ∀ n, epollPoll s t n a = none → itemReadyWith (epollPoll s t n) s it = none := by
    intro n hn
    simp [itemReadyWith, pollFile, hself, hf, hty, hn]
  have hpoll : epollPoll s t depth a = none := by
    induction depth with
    | zero => rfl
    | succ n ih => simp [epollPoll, hi, pollItems, halive, harmed, hready n ih]
  exact ⟨hpoll, hready depth hpoll⟩

/-- A duplicate of an epoll file passes the test of `epoll_ctl`, and the file then
watches itself: however deep readiness is followed, it does not come to an end. -/
theorem readiness_endless_through_duplicate :
    let s := run step Sys.init [.create 0 true true (some 100), .dup2 0 3 4,
      .ctl 0 3 .add 4 ⟨POLLIN, 0⟩ true]
    Watches s 0 100 100 ∧ ∀ depth, epollPoll s 0 depth 100 = none ∧
      epollCollect s 0 depth 100 1 = none := by
  intro s
  have hself := epollPoll_self (s := s) (t := 0)
    ⟨4, 100, POLLIN, 0, false, false, 0⟩ rfl rfl rfl rfl
  refine ⟨⟨_, List.mem_singleton.mpr rfl, rfl, rfl⟩, fun depth => ⟨(hself depth).1, ?_⟩⟩
  have hitems : s.items 100 = [⟨4, 100, POLLIN, 0, false, false, 0⟩] := rfl
  have halive : itemAlive s 0 ⟨4, 100, POLLIN, 0, false, false, 0⟩ = true := rfl
  simp [epollCollect, collectLoop, hitems, halive, (hself depth).2]

end BleedKernel.Fs
