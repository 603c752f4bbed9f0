import BleedKernel.Proofs.FileRefs

/-!
# Interests in files that are gone

An interest counts as alive when the calling task has the address it was
registered with under the number it was registered with. A file is not freed while
a descriptor names it, so the address alone says which file it is as long as that
file is open. Once it is closed the interest stays listed until someone looks at it,
and the address may go to another file meanwhile. If that one comes to lie under the
same number, the comparison cannot tell the two apart.

What is proved is that this is the only way to go wrong.
-/

namespace BleedKernel.Fs

open BleedKernel.Lib List

variable {s s' : Sys} {t fd : Nat} {a : Addr}

/-- A slot that the step fills is not one that some epoll file lists with the same
address for another file. -/
def NoReuse (s : Sys) (act : Act) : Prop :=
  ∀ x ∈ fills s act, ∀ a, ∀ it ∈ s.items a, it.fd = x.fd → it.file = x.file →
    s.serialAt x.file = some it.serial

/-- An interest that is alive in some table is an interest in the file that is
there. -/
def Honest (s : Sys) : Prop :=
  ∀ a, ∀ it ∈ s.items a, ∀ t, s.slot t it.fd = some it.file → s.serialAt it.file = some it.serial

theorem Counted.serialAt (h : Counted s) (ha : s.slot t fd = some a) : s.serialAt a ≠ none := by
  obtain ⟨f, hf⟩ := h.file_of_slot ha
  simp [Sys.serialAt, hf]

theorem Honest.of_shrinks (h : Honest s) (hc : Counted s')
    (hs : Shrinks Item.key s s') : Honest s' := by
  intro a it hit t' hslot
  obtain ⟨it0, hit0, hk⟩ := hs.items a it hit
  obtain ⟨t, ht⟩ := hs.slots t'
  obtain ⟨hfd, hfile, hser⟩ := key_eq hk
  have hold := h a it0 hit0 t (by rw [hfd, hfile]; exact ht _ _ hslot)
  rw [hfile, hser] at hold
  rcases hs.files it.file with hf | hf
  · rw [hf, hold]
  · exact absurd hf (hc.serialAt hslot)

theorem Honest.moved {x : Place} (h : Honest s) (hc : Counted s')
    (hm : Moved Item.key s x s') (hno : ∀ a, ∀ it ∈ s.items a, it.fd = x.fd → it.file = x.file →
      s.serialAt x.file = some it.serial) : Honest s' := by
  intro a it hit t hslot
  obtain ⟨it0, hit0, hk⟩ := hm.items a it hit
  obtain ⟨hfd, hfile, hser⟩ := key_eq hk
  have hold : s.serialAt it.file = some it.serial := by
    by_cases ht : t = x.t
    · subst ht
      rcases hm.slots _ _ hslot with ⟨hf, hb⟩ | ⟨-, hb⟩
      · rw [hb, hno a it0 hit0 (hfd.trans hf) (hfile.trans hb), hser]
      · have := h a it0 hit0 x.t (by rw [hfd, hfile]; exact hb)
        rwa [hfile, hser] at this
    · have := h a it0 hit0 t (by rw [hfd, hfile]; exact hm.others t ht _ _ hslot)
      rwa [hfile, hser] at this
  rcases hm.files it.file with hf | hf | ⟨-, hf⟩
  · rw [hf, hold]
  · exact absurd hf (hc.serialAt hslot)
  · rw [hold] at hf; cases hf

theorem Honest.added {b : Addr} (h : Honest s) (hc : Counted s)
    (hb : s.slot t fd = some b) (ha : Added s a b fd s') : Honest s' := by
  intro c it hit t' hslot
  rw [ha.files]
  rw [ha.slots] at hslot
  rcases ha.items c it hit with ⟨it0, hit0, hk⟩ | ⟨-, hk⟩
  · obtain ⟨hfd, hfile, hser⟩ := key_eq hk
    have := h c it0 hit0 t' (by rw [hfd, hfile]; exact hslot)
    rwa [hfile, hser] at this
  · simp only [Item.key, Prod.mk.injEq] at hk
    obtain ⟨n, hn⟩ := Option.ne_none_iff_exists'.mp (hc.serialAt hb)
    rw [hk.2.1, hk.2.2, hn]
    rfl

/-- The two invariants go together: a file that a descriptor names is there. -/
structure Told (s : Sys) : Prop where
  counted : Counted s
  honest : Honest s

theorem Told.step {act : Act} (h : Told s) (hno : NoReuse s act) : Told (step s act) := by
  have hc := h.counted.step act
  refine ⟨hc, ?_⟩
  rcases step_cases_key s act with hs | ⟨x, hx, hm⟩ |
    ⟨t, r, w, addr, addr', x, hx, y, hy, hox, hoy, he⟩ |
    ⟨t, epfd, fd, ev, mem, a, b, -, -, hb, hadd⟩
  · exact h.honest.of_shrinks hc hs
  · exact h.honest.moved hc hm (hno x hx)
  · have h1 : Honest (s.withFile x (plain r)) :=
      h.honest.moved (h.counted.opened hox) (Moved.opened hox (plain_items r)) (hno x hx)
    rw [he] at hc ⊢
    refine h1.moved hc (.opened hoy (plain_items w)) fun a it hit hfd hfile => ?_
    -- the second file is as new as the first, so no interest names its address
    obtain ⟨it0, hit0, hk⟩ := (Moved.opened (k := Item.key) hox (plain_items r)).items a it hit
    simp only [Item.key, Prod.mk.injEq] at hk
    have hlisted := hno y hy a it0 hit0 (hk.1.trans hfd) (hk.2.1.trans hfile)
    have hfresh := serialAt_fresh (opens_some hoy).2.1
    rw [Sys.withFile, serialAt_setSlot, serialAt_create] at hfresh
    split at hfresh
    · cases hfresh
    · rw [hlisted] at hfresh; cases hfresh
  · exact h.honest.added h.counted hb hadd

theorem Told.init : Told Sys.init := ⟨.init, fun a it hit => by cases hit⟩

/-! ## What is reported -/

/-- Every turn of a round is on an interest that was listed and alive. -/
theorem epollCollect_turns {depth : Nat} {max : Nat}
    {turns : List Turn} (h : epollCollect s t depth a max = some (s', turns)) {u : Turn}
    (hu : u ∈ turns) : ∃ it ∈ s.items a, it.key = u.before.key ∧ s.slot t it.fd = some it.file := by
  have hall := collectLoop_rule
    (P := fun _ s1 turns => Shrinks Item.key s s1 ∧ (∀ fd, s1.slot t fd = s.slot t fd) ∧
      ∀ u ∈ turns, ∃ it ∈ s.items a, it.key = u.before.key ∧ s.slot t it.fd = some it.file)
    (fun i s1 turns it ⟨hs, hslot, hu⟩ _ _ => ⟨hs.trans
      (.setItems (subperm_map itemRemove_subperm _)), fun fd => by
        rw [slot_setItems, hslot], hu⟩)
    (fun _ _ _ _ h1 _ _ _ => h1)
    (fun i s1 turns it ready ⟨hs, hslot, hu⟩ hit halive _ _ => ?_) rfl
    ⟨.refl s, fun _ => rfl, fun u hu => by cases hu⟩ h
  · exact hall.2.2 u hu
  · refine ⟨hs.trans (.setItems (by rw [map_key_set hit _ _])), fun fd => by
      rw [slot_setItems, hslot], fun u hu' => ?_⟩
    rcases mem_append.mp hu' with hu' | hu'
    · exact hu u hu'
    rw [mem_singleton] at hu'
    subst hu'
    obtain ⟨it0, hit0, hk⟩ := hs.items a it (mem_of_getElem? hit)
    refine ⟨it0, hit0, by rw [hk, collectItem_before], ?_⟩
    simp only [Item.key, Prod.mk.injEq] at hk
    have halive : s1.slot t it.fd = some it.file := of_decide_eq_true halive
    rw [hk.1, hk.2.1, ← hslot]
    exact halive

/-- `EEXIST` means that an interest under the number is listed and alive. -/
theorem epollCtl_eexist {epfd : Nat} {op : CtlOp} {ev : Event}
    {mem : Bool} (h : (epollCtl s t epfd op fd ev mem).1 = .error .eexist) :
    ∃ a b, epollFromFd s t epfd = some a ∧ s.slot t fd = some b ∧
      ∃ it ∈ s.items a, s.slot t it.fd = some it.file ∧ it.fd = fd := by
  rcases epollCtl_inv s t epfd op fd ev mem with
    ⟨e, he, hne⟩ | ⟨a, b, items, found, ha, hb, he, hsub, hsome, -⟩
  · rw [he] at h
    cases h
    exact absurd rfl hne
  rw [he] at h
  have hfound : found.isSome := by
    unfold ctlSwitch at h
    dsimp only at h
    split at h
    · rfl
    · split at h
      · cases h
      · split at h <;> cases h
    all_goals cases h
  obtain ⟨j, hj⟩ := Option.isSome_iff_exists.mp hfound
  obtain ⟨it, hit, hfd, halive⟩ := hsome j hj
  exact ⟨a, b, ha, hb, it, hsub.subset (mem_of_getElem? hit), of_decide_eq_true halive, hfd⟩

/-- **Stale interests never fire.** In a run in which no address comes back to a
number it is still listed under for another file, every interest that has a turn in
a round was registered for the very file that is under its number now, and
`EPOLL_CTL_ADD` answers `EEXIST` only for a file that is registered. -/
theorem stale_interests_never_fire (acts : List Act) (h : Meets step NoReuse Sys.init acts) :
    (∀ t depth a max s' turns,
      epollCollect (run step Sys.init acts) t depth a max = some (s', turns) → ∀ u ∈ turns,
        ∃ b f, (run step Sys.init acts).slot t u.before.fd = some b ∧
          (run step Sys.init acts).files b = some f ∧ f.serial = u.before.serial) ∧
    (∀ t epfd fd ev mem,
      (epollCtl (run step Sys.init acts) t epfd .add fd ev mem).1 = .error .eexist →
        ∃ a b f, epollFromFd (run step Sys.init acts) t epfd = some a ∧
          (run step Sys.init acts).slot t fd = some b ∧
          (run step Sys.init acts).files b = some f ∧
          ∃ it ∈ (run step Sys.init acts).items a, it.fd = fd ∧ it.serial = f.serial) := by
  have htold : Told (run step Sys.init acts) := run_inv (fun s act => Told.step) Told.init h
  revert htold
  generalize run step Sys.init acts = s
  intro htold
  have hfile : ∀ t a, ∀ it ∈ s.items a, s.slot t it.fd = some it.file →
      ∃ f, s.files it.file = some f ∧ f.serial = it.serial := by
    intro t a it hit hslot
    obtain ⟨f, hf, hser⟩ := Option.map_eq_some_iff.mp (htold.honest a it hit t hslot)
    exact ⟨f, hf, hser⟩
  refine ⟨fun t depth a max s' turns hr u hu => ?_, fun t epfd fd ev mem he => ?_⟩
  · obtain ⟨it, hit, hk, hslot⟩ := epollCollect_turns hr hu
    obtain ⟨f, hf, hser⟩ := hfile t a it hit hslot
    simp only [Item.key, Prod.mk.injEq] at hk
    exact ⟨it.file, f, by rw [← hk.1]; exact hslot, hf, hser.trans hk.2.2⟩
  · obtain ⟨a, b, ha, hb, it, hit, hslot, hfd⟩ := epollCtl_eexist he
    obtain ⟨f, hf, hser⟩ := hfile t a it hit hslot
    rw [hfd, hb] at hslot
    cases hslot
    exact ⟨a, it.file, f, ha, hb, hf, it, hit, hfd, hser.symm⟩

/-- A file is registered and closed, and the next one gets another address: the
interest is still listed, and neither reported nor in the way. -/
theorem stale_interests_never_fire_moved : let acts : List Act := [.create 0 true true (some 100),
      .install 0 { type := .pipe, poll := some POLLIN } (some 101),
      .ctl 0 3 .add 4 ⟨POLLIN, 7⟩ true, .close 0 4,
      .install 0 { type := .pipe, poll := some POLLIN } (some 102)]
    Meets step NoReuse Sys.init acts ∧ ((run step Sys.init acts).items 100).length = 1 ∧
      (epollCtl (run step Sys.init acts) 0 3 .add 4 ⟨POLLIN, 7⟩ true).1 ≠ .error .eexist := by
  intro acts
  -- until the control there is no interest, and after it one, in the first address
  have hone : ∀ a, (run step Sys.init (acts.take 1)).items a = [] := by
    intro a
    show interests (Function.update (fun _ => none) 100 _ a) = []
    rw [Function.update_apply]
    split <;> rfl
  have htwo : ∀ a, (run step Sys.init (acts.take 2)).items a = [] := by
    intro a
    show interests (Function.update (run step Sys.init (acts.take 1)).files 101 _ a) = []
    rw [Function.update_apply]
    split
    · rfl
    · exact hone a
  have hthree : ∀ a, ∀ it ∈ (run step Sys.init (acts.take 3)).items a, it.file = 101 := by
    intro a it hit
    rcases epollCtl_cases (run step Sys.init (acts.take 2)) 0 3 .add 4 ⟨POLLIN, 7⟩ true with
      hs | ⟨-, a', b, -, hb, hadd⟩
    · obtain ⟨it0, hit0, -⟩ := hs.items a it hit
      rw [htwo] at hit0
      cases hit0
    · rcases hadd.items a it hit with ⟨it0, hit0, -⟩ | ⟨-, hk⟩
      · rw [htwo] at hit0
        cases hit0
      · cases hb
        exact congrArg (fun k => k.2.1) hk
  have hmeets : Meets step NoReuse Sys.init acts := by
    refine ⟨fun x _ a it hit => (by cases hit), fun x _ a it hit => ?_,
      fun x hx => (by cases hx), fun x hx => (by cases hx),
      fun x hx a it hit _ hfile => ?_, trivial⟩
    · have hit : it ∈ (run step Sys.init (acts.take 1)).items a := hit
      rw [hone] at hit
      cases hit
    · obtain ⟨it0, hit0, hk⟩ := (Shrinks.vfsClose (k := Item.key)
        (run step Sys.init (acts.take 3)) 0 4).items a it hit
      simp only [Item.key, Prod.mk.injEq] at hk
      rw [← hk.2.1, hthree a it0 hit0, mem_singleton.mp hx] at hfile
      cases hfile
  refine ⟨hmeets, rfl, fun he => ?_⟩
  obtain ⟨a, b, f, ha, hb, hf, it, hit, -, hser⟩ :=
    (stale_interests_never_fire acts hmeets).2 0 3 4 ⟨POLLIN, 7⟩ true he
  cases ha
  cases hb
  cases hf
  rw [mem_singleton.mp hit] at hser
  cases hser

/-- The allocator hands the address of a closed file to the next one, which gets
the same number: its readiness is reported as that of the first, and it cannot be
registered. -/
theorem stale_interest_fires_on_reuse : let s := run step Sys.init [.create 0 true true (some 100),
      .install 0 { type := .pipe, poll := some POLLIN } (some 101),
      .ctl 0 3 .add 4 ⟨POLLIN, 7⟩ true, .close 0 4,
      .install 0 { type := .socket, poll := some POLLIN } (some 101)]
    s.serialAt 101 = some 2 ∧
      (epollCollect s 0 1 100 8).map (fun r => r.2.map fun u => (u.before.serial, u.report)) =
        some [(1, some POLLIN)] ∧
      (epollCtl s 0 3 .add 4 ⟨POLLIN, 7⟩ true).1 = .error .eexist := by
  decide

end BleedKernel.Fs
