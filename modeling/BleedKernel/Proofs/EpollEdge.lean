import Mathlib.Data.List.Nodup
import BleedKernel.Lib.Run
import BleedKernel.Proofs.Descriptors

/-!
# Edge triggered `POLLOUT`

An `EPOLLET` interest reports `POLLOUT` once and then holds it back for as long as
`out_seen` is set. The comment says that it is set while `POLLOUT` "was reported and
hasnt gone away since". The code learns that it went away only from a round that
looks at the interest while the file is not writable, so a file that filled up and
drained between two rounds is taken to have been writable all along.

What a round does to `out_seen` is described for one interest; that there is at most
one for each number makes this a description of the whole run.
-/

namespace BleedKernel.Fs

open BleedKernel.Lib List

variable {l : List Item} {x : Item} {u : Turn} {fd : Nat} {b : Bool}

variable {s : Sys} {a : Addr} {turns : List Turn}

/-! ## One interest for each number -/

/-- No instance has two interests for one number. -/
def Distinct (s : Sys) : Prop := ∀ a, ((s.items a).map Item.fd).Nodup

theorem nodup_of_subperm {α : Type*} {l l' : List α} (h : l.Subperm l') (hn : l'.Nodup) :
    l.Nodup := by
  obtain ⟨l1, hp, hs⟩ := h
  exact hp.nodup_iff.mp (hn.sublist hs)

theorem nodup_fd_of_key {l' : List Item}
    (h : (l.map Item.key).Subperm (l'.map Item.key)) (hn : (l'.map Item.fd).Nodup) :
    (l.map Item.fd).Nodup := by
  have hfst : ∀ l : List Item, l.map Item.fd = (l.map Item.key).map Prod.fst := by
    intro l
    rw [map_map]
    rfl
  rw [hfst] at hn ⊢
  exact nodup_of_subperm (subperm_map h _) hn

theorem Distinct.step (h : Distinct s) (act : Act) : Distinct (step s act) := by
  intro a
  rcases step_cases_key s act with hs | ⟨x, -, hm⟩ |
    ⟨t, r, w, addr, addr', x, -, y, -, hx, hy, he⟩ | ⟨t, epfd, fd, ev, mem, c, b, -, -, -, hadd⟩
  · exact nodup_fd_of_key (hs.listed a) (h a)
  · exact nodup_fd_of_key (hm.listed a) (h a)
  · rw [he]
    have h1 := (Moved.opened (k := Item.key) hx (plain_items r)).listed a
    have h2 := (Moved.opened (k := Item.key) hy (plain_items w)).listed a
    exact nodup_fd_of_key (h2.trans h1) (h a)
  · by_cases ha : a = c
    · subst ha
      obtain ⟨l, it, he, hsub, hk, -, hne⟩ := hadd.listed
      have hfd : it.fd = fd := congrArg Prod.fst hk
      rw [he, map_append, nodup_append]
      refine ⟨nodup_of_subperm (subperm_map hsub _) (h a), by simp, fun x hx y hy => ?_⟩
      obtain ⟨it', hit', rfl⟩ := mem_map.mp hx
      have hy : y = fd := by simpa [hfd] using hy
      rw [hy]
      exact hne it' hit'
    · rw [hadd.others a ha]
      exact h a

theorem Distinct.init : Distinct Sys.init := fun _ => nodup_nil

/-- No epoll file ever lists a descriptor twice. -/
theorem interests_distinct (acts : List Act) (a : Addr) :
    (((run step Sys.init acts).items a).map Item.fd).Nodup :=
  run_inv (fun _ act h _ => h.step act) Distinct.init (.of_all fun _ _ => trivial) a

theorem eq_of_fd (h : (l.map Item.fd).Nodup) {y : Item} (hx : x ∈ l)
    (hy : y ∈ l) (hfd : x.fd = y.fd) : x = y :=
  inj_on_of_nodup_map h hx hy hfd

theorem fd_ne_of_split (h : (l.map Item.fd).Nodup) {i : Nat} {y : Item}
    (hx : x ∈ l.take i) (hy : y ∈ l.drop i) : x.fd ≠ y.fd := by
  rw [← take_append_drop i l, map_append, nodup_append] at h
  exact h.2.2 x.fd (mem_map_of_mem hx) y.fd (mem_map_of_mem hy)

/-! ## One turn -/

/-- `POLLOUT` went out in this turn. -/
def Turn.out (u : Turn) : Bool := u.report.any fun m => decide (m &&& POLLOUT ≠ 0)

/-- The turn saw an edge triggered interest's file not writable. -/
def Turn.away (u : Turn) : Bool :=
  decide (u.before.events &&& EPOLLET ≠ 0 ∧ u.ready &&& POLLOUT = 0)

theorem and_not_and_self (m : UInt32) : (m &&& ~~~POLLOUT) &&& POLLOUT = 0 := by
  rw [UInt32.and_assoc]
  have : ~~~POLLOUT &&& POLLOUT = 0 := by decide
  rw [this, UInt32.and_zero]

theorem edgeMask_out (it : Item) (ready : UInt32) : edgeMask it ready &&& POLLOUT ≠ 0 ↔
      ready &&& POLLOUT ≠ 0 ∧ ¬ (it.events &&& EPOLLET ≠ 0 ∧ it.outSeen = true) := by
  unfold edgeMask
  split
  · next h => simp [and_not_and_self, h.1, h.2.2]
  · next h => tauto

/-- When a turn reports `POLLOUT`. -/
theorem collectItem_out (it : Item) (ready : UInt32) (room : Bool) :
    (collectItem it ready room).out = true ↔ room = true ∧ ready &&& POLLOUT ≠ 0 ∧
      ¬ (it.events &&& EPOLLET ≠ 0 ∧ it.outSeen = true) := by
  rw [← edgeMask_out]
  unfold collectItem Turn.out
  dsimp only
  split
  · rename_i h
    rcases h with h | h
    · simp [h]
    · have : room = false := by simpa using h
      simp [this]
  · rename_i h
    push Not at h
    have : room = true := by simpa using h.2
    simp [this]

/-- What a turn makes of `out_seen`. -/
theorem collectItem_seen (it : Item) (ready : UInt32) (room : Bool) :
    (collectItem it ready room).after.outSeen =
      (stillSeen it ready || (collectItem it ready room).out) := by
  unfold collectItem Turn.out
  dsimp only
  split <;> simp

theorem collectItem_ready (it : Item) (ready : UInt32) (room : Bool) :
    (collectItem it ready room).ready = ready ∧ (collectItem it ready room).room = room := by
  unfold collectItem
  dsimp only
  split <;> exact ⟨rfl, rfl⟩

theorem collectItem_self (it : Item) (ready : UInt32) (room : Bool) :
    collectItem it ready room = collectItem (collectItem it ready room).before
      (collectItem it ready room).ready (collectItem it ready room).room := by
  rw [collectItem_before, (collectItem_ready it ready room).1, (collectItem_ready it ready room).2]

/-! ## One round -/

/-- A round on the epoll file at `a` that started in `s` and has come to item `i`.
The items before `i` are done, those from `i` on are as they were, and every
interest that is due a turn has had it or is still to come. -/
structure Round (s : Sys) (t : Nat) (a : Addr) (i : Nat) (s' : Sys) (turns : List Turn) : Prop where
  keys : ((s'.items a).map Item.key).Subperm ((s.items a).map Item.key)
  others : ∀ b, b ≠ a → s'.items b = s.items b
  slots : ∀ fd, s'.slot t fd = s.slot t fd
  past : ∀ it ∈ (s'.items a).take i, (∃ u ∈ turns, it = u.after) ∨
    it ∈ s.items a ∧ ∀ u ∈ turns, u.before.fd ≠ it.fd
  rest : ∀ it ∈ (s'.items a).drop i, it ∈ s.items a
  took : ∀ u ∈ turns, u.after ∈ (s'.items a).take i ∧ u.before ∈ s.items a ∧
    u = collectItem u.before u.ready u.room
  once : (turns.map fun u => u.before.fd).Nodup
  due : ∀ it ∈ s.items a, s.slot t it.fd = some it.file → it.disarmed = false →
    it ∈ (s'.items a).drop i ∨ ∃ u ∈ turns, u.before = it

theorem Turn.after_fd (h : u = collectItem u.before u.ready u.room) : u.after.fd = u.before.fd := by
  have := collectItem_key u.before u.ready u.room
  rw [← h] at this
  exact congrArg Prod.fst this

namespace Round

variable {s : Sys} {t : Nat} {a : Addr} {i : Nat} {s1 : Sys} {turns : List Turn} {it : Item}

/-- What had its turn is not under the number of anything still to come. -/
theorem fd_ne (hd : ((s.items a).map Item.fd).Nodup) (h : Round s t a i s1 turns)
    (hit : it ∈ (s1.items a).drop i) (hu : u ∈ turns) : u.before.fd ≠ it.fd := by
  obtain ⟨hafter, -, hself⟩ := h.took u hu
  rw [← Turn.after_fd hself]
  exact fd_ne_of_split (nodup_fd_of_key h.keys hd) hafter hit

theorem mem_drop (hit : (s1.items a)[i]? = some it) : it ∈ (s1.items a).drop i := by
  obtain ⟨hlt, rfl⟩ := List.getElem?_eq_some_iff.mp hit
  rw [drop_eq_getElem_cons hlt]
  exact mem_cons_self

theorem dropped (h : Round s t a i s1 turns) (hit : (s1.items a)[i]? = some it)
    (hdead : itemAlive s1 t it = false) :
    Round s t a i (s1.setItems a (itemRemove (s1.items a) i)) turns := by
  obtain ⟨hlt, rfl⟩ := List.getElem?_eq_some_iff.mp hit
  have hitems : ∀ b, (s1.setItems a (itemRemove (s1.items a) i)).items b =
      if b = a then itemRemove (s1.items a) i else s1.items b :=
    fun b => items_setItems (epoll_of_mem (getElem_mem hlt))
  have htake : (itemRemove (s1.items a) i).take i = (s1.items a).take i := by
    unfold itemRemove
    rw [take_append_of_le_length (by rw [length_take]; omega), take_take, Nat.min_self]
  have hdrop : (itemRemove (s1.items a) i).drop i = swapIn ((s1.items a).drop (i + 1)) := by
    unfold itemRemove
    rw [drop_append_of_le_length (by rw [length_take]; omega), drop_take,
      Nat.sub_self, take_zero, nil_append]
  have hmem : ∀ x, x ∈ swapIn ((s1.items a).drop (i + 1)) ↔ x ∈ (s1.items a).drop (i + 1) :=
    fun x => (swapIn_perm _).mem_iff
  refine ⟨?_, fun b hb => ?_, fun fd => ?_, ?_, ?_, ?_, h.once, ?_⟩
  · rw [hitems, if_pos rfl]
    exact (subperm_map itemRemove_subperm _).trans h.keys
  · rw [hitems, if_neg hb]
    exact h.others b hb
  · rw [slot_setItems]
    exact h.slots fd
  · rw [hitems, if_pos rfl, htake]
    exact h.past
  · rw [hitems, if_pos rfl, hdrop]
    intro x hx
    refine h.rest x ?_
    rw [drop_eq_getElem_cons hlt]
    exact mem_cons_of_mem _ ((hmem x).mp hx)
  · rw [hitems, if_pos rfl, htake]
    exact h.took
  · rw [hitems, if_pos rfl, hdrop]
    intro x hx hslot harmed
    refine (h.due x hx hslot harmed).imp_left fun hin => (hmem x).mpr ?_
    rw [drop_eq_getElem_cons hlt] at hin
    rcases mem_cons.mp hin with rfl | hin
    · -- it is the one that is dropped, and it is alive
      have : itemAlive s1 t (s1.items a)[i] = true := by
        unfold itemAlive
        rw [h.slots]
        exact decide_eq_true hslot
      rw [this] at hdead
      cases hdead
    · exact hin

theorem passed (hd : ((s.items a).map Item.fd).Nodup) (h : Round s t a i s1 turns)
    (hit : (s1.items a)[i]? = some it) (hdis : it.disarmed = true) :
    Round s t a (i + 1) s1 turns := by
  have hin := mem_drop hit
  obtain ⟨hlt, rfl⟩ := List.getElem?_eq_some_iff.mp hit
  have htake := take_succ_eq_append_getElem hlt
  have hdrop := drop_eq_getElem_cons hlt
  refine ⟨h.keys, h.others, h.slots, fun x hx => ?_, fun x hx => ?_, fun u hu => ?_, h.once,
    fun x hx hslot harmed => ?_⟩
  · rw [htake] at hx
    rcases mem_append.mp hx with hx | hx
    · exact h.past x hx
    · rw [mem_singleton.mp hx]
      exact .inr ⟨h.rest _ hin, fun u => h.fd_ne hd hin⟩
  · refine h.rest x ?_
    rw [hdrop]
    exact mem_cons_of_mem _ hx
  · obtain ⟨hafter, hu'⟩ := h.took u hu
    rw [htake]
    exact ⟨mem_append_left _ hafter, hu'⟩
  · refine (h.due x hx hslot harmed).imp_left fun hx' => ?_
    rw [hdrop] at hx'
    rcases mem_cons.mp hx' with rfl | hx'
    · rw [hdis] at harmed; cases harmed
    · exact hx'

theorem turned (hd : ((s.items a).map Item.fd).Nodup) (h : Round s t a i s1 turns)
    (hit : (s1.items a)[i]? = some it) (ready : UInt32) (room : Bool) :
    Round s t a (i + 1) (s1.setItems a ((s1.items a).set i (collectItem it ready room).after))
      (turns ++ [collectItem it ready room]) := by
  have hin := mem_drop hit
  have hne : ∀ u ∈ turns, u.before.fd ≠ it.fd := fun u => h.fd_ne hd hin
  have hkeys := map_key_set hit ready room
  have hitems : ∀ b, (s1.setItems a ((s1.items a).set i (collectItem it ready room).after)).items b
      = if b = a then (s1.items a).set i (collectItem it ready room).after else s1.items b :=
    fun b => items_setItems (epoll_of_mem (mem_of_getElem? hit))
  have hbefore := collectItem_before it ready room
  have hself := collectItem_self it ready room
  revert hitems hkeys hbefore hself
  generalize collectItem it ready room = u
  intro hkeys hitems hbefore hself
  obtain ⟨hlt, rfl⟩ := List.getElem?_eq_some_iff.mp hit
  have htake : ((s1.items a).set i u.after).take (i + 1) = (s1.items a).take i ++ [u.after] := by
    rw [take_succ_eq_append_getElem (by simpa using hlt), take_set_of_le (Nat.le_refl i),
      getElem_set_self]
  have hdrop : ((s1.items a).set i u.after).drop (i + 1) = (s1.items a).drop (i + 1) :=
    drop_set_of_lt (Nat.lt_succ_self i)
  have hcons := drop_eq_getElem_cons hlt
  refine ⟨?_, fun b hb => ?_, fun fd => ?_, ?_, ?_, ?_, ?_, ?_⟩
  · rw [hitems, if_pos rfl, hkeys]
    exact h.keys
  · rw [hitems, if_neg hb]
    exact h.others b hb
  · rw [slot_setItems]
    exact h.slots fd
  · rw [hitems, if_pos rfl, htake]
    intro x hx
    rcases mem_append.mp hx with hx | hx
    · have hxne : x.fd ≠ u.before.fd := by
        rw [hbefore]
        exact fd_ne_of_split (nodup_fd_of_key h.keys hd) hx hin
      refine (h.past x hx).imp (fun ⟨v, hv, he⟩ => ⟨v, mem_append_left _ hv, he⟩)
        fun ⟨hxs, hno⟩ => ⟨hxs, fun v hv => ?_⟩
      rcases mem_append.mp hv with hv | hv
      · exact hno v hv
      · rw [mem_singleton.mp hv]
        exact hxne.symm
    · exact .inl ⟨u, by simp, mem_singleton.mp hx⟩
  · rw [hitems, if_pos rfl, hdrop]
    exact fun x hx => h.rest x (by rw [hcons]; exact mem_cons_of_mem _ hx)
  · rw [hitems, if_pos rfl, htake]
    intro v hv
    rcases mem_append.mp hv with hv | hv
    · obtain ⟨hafter, hv'⟩ := h.took v hv
      exact ⟨mem_append_left _ hafter, hv'⟩
    · rw [mem_singleton.mp hv, hbefore]
      rw [hbefore] at hself
      exact ⟨by simp, h.rest _ hin, hself⟩
  · rw [map_append, nodup_append]
    refine ⟨h.once, by simp, fun x hx y hy => ?_⟩
    obtain ⟨v, hv, rfl⟩ := mem_map.mp hx
    have hy : y = u.before.fd := by simpa using hy
    rw [hy, hbefore]
    exact hne v hv
  · rw [hitems, if_pos rfl, hdrop]
    intro x hx hslot harmed
    rcases h.due x hx hslot harmed with hx' | ⟨v, hv, he⟩
    · rw [hcons] at hx'
      rcases mem_cons.mp hx' with rfl | hx'
      · exact .inr ⟨u, by simp, hbefore⟩
      · exact .inl hx'
    · exact .inr ⟨v, mem_append_left _ hv, he⟩

end Round

/-- What a round comes to. -/
theorem epollCollect_round {s' : Sys} {t depth : Nat} {max : Nat} (hd : Distinct s)
    (h : epollCollect s t depth a max = some (s', turns)) :
    Round s t a (s'.items a).length s' turns := by
  have hstart : Round s t a 0 s [] :=
    ⟨.refl _, fun _ _ => rfl, fun _ => rfl, fun _ h => (by cases h), fun _ h => h,
      fun _ h => (by cases h), nodup_nil, fun _ h _ _ => .inl h⟩
  exact collectLoop_rule (fun _ _ _ _ h1 => h1.dropped)
    (fun _ _ _ _ h1 hit _ => h1.passed (hd a) hit)
    (fun _ _ _ _ ready h1 hit _ _ _ => h1.turned (hd a) hit ready _) rfl hstart h

/-! ## The mark over a run -/

/-- The turns that a step takes on the interests of the epoll file at `a`. -/
def turnsOf (s : Sys) (act : Act) (a : Addr) : List Turn :=
  match act with
  | .collect t epfd depth max =>
    if epollFromFd s t epfd = some a then
      ((waitRound s t epfd depth max).map Prod.snd).getD []
    else []
  | _ => []

/-- The step reports `POLLOUT` for the interest under `fd`. -/
def ReportsOut (a : Addr) (fd : Nat) (s : Sys) (act : Act) : Prop :=
  ∃ u ∈ turnsOf s act a, u.before.fd = fd ∧ u.out = true

/-- The step registers the interest under `fd`, or sets it anew. -/
def Registers (a : Addr) (fd : Nat) (s : Sys) (act : Act) : Prop :=
  match act with
  | .ctl t epfd op fd' ev mem => (op = .add ∨ op = .mod) ∧ fd' = fd ∧
      epollFromFd s t epfd = some a ∧ (epollCtl s t epfd op fd' ev mem).1 = .ok 0
  | _ => False

/-- The step is a round that looks at the interest under `fd` while its file is not
writable, or it sets the interest anew. -/
def SeesAway (a : Addr) (fd : Nat) (s : Sys) (act : Act) : Prop :=
  (∃ u ∈ turnsOf s act a, u.before.fd = fd ∧ u.away = true) ∨ Registers a fd s act

instance (a : Addr) (fd : Nat) (s : Sys) (act : Act) : Decidable (ReportsOut a fd s act) :=
  inferInstanceAs (Decidable (∃ u ∈ turnsOf s act a, u.before.fd = fd ∧ u.out = true))

/-- `out_seen` of the interest under `fd`, if there is one. -/
def Marked (a : Addr) (fd : Nat) (b : Bool) (s : Sys) : Prop :=
  ∀ it ∈ s.items a, it.fd = fd → it.outSeen = b

theorem epoll_setItems {c : Addr} (he : ∃ x, s.files c = some x ∧ x.type = .epoll) :
    ∃ x, (s.setItems c l).files c = some x ∧ x.type = .epoll := by
  obtain ⟨x, hx, hty⟩ := he
  unfold Sys.setItems
  rw [hx]
  exact ⟨_, Function.update_self .., hty⟩

/-- Setting the one interest that has the number. -/
theorem mem_modify_fd (hn : (l.map Item.fd).Nodup) {i : Nat} {it : Item}
    {f : Item → Item} (hit : l[i]? = some it) (hx : x ∈ l.modify i f) :
    x ∈ l ∧ x.fd ≠ it.fd ∨ x = f it := by
  obtain ⟨j, hj⟩ := mem_iff_getElem?.mp hx
  rw [getElem?_modify] at hj
  obtain ⟨y, hy, rfl⟩ := Option.map_eq_some_iff.mp hj
  by_cases hij : i = j
  · subst hij
    rw [hy] at hit
    cases hit
    exact .inr (by simp)
  · refine .inl ⟨by simpa [hij] using mem_of_getElem? hy, ?_⟩
    simp only [hij, if_false]
    intro hfd
    have hlt := (List.getElem?_eq_some_iff.mp hit).1
    refine hij ((getElem?_inj (by simpa using hlt) hn).mp ?_)
    rw [getElem?_map, getElem?_map, hit, hy, Option.map_some, Option.map_some, hfd]

/-- What a control makes of the interests of the epoll file at `a`: it leaves them
as they are, save the one that it sets. -/
theorem ctlSwitch_marks {c : Addr} {items : List Item} {found : Option Nat}
    {op : CtlOp} {f : Addr} {ev : Event} {mem : Bool}
    (he : ∃ x, s.files c = some x ∧ x.type = .epoll) (hn : (items.map Item.fd).Nodup)
    (hsub : items.Subperm (s.items c))
    (hsome : ∀ j, found = some j → ∃ it, items[j]? = some it ∧ it.fd = fd)
    (hnone : found = none → ∀ it ∈ items, it.fd ≠ fd)
    (hx : x ∈ (ctlSwitch s c items found op fd f ev mem).2.items a) :
    x ∈ s.items a ∧ (a = c → op = .add ∨ op = .mod →
        (ctlSwitch s c items found op fd f ev mem).1 = .ok 0 → x.fd ≠ fd) ∨
      (op = .add ∨ op = .mod) ∧ a = c ∧
        (ctlSwitch s c items found op fd f ev mem).1 = .ok 0 ∧ x.fd = fd ∧
        x.outSeen = false := by
  have hitems : ∀ b, (s.setItems c items).items b = if b = c then items else s.items b :=
    fun b => items_setItems he
  have hagain : ∀ l b, ((s.setItems c items).setItems c l).items b =
      if b = c then l else (s.setItems c items).items b :=
    fun l b => items_setItems (epoll_setItems he)
  have hkeep : ∀ x, x ∈ (s.setItems c items).items a → x ∈ s.items a := by
    intro x hx
    rw [hitems] at hx
    split at hx
    · next ha => rw [ha]; exact hsub.subset hx
    · exact hx
  unfold ctlSwitch at hx ⊢
  dsimp only at hx ⊢
  split at hx
  · exact .inl ⟨hkeep x hx, fun _ _ hok => by cases hok⟩
  · split at hx
    · exact .inl ⟨hkeep x hx, fun _ _ hok => by cases hok⟩
    · split at hx
      · next hfull => rw [if_pos hfull]; exact .inl ⟨hkeep x hx, fun _ _ hok => by cases hok⟩
      · rename_i hfull
        rw [if_neg hfull]
        rw [items_setFile] at hx
        split at hx
        · rename_i ha
          simp only [interests] at hx
          split at hx
          · rcases mem_append.mp hx with hx | hx
            · exact .inl ⟨by rw [ha]; exact hsub.subset hx, fun _ _ _ => hnone rfl x hx⟩
            · rw [mem_singleton.mp hx]
              exact .inr ⟨.inl rfl, ha, rfl, rfl, rfl⟩
          · cases hx
        · next ha => exact .inl ⟨hkeep x hx, fun hac => absurd hac ha⟩
  · exact .inl ⟨hkeep x hx, fun _ _ hok => by cases hok⟩
  · rename_i i
    obtain ⟨it, hit, hfd⟩ := hsome i rfl
    rw [hagain] at hx
    split at hx
    · rename_i ha
      rcases mem_modify_fd hn hit hx with ⟨hx, hne⟩ | rfl
      · exact .inl ⟨by rw [ha]; exact hsub.subset hx, fun _ _ _ => by rwa [hfd] at hne⟩
      · exact .inr ⟨.inr rfl, ha, rfl, hfd, rfl⟩
    · next ha => exact .inl ⟨hkeep x hx, fun hac => absurd hac ha⟩
  · exact .inl ⟨hkeep x hx, fun _ _ hok => by cases hok⟩
  · refine .inl ⟨?_, fun _ hop => by rcases hop with h | h <;> cases h⟩
    rw [hagain] at hx
    split at hx
    · next ha => rw [ha]; exact hsub.subset (itemRemove_subset hx)
    · exact hkeep x hx
  · exact .inl ⟨hkeep x hx, fun _ _ hok => by cases hok⟩

theorem epollCtl_marks (hd : Distinct s) {t epfd : Nat} {op : CtlOp} {ev : Event} {mem : Bool}
    (hx : x ∈ (epollCtl s t epfd op fd ev mem).2.items a) :
    x ∈ s.items a ∧ (Registers a fd s (.ctl t epfd op fd ev mem) → x.fd ≠ fd) ∨
      Registers a fd s (.ctl t epfd op fd ev mem) ∧ x.fd = fd ∧ x.outSeen = false := by
  unfold Registers
  dsimp only
  rcases epollCtl_inv s t epfd op fd ev mem with
    ⟨e, he, -⟩ | ⟨c, b, items, found, hc, -, he, hsub, hsome, hnone⟩
  · rw [he] at hx ⊢
    exact .inl ⟨hx, fun h => by cases h.2.2.2⟩
  rw [he] at hx ⊢
  have hn : (items.map Item.fd).Nodup := nodup_of_subperm (subperm_map hsub _) (hd c)
  rcases ctlSwitch_marks (epollFromFd_some hc).2 hn hsub
    (fun j hj => (hsome j hj).imp fun it h => ⟨h.1, h.2.1⟩) hnone hx with
    ⟨hmem, hne⟩ | ⟨hop, ha, hok, hfd, hseen⟩
  · refine .inl ⟨hmem, fun ⟨hop, _, hca, hok⟩ => hne ?_ hop hok⟩
    rw [hc] at hca
    exact (Option.some.inj hca).symm
  · exact .inr ⟨⟨hop, rfl, by rw [hc, ha], hok⟩, hfd, hseen⟩

/-! ## The mark of one interest, step by step -/

/-- A step other than a control or a round leaves the marks alone. -/
theorem mem_items_of_step {act : Act} (hctl : ∀ t epfd op fd ev mem, act ≠ .ctl t epfd op fd ev mem)
    (hcol : ∀ t epfd depth max, act ≠ .collect t epfd depth max) {it : Item}
    (h : it ∈ (step s act).items a) : it ∈ s.items a := by
  rcases step_cases (k := fun it => it) hctl hcol with hs | ⟨x, -, hm⟩ |
    ⟨t, r, w, addr, addr', x, -, y, -, hx, hy, he⟩
  · obtain ⟨it0, h0, rfl⟩ := hs.items a it h
    exact h0
  · obtain ⟨it0, h0, rfl⟩ := hm.items a it h
    exact h0
  · rw [he] at h
    obtain ⟨it1, h1, rfl⟩ := (Moved.opened (k := fun it => it) hy (plain_items w)).items a it h
    obtain ⟨it0, h0, rfl⟩ := (Moved.opened (k := fun it => it) hx (plain_items r)).items a it1 h1
    exact h0

/-- What one turn makes of the mark of its interest. -/
theorem after_seen (hu : u = collectItem u.before u.ready u.room) :
    u.after.outSeen = (u.out || (!u.away && u.before.outSeen)) := by
  have hseen := collectItem_seen u.before u.ready u.room
  rw [← hu] at hseen
  rw [hseen, Bool.or_comm]
  unfold stillSeen Turn.away
  split
  · next h => simp [h]
  · next h => rw [decide_eq_false h]; rfl

/-- A round on the epoll file itself. -/
theorem Round.marked {s' : Sys} {t : Nat}
    (h : Round s t a (s'.items a).length s' turns) (hb : Marked a fd b s) :
    Marked a fd (turns.any (fun u => decide (u.before.fd = fd) && u.out) ||
      (!turns.any (fun u => decide (u.before.fd = fd) && u.away) && b)) s' := by
  intro x hx hfd
  have hpast := h.past x (by rw [take_length]; exact hx)
  rcases hpast with ⟨u, hu, rfl⟩ | ⟨hmem, hno⟩
  · -- the interest had its turn, and no other one has its number
    obtain ⟨-, hbefore, hself⟩ := h.took u hu
    have hufd : u.before.fd = fd := by rw [← Turn.after_fd hself]; exact hfd
    have hone : ∀ P : Turn → Bool, turns.any (fun v => decide (v.before.fd = fd) && P v) = P u := by
      intro P
      cases hP : P u with
      | true => exact any_eq_true.mpr ⟨u, hu, by simp [hufd, hP]⟩
      | false =>
        rw [any_eq_false]
        intro v hv hvP
        simp only [Bool.and_eq_true, decide_eq_true_eq] at hvP
        have : v = u := inj_on_of_nodup_map h.once hv hu (hvP.1.trans hufd.symm)
        rw [this, hP] at hvP
        cases hvP.2
    rw [hone, hone, after_seen hself, hb u.before hbefore hufd]
  · have hnone : ∀ P : Turn → Bool,
        turns.any (fun v => decide (v.before.fd = fd) && P v) = false := by
      intro P
      rw [any_eq_false]
      intro v hv hvP
      simp only [Bool.and_eq_true, decide_eq_true_eq] at hvP
      exact hno v hv (hvP.1.trans hfd.symm)
    rw [hnone, hnone, hb x hmem hfd]
    rfl

theorem any_fd {P : Turn → Bool} : turns.any (fun u => decide (u.before.fd = fd) && P u) = true ↔
      ∃ u ∈ turns, u.before.fd = fd ∧ P u = true := by
  simp [any_eq_true]

open Classical in
/-- The step lemma: a report sets the mark, a look at a file that is not writable
clears it, anything else leaves it as it is. -/
theorem marked_step (act : Act) (hd : Distinct s) (h : Marked a fd b s) :
    Marked a fd (decide (ReportsOut a fd s act) || (!decide (SeesAway a fd s act) && b))
      (step s act) := by
  have hturns : ∀ P : Turn → Bool, turnsOf s act a = [] →
      ¬ ∃ u ∈ turnsOf s act a, u.before.fd = fd ∧ P u = true := by
    rintro P hturns ⟨u, hu, -⟩
    rw [hturns] at hu
    cases hu
  -- where the step takes no turn and sets no interest, the mark has to stay
  have hquiet : turnsOf s act a = [] → ¬ Registers a fd s act → Marked a fd b (step s act) →
      Marked a fd (decide (ReportsOut a fd s act) || (!decide (SeesAway a fd s act) && b))
        (step s act) := by
    intro hnil hreg hm
    rw [decide_eq_false (p := ReportsOut ..) (hturns _ hnil),
      decide_eq_false (p := SeesAway ..) fun h => h.elim (hturns _ hnil) hreg]
    exact hm
  by_cases hctl : ∃ t epfd op fd' ev mem, act = .ctl t epfd op fd' ev mem
  · obtain ⟨t, epfd, op, fd', ev, mem, rfl⟩ := hctl
    by_cases hreg : Registers a fd s (.ctl t epfd op fd' ev mem)
    · obtain rfl : fd' = fd := hreg.2.1
      rw [decide_eq_false (p := ReportsOut ..) (hturns _ rfl), decide_eq_true (.inr hreg)]
      intro x hx hfd
      rcases epollCtl_marks hd hx with ⟨-, hne⟩ | ⟨-, -, hseen⟩
      · exact absurd hfd (hne hreg)
      · exact hseen
    · refine hquiet rfl hreg fun x hx hfd => ?_
      rcases epollCtl_marks hd hx with ⟨hmem, -⟩ | ⟨hreg', hfd', -⟩
      · exact h x hmem hfd
      · obtain rfl : fd' = fd := hfd'.symm.trans hfd
        exact absurd hreg' hreg
  by_cases hcol : ∃ t epfd depth max, act = .collect t epfd depth max
  · obtain ⟨t, epfd, depth, max, rfl⟩ := hcol
    have hstep : step s (.collect t epfd depth max) =
        ((waitRound s t epfd depth max).map Prod.fst).getD s := rfl
    cases hr : waitRound s t epfd depth max with
    | none =>
      rw [hr] at hstep
      refine hquiet ?_ (fun h => h) (by rw [hstep]; exact h)
      simp [turnsOf, hr]
    | some r =>
      obtain ⟨s', turns⟩ := r
      rw [hr] at hstep
      obtain ⟨c, hc, hrun⟩ := Option.bind_eq_some_iff.mp hr
      have hround := epollCollect_round hd hrun
      by_cases ha : a = c
      · subst ha
        have hall : turnsOf s (.collect t epfd depth max) a = turns := by
          simp [turnsOf, hc, hr]
        have hrep : decide (ReportsOut a fd s (.collect t epfd depth max)) =
            turns.any fun u => decide (u.before.fd = fd) && u.out := by
          rw [Bool.eq_iff_iff, decide_eq_true_iff, any_fd, ReportsOut, hall]
        have haway : decide (SeesAway a fd s (.collect t epfd depth max)) =
            turns.any fun u => decide (u.before.fd = fd) && u.away := by
          rw [Bool.eq_iff_iff, decide_eq_true_iff, any_fd, SeesAway, hall]
          exact or_iff_left id
        rw [hrep, haway, hstep]
        exact hround.marked h
      · refine hquiet ?_ (fun h => h) ?_
        · have : ¬ some c = some a := fun he => ha (Option.some.inj he).symm
          simp [turnsOf, hc, this]
        · rw [hstep]
          intro x hx
          exact h x (hround.others a ha ▸ hx)
  · refine hquiet ?_ ?_ fun x hx => h x (mem_items_of_step
      (fun t epfd op fd ev mem he => hctl ⟨t, epfd, op, fd, ev, mem, he⟩)
      (fun t epfd depth max he => hcol ⟨t, epfd, depth, max, he⟩) hx)
    · cases act with
      | collect t epfd depth max => exact absurd ⟨t, epfd, depth, max, rfl⟩ hcol
      | _ => rfl
    · cases act with
      | ctl t epfd op fd ev mem => exact absurd ⟨t, epfd, op, fd, ev, mem, rfl⟩ hctl
      | _ => exact fun h => h

open Classical in
/-- The run lemma: after a run without a report the mark is as it was, or cleared if
some step of the run saw the file away. -/
theorem marked_run {acts : List Act}
    (hd : Distinct s) (h : Marked a fd b s) (hno : ¬ Sometime step (ReportsOut a fd) s acts) :
    Marked a fd (!decide (Sometime step (SeesAway a fd) s acts) && b) (run step s acts) := by
  induction acts generalizing s b with
  | nil => exact h
  | cons act acts ih =>
    have hone := marked_step act hd h
    rw [decide_eq_false fun hr => hno (.inl hr)] at hone
    have hrest := ih (hd.step act) hone fun hr => hno (.inr hr)
    rw [Bool.false_or, ← Bool.and_assoc, ← Bool.not_or, Bool.or_comm, ← Bool.decide_or] at hrest
    exact hrest

theorem Marked.exists (hd : Distinct s) (a : Addr) (fd : Nat) : ∃ b, Marked a fd b s := by
  by_cases h : ∃ it ∈ s.items a, it.fd = fd
  · obtain ⟨it, hit, hfd⟩ := h
    refine ⟨it.outSeen, fun x hx hxfd => ?_⟩
    rw [eq_of_fd (hd a) hx hit (hxfd.trans hfd.symm)]
  · exact ⟨false, fun x hx hfd => absurd ⟨x, hx, hfd⟩ h⟩

/-- **When edge triggered `POLLOUT` comes back.** `POLLOUT` was reported for the
interest under `fd` in step `c`, and not in the steps `acts'` since. A round that
comes now gives the interest, if it is live and armed, its turn; and if there is
room and the file is writable, it reports `POLLOUT` exactly if in the meantime some
round looked at the interest while the file was not writable, or the interest was
set anew. -/
theorem pollout_back_iff_seen_away (acts : List Act) (c : Act) (acts' : List Act) (a : Addr)
    (fd : Nat) (hlast : ReportsOut a fd (run step Sys.init acts) c)
    (hno : ¬ Sometime step (ReportsOut a fd) (step (run step Sys.init acts) c) acts')
    (t epfd depth max : Nat) (s' : Sys) (turns : List Turn) (it : Item)
    (hep : epollFromFd (run step Sys.init (acts ++ c :: acts')) t epfd = some a)
    (hround : waitRound (run step Sys.init (acts ++ c :: acts')) t epfd depth max
      = some (s', turns))
    (hit : it ∈ (run step Sys.init (acts ++ c :: acts')).items a) (hfd : it.fd = fd)
    (halive : (run step Sys.init (acts ++ c :: acts')).slot t fd = some it.file)
    (harmed : it.disarmed = false) (het : it.events &&& EPOLLET ≠ 0) :
    ∃ u ∈ turns, u.before = it ∧ (u.room = true → u.ready &&& POLLOUT ≠ 0 → (u.out = true ↔
        Sometime step (SeesAway a fd) (step (run step Sys.init acts) c) acts')) := by
  have hdist : ∀ l, Distinct (run step Sys.init l) := fun l =>
    run_inv (fun s act h _ => h.step act) Distinct.init (Meets.of_all fun _ _ => trivial)
  obtain ⟨b, hb⟩ := Marked.exists (hdist acts) a fd
  have hset := marked_step c (hdist acts) hb
  rw [decide_eq_true hlast] at hset
  have hmark := marked_run ((hdist acts).step c) hset hno
  rw [← run_cons, ← run_append] at hmark
  have hd2 := hdist (acts ++ c :: acts')
  obtain ⟨e, he, hcollect⟩ := Option.bind_eq_some_iff.mp hround
  rw [hep] at he
  cases he
  have hr := epollCollect_round hd2 hcollect
  rcases hr.due it hit (by rw [hfd]; exact halive) harmed with hdrop | ⟨u, hu, hbefore⟩
  · rw [drop_length] at hdrop
    cases hdrop
  refine ⟨u, hu, hbefore, fun hroom hready => ?_⟩
  have hself := (hr.took u hu).2.2
  have hout := collectItem_out u.before u.ready u.room
  rw [← hself, hbefore] at hout
  rw [hout, hmark it hit hfd]
  simp [hroom, hready, het]

/-- A pipe is watched for `POLLOUT`, edge triggered. -/
def watchedPipe : List Act :=
  [.create 0 true true (some 100), .install 0 { type := .pipe, poll := some POLLOUT } (some 101),
    .ctl 0 3 .add 4 ⟨EPOLLET ||| POLLOUT, 7⟩ true]

/-- It is reported, fills up, a round looks at it, and it drains: the round after
that reports it again. -/
theorem pollout_back_after_look :
    ∃ s' turns, waitRound (run step Sys.init (watchedPipe ++ .collect 0 3 1 8 ::
        [.ready 101 0, .collect 0 3 1 8, .ready 101 POLLOUT])) 0 3 1 8 = some (s', turns) ∧
      ∃ u ∈ turns, u.out = true := by
  refine ⟨_, _, rfl, ?_⟩
  obtain ⟨u, hu, hbefore, hout⟩ := pollout_back_iff_seen_away watchedPipe (.collect 0 3 1 8)
    [.ready 101 0, .collect 0 3 1 8, .ready 101 POLLOUT] 100 4 (by decide) (by decide)
    0 3 1 8 _ _ ⟨4, 101, EPOLLET ||| POLLOUT, 7, false, false, 1⟩ rfl rfl (by decide) rfl rfl
    rfl (by decide)
  have hu := mem_singleton.mp hu
  subst hu
  exact ⟨_, mem_singleton.mpr rfl, (hout rfl (by decide)).mpr
    (.inr (.inl (.inl ⟨_, mem_singleton.mpr rfl, rfl, rfl⟩)))⟩

/-- It is reported, fills up and drains between two rounds: the second sees it
writable, with room for the event, and says nothing. -/
theorem pollout_lost_between_rounds :
    ReportsOut 100 4 (run step Sys.init watchedPipe) (.collect 0 3 1 8) ∧
      ((run step Sys.init (watchedPipe ++ [.collect 0 3 1 8, .ready 101 0])).files 101).map
        File.poll = some (some 0) ∧
      (waitRound (run step Sys.init (watchedPipe ++ [.collect 0 3 1 8, .ready 101 0,
          .ready 101 POLLOUT])) 0 3 1 8).map
        (fun r => r.2.map fun u => (u.ready, u.room, u.report)) =
        some [(POLLOUT, true, none)] := by
  decide

end BleedKernel.Fs
