import BleedKernel.Proofs.TcpLists

/-!
# A connection is freed once, and never used after that

Every function of `Model.TcpList` keeps the lists together. The loops follow pointers of
lists that they change on the way: `tcp_tick` frees the connection it looks at, and
`tcp_listener_gone` the whole queue.
-/

namespace BleedKernel.TcpList

open Function Lib Tcp Net List

variable {fuel : Nat} {p : Ptr} {mem : Bool} {iss : UInt32} {zs : List Nat}

/-- The lists hold together, and no listener is going away. -/
def Whole (s : Net) : Prop := ∃ xs Q H, Inv s none xs Q H

section

variable {s s' : Net} {d : Ptr} {xs ys : List Nat} {Q H : Nat → List Nat} {a b c l t : Nat}
variable {src dst : UInt32} {srcPort dstPort : UInt16} {h : Seg} {now : Nat}

/-! ## Segments -/

/-- The loop of `tcp_find` follows live pointers, and what it answers is not closed. -/
theorem findLoop_spec {listener : Ptr} (hc : Lead s.next p ys none)
    (hl : ∀ x ∈ ys, s.live x = true) (hf : ys.length < fuel) :
    (findLoop src srcPort dst dstPort fuel p listener s).1 = s ∧
      ∀ t, (findLoop src srcPort dst dstPort fuel p listener s).2 = some t →
        listener = some t ∨ (t ∈ ys ∧ s.state t ≠ .closed) := by
  induction ys, fuel, hf using fuel_induction generalizing p listener with
  | nil fuel =>
    have hp : p = none := hc
    subst hp
    exact ⟨rfl, fun _ => .inl⟩
  | cons x ys fuel hf ih =>
    obtain ⟨rfl, hrest⟩ := hc
    have hrec : ∀ listener', (findLoop src srcPort dst dstPort fuel (s.next x) listener' s).1 = s ∧
        ∀ t, (findLoop src srcPort dst dstPort fuel (s.next x) listener' s).2 = some t →
          listener' = some t ∨ (t ∈ ys ∧ s.state t ≠ .closed) := fun _ =>
      ih hrest (fun y hy => hl y (mem_cons_of_mem _ hy))
    have hgo : (findLoop src srcPort dst dstPort fuel (s.next x) listener s).1 = s ∧
        ∀ t, (findLoop src srcPort dst dstPort fuel (s.next x) listener s).2 = some t →
          listener = some t ∨ (t ∈ x :: ys ∧ s.state t ≠ .closed) := by
      refine ⟨(hrec listener).1, fun t ht => ?_⟩
      exact ((hrec listener).2 t ht).imp id fun hm => ⟨mem_cons_of_mem _ hm.1, hm.2⟩
    simp only [findLoop]
    rw [touch_of_live (hl x mem_cons_self)]
    split
    · exact hgo
    rename_i hopen
    rw [not_or] at hopen
    have hx : x ∈ x :: ys ∧ s.state x ≠ .closed := ⟨mem_cons_self, hopen.2⟩
    split
    · exact hgo
    split
    · refine ⟨(hrec (some x)).1, fun t ht => .inr ?_⟩
      rcases (hrec (some x)).2 t ht with he | hm
      · rw [← Option.some.inj he]
        exact hx
      · exact ⟨mem_cons_of_mem _ hm.1, hm.2⟩
    · split
      · refine ⟨rfl, fun t ht => .inr ?_⟩
        rw [← Option.some.inj ht]
        exact hx
      · exact hgo

theorem Inv.find (hi : Inv s d xs Q H) (src : UInt32) (srcPort : UInt16) (dst : UInt32)
    (dstPort : UInt16) :
    (s.tcpFind src srcPort dst dstPort).1 = s ∧
      ∀ t, (s.tcpFind src srcPort dst dstPort).2 = some t → s.live t = true ∧ s.state t ≠ .closed := by
  have hlen := length_le_born hi.nodup hi.live
  have hspec : (s.tcpFind src srcPort dst dstPort).1 = s ∧
      ∀ t, (s.tcpFind src srcPort dst dstPort).2 = some t →
        none = some t ∨ (t ∈ xs ∧ s.state t ≠ .closed) :=
    findLoop_spec hi.chain hi.live (Nat.lt_succ_of_le hlen)
  refine ⟨hspec.1, fun t ht => ?_⟩
  rcases hspec.2 t ht with he | ⟨hm, hs⟩
  · cases he
  · exact ⟨hi.live t hm, hs⟩

theorem Inv.sent (hi : Inv s d xs Q H) (out : Out) : Inv { s with out := out } d xs Q H :=
  { hi with placed := fun a ha => { hi.placed a ha with } }

/-- Memory becomes a half open child of `l`. This is the same as if a socket had got it
and put it on the list before. -/
theorem Inv.newChild (hi : Inv s none xs Q H) (hl : s.live l = true) (hs : s.state l = .listen)
    {u : Tcb} {f : Work → Work} (hu : (f ⟨u, s.out⟩).t.state = .synRcvd)
    (hd : (f ⟨u, s.out⟩).t.detached = false) (hidle : Idle (f ⟨u, s.out⟩).t) :
    Whole (Net.work (Net.link { s.tcpAlloc u with
      parent := update (s.tcpAlloc u).parent s.born (some l)
      pending := update (s.tcpAlloc u).pending l ((s.tcpAlloc u).pending l + 1) } s.born)
      s.born f) := by
  have hclosed : Idle Tcp.tcpAlloc := ⟨fun _ => rfl, fun _ => rfl, nofun⟩
  have hne : l ≠ s.born := Nat.ne_of_lt (live_iff.mp hl).1
  have hlive : ∀ s' : Net, s'.born = s.born + 1 → s'.frees = s.frees → s'.live s.born = true := by
    intro s' hb hf
    rw [live_iff, hb, hf]
    exact ⟨Nat.lt_succ_self _, hi.beyond _ (Nat.le_refl _)⟩
  have hlink := (hi.create rfl rfl hclosed).link (hlive _ rfl rfl) (update_self _ _ _)
  generalize hs₁ : Net.link _ s.born = s₁ at hlink
  have htcb : ∀ b, s₁.tcb b = update s.tcb s.born Tcp.tcpAlloc b := by
    rw [← hs₁]
    exact fun _ => rfl
  have hadopt := hlink.adopt (by rw [← hs₁]; exact update_self _ _ _)
    (by rw [← hs₁]; exact update_self _ _ _)
    (by rw [Net.state, htcb, update_self]; rfl)
    (by rw [← hs₁]; exact update_self _ _ _)
    (by rw [← hs₁]; exact live_iff.mpr ⟨Nat.lt_succ_of_lt (live_iff.mp hl).1, (live_iff.mp hl).2⟩)
    (by rw [Net.state, htcb, update_of_ne hne]; exact hs)
    hu hd hidle (f ⟨u, s.out⟩).out
  rw [work_of_live]
  · subst hs₁
    simp only [Net.link, Net.tcpAlloc, update_idem, update_self] at hadopt ⊢
    exact ⟨_, _, _, hadopt⟩
  · exact hlive _ rfl rfl

/-- A SYN makes a child, that is half open. -/
theorem Inv.listenInput (hi : Inv s none xs Q H) (hl : s.live l = true) (hs : s.state l = .listen) :
    Whole (s.tcpListenInput l src dst h mem iss now) := by
  simp only [Net.tcpListenInput]
  rw [touch_of_live hl]
  split
  · exact ⟨xs, Q, H, hi⟩
  split
  · exact ⟨xs, Q, H, hi.sent _⟩
  split
  · exact ⟨xs, Q, H, hi⟩
  split
  · exact ⟨xs, Q, H, hi⟩
  have hq : ∀ v : Tcb, Quiet v (tcpArmRto v now) := fun v => (Quiet.refl v).armRto
  have hstate := (hq (tcpSendSyn ⟨tcpListenChild (s.tcb l) src dst h iss now, s.out⟩).t).state
  have hrec := congrArg Congestion.recovery
    (hq (tcpSendSyn ⟨tcpListenChild (s.tcb l) src dst h iss now, s.out⟩).t).cc
  refine hi.newChild hl hs hstate (hq _).detached ⟨fun _ => hrec, ?_, ?_⟩
  · intro hc
    exact hc.elim nofun nofun
  · intro hc
    cases hc

theorem Inv.parent_of_half (hi : Inv s d xs Q H) (ht : s.live t = true)
    (hs : s.state t = .synRcvd) : ∃ l, s.parent t = some l ∧ s.live l = true := by
  have hp := hi.placed t ht
  obtain ⟨l, hl⟩ := Option.ne_none_iff_exists'.mp (hp.rcvd hs).1
  exact ⟨l, hl, (hp.parent l hl).1⟩

/-- A function gives up a half open connection. -/
theorem Inv.dropHalf (hi : Inv s d xs Q H) (ht : s.live t = true) (hs : s.state t = .synRcvd)
    {f : Work → Work} (hd : Dropped (f ⟨s.tcb t, s.out⟩).t) :
    ∃ H', Inv ((s.work t f).dropParent t) d xs Q H' := by
  obtain ⟨l, hp, hl⟩ := hi.parent_of_half ht hs
  have heq := dropParent_eq (s := { s with
      tcb := update s.tcb t (f ⟨s.tcb t, s.out⟩).t
      out := (f ⟨s.tcb t, s.out⟩).out }) ht hp hl
  rw [work_of_live ht, heq]
  exact ⟨_, hi.drop ht hs hp hd _⟩

theorem enqueue_same : (s.enqueue t).tcb = s.tcb ∧ (s.enqueue t).live = s.live := by
  simp only [enqueue]
  split
  · exact ⟨rfl, rfl⟩
  · split <;> exact ⟨rfl, rfl⟩

section

variable (hi : Inv s none xs Q H)

include hi

/-- `tcp_syn_rcvd` -/
theorem Inv.synRcvd (ht : s.live t = true) (hs : s.state t = .synRcvd) (rings : Option Rings) :
    let r := s.tcpSynRcvd t h rings
    Whole r.2 ∧ (r.1 = true → r.2.live t = true ∧ r.2.state t = .established) := by
  have hidle := (hi.placed t ht).idle
  have hcase := hidle.synRcvd (w := ⟨s.tcb t, s.out⟩) (h := h) hs rings
  simp only [Net.tcpSynRcvd]
  rcases hcase with ⟨hv, hd⟩ | ⟨hv, hw⟩ | ⟨hv, hu, hd⟩
  · rw [hv]
    obtain ⟨H', hi'⟩ := hi.dropHalf ht hs (f := fun w => (Tcp.tcpSynRcvd w h rings).2) hd
    exact ⟨⟨_, _, _, hi'⟩, nofun⟩
  · rw [hv]
    exact ⟨⟨_, _, _, hi.work ht (f := fun w => (Tcp.tcpSynRcvd w h rings).2) (.of_waits hw hs)⟩, nofun⟩
  · rw [hv]
    obtain ⟨l, hp, hl⟩ := hi.parent_of_half ht hs
    have hland := hi.land ht hs hp hu hd (Tcp.tcpSynRcvd ⟨s.tcb t, s.out⟩ h rings).2.out
    simp only [work_of_live ht]
    refine ⟨⟨_, _, _, hland⟩, fun _ => ?_⟩
    rw [enqueue_same.2, Net.state, enqueue_same.1]
    exact ⟨ht, (congrArg Tcb.state (update_self _ _ _)).trans hu⟩

/-- The connection that a segment is for does something with it. -/
theorem Inv.found (ht : s.live t = true) (hs : s.state t ≠ .closed) {rings : Option Rings} :
    Whole (s.tcpFound t src dst h mem iss rings now) := by
  have hopen : (s.state t).stage = .open →
      ∀ {f : Work → Work}, Ends (s.tcb t) (f ⟨s.tcb t, s.out⟩).t → Whole (s.work t f) :=
    fun ho _ he => ⟨_, _, _, hi.work ht (.of_ends he ho)⟩
  simp only [tcpFound]
  rw [touch_of_live ht]
  split
  · next hl => exact hi.listenInput ht hl
  · next hs => exact hopen (by rw [hs]; rfl) (.synSent (w := ⟨_, _⟩) hs)
  · rename_i hs
    have hrcvd := hi.synRcvd (h := h) ht hs rings
    split
    · rename_i hcond
      obtain ⟨⟨xs', Q', H', hi'⟩, hland⟩ := hrcvd
      obtain ⟨hl', hs'⟩ := hland hcond.2
      have hpast : ((s.tcpSynRcvd t h rings).2.tcb t).state.past = true := by
        have hs' : ((s.tcpSynRcvd t h rings).2.tcb t).state = .established := hs'
        rw [hs']
        rfl
      exact ⟨_, _, _, hi'.work hl' (.of_ends (.arrives (w := ⟨_, _⟩) hpast)
        (State.stage_past hpast))⟩
    · exact hrcvd.1
  · have hpast : (s.state t).past = true := by
      cases hst : s.state t <;> first | rfl | exact absurd hst ‹_›
    have ho := State.stage_past hpast
    split
    · split
      · exact hopen ho ((Ends.refl ho).setClosed)
      · exact ⟨_, _, _, hi⟩
    · exact hopen ho (.arrives (w := ⟨_, _⟩) hpast)

/-- The list may be searched twice, with the old connection closed in between. -/
theorem Inv.look (src dst : UInt32) (h : Seg) :
    ∃ s', Whole s' ∧ s.tcpLook src dst h = s'.tcpFind src h.srcPort dst h.dstPort := by
  obtain ⟨hsame, hfound⟩ := hi.find src h.srcPort dst h.dstPort
  simp only [tcpLook]
  split
  · rename_i t ht
    split
    · rename_i hway
      rw [hsame] at hway ⊢
      have hwait : s.state t = .timeWait := by
        simp only [givesWay, Bool.and_eq_true, beq_iff_eq] at hway
        exact hway.1.1.1
      have ho : (s.state t).stage = .open := by rw [hwait]; rfl
      exact ⟨_, ⟨_, _, _, hi.work (hfound t ht).1 (.of_ends (Ends.refl ho).setClosed ho)⟩, rfl⟩
    · exact ⟨s, ⟨_, _, _, hi⟩, rfl⟩
  · exact ⟨s, ⟨_, _, _, hi⟩, rfl⟩

theorem Inv.input {rings : Option Rings} : Whole (s.tcpInput src dst h mem iss rings now) := by
  obtain ⟨s', ⟨xs', Q', H', hi'⟩, heq⟩ := hi.look src dst h
  obtain ⟨hsame, hfound⟩ := hi'.find src h.srcPort dst h.dstPort
  simp only [Net.tcpInput]
  rw [heq, hsame]
  split
  · split
    · exact ⟨_, _, _, hi'⟩
    · exact ⟨_, _, _, hi'.sent _⟩
  · rename_i t ht
    obtain ⟨hl, hs⟩ := hfound t ht
    exact hi'.found hl hs

theorem Inv.unreachable {code : Nat} {seq : UInt32} :
    Whole (s.tcpUnreachable code src srcPort dst dstPort seq) := by
  obtain ⟨hsame, hfound⟩ := hi.find dst dstPort src srcPort
  simp only [Net.tcpUnreachable]
  rw [hsame]
  split
  · exact ⟨_, _, _, hi⟩
  rename_i t ht
  obtain ⟨hl, -⟩ := hfound t ht
  refine ⟨_, _, _, hi.work hl ?_⟩
  show Inv.Kept (s.tcb t) (Tcp.tcpUnreachable (s.tcb t) code seq)
  by_cases hs : s.state t = .synSent
  · have ho : (s.tcb t).state.stage = .open := by
      have hs : (s.tcb t).state = .synSent := hs
      rw [hs]
      rfl
    exact .of_ends (.unreachable (w := ⟨_, s.out⟩) ho) ho
  · rw [Tcp.tcpUnreachable, if_neg fun hc => hs hc.1]
    exact .of_state rfl rfl (hi.placed t hl).idle

end

/-! ## Ticks -/

theorem Inv.childless (hi : Inv s d xs Q H) (hs : s.state t ≠ .listen) :
    ∀ c, s.live c = true → s.parent c ≠ some t :=
  fun c hc hp => hs ((hi.placed c hc).parent t hp).2

/-- The end of a turn of `tcp_tick`: a closed connection is freed if nobody has it, and
else taken off the list. -/
theorem Inv.sweep (hi : Inv s none xs Q H) (ht : s.live t = true) :
    ∃ xs' Q', Inv (if tickFrees (s.tcb t) then s.tcpFree t
        else if s.state t == .closed && s.linked t then s.tcpUnlink t else s) none xs' Q' H ∧
      (xs' = xs ∨ xs' = xs.erase t) := by
  have hp := hi.placed t ht
  split
  · rename_i hfree
    rw [tickFrees, Bool.and_eq_true, beq_iff_eq] at hfree
    obtain ⟨hd, hs⟩ := hfree
    have hs : s.state t = .closed := hs
    have ho : s.owned t = false := by
      rw [Bool.eq_false_iff]
      intro ho
      rw [(hp.owner ho).2] at hd
      cases hd
    have hnone : s.parent t = none := by
      by_contra hc
      rw [hp.child hc] at hd
      cases hd
    have hno := hi.childless (by rw [hs]; exact nofun)
    exact ⟨_, _, hi.free ht ho hno (.inl hnone), .inr rfl⟩
  · rename_i hkeep
    split
    · rename_i hoff
      rw [Bool.and_eq_true, beq_iff_eq] at hoff
      obtain ⟨hs, hlk⟩ := hoff
      have hd : (s.tcb t).detached = false := by
        rw [Bool.eq_false_iff]
        intro hd
        refine hkeep ?_
        rw [tickFrees, hd, Bool.true_and, beq_iff_eq]
        exact hs
      exact ⟨_, _, hi.unlink ht hlk hs hd, .inr rfl⟩
    · exact ⟨_, _, hi, .inl rfl⟩

theorem live_dropParent : (s.dropParent t).live = s.live := by
  simp only [Net.dropParent]
  split <;> rfl

/-- One turn of the loop of `tcp_tick`, by the stage of the connection. -/
theorem Inv.tickOne (hi : Inv s none xs Q H) (ht : s.live t = true) (now : Nat) :
    ∃ xs' Q' H', Inv (s.tickOne t now) none xs' Q' H' ∧ (xs' = xs ∨ xs' = xs.erase t) := by
  have hp := hi.placed t ht
  -- What the timers leave is swept up the same way in all cases.
  have hend : ∀ {s' : Net} {H' : Nat → List Nat}, Inv s' none xs Q H' → s'.live t = true →
      s.tickOne t now = (if tickFrees (s'.tcb t) then s'.tcpFree t
        else if s'.state t == .closed && s'.linked t then s'.tcpUnlink t else s') →
      ∃ xs' Q' H', Inv (s.tickOne t now) none xs' Q' H' ∧ (xs' = xs ∨ xs' = xs.erase t) := by
    intro s' H' hi' ht' heq
    obtain ⟨xs', Q', hres, hxs⟩ := hi'.sweep ht'
    rw [heq]
    exact ⟨xs', Q', H', hres, hxs⟩
  have hstay : (Tcp.tcpTick ⟨s.tcb t, s.out⟩ now).1 = false →
      Inv.Kept (s.tcb t) (Tcp.tcpTick ⟨s.tcb t, s.out⟩ now).2.t →
      ∃ xs' Q' H', Inv (s.tickOne t now) none xs' Q' H' ∧ (xs' = xs ∨ xs' = xs.erase t) := by
    intro hgone hk
    refine hend (hi.work ht (f := fun w => (Tcp.tcpTick w now).2) hk) ht ?_
    simp only [Net.tickOne, hgone, Bool.false_eq_true, if_false]
  have hsame : s.state t = .closed ∨ (s.state t = .listen ∧ (s.tcb t).detached = false) →
      ∃ xs' Q' H', Inv (s.tickOne t now) none xs' Q' H' ∧ (xs' = xs ∨ xs' = xs.erase t) := by
    intro hs
    have htick := Idle.tick (w := ⟨s.tcb t, s.out⟩) hp.idle hs now
    refine hstay (by rw [htick]) ?_
    rw [htick]
    exact .of_state rfl rfl hp.idle
  cases hs : (s.state t).stage with
  | closed => exact hsame (.inl (State.stage_closed.mp hs))
  | listen =>
    have hl := State.stage_listen.mp hs
    exact hsame (.inr ⟨hl, (hp.owner (hp.listens nofun hl)).2⟩)
  | half =>
    have hh := State.stage_half.mp hs
    have hd : (s.tcb t).detached = false := hp.child (hp.rcvd hh).1
    rcases Idle.tick_half (w := ⟨s.tcb t, s.out⟩) hp.idle hh hd now with
      ⟨hgone, hdrop⟩ | ⟨hgone, hw⟩
    · obtain ⟨H', hi'⟩ := hi.dropHalf ht hh (f := fun w => (Tcp.tcpTick w now).2) hdrop
      refine hend hi' (by rw [live_dropParent]; exact ht) ?_
      simp only [Net.tickOne, hgone, if_true]
    · exact hstay hgone (.of_waits hw hh)
  | «open» =>
    obtain ⟨hgone, he⟩ := Ends.tick (w := ⟨s.tcb t, s.out⟩) hs now
    exact hstay hgone (.of_ends he hs)

/-- The connections the loop of `tcp_tick` has not come to, `ys`, are still on the list
behind it. -/
theorem Inv.tickOn (hi : Inv s none (zs ++ t :: ys) Q H) (now : Nat) :
    ∃ zs' Q' H', Inv (s.tickOne t now) none (zs' ++ ys) Q' H' := by
  obtain ⟨xs', Q', H', hi', hxs⟩ := hi.tickOne (hi.live t (by simp)) now
  rcases hxs with rfl | rfl
  · refine ⟨zs ++ [t], Q', H', ?_⟩
    rwa [append_assoc]
  · have hnot : t ∉ zs := fun hm => (nodup_append.mp hi.nodup).2.2 t hm t (by simp) rfl
    rw [erase_append_right _ hnot, erase_cons_head] at hi'
    exact ⟨zs, Q', H', hi'⟩

/-- The loop goes on where it saw the next one before the turn. -/
theorem tickLoop_whole (hi : Inv s none (zs ++ ys) Q H)
    (hf : ys.length < fuel) : Whole (tickLoop now fuel ys.head? s) := by
  induction ys, fuel, hf using fuel_induction generalizing s zs Q H with
  | nil fuel => exact ⟨_, _, _, hi⟩
  | cons t ys fuel hf ih =>
    have ht : s.live t = true := hi.live t (by simp)
    have hnext : s.next t = ys.head? := (lead_middle.mp hi.chain).2.head_eq
    obtain ⟨zs', Q', H', hi'⟩ := hi.tickOn now
    rw [head?_cons, tickLoop]
    simp only [touch_of_live ht]
    rw [hnext]
    exact ih hi'

theorem Inv.tick (hi : Inv s none xs Q H) (now : Nat) : Whole (s.tcpTick now) := by
  have hlen := length_le_born hi.nodup hi.live
  have hall : Inv s none ([] ++ xs) Q H := hi
  rw [Net.tcpTick, hi.chain.head_eq]
  exact tickLoop_whole hall (Nat.lt_succ_of_le hlen)

/-! A closed connection that nobody has is gone after a tick. -/

theorem unlinkLoop_frame {cell : Ptr} :
    (unlinkLoop t fuel cell s).tcb = s.tcb ∧ (unlinkLoop t fuel cell s).frees = s.frees := by
  induction fuel generalizing s cell with
  | zero => exact ⟨rfl, rfl⟩
  | succ fuel ih =>
    simp only [unlinkLoop]
    split
    · exact ⟨rfl, rfl⟩
    split
    · rw [setCell_eq]
      exact ⟨rfl, rfl⟩
    · exact ih

theorem tcpUnlink_frame : (s.tcpUnlink t).tcb = s.tcb ∧ (s.tcpUnlink t).frees = s.frees :=
  unlinkLoop_frame

theorem tcpFree_frame : (s.tcpFree t).tcb = s.tcb ∧
    (s.tcpFree t).frees = update s.frees t (s.frees t + 1) := by
  simp only [Net.tcpFree]
  split
  · have hf := tcpUnlink_frame (s := s.touch t) (t := t)
    refine ⟨hf.1, ?_⟩
    show update ((s.touch t).tcpUnlink t).frees t (((s.touch t).tcpUnlink t).frees t + 1) = _
    rw [hf.2]
    rfl
  · exact ⟨rfl, rfl⟩

/-- A turn leaves the other connections alone, and does not take a free back. -/
theorem tickOne_frame : (∀ b, b ≠ t → (s.tickOne t now).tcb b = s.tcb b) ∧
      ∀ b, s.frees b ≤ (s.tickOne t now).frees b := by
  simp only [Net.tickOne]
  generalize hs₁ : (if (Tcp.tcpTick ⟨s.tcb t, s.out⟩ now).1 = true then _ else _) = s₁
  have hfirst : (∀ b, b ≠ t → s₁.tcb b = s.tcb b) ∧ s₁.frees = s.frees := by
    subst hs₁
    have hwork : (∀ b, b ≠ t → (s.work t fun w => (Tcp.tcpTick w now).2).tcb b = s.tcb b) ∧
        (s.work t fun w => (Tcp.tcpTick w now).2).frees = s.frees :=
      ⟨fun b hb => update_of_ne hb _ _, rfl⟩
    split
    · simp only [Net.dropParent]
      split <;> exact hwork
    · exact hwork
  split
  · rw [tcpFree_frame.1, tcpFree_frame.2, hfirst.2]
    refine ⟨hfirst.1, fun b => ?_⟩
    by_cases hb : b = t
    · rw [hb, update_self]
      exact Nat.le_succ _
    · rw [update_of_ne hb]
  · split
    · rw [tcpUnlink_frame.1, tcpUnlink_frame.2, hfirst.2]
      exact ⟨hfirst.1, fun _ => Nat.le_refl _⟩
    · rw [hfirst.2]
      exact ⟨hfirst.1, fun _ => Nat.le_refl _⟩

theorem tickLoop_mono : s.frees a ≤ (tickLoop now fuel p s).frees a := by
  induction fuel generalizing s p with
  | zero => exact Nat.le_refl _
  | succ fuel ih =>
    cases p with
    | none => exact Nat.le_refl _
    | some t =>
      have hone : (s.touch t).frees a ≤ ((s.touch t).tickOne t now).frees a := tickOne_frame.2 a
      exact Nat.le_trans hone ih

theorem tickOne_frees (hidle : Idle (s.tcb t)) (hs : s.state t = .closed)
    (hd : (s.tcb t).detached = true) : 1 ≤ (s.tickOne t now).frees t := by
  have htick := Idle.tick (w := ⟨s.tcb t, s.out⟩) hidle (.inl hs) now
  have hsame : (s.work t fun w => (Tcp.tcpTick w now).2).tcb t = s.tcb t := by
    show update s.tcb t (Tcp.tcpTick ⟨s.tcb t, s.out⟩ now).2.t t = _
    rw [update_self, htick]
  have hfrees : tickFrees (s.tcb t) = true := by
    rw [tickFrees, hd, Bool.true_and, beq_iff_eq]
    exact hs
  simp only [Net.tickOne, htick, Bool.false_eq_true, if_false, hsame, hfrees, if_true]
  rw [tcpFree_frame.2, update_self]
  exact Nat.le_add_left _ _

theorem tickLoop_reaps (hi : Inv s none (zs ++ ys) Q H)
    (ht : t ∈ ys) (hs : s.state t = .closed) (hd : (s.tcb t).detached = true)
    (hf : ys.length < fuel) : 1 ≤ (tickLoop now fuel ys.head? s).frees t := by
  induction ys, fuel, hf using fuel_induction generalizing s zs Q H with
  | nil fuel => cases ht
  | cons x ys fuel hf ih =>
    have hx : s.live x = true := hi.live x (by simp)
    have hnext : s.next x = ys.head? := (lead_middle.mp hi.chain).2.head_eq
    rw [head?_cons, tickLoop]
    simp only [touch_of_live hx]
    rw [hnext]
    by_cases htx : t = x
    · subst htx
      exact Nat.le_trans (tickOne_frees (hi.placed t hx).idle hs hd) tickLoop_mono
    have hty : t ∈ ys := (mem_cons.mp ht).resolve_left htx
    have hsame : (s.tickOne x now).tcb t = s.tcb t := tickOne_frame.1 t htx
    have hs' : (s.tickOne x now).state t = .closed := (congrArg Tcb.state hsame).trans hs
    have hd' : ((s.tickOne x now).tcb t).detached = true := by rw [hsame]; exact hd
    obtain ⟨zs', Q', H', hi'⟩ := hi.tickOn now
    exact ih hi' hty hs' hd'

theorem Inv.tick_reaps (hi : Inv s none xs Q H) (ht : s.live t = true) (ho : s.owned t = false)
    (hp : s.parent t = none) (hs : s.state t = .closed) (now : Nat) :
    (s.tcpTick now).frees t = 1 := by
  obtain ⟨hd, hlk⟩ := (hi.placed t ht).orphan ho hp
  have hall : Inv s none ([] ++ xs) Q H := hi
  have hlen := length_le_born hi.nodup hi.live
  obtain ⟨xs', Q', H', hi'⟩ := hi.tick now
  refine Nat.le_antisymm (hi'.once t) ?_
  rw [Net.tcpTick, hi.chain.head_eq]
  exact tickLoop_reaps hall ((hi.listed t).mpr ⟨ht, hlk⟩) hs hd (Nat.lt_succ_of_le hlen)

/-! ## The calls of the socket -/

theorem Inv.request (hi : Inv s none xs Q H) (ho : s.owned t = true) (r : Req) :
    Whole (s.work t r.work) := by
  have ht := hi.held t ho
  have hp := hi.placed t ht
  refine ⟨_, _, _, hi.work ht ?_⟩
  have hrcvd : s.state t ≠ .synRcvd := fun hs => (hp.rcvd hs).1 (hp.owner ho).1
  cases hs : (s.state t).stage with
  | closed =>
    obtain ⟨hst, hd, hidle⟩ := Idle.request (w := ⟨s.tcb t, s.out⟩) hp.idle
      (.inl (State.stage_closed.mp hs)) r
    exact .of_state hst hd hidle
  | listen =>
    obtain ⟨hst, hd, hidle⟩ := Idle.request (w := ⟨s.tcb t, s.out⟩) hp.idle
      (.inr (State.stage_listen.mp hs)) r
    exact .of_state hst hd hidle
  | half => exact absurd (State.stage_half.mp hs) hrcvd
  | «open» => exact .of_ends (Ends.request (w := ⟨s.tcb t, s.out⟩) hs r) hs

/-- A closed connection becomes another, and is on the list then. It may as well be put
there first. -/
theorem Inv.setOut (hi : Inv s d xs Q H) (ho : s.owned t = true) (hs : s.state t = .closed)
    {u : Tcb} (hu : u.state ≠ .synRcvd) (hd : u.detached = (s.tcb t).detached) (hidle : Idle u)
    (out : Out) :
    ∃ xs', Inv (if s.linked t then { s with tcb := update s.tcb t u, out := out }
      else Net.link { s with tcb := update s.tcb t u, out := out } t) d xs' Q H := by
  split
  · next hl => exact ⟨_, hi.raise ho hl hs hu hd hidle out⟩
  rename_i hl
  have hlink := hi.link (hi.held t ho) (Bool.eq_false_iff.mpr hl)
  exact ⟨_, hlink.raise ho (update_self _ _ _) hs hu hd hidle out⟩

theorem Inv.connect (hi : Inv s none xs Q H) (ho : s.owned t = true) {route : Option Ip.Netif}
    {localIp remoteIp : UInt32} {localPort remotePort : UInt16} :
    Whole (s.tcpConnect t route localIp localPort remoteIp remotePort iss now) := by
  have ht := hi.held t ho
  simp only [Net.tcpConnect]
  rcases connect_cases ⟨s.tcb t, s.out⟩ route localIp localPort remoteIp remotePort iss now with
    ⟨err, heq⟩ | ⟨hok, hs, hs', hd⟩
  · rw [heq]
    refine ⟨_, _, _, hi.work ht ?_⟩
    rw [heq]
    exact .of_state rfl rfl (hi.placed t ht).idle
  · rw [hok, work_of_live ht]
    generalize Tcp.tcpConnect ⟨s.tcb t, s.out⟩ _ _ _ _ _ _ _ = r at hs' hd
    have hopen : r.2.t.state.stage = .open := by
      rw [hs']
      rfl
    obtain ⟨xs', hi'⟩ := hi.setOut ho hs (by rw [hs']; exact nofun) hd (Ends.refl hopen).idle r.2.out
    exact ⟨_, _, _, hi'⟩

theorem Inv.setBacklog (hi : Inv s d xs Q H) (backlog : Nat → Int) :
    Inv { s with backlog := backlog } d xs Q H :=
  { hi with placed := fun a ha => { hi.placed a ha with } }

theorem Inv.listen (hi : Inv s none xs Q H) (ho : s.owned t = true) {localIp : UInt32}
    {localPort : UInt16} {backlog : Int} : Whole (s.tcpListen t localIp localPort backlog) := by
  have ht := hi.held t ho
  have hidle := (hi.placed t ht).idle
  simp only [tcpListen]
  rw [touch_of_live ht]
  generalize (if backlog < 1 then (1 : Int) else _) = n
  split
  · exact ⟨_, _, _, hi.setBacklog _⟩
  split
  · exact ⟨_, _, _, hi⟩
  rename_i hcond
  rw [not_or, not_not, Bool.not_eq_true] at hcond
  obtain ⟨hs, hw⟩ := hcond
  have hstage : (s.tcb t).state.stage = .closed := State.stage_closed.mpr hs
  have hrec : (s.tcb t).recovery = .none := hidle.recovery (by rw [hstage]; exact nofun)
  have hnew : Idle (startListen (s.tcb t) localIp localPort) :=
    ⟨fun _ => hrec, fun _ => hidle.timer (.inl hs), fun _ => hw⟩
  obtain ⟨xs', hi'⟩ := (hi.setBacklog (update s.backlog t n)).setOut
    (u := startListen (s.tcb t) localIp localPort) ho hs nofun rfl hnew s.out
  exact ⟨_, _, _, hi'⟩

/-! ## A listener goes away -/

/-- Nobody has the listener any more, but it is still there. -/
structure Leaving (s : Net) (l : Nat) : Prop where
  live : s.live l = true
  owned : s.owned l = false
  parent : s.parent l = none

theorem Inv.free_frame (hi : Inv s d xs Q H) (ha : s.live a = true) :
    (s.tcpFree a).acceptNext = s.acceptNext ∧ (s.tcpFree a).owned = s.owned ∧
      (s.tcpFree a).parent = s.parent ∧ (s.tcpFree a).live a = false ∧
      ∀ b, b ≠ a → (s.tcpFree a).live b = s.live b := by
  obtain ⟨root, next, linked, heq, -⟩ := hi.toListing.free ha
  rw [heq]
  refine ⟨rfl, rfl, rfl, ?_, fun b hb => ?_⟩
  · rw [Bool.eq_false_iff]
    intro hl
    have hz := (live_iff.mp hl).2
    exact Nat.succ_ne_zero _ ((update_self a (s.frees a + 1) s.frees).symm.trans hz)
  · rw [Net.live, Net.live]
    show (_ && update s.frees a (s.frees a + 1) b == 0) = _
    rw [update_of_ne hb]

theorem Inv.reset (hi : Inv s d xs Q H) (ht : s.live t = true) : Inv (s.sendReset t) d xs Q H := by
  have hidle := (hi.placed t ht).idle
  exact hi.work ht (.of_state rfl rfl ⟨hidle.recovery, hidle.timer, hidle.fresh⟩)

theorem sendReset_state : (s.sendReset t).state t = s.state t := by
  simp only [Net.state, sendReset, Net.work, update_self]
  rfl

/-- The queue is freed from the front. -/
theorem goneQueue_spec (hi : Inv s (some l) xs Q H) (hl : Leaving s l)
    (hc : Lead s.acceptNext p (Q l) none) (hf : (Q l).length < fuel) :
    ∃ xs' Q', Inv (goneQueue fuel p s) (some l) xs' Q' H ∧ Leaving (goneQueue fuel p s) l ∧
      Q' l = [] := by
  generalize hq : Q l = q at hc hf
  induction q, fuel, hf using fuel_induction generalizing p s xs Q with
  | nil fuel =>
    have hp : p = none := hc
    subst hp
    exact ⟨_, _, hi, hl, hq⟩
  | cons c rest fuel hf ih =>
    obtain ⟨rfl, hrest⟩ := hc
    obtain ⟨hcl, hcp, hcs⟩ : s.live c = true ∧ s.parent c = some l ∧ s.state c ≠ .synRcvd :=
      ((hi.queued l hl.live).2 c).mp (by rw [hq]; exact mem_cons_self)
    have hcne : s.parent c ≠ none := by rw [hcp]; exact nofun
    have hpc := hi.placed c hcl
    have hfree : s.owned c = false := by
      rw [Bool.eq_false_iff]
      exact fun ho => hcne (hpc.owner ho).1
    have hlc : l ≠ c := by
      rintro rfl
      exact hcne hl.parent
    have hlisten : s.state c ≠ .listen := by
      intro hs
      rw [hpc.listens (fun he => hlc (Option.some.inj he)) hs] at hfree
      cases hfree
    -- It may be reset first.
    obtain ⟨s₁, hs₁, hi₁, hsame⟩ : ∃ s₁, (if s.state c ≠ .closed then s.sendReset c else s) = s₁ ∧
        Inv s₁ (some l) xs Q H ∧ s₁.live = s.live ∧ s₁.owned = s.owned ∧
        s₁.parent = s.parent ∧ s₁.acceptNext = s.acceptNext ∧ s₁.state c = s.state c := by
      refine ⟨_, rfl, ?_⟩
      split
      · exact ⟨hi.reset hcl, rfl, rfl, rfl, rfl, sendReset_state⟩
      · exact ⟨hi, rfl, rfl, rfl, rfl, rfl⟩
    obtain ⟨e1, e2, e3, e4, e5⟩ := hsame
    have hc₁ : s₁.live c = true := by rw [e1]; exact hcl
    have hi₂ := hi₁.free hc₁ (by rw [e2]; exact hfree) (hi₁.childless (by rw [e5]; exact hlisten))
      (.inr ⟨by rw [e3]; exact hcp, by rw [e5]; exact hcs⟩)
    obtain ⟨f1, f2, f3, -, f5⟩ := hi₁.free_frame hc₁
    simp only [goneQueue]
    rw [touch_of_live hcl, hs₁]
    refine ih hi₂ ⟨?_, ?_, ?_⟩ ?_ ?_
    · rw [f5 l hlc, e1]
      exact hl.live
    · rw [f2, e2]
      exact hl.owned
    · rw [f3, e3]
      exact hl.parent
    · show (Q l).erase c = rest
      rw [hq, erase_cons_head]
    · rw [f1, e4]
      exact hrest

/-- All half open children are given up; `ys` are the connections the loop has not come
to. -/
theorem goneHalf_spec (hi : Inv s (some l) (zs ++ ys) Q H)
    (hl : Leaving s l) (hq : Q l = []) (hh : ∀ c ∈ H l, c ∈ ys) (hf : ys.length < fuel) :
    ∃ xs' H', Inv (goneHalf l fuel ys.head? s) (some l) xs' Q H' ∧
      Leaving (goneHalf l fuel ys.head? s) l ∧ H' l = [] := by
  induction ys, fuel, hf using fuel_induction generalizing s zs H with
  | nil fuel =>
    refine ⟨_, _, hi, hl, ?_⟩
    exact eq_nil_iff_forall_not_mem.mpr fun c hc => not_mem_nil (hh c hc)
  | cons t ys fuel hf ih =>
    have ht : s.live t = true := hi.live t (by simp)
    have hnext : s.next t = ys.head? := (lead_middle.mp hi.chain).2.head_eq
    have hsplit : zs ++ t :: ys = (zs ++ [t]) ++ ys := by simp
    obtain ⟨hnd, hiff⟩ := hi.half l hl.live
    rw [head?_cons, goneHalf]
    simp only [touch_of_live ht]
    split
    · rename_i hp
      -- The queue is empty, so this one is half open.
      have hs : s.state t = .synRcvd := by
        by_contra hs
        have hm := ((hi.queued l hl.live).2 t).mpr ⟨ht, hp, hs⟩
        rw [hq] at hm
        exact not_mem_nil hm
      have hi₁ := hi.reset ht
      have hs₁ : (s.sendReset t).state t = .synRcvd := sendReset_state.trans hs
      have hdrop := hi₁.drop ht hs₁ hp ((hi₁.placed t ht).idle.dropChild hs₁) (s.sendReset t).out
      have heq := dropParent_eq (s := s.sendReset t) ht hp hl.live
      rw [hsplit] at hdrop
      rw [heq]
      show ∃ xs' H', Inv (goneHalf l fuel (s.next t) _) _ xs' Q H' ∧
        Leaving (goneHalf l fuel (s.next t) _) l ∧ H' l = []
      rw [hnext]
      refine ih hdrop ⟨hl.live, hl.owned, ?_⟩ ?_
      · show update s.parent t none l = none
        by_cases hlt : l = t
        · rw [hlt, update_self]
        · rw [update_of_ne hlt]
          exact hl.parent
      · intro c hc
        obtain ⟨hct, hc⟩ := hnd.mem_erase_iff.mp hc
        exact (mem_cons.mp (hh c hc)).resolve_left hct
    · rename_i hp
      rw [hnext]
      rw [hsplit] at hi
      refine ih hi hl ?_
      intro c hc
      refine (mem_cons.mp (hh c hc)).resolve_left ?_
      rintro rfl
      exact hp ((hiff c).mp hc).2.1

theorem Inv.listenerGone (hi : Inv s (some l) xs Q H) (hl : Leaving s l)
    (hc : Lead s.acceptNext (s.acceptHead l) (Q l) none) :
    Whole ((s.tcpListenerGone l).tcpFree l) := by
  obtain ⟨hnd, hiff⟩ := hi.queued l hl.live
  have hqlen : (Q l).length ≤ s.born := length_le_born hnd fun c hm => ((hiff c).mp hm).1
  obtain ⟨xs₁, Q₁, hi₁, hl₁, hq₁⟩ := goneQueue_spec hi hl hc (Nat.lt_succ_of_le hqlen)
  have hlen := length_le_born hi₁.nodup hi₁.live
  simp only [tcpListenerGone]
  rw [touch_of_live hl.live]
  generalize goneQueue (s.born + 1) (s.acceptHead l) s = s₁ at *
  have hhalf : ∀ c ∈ H l, c ∈ xs₁ := by
    intro c hm
    obtain ⟨hcl, -, hcs⟩ := ((hi₁.half l hl₁.live).2 c).mp hm
    exact (hi₁.listed c).mpr ⟨hcl, (hi₁.placed c hcl).opened (by rw [hcs]; exact nofun)⟩
  have hall : Inv s₁ (some l) ([] ++ xs₁) Q₁ H := hi₁
  obtain ⟨xs₂, H₂, hi₂, hl₂, hh₂⟩ := goneHalf_spec hall hl₁ hq₁ hhalf (Nat.lt_succ_of_le hlen)
  rw [hi₁.chain.head_eq]
  generalize goneHalf l (s₁.born + 1) xs₁.head? s₁ = s₂ at *
  have hno : ∀ c, s₂.live c = true → s₂.parent c ≠ some l := by
    intro c hcl hp
    by_cases hs : s₂.state c = .synRcvd
    · have hm := ((hi₂.half l hl₂.live).2 c).mpr ⟨hcl, hp, hs⟩
      rw [hh₂] at hm
      exact not_mem_nil hm
    · have hm := ((hi₂.queued l hl₂.live).2 c).mpr ⟨hcl, hp, hs⟩
      rw [hq₁] at hm
      exact not_mem_nil hm
  have hfree := hi₂.free hl₂.live hl₂.owned hno (.inl hl₂.parent)
  exact ⟨_, _, _, hfree.settle (hi₂.free_frame hl₂.live).2.2.2.1⟩

/-- `tcp_detach`, by the stage of the connection. -/
theorem Inv.detach (hi : Inv s none xs Q H) (ho : s.owned t = true) {abort : Bool} :
    Whole (s.tcpDetach t abort now) := by
  have ht := hi.held t ho
  have hp := hi.placed t ht
  obtain ⟨hpar, -⟩ := hp.owner ho
  simp only [Net.tcpDetach]
  rw [touch_of_live ht]
  split
  · rename_i hs
    exact (hi.retire ho hs).listenerGone ⟨ht, update_self _ _ _, hpar⟩ (hi.queue t ht nofun).1
  rename_i hs
  have hcases : s.state t = .closed ∨ (s.state t).stage = .open := by
    cases hst : (s.state t).stage with
    | closed => exact .inl (State.stage_closed.mp hst)
    | listen => exact absurd (State.stage_listen.mp hst) hs
    | half => exact absurd hpar (hp.rcvd (State.stage_half.mp hst)).1
    | «open» => exact .inr rfl
  have hwork := work_of_live (s := { s with owned := update s.owned t false })
    (f := fun w => (Tcp.tcpDetach w abort now).2) ht
  rw [hwork]
  split
  · exact ⟨_, _, _, hi.release ht (hi.childless hs) (.inl hpar) _ _⟩
  rename_i hkeep
  have hlet := (detach_cases hcases abort now).resolve_left hkeep
  exact ⟨_, _, _, hi.letGo ho hlet.1 hlet.2.1 hlet.2.2 _⟩

/-! ## Runs -/

theorem boot_whole : Whole boot := by
  have hno : ∀ {a : Nat} {P : Prop}, boot.live a = true → P := by
    intro a P hl
    cases hl
  refine ⟨[], fun _ => [], fun _ => [], {
    sound := rfl
    once := fun _ => Nat.zero_le _
    beyond := fun _ _ => rfl
    chain := rfl
    nodup := nodup_nil
    listed := fun a => ⟨nofun, fun hc => hno hc.1⟩
    queue := fun _ hl _ => hno hl
    queued := fun _ => hno
    half := fun _ => hno
    pending := fun _ hl _ => hno hl
    held := nofun
    placed := fun _ => hno }⟩

theorem step_whole (hw : Whole s) (e : Step) : Whole (step s e) := by
  obtain ⟨xs, Q, H, hi⟩ := hw
  have hi := hi.sent { packets := [], bufs := e.bufs, asked := 0 }
  have howner : ∀ {t : Nat} {f : Net → Net}, let s' : Net := { s with
      out := { packets := [], bufs := e.bufs, asked := 0 } }
      (s.owned t = true → Whole (f s')) → Whole (byOwner s' t f) := by
    intro t f s' hf
    rw [byOwner]
    split
    · next ho => exact hf ho
    · exact ⟨_, _, _, hi⟩
  simp only [step]
  cases e.event with
  | create rings =>
    have hidle : Idle (tcpAllocRings Tcp.tcpAlloc rings) := ⟨fun _ => rfl, fun _ => rfl, nofun⟩
    exact ⟨_, _, _, hi.create rfl rfl hidle⟩
  | connect => exact howner fun ho => hi.connect ho
  | listen => exact howner fun ho => hi.listen ho
  | accept =>
    refine howner fun ho => ?_
    obtain ⟨Q', hi'⟩ := hi.accept ho
    exact ⟨_, _, _, hi'⟩
  | request t r => exact howner fun ho => hi.request ho r
  | detach => exact howner fun ho => hi.detach ho
  | segment => exact hi.input
  | unreachable => exact hi.unreachable
  | tick now => exact hi.tick now

theorem run_whole (steps : List Step) : Whole (run step boot steps) :=
  run_inv (fun _ e hw _ => step_whole hw e) boot_whole (.of_all fun _ _ => trivial)

/-- The half open children of a listener. -/
def halfOpen (s : Net) (l : Nat) : List Nat :=
  (range s.born).filter fun c => s.live c && s.parent c == some l && s.state c == .synRcvd

theorem Inv.length_half (hi : Inv s d xs Q H) (hl : s.live l = true) :
    (halfOpen s l).length = (H l).length := by
  obtain ⟨hnd, hiff⟩ := hi.half l hl
  refine ((perm_ext_iff_of_nodup (nodup_range.filter _) hnd).mpr fun c => ?_).length_eq
  rw [mem_filter, mem_range, Bool.and_eq_true, Bool.and_eq_true, beq_iff_eq,
    beq_iff_eq, and_assoc, hiff c]
  exact ⟨fun hc => hc.2, fun hc => ⟨(live_iff.mp hc.1).1, hc⟩⟩

/-- What is true of the connections and the listeners whenever `tcp_lock` is free. -/
structure Accounted (s : Net) : Prop where
  /-- No pointer to freed memory was followed. -/
  sound : s.stale = false
  /-- Nothing was freed twice. -/
  once : ∀ a, s.frees a ≤ 1
  /-- The connections that are linked are on `tcp_list`, each of them once. -/
  list : ∃ xs, Lead s.next s.tcpList xs none ∧ xs.Nodup ∧
    ∀ a, a ∈ xs ↔ s.live a = true ∧ s.linked a = true
  /-- The queue of a listener has its open children, each of them once, and `pending`
  counts those and the half open ones. -/
  queue : ∀ l, s.live l = true → ∃ q, Lead s.acceptNext (s.acceptHead l) q none ∧
    s.acceptTail l = q.getLast? ∧ q.Nodup ∧
    (∀ c, c ∈ q ↔ s.live c = true ∧ s.parent c = some l ∧ s.state c ≠ .synRcvd) ∧
    s.pending l = ((halfOpen s l).length + q.length : Nat)
  /-- A child points to a listener that is there. -/
  parent : ∀ c l, s.live c = true → s.parent c = some l → s.live l = true ∧ s.state l = .listen
  /-- What is not freed is going to be, by one that has it: its socket, its listener, that
  a socket has, or `tcp_tick`, that finds it on the list. -/
  holder : ∀ a, s.live a = true → (s.owned a = true ∧ s.parent a = none) ∨
    (s.owned a = false ∧ ∃ l, s.parent a = some l ∧ s.owned l = true) ∨
    (s.owned a = false ∧ s.parent a = none ∧ (s.tcb a).detached = true ∧ s.linked a = true)
  /-- The tick frees it once it is closed. -/
  reaped : ∀ a now, s.live a = true → s.owned a = false → s.parent a = none →
    s.state a = .closed → (s.tcpTick now).frees a = 1

theorem Inv.accounted (hi : Inv s none xs Q H) : Accounted s where
  sound := hi.sound
  once := hi.once
  list := ⟨xs, hi.chain, hi.nodup, hi.listed⟩
  queue := by
    intro l hl
    obtain ⟨hchain, htail⟩ := hi.queue l hl nofun
    obtain ⟨hnd, hiff⟩ := hi.queued l hl
    refine ⟨Q l, hchain, htail, hnd, hiff, ?_⟩
    rw [hi.length_half hl]
    exact hi.pending l hl nofun
  parent := fun c l hc => (hi.placed c hc).parent l
  holder := by
    intro a ha
    have hp := hi.placed a ha
    cases ho : s.owned a with
    | true => exact .inl ⟨rfl, (hp.owner ho).1⟩
    | false =>
      cases hpar : s.parent a with
      | none => exact .inr (.inr ⟨rfl, rfl, hp.orphan ho hpar⟩)
      | some l =>
        obtain ⟨hl, hs⟩ := hp.parent l hpar
        exact .inr (.inl ⟨rfl, l, rfl, (hi.placed l hl).listens nofun hs⟩)
  reaped := fun _ now ha ho hp hs => hi.tick_reaps ha ho hp hs now

/-- Whatever sockets, peers and time do, in whatever order. -/
theorem connections_accounted (steps : List Step) : Accounted (run step boot steps) := by
  obtain ⟨xs, Q, H, hi⟩ := run_whole steps
  exact hi.accounted

end

end BleedKernel.TcpList
