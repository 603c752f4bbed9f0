import BleedKernel.Proofs.Conserve
import BleedKernel.Proofs.Entries

/-!
# Frames that change hands

`ipc_send_pages` takes frames out of the sender's page tables and into a
message, `ipc_recv` takes them out of the message and into the receiver's. The
sender's side is exact: what was validated is private and mapped once, so the
frames in the message are in nobody's page tables afterwards. The receiver's
side maps without looking.
-/

namespace BleedKernel.Mm

open BleedKernel.Lib List

variable {cr3 : Cr3} {addr pages : Nat} {slots : Frame → Nat} {m : Memory} {q : List IpcMessage}
  {msg : IpcMessage}

variable {s : Sys} {pid : Nat} {pool slack lost own : Frame → Nat}

/-! ## Which entries filling a page in changes -/

/-- Only the entry of slot `i` may change. -/
def OnlySlot (cr3 : Cr3) (i : Nat) : Cr3 → Nat → Pte → Pte → Prop :=
  fun c j p p' => c ≠ cr3 ∨ j ≠ i → p' = p

theorem OnlySlot.rel {i : Nat} : PteRel (OnlySlot cr3 i) :=
  ⟨fun _ _ _ _ => rfl, fun h h' hne => (h' hne).trans (h hne)⟩

theorem OnlySlot.at_slot {i : Nat} {p p' : Pte} : OnlySlot cr3 i cr3 i p p' :=
  fun h => h.elim (absurd rfl) fun h => absurd rfl h

/-- Writing to a user's memory changes no entry but those of the pages written. -/
theorem copyToUser_pteAt (pid udst : Nat) {j : Nat} (src : List UInt8)
    (hm : Linked s.mm) (hl : Listed s)
    (hj : ∀ p, udst / pageSize ≤ p → p ≤ (udst + src.length - 1) / pageSize → p < 2 ^ 35 → j ≠ p) :
    (copyToUser s pid udst src).2.mm.pteAt (s.pageMap pid) j = s.mm.pteAt (s.pageMap pid) j := by
  have hR : PteRel fun _ i p p' => i = j → p' = p :=
    ⟨fun _ _ _ _ => rfl, fun h h' hi => (h' hi).trans (h hi)⟩
  refine (Changes.copyToUser hR hm hl fun p h1 h2 h3 => ?_).pte _ j rfl
  have hidx : pageIdx (p * pageSize) ≠ j := by
    have : pageIdx (p * pageSize) = p := by
      unfold pageIdx pageSize pageSlots; omega
    rw [this]
    exact (hj p h1 h2 h3).symm
  exact ⟨fun _ _ _ hi => absurd hi hidx, fun _ _ _ _ hi => absurd hi hidx,
    fun _ _ _ _ _ _ _ _ hi => absurd hi hidx⟩

/-! ## Sending -/

/-- An entry nobody else has a share in. -/
structure Pte.Private (p : Pte) : Prop where
  present : p.present = true
  nofree : p.nofree = false
  cow : p.cow = false
  shared : p.shared = false

/-- A page that was validated is private now, and no other page has changed. -/
theorem ipcValidatePage_private (hm : Linked s.mm) (hl : Listed s) (pid page : Nat) :
    Changes (OnlySlot (s.pageMap pid) (pageIdx page)) s.mm (ipcValidatePage s pid page).2.mm ∧
      ((ipcValidatePage s pid page).1 = .ok () →
        ((ipcValidatePage s pid page).2.mm.pte (s.pageMap pid) page).Private) := by
  have hf := Changes.fillIn OnlySlot.rel hm pid page true hl fun _ _ _ _ _ _ _ _ => OnlySlot.at_slot
  unfold ipcValidatePage
  dsimp only
  generalize fillIn s pid page true = s1 at hf
  split
  · exact ⟨hf, fun h => by cases h⟩
  rename_i hg
  obtain ⟨rfl, hp⟩ := pagingGetPage_some hg
  split
  · exact ⟨hf, fun h => by cases h⟩
  split
  · exact ⟨hf, fun h => by cases h⟩
  rename_i hns
  simp only [Bool.or_eq_true, not_or, Bool.not_eq_true] at hns
  split
  · have ho := hf.trans OnlySlot.rel
      (Changes.pagingHandleCowFault OnlySlot.rel hf.linked (s.pageMap pid) page 7
        fun _ _ _ => OnlySlot.at_slot)
    split
    · next he => rw [he] at ho; exact ⟨ho, fun h => by cases h⟩
    rename_i he
    obtain ⟨-, f, hpte⟩ := pte_pagingHandleCowFault (s.pageMap pid) page 7 (by rw [he])
    rw [he] at ho hpte
    refine ⟨ho, fun _ => ?_⟩
    unfold Memory.pte at *
    rw [pageIdx_pageAlignDown] at hpte
    rw [hpte]
    exact ⟨hp, hns.1, rfl, hns.2⟩
  · next hc =>
      exact ⟨hf, fun _ => ⟨hp, hns.1, by simpa using hc, hns.2⟩⟩

/-- A page filled in from a memfd is shared. -/
theorem faultInShared_shared {page : Nat} {a : UserAlloc} {p : Pte}
    (h0 : s.mm.pte (s.pageMap pid) page = {})
    (h : pagingGetPage (faultInShared s pid a page).2.mm (s.pageMap pid) page = some p) :
    p.shared = true := by
  have hnone : ∀ m : Memory, m.spaces = s.mm.spaces →
      pagingGetPage m (s.pageMap pid) page = none := fun m hm => by
    have : m.pte (s.pageMap pid) page = {} := (Memory.pteAt_congr hm _ _).trans h0
    unfold pagingGetPage
    rw [this, if_neg (by simp)]
  unfold faultInShared at h
  split at h
  · rw [hnone _ rfl] at h; cases h
  rename_i id _
  obtain ⟨hp, hs⟩ := memfdPage_same s id ((a.offset + (page - a.vaddr)) / pageSize) true
  have hp := hp.pageMap pid
  split at h
  · next he => rw [he] at hs; rw [hnone _ hs] at h; cases h
  rename_i f s1 he
  rw [he] at hs hp
  dsimp only at h
  rw [hp] at h
  split at h
  · rename_i hg
    have hcongr : ∀ m m' : Memory, m'.spaces = m.spaces → pagingGetPage m' (s.pageMap pid) page
          = pagingGetPage m (s.pageMap pid) page := fun m m' hm => by
      unfold pagingGetPage pagingGetTable Memory.pte
      rw [Memory.pteAt_congr hm, Memory.tableAt_congr hm,
        Memory.tableAt_congr hm, Memory.tableAt_congr hm]
    rw [hcongr _ _ (cowUnrefPage_rest _ _).2.1, hg] at h
    cases h
  · rename_i hg
    rw [hg] at h
    cases h
    obtain ⟨rfl, hpr⟩ := pagingGetPage_some hg
    have h0' : (cowRefPage s1.mm f).pte (s.pageMap pid) page = {} :=
      (Memory.pteAt_congr ((cowRefPage_rest s1.mm f).2.1.trans hs) _ _).trans h0
    rcases pte_pagingMapPageInvl (cowRefPage s1.mm f) (s.pageMap pid) f page
      { protPte a.prot with shared := true } with he | he
    · rw [he, h0'] at hpr; cases hpr
    · rw [he]; rfl

namespace Held

variable {pool slack slack' lost lost' own own' : Frame → Nat} {m0 : Memory}
  {k : Nat} {s s' : Sys} {pid : Nat}

/-- Filling a page in takes references only for pages that end up shared. -/
theorem fillIn_exact (pid : Nat) (page : Nat) (write : Bool) (h : Held pool slack lost own m0 k s)
    (hl : Listed s) :
    Held pool slack lost own m0 k (Mm.fillIn s pid page write) ∨
    ∀ p, pagingGetPage (Mm.fillIn s pid page write).mm (s.pageMap pid) page = some p →
      p.shared = true := by
  have hidx := pageIdx_pageAlignDown page
  have hget : ∀ m : Memory, pagingGetPage m (s.pageMap pid) (pageAlignDown page)
      = pagingGetPage m (s.pageMap pid) page := fun m => by
    unfold pagingGetPage Memory.pte; rw [hidx]
  unfold Mm.fillIn
  split
  · exact .inl h
  rename_i hg
  have h0 := h.mem.pte_eq_zero hg
  have h0' : s.mm.pte (s.pageMap pid) (pageAlignDown page) = {} := by
    unfold Memory.pte; rw [hidx]; exact h0
  unfold Mm.taskFaultIn
  split
  · exact .inl h
  rename_i ha
  split
  · exact .inl h
  split
  · exact .inl h
  split
  · exact .inl h
  split
  · exact .inl h
  split
  · refine .inr fun p hp => ?_
    rw [← hget] at hp
    exact faultInShared_shared h0' hp
  · refine .inl (h.faultInPrivate ?_ h0')
    have := (hl pid).find_lt ha
    unfold pageAlignDown pageSize
    omega

/-- A page that was validated took no reference. -/
theorem ipcValidatePage {page : Nat} (h : Held pool slack lost own m0 k s)
    (hl : Listed s) (hroom : Room m0 (k + 2)) :
    Held pool slack lost own m0 (k + 2) (ipcValidatePage s pid page).2 ∧
      ((Mm.ipcValidatePage s pid page).1 = .ok () →
        Held pool slack lost own m0 k (Mm.ipcValidatePage s pid page).2) := by
  have h1 := h.fillIn pid page true hl hroom
  have h2 := h.fillIn_exact pid page true hl
  unfold Mm.ipcValidatePage
  dsimp only
  generalize Mm.fillIn s pid page true = s1 at h1 h2
  split
  · exact ⟨h1, fun hf => by cases hf⟩
  rename_i pte hg
  split
  · exact ⟨h1, fun hf => by cases hf⟩
  split
  · exact ⟨h1, fun hf => by cases hf⟩
  rename_i hns
  simp only [Bool.or_eq_true, not_or, Bool.not_eq_true] at hns
  have h3 : Held pool slack lost own m0 k s1 := by
    rcases h2 with h2 | h2
    · exact h2
    · rw [h2 pte hg] at hns; cases hns.2
  split
  · have hc := h3.cowFault (s.pageMap pid) page 7
    split
    · next he => rw [he] at hc; exact ⟨hc.mono (by omega), fun hf => by cases hf⟩
    · next he => rw [he] at hc; exact ⟨hc.mono (by omega), fun _ => hc⟩
  · exact ⟨h1, fun _ => h3⟩

/-- What `ipc_validate_send_range` has made sure of. -/
structure Sendable (s : Sys) (pid addr pages : Nat) : Prop where
  nonempty : 0 < pages
  aligned : addr % pageSize = 0
  limit : addr + pages * pageSize ≤ userMmapLimit
  pages_private : ∀ i, i < pages → (s.mm.pte (s.pageMap pid) (addr + i * pageSize)).Private

theorem range_le_limit {l : List UserAlloc} (hl : AllocsOk l) (hp : pages ≤ userStackTop / pageSize)
    (h : ipcRangeInAllocList l addr pages = true) :
    addr + pages * pageSize ≤ userMmapLimit := by
  unfold ipcRangeInAllocList at h
  dsimp only at h
  split at h
  · cases h
  obtain ⟨a, ha, hr⟩ := any_eq_true.mp h
  simp only [Bool.and_eq_true, decide_eq_true_eq] at hr
  have hb := (hl.ranges.bounds ha).2.2
  unfold userStackTop pageSize at *
  omega

theorem ipcValidateSendRange (pid : Nat) (addr pages : Nat) (h : Held pool slack lost own m0 k s)
    (hl : Listed s) (hroom : Room m0 (k + 2)) (hp : pages ≤ userStackTop / pageSize) :
    Held pool slack lost own m0 (k + 2) (ipcValidateSendRange s pid addr pages).2 ∧
      ((Mm.ipcValidateSendRange s pid addr pages).1 = .ok () →
        Held pool slack lost own m0 k (Mm.ipcValidateSendRange s pid addr pages).2 ∧
        Sendable (Mm.ipcValidateSendRange s pid addr pages).2 pid addr pages) := by
  unfold Mm.ipcValidateSendRange
  split
  · exact ⟨h.mono (by omega), fun hf => by cases hf⟩
  split
  · exact ⟨h.mono (by omega), fun hf => by cases hf⟩
  split
  · exact ⟨h.mono (by omega), fun hf => by cases hf⟩
  rename_i hin
  have hlim := range_le_limit (hl pid) hp (by simpa using hin)
  have hva : ∀ i, i < pages → addr + i * pageSize < 2 ^ 47 := fun i hi => by
    unfold userMmapLimit at hlim; unfold pageSize at *; omega
  have hcase := tryEach_cases (f := fun i s => Mm.ipcValidatePage s pid (addr + i * pageSize))
    (P := fun t => Held pool slack lost own m0 k t ∧ SameProcs s t) (l := range pages)
    (fun i _ t ht hok => ⟨(ht.1.ipcValidatePage (hl.same ht.2) hroom).2 hok,
      ht.2.trans (ipcValidatePage_same _ _ _)⟩)
    (fun i _ t e ht _ => (ht.1.ipcValidatePage (hl.same ht.2) hroom).1)
    ⟨h, .rfl'⟩
  have hall := tryEach_all (P := fun t => SameProcs s t ∧ Linked t.mm)
    (Q := fun i t => i < pages → (t.mm.pte (s.pageMap pid) (addr + i * pageSize)).Private)
    (l := range pages)
    (fun i _ t ht _ => ⟨ht.1.trans (ipcValidatePage_same _ _ _),
      (ipcValidatePage_private ht.2 (hl.same ht.1) _ _).1.linked⟩)
    (fun i _ t ht hok _ => by
      have := (ipcValidatePage_private ht.2 (hl.same ht.1) pid (addr + i * pageSize)).2 hok
      rwa [ht.1.pageMap] at this)
    (fun i hi j t ht hok hj hjp => by
      obtain ⟨ho, hpriv⟩ := ipcValidatePage_private ht.2 (hl.same ht.1) pid (addr + i * pageSize)
      rw [ht.1.pageMap] at hpriv
      by_cases hij : j = i
      · subst hij; exact hpriv hok
      have hi := mem_range.mp hi
      unfold Memory.pte
      rw [ho.pte _ _ (.inr (by rw [pageIdx_add (hva i hi), pageIdx_add (hva j hjp)]; omega))]
      exact hj hjp) ⟨.rfl', h.mem.linked⟩
  generalize tryEach _ _ _ = r at hcase hall
  obtain ⟨e | ⟨⟩, t⟩ := r
  · exact ⟨hcase.2 e rfl, fun hf => by cases hf⟩
  obtain ⟨ht, hsame⟩ := hcase.1 rfl
  refine ⟨ht.mono (by omega), fun _ => ⟨ht, by omega, by omega, hlim, fun i hi => ?_⟩⟩
  rw [hsame.pageMap]
  exact (hall rfl).1 i (mem_range.mpr hi) hi

end Held

/-- The pages go out of the page tables and their frames are in hand. -/
theorem MemOk.unmapPages (cr3 : Cr3) (addr pages : Nat) (h : MemOk pool slack lost own slots m)
    (hb : addr + pages * pageSize ≤ 2 ^ 47)
    (hp : ∀ i, i < pages → (m.pte cr3 (addr + i * pageSize)).Private) :
    MemOk pool slack lost (fun f => own f + ((range pages).map fun i =>
      (m.pte cr3 (addr + i * pageSize)).phys).count f) slots
      (unmapPages m cr3 addr pages) := by
  have hva : ∀ i, i < pages → addr + i * pageSize < 2 ^ 47 := fun i hi => by
    unfold pageSize at *; omega
  have hinv := foldl_range (f := fun m i => pagingUnmapPage m cr3 (addr + i * pageSize))
    (P := fun n m1 => MemOk pool slack lost (fun f => own f + ((range n).map fun i =>
        (m.pte cr3 (addr + i * pageSize)).phys).count f) slots m1 ∧
      ∀ i, n ≤ i → i < pages → m1.pte cr3 (addr + i * pageSize) = m.pte cr3 (addr + i * pageSize))
    (n := pages)
    (fun n hn m1 ⟨h1, hrest⟩ => ?_) ⟨by simpa using h, fun _ _ _ => rfl⟩
  · exact hinv.1
  · have hpte := hrest n (Nat.le_refl n) hn
    have hpr := hp n hn
    rw [← hpte] at hpr
    have hget := h1.linked.pagingGetPage hpr.present
    have hdef : pagingUnmapPage m1 cr3 (addr + n * pageSize)
        = m1.setPteAt cr3 (pageIdx (addr + n * pageSize)) {} := by
      unfold pagingUnmapPage; rw [hget]
    have hc := (h1.clear hpr.present).2.2 hpr.nofree
      (by change ((m1.pte _ _).cow || (m1.pte _ _).shared) = false
          rw [hpr.cow, hpr.shared]; rfl)
    rw [hdef]
    refine ⟨?_, fun i hi hip => ?_⟩
    · refine hc.own_lost fun f => ?_
      change _ = bump _ (m1.pte cr3 (addr + n * pageSize)).phys f + _
      rw [hpte, bump, range_succ, map_append, map_singleton]
      by_cases hf : f = (m.pte cr3 (addr + n * pageSize)).phys
      · rw [← hf]; simp; omega
      · have : ¬ (m.pte cr3 (addr + n * pageSize)).phys = f := fun e => hf e.symm
        simp [hf, this]
    · refine Eq.trans ?_ (hrest i (by omega) hip)
      unfold Memory.pte
      rw [Memory.pteAt_setPteAt, if_neg]
      rintro ⟨-, he, -⟩
      rw [pageIdx_add (hva i hip), pageIdx_add (hva n hn)] at he
      omega

theorem Grows.unmapPages : Grows 0 m (unmapPages m cr3 addr pages) := by
  refine foldl_inv (fun i _ m1 h => ?_) rfl'
  unfold pagingUnmapPage
  split
  · exact h
  · exact h.trans setPteAt

/-! ## Queues -/

theorem queued_tasks {s' : Sys} (h : SameTasks s s') : queued s' = queued s := by
  have hq : s'.queue = s.queue := funext h.queue
  unfold queued
  rw [hq, h.nextPid]

theorem queue_setQueue_eq (hp : (s.proc pid).isSome) :
      (s.setQueue pid q).queue = Function.update s.queue pid q := by
  funext p
  rw [Sys.queue_setQueue]
  by_cases h : p = pid
  · subst h; rw [if_pos ⟨rfl, hp⟩, Function.update_self]
  · rw [if_neg fun hc => h hc.1, Function.update_of_ne h]

theorem queued_setQueue (hp : (s.proc pid).isSome) (hlt : pid < s.nextPid) (f : Frame) :
    queued (s.setQueue pid q) f + inQueue f (s.queue pid) = queued s f + inQueue f q := by
  have := tally_update (F := s.queue) (g := inQueue f) (b := q) (Finset.mem_range.mpr hlt)
  unfold queued
  rw [queue_setQueue_eq hp]
  exact this

theorem inQueue_append (f : Frame) (q q' : List IpcMessage) :
    inQueue f (q ++ q') = inQueue f q + inQueue f q' := by
  unfold inQueue
  rw [map_append, sum_append]

theorem inQueue_cons (f : Frame) (msg : IpcMessage) (q : List IpcMessage) :
    inQueue f (msg :: q) = msg.physPages.count f + inQueue f q := by
  unfold inQueue
  rw [map_cons, sum_cons]

theorem MemOk.freeMessage
    (h : MemOk pool slack lost (fun f => own f + msg.physPages.count f) slots m) :
    MemOk pool slack lost own slots (freeMessage m msg) := by
  unfold Mm.freeMessage
  generalize msg.physPages = frames at h
  induction frames generalizing m with
  | nil => exact h
  | cons f frames ih =>
    rw [count_cons_bump] at h
    exact ih h.freeOne

theorem Grows.freeMessage : Grows 0 m (freeMessage m msg) :=
  foldl_inv (fun _ _ _ h => h.trans .free) rfl'

theorem MemOk.freeMessages (h : MemOk pool slack lost (fun f => own f + inQueue f q) slots m) :
    MemOk pool slack lost own slots (q.foldl Mm.freeMessage m) := by
  induction q generalizing m with
  | nil => exact h
  | cons msg q ih =>
    refine ih (MemOk.freeMessage (h.own_lost fun f => ?_))
    rw [inQueue_cons]
    omega

/-- Nothing is mapped where the next message will be put. -/
def RecvClear (s : Sys) (pid : Nat) : Prop :=
  ∀ msg rest, s.queue pid = msg :: rest → SpotClear s pid msg.physPages.length

/-- The page tables for it are there or can be had. -/
def RecvTables (s : Sys) (pid : Nat) : Prop :=
  ∀ msg rest, s.queue pid = msg :: rest → SpotTables s pid msg.physPages.length

namespace Held

variable {pool slack slack' lost lost' own own' : Frame → Nat} {m0 : Memory}
  {k : Nat} {s s' : Sys} {pid : Nat}

/-- The message a call sends holds the frames its range was mapped to. -/
theorem sentFrames (hl : Linked m)
    (hp : ∀ i, i < pages → (m.pte cr3 (addr + i * pageSize)).Private) :
    ((range pages).map fun i => pagingGetPage m cr3 (addr + i * pageSize))
      = (range pages).map fun i => some (m.pte cr3 (addr + i * pageSize)) :=
  map_congr_left fun i hi =>
    hl.pagingGetPage (hp i (mem_range.mp hi)).present

/-- A message joins a queue, and its frames are no longer in anyone's hand. -/
theorem enqueue {target : Nat} (h : Held pool slack lost own m0 k s)
    (hsome : (s.proc target).isSome) (hlt : target < s.nextPid)
    (hown : ∀ f, own f = queued s f + msg.physPages.count f) :
    Held pool slack lost (queued (s.setQueue target (s.queue target ++ [msg]))) m0 k
      (s.setQueue target (s.queue target ++ [msg])) := by
  have he : queued (s.setQueue target (s.queue target ++ [msg])) = own := by
    funext f
    have hq := queued_setQueue (q := s.queue target ++ [msg]) hsome hlt f
    rw [inQueue_append, inQueue_cons] at hq
    have := hown f
    change _ = queued s f + (_ + (_ + 0)) at hq
    omega
  rw [he]
  exact h.setQueue

theorem ipcSendPages {target : Nat} (h : Held pool slack lost (queued s) m0 k s) (hl : Listed s)
    (hroom : Room m0 (k + 2)) (hpids : ∀ pid, s.nextPid ≤ pid → s.proc pid = none) :
    ∃ j, Held pool slack lost (queued (ipcSendPages s pid target addr pages).2.2) m0 j
      (ipcSendPages s pid target addr pages).2.2 := by
  unfold Mm.ipcSendPages
  split
  · exact ⟨k, h⟩
  split
  · exact ⟨k, h⟩
  rename_i hpages
  split
  · exact ⟨k, h⟩
  rename_i htarget
  have hv := h.ipcValidateSendRange pid addr pages hl hroom (Nat.le_of_not_lt hpages)
  have ht := (ipcValidateSendRange_same s pid addr pages).tasks
  split
  · rename_i he
    rw [he] at hv ht
    exact ⟨k + 2, by rw [queued_tasks ht]; exact hv.1⟩
  rename_i s1 he
  rw [he] at hv ht
  obtain ⟨h1, hsend⟩ := hv.2 rfl
  have ht1 := ht.trans (kmalloc_same s1).tasks
  have h2 := h1.kmalloc
  have hm2 := kmalloc_memory s1
  split
  · rename_i hk1
    rw [hk1] at ht1 h2
    exact ⟨k, by rw [queued_tasks ht1]; exact h2⟩
  rename_i s2 hk1
  rw [hk1] at ht1 h2 hm2
  have ht2 := ht1.trans (kmalloc_same s2).tasks
  have h3 := h2.kmalloc
  have hm3 := kmalloc_memory s2
  split
  · rename_i hk2
    rw [hk2] at ht2 h3
    exact ⟨k, by rw [queued_tasks ht2]; exact h3⟩
  rename_i s3 hk2
  rw [hk2] at ht2 h3 hm3
  -- the pages are still as they were validated
  have hpriv : ∀ i, i < pages → (s3.mm.pte (s3.pageMap pid) (addr + i * pageSize)).Private := by
    intro i hi
    rw [hm3.mm, hm2.mm, hm3.pageMap, hm2.pageMap]
    exact hsend.pages_private i hi
  rw [sentFrames h3.mem.linked hpriv]
  dsimp only
  split
  · exact ⟨k, by rw [queued_tasks ht2]; exact h3⟩
  have h4 := h3.edits (ipcDetachAllocRange_edits s3 pid addr pages)
  have ht := (ipcDetachAllocRange_edits s3 pid addr pages).tasks
  have ht4 := ht2.trans ht
  have hsp := ipcDetachAllocRange_spaces s3 pid addr pages
  have hpm := ht.pageMap pid
  split
  · rename_i hd
    rw [hd] at h4 ht4
    exact ⟨k, by rw [queued_tasks ht4]; exact h4⟩
  rename_i s4 hd
  rw [hd] at h4 ht4 hsp hpm
  have hpte : ∀ va, s4.mm.pte (s4.pageMap pid) va = s3.mm.pte (s3.pageMap pid) va := fun va => by
    rw [hpm]; exact Memory.pteAt_congr hsp _ _
  have hu := h4.mem.unmapPages (s4.pageMap pid) addr pages
    (by have := hsend.limit; unfold userMmapLimit at this; omega)
    (fun i hi => by rw [hpte]; exact hpriv i hi)
  have hsome : (s.proc target).isSome := by
    cases hp : s.proc target with
    | none => rw [hp] at htarget; simp at htarget
    | some p => rfl
  refine ⟨k, enqueue (h4.mm hu .unmapPages) ?_ ?_ ?_⟩
  · rw [← ht4.isSome] at hsome; exact hsome
  · change target < s4.nextPid
    rw [ht4.nextPid]
    by_contra hge
    rw [hpids target (Nat.le_of_not_lt hge)] at hsome
    cases hsome
  · intro f
    change _ = queued s4 f + _
    rw [queued_tasks ht4, map_map]
    congr 2
    refine map_congr_left fun i _ => ?_
    rw [hpte]
    rfl

/-! ## Receiving -/

/-- Where a range will be put does not depend on the queues. -/
theorem taskMmapReserve_setQueue (s : Sys) (pid p n : Nat) (q : List IpcMessage) :
    (Mm.taskMmapReserve (s.setQueue p q) pid n).1 = (Mm.taskMmapReserve s pid n).1 := by
  have hk : (s.setQueue p q).kmalloc.1 = s.kmalloc.1 := by
    have he : (s.setQueue p q).kmallocs = s.kmallocs := rfl
    unfold Sys.kmalloc
    rw [he]
    cases s.kmallocs <;> rfl
  unfold Mm.taskMmapReserve
  rw [Sys.allocs_setQueue]
  dsimp only
  split
  · rfl
  split
  · rfl
  split
  · rfl
  generalize (s.setQueue p q).kmalloc = a at hk
  generalize s.kmalloc = b at hk
  obtain ⟨a1, a2⟩ := a
  obtain ⟨b1, b2⟩ := b
  cases hk
  cases a1 <;> rfl

section

variable (h : Held pool slack lost (queued s) m0 k s)

include h

/-- The frames of the message at the head of a queue, in hand. -/
theorem dequeue {rest : List IpcMessage} (hsome : (s.proc pid).isSome)
    (hlt : pid < s.nextPid) (hq : s.queue pid = msg :: rest) :
    Held pool slack lost (fun f => queued (s.setQueue pid rest) f
      + msg.physPages.count f) m0 k (s.setQueue pid rest) := by
  have he : (fun f => queued (s.setQueue pid rest) f + msg.physPages.count f) = queued s := by
    funext f
    have hs := queued_setQueue (q := rest) hsome hlt f
    rw [hq, inQueue_cons] at hs
    omega
  rw [he]
  exact h.setQueue

theorem ipcRecv {ptr : Nat} (hl : Listed s)
    (hroom : Room m0 (k + 4)) (hsome : (s.proc pid).isSome) (hlt : pid < s.nextPid) :
    Spills pool slack lost (queued (ipcRecv s pid ptr).2.2) m0 (RecvClear s pid)
      (RecvClear s pid ∧ RecvTables s pid) (ipcRecv s pid ptr).2.2 := by
  unfold Mm.ipcRecv
  split
  · exact h.spills
  split
  · exact h.spills
  rename_i msg rest hq
  have h1 := h.dequeue hsome hlt hq
  have hl1 : Listed (s.setQueue pid rest) := hl.setQueue _
  have hspot := taskMmapReserve_setQueue s pid pid msg.physPages.length rest
  generalize hs1 : s.setQueue pid rest = s1 at h1 hl1 hspot
  have hmm1 : s1.mm = s.mm := by rw [← hs1]; rfl
  have hpm1 : s1.pageMap pid = s.pageMap pid := by
    rw [← hs1]
    unfold Sys.pageMap Sys.setQueue
    rw [Sys.proc_updProc, if_pos rfl]
    cases s.proc pid <;> rfl
  have hd := taskMmapReserve_reserving s1 pid msg.physPages.length
  have hr := h1.edits hd.edits
  have ht := hd.edits.tasks
  dsimp only
  split
  · rename_i hm
    rw [hm] at hr ht
    refine spills (k := k) ?_
    rw [queued_tasks (ht.trans (.mm _))]
    exact hr.mm hr.mem.freeMessage .freeMessage
  rename_i base s2 hm
  rw [hm] at hd hr ht hspot
  have hsame := reserving_memory hd
  have hb := (hd.placed hl1).2
  obtain ⟨slack', lost', hmap, hsl, hlo⟩ := hr.mem.mapMessage (s2.pageMap pid) msg.physPages base
    (by have := hb.limit; unfold userMmapLimit at this; omega)
  rw [hsame.mm, hsame.pageMap, hmm1, hpm1] at hsl hlo
  have h3 := hr.mm hmap (Grows.mapMessage (s2.pageMap pid) msg.physPages base)
  generalize mapMessage (s2.pageMap pid) base msg.physPages s2.mm = mm at h3
  have hc := h3.copyToUser pid ptr (leBytes msg.senderPid ++ leBytes base
      ++ leBytes msg.physPages.length ++ leBytes msg.flags)
    ((hd.edits.listed trivial hl1).same (.mm _))
    (by
      simp only [length_append, leBytes_length]
      exact hroom.mono (by unfold pageSize; omega))
  have hct := (ht.trans (.mm mm)).trans (copyToUser_same { s2 with mm } pid ptr
    (leBytes msg.senderPid ++ leBytes base
      ++ leBytes msg.physPages.length ++ leBytes msg.flags)).tasks
  have hfin : ∀ t j, SameTasks s1 t → Held pool slack' lost' (queued s1) m0 j t →
      Spills pool slack lost (queued t) m0 (RecvClear s pid)
        (RecvClear s pid ∧ RecvTables s pid) t := fun t j htt hh => by
    refine ⟨slack', lost', j, by rw [queued_tasks htt]; exact hh, fun hcl => ?_, fun hcl => ?_⟩
    · exact hsl (hcl msg rest hq base hspot.symm)
    · exact hlo (hcl.1 msg rest hq base hspot.symm) (hcl.2 msg rest hq base hspot.symm)
  split
  · rename_i he
    rw [he] at hc hct
    exact hfin _ _ (hct.trans (taskMunmap_edits _ _ _).tasks) (hc.edits (taskMunmap_edits _ _ _))
  · next he => rw [he] at hc hct; exact hfin _ _ hct hc

theorem ipcTaskCleanup (hsome : (s.proc pid).isSome) (hlt : pid < s.nextPid) :
    Held pool slack lost (queued (ipcTaskCleanup s pid)) m0 k (ipcTaskCleanup s pid) := by
  have he : (fun f => queued (s.setQueue pid []) f + inQueue f (s.queue pid)) = queued s := by
    funext f
    exact queued_setQueue hsome hlt f
  have h1 : Held pool slack lost (fun f => queued (s.setQueue pid []) f
      + inQueue f (s.queue pid)) m0 k (s.setQueue pid []) := by
    rw [he]; exact h.setQueue
  exact h1.mm h1.mem.freeMessages (foldl_inv (fun _ _ _ hg => hg.trans .freeMessage) .rfl')

end

end Held

end BleedKernel.Mm
