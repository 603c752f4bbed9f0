import BleedKernel.Proofs.Messages
import BleedKernel.Proofs.Procs

/-!
# The system keeps its ledger

`SysOk` is what holds between two calls: the ledger with the queued messages as
its frames in hand, every alloc list in order, and every process with an address
space of its own. One step keeps it, given that the counts have room, and what
the step drops is said in terms of the state it starts from.
-/

namespace BleedKernel.Mm

open BleedKernel.Lib Function

variable {l : List UserAlloc} {addr id len pages : Nat}

variable {k pid : Nat} {s : Sys}

/-! ## Between two calls -/

/-- What holds between two calls: the ledger, with the waiting messages in it, and
the processes. -/
structure SysOk (pool slack lost : Frame → Nat) (s : Sys) : Prop extends ProcsOk s where
  mem : MemOk pool slack lost (queued s) (slots s) s.mm
  memfds : ∀ id, s.nextMemfd ≤ id → s.memfd id = none
  shms : ∀ id, s.shmNextId ≤ id → s.shm id = none

namespace SysOk

variable {pool slack slack' lost lost' : Frame → Nat} {s s' : Sys} {pid : Nat}

variable (h : SysOk pool slack lost s)

include h

theorem held : Held pool slack lost (queued s) s.mm 0 s := ⟨h.mem, .rfl', h.memfds, h.shms⟩

/-- A call that leaves the processes and the address spaces where they were. -/
theorem of_held (hh : Held pool slack' lost' (queued s') s.mm k s') (hl : Listed s')
    (hm : SameMaps s s') : SysOk pool slack' lost' s' :=
  ⟨h.toProcsOk.of_maps hl hm hh.grows.live, hh.mem, hh.memfds, hh.shms⟩

section

variable (hh : Held pool slack' lost' (queued s) s.mm k s')

include hh

theorem of_tasks (hl : Listed s') (ht : SameTasks s s') : SysOk pool slack' lost' s' :=
  h.of_held (by rw [queued_tasks ht]; exact hh) hl ht.maps

theorem of_edits {ok : Prop} (hd : Edits SameProcs ok s s')
    (hok : ok) : SysOk pool slack' lost' s' :=
  h.of_tasks hh (hd.listed hok h.listed) hd.tasks

theorem of_same (hs : SameProcs s s') : SysOk pool slack' lost' s' :=
  h.of_tasks hh (h.listed.same hs) hs.tasks

end

end SysOk

/-! ## Fork and a new process -/

namespace Held

variable {pool slack lost own : Frame → Nat} {m0 : Memory} {k : Nat} {s : Sys}

theorem schedFreeAllocList (h : Held pool slack lost own m0 k s) :
    Held pool slack lost own m0 k (schedFreeAllocList s l) :=
  foldl_inv (fun _ _ _ ht => ht.userAllocFree) h

theorem cloneUserAllocList (done : List UserAlloc) (h : Held pool slack lost own m0 k s) :
    Held pool slack lost own m0 k (cloneUserAllocList l done s).2 := by
  induction l generalizing done s with
  | nil => exact h
  | cons a l ih =>
    have hk := h.kmalloc
    rw [Mm.cloneUserAllocList]
    split
    · next he => rw [he] at hk; exact hk.schedFreeAllocList
    · next he => rw [he] at hk; exact ih _ hk.userAllocCopy

end Held

namespace SysOk

variable {pool slack slack' lost lost' : Frame → Nat} {s t : Sys} {pid k : Nat}
variable {cr3 : Cr3} {mm : Memory}

theorem queued_addProc {p : Proc} (hp : p.ipc = []) : queued (t.addProc p) = queued t := by
  funext f
  have hpush := tally_push (n := t.nextPid) (F := t.queue) (g := inQueue f) (b := [])
  refine Eq.trans ?_ hpush
  refine tally_congr fun q _ => ?_
  rw [Sys.queue_addProc]
  by_cases hq : q = t.nextPid
  · subst hq; rw [if_pos rfl, update_self, hp]
  · rw [if_neg hq, update_of_ne hq]

variable (h : SysOk pool slack lost s)

include h

section

variable (hcr : pagingCreateAddressSpace s.mm = (some cr3, mm))

include hcr

/-- A new address space is nobody's yet. -/
theorem created : Held pool slack lost (queued s) mm 0 { s with mm } := by
  have hm := h.mem.pagingCreateAddressSpace
  rw [hcr] at hm
  exact ⟨hm, .rfl', h.memfds, h.shms⟩

/-- A fork that gives up destroys the space it made. -/
theorem dropped (hh : Held pool slack lost (queued s) mm k t) (hs : SameProcs s t) :
    SysOk pool slack lost (dropSpace t cr3) := by
  have hs' : SameProcs s (dropSpace t cr3) := hs.trans (.mm _)
  refine ⟨h.toProcsOk.dropped hcr hh.grows.live hs, ?_, hh.memfds, hh.shms⟩
  rw [queued_tasks hs'.tasks]
  exact hh.mem.pagingDestroyAddressSpace

/-- A new process gets the space that was made for it. -/
theorem started (hh : Held pool slack lost (queued s) mm k t) (hs : SameProcs s t)
    (hl : AllocsOk l) :
    SysOk pool slack lost (t.addProc { pageMap := cr3, allocList := l }) := by
  refine ⟨h.toProcsOk.started hcr hh.grows.live hs hl, ?_, hh.memfds, hh.shms⟩
  rw [queued_addProc rfl, queued_tasks hs.tasks]
  exact hh.mem

end

theorem notCreated (hcr : pagingCreateAddressSpace s.mm = (none, mm)) :
    SysOk pool slack lost { s with mm } := by
  have hm := h.mem.pagingCreateAddressSpace
  rw [hcr] at hm
  exact h.of_same ⟨hm, pagingCreateAddressSpace_none hcr, h.memfds, h.shms⟩ (.mm _)

theorem spawn : SysOk pool slack lost (spawn s).2 := by
  unfold Mm.spawn
  split
  · next hcr => exact h.notCreated hcr
  · next hcr => exact h.started hcr (h.created hcr) (.mm _) Listed.nil

end SysOk

theorem Held.forkedTo {pool slack lost own : Frame → Nat} {m0 : Memory}
    {t : Sys} {ok : Bool} (h : Held pool slack lost own m0 k s)
    (ht : ForkedTo s pid ok t) : Held pool slack lost own m0 k t := by
  have hk : ∀ {s : Sys} (l : List Bool), Held pool slack lost own m0 k s →
      Held pool slack lost own m0 k { s with kmallocs := l } :=
    fun l h => ⟨h.mem, h.grows, h.memfds, h.shms⟩
  have hc : ∀ {b : Bool} {l : List Bool} {t : Sys},
      Mm.cloneUserAllocList (s.allocs pid) [] { s with kmallocs := l } = (b, t) →
      Held pool slack lost own m0 k t := fun {b l t} ht => by
    have := (hk l h).cloneUserAllocList ([]) (l := s.allocs pid)
    rwa [ht] at this
  cases ht with
  | early l => exact hk l h
  | copying l t ht => exact hc ht
  | late l l' t ht => exact (hk l' (hc ht)).schedFreeAllocList
  | done l l' t ht => exact hk l' (hc ht)

namespace SysOk

variable {pool slack slack' lost lost' : Frame → Nat} {s t : Sys} {pid k : Nat}

theorem queued_updProc {g : Proc → Proc} (hg : ∀ p, (g p).ipc = p.ipc) :
    queued (s.updProc pid g) = queued s := by
  have hq : (s.updProc pid g).queue = s.queue := by
    funext q
    unfold Sys.queue
    rw [Sys.proc_updProc]
    by_cases hqp : q = pid
    · subst hqp
      rw [if_pos rfl]
      cases s.proc q with
      | none => rfl
      | some p => exact hg p
    · rw [if_neg hqp]
  unfold queued
  rw [hq]
  rfl

variable (h : SysOk pool slack lost s)

include h

/-- A fork keeps the ledger, whether it succeeds or runs out of memory. -/
theorem schedFork (hp : (s.proc pid).isSome)
    (hroom : RefRoom s.mm.refs) : SysOk pool slack lost (schedFork s pid).2 := by
  rcases schedFork_cases s pid with ⟨mm, hcr, he⟩ | ⟨child, mm, mm1, b, hcr, hcl, t, ok, ht, he⟩
  · rw [he]; exact h.notCreated hcr
  obtain ⟨p, hproc⟩ := Option.isSome_iff_exists.mp hp
  have h1 := h.created hcr
  have hother := h.toProcsOk.created hcr
  obtain ⟨-, hnew, hempty, -, hrefs⟩ := pagingCreateAddressSpace_some hcr
  have hpm : s.pageMap pid = p.pageMap := by unfold Sys.pageMap; rw [hproc]
  have hm := h1.mem.pagingCloneUserSpace
    (hpm ▸ (hother pid p hproc).1) (hpm ▸ (hother pid p hproc).2) hnew hempty
    (fun f => by rw [hrefs]; exact hroom f)
  obtain ⟨j, hg⟩ := grows_pagingCloneUserSpace mm (s.pageMap pid) child
  rw [hcl] at hm hg
  have h2 : Held pool slack lost (queued s) mm j { s with mm := mm1 } := ⟨hm, hg, h.memfds, h.shms⟩
  have hs : SameProcs s t := (SameProcs.mm mm1).trans ht.same
  rcases he with ⟨-, he⟩ | ⟨-, -, he⟩
  · rw [he]; exact h.dropped hcr (h2.forkedTo ht) hs
  · rw [he]; exact h.started hcr (h2.forkedTo ht) hs (h.listed pid)

/-! ## The end of a process -/

theorem processExit : SysOk pool slack lost (processExit s pid) := by
  have ht := (shmTaskCleanup_tasks s pid).trans (foldl_unmapAlloc_same _ pid
    ((Mm.shmTaskCleanup s pid).allocs pid)).tasks
  have h1 := h.held.shmTaskCleanup pid
  have h2 := h1.foldl_unmapAlloc pid (l := (Mm.shmTaskCleanup s pid).allocs pid)
  have hl := h.listed.processExit pid
  unfold Mm.processExit at hl ⊢
  dsimp only at hl ⊢
  generalize ((Mm.shmTaskCleanup s pid).allocs pid).foldl (unmapAlloc pid)
    (Mm.shmTaskCleanup s pid) = s1 at ht h2 hl
  have ht' := (ht.trans (SameTasks.setAllocs pid (l := []))).trans
    (.mm (pagingReleaseUserSpace (s1.setAllocs pid []).mm ((s1.setAllocs pid []).pageMap pid)))
  refine h.of_held (k := 0) ?_ hl (ht'.maps.trans (.updProc fun _ => rfl))
  rw [queued_updProc (g := fun p => { p with live := false }) fun _ => rfl, queued_tasks ht']
  have h3 := h2.setAllocs pid (l := [])
  have h4 := h3.mm (MemOk.pagingReleaseUserSpace
    ((s1.setAllocs pid []).pageMap pid) h3.mem).1 (.pagingReleaseUserSpace _)
  generalize pagingReleaseUserSpace (s1.setAllocs pid []).mm _ = mm4 at h4
  exact h4.of_eq rfl rfl rfl rfl rfl

/-- A process goes when no message waits for it. -/
theorem dropProc (hp : (s.proc pid).isSome) (hq : s.queue pid = []) :
    SysOk pool slack lost { dropSpace s (s.pageMap pid) with
      proc := update s.proc pid none } := by
  have hqueue : queued { dropSpace s (s.pageMap pid) with
      proc := update s.proc pid none } = queued s := by
    funext f
    refine tally_congr fun q _ => ?_
    by_cases hqp : q = pid
    · subst hqp
      rw [hq]
      unfold Sys.queue
      dsimp only
      rw [update_self]
    · unfold Sys.queue
      dsimp only
      rw [update_of_ne hqp]
  refine ⟨h.toProcsOk.dropProc hp, ?_, h.memfds, h.shms⟩
  rw [hqueue]
  exact h.mem.pagingDestroyAddressSpace

/-- What is left of a process that is over goes with it. -/
theorem schedulerReap (hp : (s.proc pid).isSome) : SysOk pool slack lost (schedulerReap s pid) := by
  have hlt := h.pid_lt hp
  have hl : Listed (Mm.ipcTaskCleanup s pid) := (h.listed.setQueue pid).same (.mm _)
  have h1 := (h.held.ipcTaskCleanup hp hlt).schedFreeAllocList
    (l := (Mm.ipcTaskCleanup s pid).allocs pid)
  have hs2 := schedFreeAllocList_same (Mm.ipcTaskCleanup s pid)
    ((Mm.ipcTaskCleanup s pid).allocs pid)
  have hm1 : SameMaps s (Mm.ipcTaskCleanup s pid) :=
    (SameMaps.setQueue pid).trans (SameTasks.mm _).maps
  have hq1 : (Mm.ipcTaskCleanup s pid).queue pid = [] := by
    have := Sys.queue_setQueue pid (s := s) (q := pid) (l := [])
    rwa [if_pos ⟨rfl, hp⟩] at this
  have hm2 := hm1.trans hs2.tasks.maps
  rw [← queued_tasks hs2.tasks] at h1
  rw [← hs2.tasks.queue] at hq1
  replace hl := hl.same hs2.toSameProcs
  refine (h.of_held h1 hl hm2).dropProc ?_ hq1
  have := congrArg Option.isSome (hm2.map pid)
  rw [Option.isSome_map, Option.isSome_map] at this
  rw [this]; exact hp

end SysOk

/-! ## What a call needs

The counts are 32 bits wide, so a call needs room in them. The calls that map
pages without looking need the range they pick to be clear, and two of them need
the page tables for it. All of this is about the state the call starts in. -/

/-- Whatever is mapped in the range is in a node of the process. -/
def RangeTidy (s : Sys) (pid base n : Nat) : Prop :=
  ∀ i, i < n → (s.mm.pte (s.pageMap pid) (base + i * pageSize)).present = true →
    Covered (s.allocs pid) (base + i * pageSize)

/-- Where the first fit puts `n` pages, if they fit. -/
def firstFit (s : Sys) (pid n : Nat) : Option Nat :=
  let base := (reserveLoop n userMmapBase (s.allocs pid)).1
  if n = 0 ∨ base > userMmapLimit ∨ n > (userMmapLimit - base) / pageSize then none
  else some base

/-- Nothing is mapped where the framebuffer will be put, and its size is not
written there either. -/
def MapfbSpot (s : Sys) (pid outPages pages : Nat) : Prop :=
  ∀ base, firstFit s pid pages = some base → ClearAt s.mm (s.pageMap pid) base pages ∧
      (outPages + 8 ≤ base ∨ base + pages * pageSize ≤ outPages)

/-- The counts have room for what the call may add to them. -/
def Op.room (s : Sys) : Op → Prop
  | .fork _ => RefRoom s.mm.refs
  | .mmap _ addr len _ flags _ _ =>
    (MapFlags.ofBits flags).populate = true → Room s.mm (vmaLen addr len / pageSize * 2)
  | .shmMap _ id _ => ∀ obj, s.shm id = some obj → Room s.mm (obj.frames.length + 4)
  | .shmMapAt _ id _ _ _ => ∀ obj, s.shm id = some obj → Room s.mm obj.frames.length
  | .pageFault _ _ _ | .mapfb _ _ _ _ | .ipcSend _ _ _ _ | .ipcRecv _ _ => Room s.mm 4
  | _ => True

/-- A call that maps without looking finds its range clear. -/
def Op.clear (s : Sys) : Op → Prop
  | .mmap pid addr len _ flags _ _ =>
    (MapFlags.ofBits flags).anonymous = true → (MapFlags.ofBits flags).type ≠ .private_ → ∀ base,
      (vmaPlace s pid addr (vmaLen addr len) (MapFlags.ofBits flags)).1 = .ok base →
        RangeTidy s pid base (vmaLen addr len / pageSize)
  | .mapfb pid outPages _ pages => MapfbSpot s pid outPages pages
  | .shmMap pid id _ => ∀ obj, s.shm id = some obj → SpotClear s pid obj.frames.length
  | .shmMapAt pid _ _ pages addr => ClearAt s.mm (s.pageMap pid) addr pages
  | .ipcRecv pid _ => RecvClear s pid
  | _ => True

/-- The page tables a shared memory object is mapped with are there or can be
had. -/
def Op.shmTables (s : Sys) : Op → Prop
  | .shmMap pid id _ => ∀ obj, s.shm id = some obj → SpotTables s pid obj.frames.length
  | .shmMapAt pid _ _ pages addr => tablesFor s.mm (s.pageMap pid) addr pages = true
  | _ => True

/-- The page tables a message is mapped with are there or can be had. -/
def Op.recvTables (s : Sys) : Op → Prop
  | .ipcRecv pid _ => RecvTables s pid
  | _ => True

theorem firstFit_of_reserve {n base : Nat}
    (h : (taskMmapReserve s pid n).1 = some base) : firstFit s pid n = some base := by
  unfold taskMmapReserve at h
  unfold firstFit
  split at h
  · cases h
  dsimp only at h
  split at h
  · cases h
  split at h
  · cases h
  rw [if_neg (by omega)]
  split at h
  · cases h
  · exact h

/-- Writing the size somewhere else leaves the range clear. -/
theorem MapfbSpot.mapfbClear {outPages : Nat} (hm : Linked s.mm) (hl : Listed s)
    (h : MapfbSpot s pid outPages pages) : MapfbClear s pid outPages pages := by
  intro s1 hc base hb
  have hsame := copyToUser_same s pid outPages (leBytes pages)
  rw [hc] at hsame
  have hd := taskMmapReserve_reserving s1 pid pages
  rw [hb] at hd
  have hplace := (hd.placed (hl.same hsame)).2
  have hfit := firstFit_of_reserve hb
  have hfit' : firstFit s pid pages = some base := by
    unfold firstFit at hfit
    rwa [hsame.allocs] at hfit
  obtain ⟨hclear, hout⟩ := h base hfit'
  intro i hi0 hi
  have hlim := hplace.limit
  have hal := hplace.aligned
  have hidx : pageIdx (base + i * pageSize) = base / pageSize + i :=
    pageIdx_add (by unfold userMmapLimit at hlim; unfold pageSize at *; omega)
  have hpte := copyToUser_pteAt pid outPages (leBytes pages)
    (j := pageIdx (base + i * pageSize)) hm hl fun p hp hp' _ => by
      rw [Held.leBytes_length] at hp'
      unfold pageSize at *
      omega
  rw [hc] at hpte
  rw [hsame.pageMap]
  unfold Memory.pte
  rw [hpte]
  exact hclear i hi0 hi

/-- A tidy range is clear once the mapping has its place. -/
theorem placedClear_of_tidy {hint : Nat} {flags : MapFlags}
    (hm : Linked s.mm) (hl : Listed s) (hlen : len % pageSize = 0)
    (h : flags.type ≠ .private_ → ∀ base, (vmaPlace s pid hint len flags).1 = .ok base →
      RangeTidy s pid base (len / pageSize)) :
    PlacedClear s pid hint len flags := by
  intro hty base s1 he i _ hi
  obtain ⟨hs, hleft⟩ := vmaPlace_left hm hl hlen he
  have ht := (vmaPlace_edits s pid hint len flags).tasks
  rw [he] at ht
  rw [ht.pageMap]
  cases hp : (s.mm.pte (s.pageMap pid) (base + i * pageSize)).present with
  | false => exact hs.present hp
  | true =>
    exact hleft i (by omega) (h hty base (by rw [he]) i (by omega) hp)

/-! ## One step -/

/-- The system is in order again, and when nothing was dropped on the way. -/
def Settles (pool slack lost : Frame → Nat) (noLeak noLoss : Prop) (s : Sys) : Prop :=
  ∃ slack' lost', SysOk pool slack' lost' s ∧ (noLeak → slack' = slack) ∧ (noLoss → lost' = lost)

theorem Settles.mono {pool slack lost : Frame → Nat} {p p' q q' : Prop}
    (h : Settles pool slack lost p q s) (hp : p' → p) (hq : q' → q) :
    Settles pool slack lost p' q' s := by
  obtain ⟨slack', lost', hs, h1, h2⟩ := h
  exact ⟨slack', lost', hs, fun h => h1 (hp h), fun h => h2 (hq h)⟩

namespace SysOk

variable {pool slack lost : Frame → Nat} {s s' : Sys} {pid : Nat} {p q : Prop}

variable (h : SysOk pool slack lost s)

include h

theorem settles : Settles pool slack lost p q s := ⟨slack, lost, h, fun _ => rfl, fun _ => rfl⟩

theorem settle {noLeak noLoss : Prop}
    (hsp : Held.Spills pool slack lost (queued s') s.mm noLeak noLoss s') (hl : Listed s')
    (hm : SameMaps s s') (hp : p → noLeak) (hq : q → noLoss) :
    Settles pool slack lost p q s' := by
  obtain ⟨slack', lost', k, hh, h1, h2⟩ := hsp
  exact ⟨slack', lost', h.of_held hh hl hm, fun h => h1 (hp h), fun h => h2 (hq h)⟩

theorem settle_edits {noLeak noLoss : Prop}
    (hsp : Held.Spills pool slack lost (queued s) s.mm noLeak noLoss s')
    (hd : Edits SameProcs True s s') (hp : p → noLeak) (hq : q → noLoss) :
    Settles pool slack lost p q s' := by
  rw [← queued_tasks hd.tasks] at hsp
  exact h.settle hsp (hd.listed trivial h.listed) hd.tasks.maps hp hq

theorem sysMmap {prot flags off : Nat} {fd : Option FileDesc}
    (hroom : (MapFlags.ofBits flags).populate = true → Room s.mm (vmaLen addr len / pageSize * 2)) :
    Settles pool slack lost (Op.clear s (.mmap pid addr len prot flags fd off))
      (Op.clear s (.mmap pid addr len prot flags fd off))
      (sysMmap s pid addr len prot flags fd off).2 := by
  have hlen := vmaLen_aligned addr len
  rcases sysMmap_cases s pid addr len prot flags fd off with
    ⟨e, he⟩ | ⟨pr, f, inode, -, he⟩ | ⟨pr, hanon, he⟩
  · rw [he]; exact h.settles
  · rw [he]
    obtain ⟨j, hj⟩ := h.held.taskVmaMapFile pid addr pr { MapFlags.ofBits flags with
        kernelNowrite := decide ((MapFlags.ofBits flags).type ≠ .private_)
          && decide (f.mode ≠ .rdwr) } inode off h.listed hlen (by rw [Nat.zero_add]; exact hroom)
    exact (h.of_edits hj (taskVmaMapFile_edits _ _ _ _ _ _ _ _) ⟨h.listed, hlen⟩).settles
  · rw [he]
    obtain ⟨slack', lost', j, hj, hclear, -⟩ := h.held.taskVmaMap pid addr pr
      (MapFlags.ofBits flags) h.listed hlen
      (by rw [Nat.zero_add]; exact hroom)
    have hno : Op.clear s (.mmap pid addr len prot flags fd off) →
        slack' = slack ∧ lost' = lost := fun hc =>
      hclear (placedClear_of_tidy h.mem.linked h.listed hlen (hc hanon))
    exact ⟨slack', lost', h.of_edits hj (taskVmaMap_edits _ _ _ _ _ _) ⟨h.listed, hlen⟩,
      fun hc => (hno hc).1, fun hc => (hno hc).2⟩

theorem ipcSendPages {target : Nat} (hroom : Room s.mm 4) :
    SysOk pool slack lost (ipcSendPages s pid target addr pages).2.2 := by
  obtain ⟨j, hj⟩ := h.held.ipcSendPages h.listed (hroom.mono (by omega)) h.pids
  refine h.of_held hj h.listed.ipcSendPages ?_
  rcases ipcSendPages_cases s pid target addr pages with ⟨r, s1, he, ht⟩ | ⟨msg, s1, he, ht, -⟩
  · rw [he]; exact ht.tasks.maps
  · rw [he]; exact ht.tasks.maps.trans (.setQueue _)

theorem ipcRecv {ptr : Nat} (hroom : Room s.mm 4) (hp : (s.proc pid).isSome) :
    Settles pool slack lost (Op.clear s (.ipcRecv pid ptr))
      (Op.clear s (.ipcRecv pid ptr) ∧ Op.recvTables s (.ipcRecv pid ptr))
      (ipcRecv s pid ptr).2.2 := by
  refine h.settle (h.held.ipcRecv h.listed (hroom.mono (by omega)) hp
    (h.pid_lt hp)) h.listed.ipcRecv ?_ id id
  rcases ipcRecv_cases s pid ptr with ⟨r, he⟩ | ⟨msg, rest, r, s1, -, he, ht⟩
  · rw [he]; exact ⟨fun _ => rfl, rfl⟩
  · rw [he]; exact (SameMaps.setQueue _).trans ht.tasks.maps

theorem shmMap {ptr : Nat}
    (hroom : ∀ obj, s.shm id = some obj → Room s.mm (obj.frames.length + 4)) :
    Settles pool slack lost (Op.clear s (.shmMap pid id ptr) ∧ Op.shmTables s (.shmMap pid id ptr))
      (Op.clear s (.shmMap pid id ptr)) (shmMap s pid id ptr).2 := by
  cases hobj : s.shm id with
  | none =>
    have hs : (Mm.shmMap s pid id ptr).2 = s := by
      unfold Mm.shmMap
      split
      · rfl
      · rw [hobj]
    rw [hs]; exact h.settles
  | some obj =>
    have hsp := h.held.shmMap pid ptr h.listed hobj (by rw [Nat.zero_add]; exact hroom obj hobj)
    exact h.settle_edits hsp (shmMap_edits _ _ _ _)
      (fun hc => ⟨hc.1 obj hobj, hc.2 obj hobj⟩) fun hc => hc obj hobj

theorem shmMapAt {first : Nat} (hroom : ∀ obj, s.shm id = some obj → Room s.mm obj.frames.length) :
    Settles pool slack lost (Op.clear s (.shmMapAt pid id first pages addr) ∧
        Op.shmTables s (.shmMapAt pid id first pages addr))
      (Op.clear s (.shmMapAt pid id first pages addr))
      (shmMapAt s pid id first pages addr).2 := by
  cases hobj : s.shm id with
  | none =>
    have hs : (Mm.shmMapAt s pid id first pages addr).2 = s := by
      unfold Mm.shmMapAt
      split
      · rfl
      · rw [hobj]
    rw [hs]; exact h.settles
  | some obj =>
    have hsp := h.held.shmMapAt pid first pages addr h.listed hobj
      (by rw [Nat.zero_add]; exact hroom obj hobj)
    exact h.settle_edits hsp (shmMapAt_edits _ _ _ _ _ _) (fun hc => hc) fun hc => hc

theorem sysMapfb {outPages : Nat} {fb : Frame} (hroom : Room s.mm 4) :
    Settles pool slack lost (Op.clear s (.mapfb pid outPages fb pages))
      (Op.clear s (.mapfb pid outPages fb pages)) (sysMapfb s pid outPages fb pages).2 := by
  have hsp := h.held.sysMapfb pid outPages pages fb h.listed (by exact hroom)
  exact h.settle_edits hsp (sysMapfb_edits _ _ _ _ _) (MapfbSpot.mapfbClear h.mem.linked h.listed)
      (MapfbSpot.mapfbClear h.mem.linked h.listed)

theorem sysMunmap : SysOk pool slack lost (sysMunmap s pid addr len).2 :=
  h.of_edits (h.held.edits (sysMunmap_edits s pid addr len)) (sysMunmap_edits _ _ _ _) trivial

theorem sysMadvise : SysOk pool slack lost (sysMadvise s pid addr len).2 := by
  have hh : Held pool slack lost (queued s) s.mm 0 (Mm.sysMadvise s pid addr len).2 := by
    unfold Mm.sysMadvise
    split
    · exact h.held
    split
    · exact h.held
    dsimp only
    split
    · exact h.held
    · exact h.held.taskVmaDiscard
  exact h.of_same hh (sysMadvise_same _ _ _ _)

theorem shmCreate : SysOk pool slack lost (shmCreate s pid pages).2 := by
  obtain ⟨j, hj⟩ := h.held.shmCreate
  exact h.of_tasks hj (h.listed.of_proc Listed.shmCreate_proc) (shmCreate_tasks _ _ _)

theorem shmDestroy : SysOk pool slack lost (shmDestroy s pid id).2 :=
  h.of_tasks h.held.shmDestroy (h.listed.of_proc Listed.shmDestroy_proc) (shmDestroy_tasks _ _ _)

/-- One step keeps the system in order. What it drops, it drops because a range
was not clear or a page table was not to be had. -/
theorem step {op : Op} (hroom : op.room s) :
    Settles pool slack lost (op.clear s ∧ op.shmTables s) (op.clear s ∧ op.recvTables s)
      (step s op) := by
  unfold Mm.step
  split
  · rename_i hen
    have hproc : ∀ pid live, op.caller = some (pid, live) → (s.proc pid).isSome :=
      fun pid live hc => by
        unfold Op.enabled at hen
        rw [hc] at hen
        exact Option.isSome_of_any hen
    cases op with
    | spawn => exact h.spawn.settles
    | fork pid => exact (h.schedFork (hproc _ _ rfl) hroom).settles
    | pageFault pid cr2 err =>
      exact (h.of_same (h.held.pageFault h.listed (hroom.mono (by omega)))
        (pageFault_same _ _ _ _)).settles
    | mmap pid addr len prot flags fd off =>
      exact (h.sysMmap hroom).mono (·.1) (·.1)
    | munmap => exact h.sysMunmap.settles
    | mprotect =>
      exact (h.of_edits h.held.sysMprotect (sysMprotect_edits _ _ _ _ _) trivial).settles
    | madvise => exact h.sysMadvise.settles
    | mapfb pid outPages fb pages =>
      exact (h.sysMapfb hroom).mono (·.1) (·.1)
    | memfdCreate => exact (h.of_same h.held.memfdCreate (memfdCreate_same _ _)).settles
    | memfdWrite id data size offset =>
      simp only [perform]; split
      · obtain ⟨j, hj⟩ := h.held.memfdWrite
        exact (h.of_same hj (memfdWrite_same _ _ _ _ _)).settles
      · exact h.settles
    | memfdTruncate =>
      simp only [perform]; split
      · exact (h.of_same h.held.memfdResize (memfdResize_same _ _ _)).settles
      · exact h.settles
    | memfdAddSeals =>
      simp only [perform]; split
      · exact (h.of_same h.held.memfdAddSeals (memfdAddSeals_same _ _ _)).settles
      · exact h.settles
    | memfdClose => exact (h.of_same h.held.memfdClose (memfdClose_same _ _)).settles
    | shmCreate => exact h.shmCreate.settles
    | shmMap pid id ptr =>
      exact (h.shmMap hroom).mono (fun hc => hc) (·.1)
    | shmMapAt pid id first pages addr =>
      exact (h.shmMapAt hroom).mono (fun hc => hc) (·.1)
    | shmDestroy => exact h.shmDestroy.settles
    | ipcSend => exact (h.ipcSendPages hroom).settles
    | ipcRecv pid ptr =>
      exact (h.ipcRecv hroom (hproc _ _ rfl)).mono (·.1) id
    | exit => exact h.processExit.settles
    | reap => exact (h.schedulerReap (hproc _ _ rfl)).settles
  · exact h.settles

end SysOk

end BleedKernel.Mm
