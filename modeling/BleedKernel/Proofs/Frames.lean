import BleedKernel.Model.Syscalls
import BleedKernel.Proofs.PageTables

/-!
# What the calls leave alone

Most of the code changes the memory and the memfds and nothing else. `SameProcs`
says so, and every function below the system calls that has this property has
it here.
-/

namespace BleedKernel.Mm

open BleedKernel.Lib

variable {s : Sys} {pid q : Nat} {l : List UserAlloc} {p : Proc}

/-! ## Reading a process after a store -/

namespace Sys

theorem proc_updProc {g : Proc → Proc} :
    (s.updProc pid g).proc q = if q = pid then (s.proc pid).map g else s.proc q := by
  unfold updProc
  by_cases h : q = pid
  · subst h; simp
  · simp [h]

theorem allocs_setAllocs : (s.setAllocs pid l).allocs q
      = if q = pid ∧ (s.proc pid).isSome then l else s.allocs q := by
  unfold allocs setAllocs
  rw [proc_updProc]
  by_cases h : q = pid
  · subst h
    cases s.proc q <;> simp
  · simp [h]

@[simp] theorem pageMap_setAllocs : (s.setAllocs pid l).pageMap q = s.pageMap q := by
  unfold pageMap setAllocs
  rw [proc_updProc]
  by_cases h : q = pid
  · subst h
    cases s.proc q <;> simp
  · simp [h]

@[simp] theorem allocs_setQueue {l : List IpcMessage} :
    (s.setQueue pid l).allocs q = s.allocs q := by
  unfold allocs setQueue
  rw [proc_updProc]
  by_cases h : q = pid
  · subst h
    cases s.proc q <;> simp
  · simp [h]

theorem queue_setQueue (pid : Nat) {l : List IpcMessage} :
    (s.setQueue pid l).queue q = if q = pid ∧ (s.proc pid).isSome then l else s.queue q := by
  unfold queue setQueue
  rw [proc_updProc]
  by_cases h : q = pid
  · subst h
    cases s.proc q <;> simp
  · simp [h]

end Sys

/-! ## Processes and shared memory objects stay -/

/-- The processes and the shared memory objects are as they were. -/
structure SameProcs (s s' : Sys) : Prop where
  proc : s'.proc = s.proc
  nextPid : s'.nextPid = s.nextPid
  shm : s'.shm = s.shm
  shmNextId : s'.shmNextId = s.shmNextId

namespace SameProcs

variable {s s' s'' : Sys}

theorem rfl' : SameProcs s s := ⟨rfl, rfl, rfl, rfl⟩

theorem mm (m : Memory) : SameProcs s { s with mm := m } := ⟨rfl, rfl, rfl, rfl⟩

theorem trans (h : SameProcs s s') (h' : SameProcs s' s'') : SameProcs s s'' :=
  ⟨h'.proc.trans h.proc, h'.nextPid.trans h.nextPid, h'.shm.trans h.shm,
    h'.shmNextId.trans h.shmNextId⟩

theorem allocs (h : SameProcs s s') (pid : Nat) : s'.allocs pid = s.allocs pid := by
  unfold Sys.allocs; rw [h.proc]

theorem pageMap (h : SameProcs s s') (pid : Nat) : s'.pageMap pid = s.pageMap pid := by
  unfold Sys.pageMap; rw [h.proc]

end SameProcs

/-- Files come and go without any process or any page table hearing of it. -/
structure OnlyFiles (s s' : Sys) : Prop extends SameProcs s s' where
  spaces : s'.mm.spaces = s.mm.spaces

namespace OnlyFiles

variable {s s' s'' : Sys}

theorem rfl' : OnlyFiles s s := ⟨.rfl', rfl⟩

theorem trans (h : OnlyFiles s s') (h' : OnlyFiles s' s'') : OnlyFiles s s'' :=
  ⟨h.toSameProcs.trans h'.toSameProcs, h'.spaces.trans h.spaces⟩

/-- A memfd, an answer of `kmalloc` or the contents of a frame is another one. -/
theorem upd (h : OnlyFiles s s') {m memfd n ks reads} (hm : m.spaces = s'.mm.spaces) :
    OnlyFiles s { s' with
      mm := m, memfd := memfd, nextMemfd := n, kmallocs := ks, fileReads := reads } :=
  h.trans ⟨⟨rfl, rfl, rfl, rfl⟩, hm⟩

end OnlyFiles

theorem kmalloc_same (s : Sys) : OnlyFiles s s.kmalloc.2 := by
  unfold Sys.kmalloc
  split <;> exact OnlyFiles.rfl'.upd rfl

theorem setMemfd_same (s : Sys) (id : Nat) (o : Option Memfd) :
    OnlyFiles s (s.setMemfd id o) := OnlyFiles.rfl'.upd rfl

theorem growSlots_same (s : Sys) (id : Nat) (m : Memfd) (want : Nat) :
    OnlyFiles s (growSlots s id m want).2 := by
  have hk := kmalloc_same s
  unfold growSlots
  split
  · exact .rfl'
  · dsimp only
    split <;> next hr => rw [hr] at hk; exact hk.upd rfl

theorem memfdPage_same (s : Sys) (id index : Nat) (create : Bool) :
    OnlyFiles s (memfdPage s id index create).2 := by
  unfold memfdPage
  split
  · exact .rfl'
  rename_i m _
  have hg := growSlots_same s id m (index + 1)
  split
  · exact .rfl'
  split
  · exact .rfl'
  split
  · exact .rfl'
  split
  · next hr => rw [hr] at hg; exact hg
  rename_i s1 hr
  rw [hr] at hg
  have ha := pmmAllocPages_spaces s1.mm
  split
  · next hr => rw [hr] at ha; exact hg.upd ha
  rename_i p mm hr
  rw [hr] at ha
  have hr' : (cowRefPage (mm.setBytes p fun _ => 0) p).spaces = s1.mm.spaces :=
    (cowRefPage_rest _ _).2.1.trans ha
  dsimp only
  split <;> exact hg.upd hr'

theorem framePut_spaces (m : Memory) (o : Option Frame) : (framePut m o).spaces = m.spaces := by
  unfold framePut
  split
  · rfl
  rename_i f
  dsimp only
  split
  · exact (cowUnrefPage_rest m f).2.1
  · exact (cowUnrefPage_rest m f).2.1

theorem framePuts_spaces (m : Memory) (l : List (Option Frame)) :
    (l.foldl framePut m).spaces = m.spaces :=
  foldl_inv (P := fun m' : Memory => m'.spaces = m.spaces)
    (fun _ _ _ => (framePut_spaces _ _).trans) rfl

section

variable (s : Sys)

theorem memfdDrop_same (id : Nat) : OnlyFiles s (memfdDrop s id) := by
  unfold memfdDrop
  split
  · exact .rfl'
  · exact OnlyFiles.rfl'.upd (framePuts_spaces _ _)

theorem memfdTrackWriter_same (id : Nat) (delta : Int) :
    OnlyFiles s (memfdTrackWriter s id delta).2 := by
  unfold memfdTrackWriter
  split
  · exact .rfl'
  · split <;> exact OnlyFiles.rfl'.upd rfl

theorem probeWriter_same (inode : Backing) (writes : Bool) :
    OnlyFiles s (probeWriter s inode writes).2 := by
  unfold probeWriter
  split
  · exact .rfl'
  rename_i id _
  have h1 := memfdTrackWriter_same s id 1
  split
  · exact .rfl'
  split
  · next he => rw [he] at h1; exact h1
  · next he => rw [he] at h1; exact h1.trans (memfdTrackWriter_same _ _ _)

theorem trackProt_same (a : UserAlloc) (prot : Prot) : OnlyFiles s (trackProt s a prot).2 := by
  unfold trackProt
  split
  · exact memfdTrackWriter_same _ _ _
  · exact memfdTrackWriter_same _ _ _
  · exact .rfl'

theorem vfsHold_same (b : Backing) : OnlyFiles s (vfsHold s b) := by
  unfold vfsHold
  split
  · split <;> exact OnlyFiles.rfl'.upd rfl
  · exact .rfl'

theorem vfsDrop_same (b : Backing) : OnlyFiles s (vfsDrop s b) := by
  unfold vfsDrop
  split
  · split
    · exact .rfl'
    · split
      · exact .rfl'
      · split
        · exact memfdDrop_same _ _
        · exact OnlyFiles.rfl'.upd rfl
  · exact .rfl'

theorem userAllocFree_same (a : UserAlloc) : OnlyFiles s (userAllocFree s a) := by
  unfold userAllocFree
  split
  · exact .rfl'
  split
  · exact (memfdTrackWriter_same _ _ _).trans (vfsDrop_same _ _)
  · exact vfsDrop_same _ _

theorem userAllocCopy_same (a : UserAlloc) : OnlyFiles s (userAllocCopy s a) := by
  unfold userAllocCopy
  split
  · exact .rfl'
  split
  · exact (vfsHold_same _ _).trans (memfdTrackWriter_same _ _ _)
  · exact vfsHold_same _ _

theorem inodeRead_same (b : Backing) (f : Frame) (pos : Nat) :
    OnlyFiles s (inodeRead s b f pos).2 := by
  unfold inodeRead
  split
  · split <;> exact OnlyFiles.rfl'.upd rfl
  · split <;> exact OnlyFiles.rfl'.upd rfl

theorem faultInShared_same (pid : Nat) (a : UserAlloc) (page : Nat) :
    SameProcs s (faultInShared s pid a page).2 := by
  unfold faultInShared
  split
  · exact .rfl'
  rename_i id _
  have hp := memfdPage_same s id ((a.offset + (page - a.vaddr)) / pageSize) true
  split
  · next hr => rw [hr] at hp; exact hp.toSameProcs
  rename_i hr
  rw [hr] at hp
  dsimp only
  split <;> exact hp.toSameProcs.trans (.mm _)

theorem readIn_same (a : UserAlloc) (f : Frame) (page : Nat) :
    OnlyFiles s (readIn s a f page).2 := by
  unfold readIn
  split
  · exact .rfl'
  · exact inodeRead_same _ _ _ _

theorem faultInPrivate_same (pid : Nat) (a : UserAlloc) (page : Nat) :
    SameProcs s (faultInPrivate s pid a page).2 := by
  unfold faultInPrivate
  split
  · exact ⟨rfl, rfl, rfl, rfl⟩
  rename_i phys mm _
  have hr := (SameProcs.mm mm).trans (readIn_same { s with mm } a phys page).toSameProcs
  split
  · next he => rw [he] at hr; exact hr.trans (.mm _)
  rename_i he
  rw [he] at hr
  dsimp only
  split <;> exact hr.trans (.mm _)

theorem taskFaultIn_same (pid addr : Nat) (write exec : Bool) :
    SameProcs s (taskFaultIn s pid addr write exec).2 := by
  unfold taskFaultIn
  split
  · exact .rfl'
  split
  · exact .rfl'
  split
  · exact .rfl'
  split
  · exact .rfl'
  split
  · exact .rfl'
  split
  · exact faultInShared_same _ _ _ _
  · exact faultInPrivate_same _ _ _ _

theorem memfdResize_same (id size : Nat) : SameProcs s (memfdResize s id size).2 := by
  unfold memfdResize
  split
  · exact .rfl'
  rename_i m _
  split
  · exact .rfl'
  split
  · exact .rfl'
  dsimp only
  by_cases h : size < m.size
  · rw [if_pos h]
    split <;> exact ⟨rfl, rfl, rfl, rfl⟩
  · rw [if_neg h]
    split <;> exact ⟨rfl, rfl, rfl, rfl⟩

theorem memfdWriteLoop_same (id offset : Nat) (data : Nat → UInt8) (size : Nat) (l : List Nat) :
    SameProcs s (memfdWriteLoop id offset data size l s).2 := by
  refine forEach_inv (fun page _ t ht => ?_) .rfl'
  have hp := ht.trans (memfdPage_same t id page true).toSameProcs
  split
  · next he => rw [he] at hp; exact hp
  · next he => rw [he] at hp; exact hp.trans (.mm _)

theorem memfdWrite_same (id : Nat) (data : Nat → UInt8)
    (size offset : Nat) : SameProcs s (memfdWrite s id data size offset).2 := by
  unfold memfdWrite
  split
  · exact .rfl'
  rename_i m _
  split
  · exact .rfl'
  split
  · exact .rfl'
  dsimp only
  have hr : SameProcs s (if offset + size > m.size
      then memfdResize s id (offset + size) else (.ok (), s)).2 := by
    split
    · exact memfdResize_same _ _ _
    · exact .rfl'
  generalize (if offset + size > m.size
    then memfdResize s id (offset + size) else (.ok (), s)) = r at hr
  split
  · exact hr
  · exact hr.trans (memfdWriteLoop_same _ _ _ _ _ _)

theorem memfdAddSeals_same (id bits : Nat) : SameProcs s (memfdAddSeals s id bits).2 := by
  unfold memfdAddSeals
  split
  · exact .rfl'
  · exact .rfl'
  · split
    · exact .rfl'
    · split <;> exact ⟨rfl, rfl, rfl, rfl⟩

theorem memfdCreate_same (allowSealing : Bool) : SameProcs s (memfdCreate s allowSealing).2 := by
  have hk := (kmalloc_same s).toSameProcs
  unfold memfdCreate
  split <;> next he => rw [he] at hk; exact ⟨hk.1, hk.2, hk.3, hk.4⟩

theorem memfdClose_same (id : Nat) : SameProcs s (memfdClose s id) := by
  unfold memfdClose
  split
  · exact .rfl'
  split
  · exact ((setMemfd_same _ _ _).trans (vfsDrop_same _ _)).toSameProcs
  · exact .rfl'

/-! ## Reaching into user memory -/

theorem stackIn_same (pid page : Nat) : SameProcs s (stackIn s pid page) := by
  unfold stackIn
  split
  · exact .rfl'
  · exact .mm _

theorem fillIn_same (pid page : Nat) (write : Bool) : SameProcs s (fillIn s pid page write) := by
  unfold fillIn
  split
  · exact .rfl'
  · exact taskFaultIn_same _ _ _ _ _

theorem userPagePte_same (pid page : Nat) (write : Bool) :
    SameProcs s (userPagePte s pid page write).2 := by
  have h := (stackIn_same s pid page).trans (fillIn_same _ pid page write)
  unfold userPagePte
  dsimp only
  split
  · exact h
  split
  · exact h
  split
  · split
    · exact h.trans (.mm _)
    · split <;> exact h.trans (.mm _)
  · exact h

theorem userRangeMapped_same (pid addr len : Nat) (write : Bool) :
    SameProcs s (userRangeMapped s pid addr len write).2 := by
  unfold userRangeMapped
  split
  · exact .rfl'
  · exact forEach_inv (fun _ _ _ ht => ht.trans (userPagePte_same _ _ _ _)) .rfl'

theorem copyToUser_same (pid udst : Nat) (src : List UInt8) :
    SameProcs s (copyToUser s pid udst src).2 := by
  have h := userRangeMapped_same s pid udst src.length true
  unfold copyToUser
  split
  · exact .rfl'
  split
  · next he => rw [he] at h; exact h
  · next he => rw [he] at h; exact h.trans (.mm _)

theorem ipcValidatePage_same (pid page : Nat) : SameProcs s (ipcValidatePage s pid page).2 := by
  have h := fillIn_same s pid page true
  unfold ipcValidatePage
  dsimp only
  split
  · exact h
  split
  · exact h
  split
  · exact h
  split
  · split <;> exact h.trans (.mm _)
  · exact h

theorem ipcValidateSendRange_same (pid addr pages : Nat) :
    SameProcs s (ipcValidateSendRange s pid addr pages).2 := by
  unfold ipcValidateSendRange
  split
  · exact .rfl'
  split
  · exact .rfl'
  split
  · exact .rfl'
  · exact tryEach_inv (fun _ _ _ ht => ht.trans (ipcValidatePage_same _ _ _)) .rfl'

/-! ## Fork and exit -/

theorem schedFreeAllocList_same (l : List UserAlloc) : OnlyFiles s (schedFreeAllocList s l) :=
  foldl_inv (fun _ _ _ ht => ht.trans (userAllocFree_same _ _)) .rfl'

theorem cloneUserAllocList_same (l done : List UserAlloc) :
    OnlyFiles s (cloneUserAllocList l done s).2 := by
  induction l generalizing s done with
  | nil => exact .rfl'
  | cons a l ih =>
    have hk := kmalloc_same s
    rw [cloneUserAllocList]
    split
    · next he => rw [he] at hk; exact hk.trans (schedFreeAllocList_same _ _)
    rename_i he
    rw [he] at hk
    exact (hk.trans (userAllocCopy_same _ _)).trans (ih _ _)

/-! ## The page tables stay

Files come and go without any page table hearing of it. -/

theorem kmalloc_mm : s.kmalloc.2.mm = s.mm := by
  unfold Sys.kmalloc
  split <;> rfl

theorem allocSplit_spaces (pid va : Nat) : (allocSplit s pid va).2.mm.spaces = s.mm.spaces := by
  unfold allocSplit
  split
  · rfl
  split
  · rfl
  have hk := kmalloc_same s
  split
  · next he => rw [he] at hk; exact hk.spaces
  rename_i s1 he
  rw [he] at hk
  exact (hk.trans (userAllocCopy_same s1 _)).spaces

theorem ipcDetachAllocRange_spaces (pid addr pages : Nat) :
    (ipcDetachAllocRange s pid addr pages).2.mm.spaces = s.mm.spaces := by
  unfold ipcDetachAllocRange
  split
  · rfl
  dsimp only
  split
  · rfl
  split
  · rfl
  split
  · exact (userAllocFree_same _ _).spaces
  · rfl
  · rfl
  · have hk := kmalloc_same s
    split
    · next he => rw [he] at hk; exact hk.spaces
    rename_i s1 he
    rw [he] at hk
    exact (hk.trans (userAllocCopy_same s1 _)).spaces

end

/-! ## What a fork comes to -/

theorem Sys.proc_addProc (q : Nat) :
    (s.addProc p).proc q = if q = s.nextPid then some p else s.proc q := by
  unfold Sys.addProc
  dsimp only
  by_cases hq : q = s.nextPid
  · subst hq; rw [Function.update_self, if_pos rfl]
  · rw [Function.update_of_ne hq, if_neg hq]

theorem Sys.allocs_addProc (q : Nat) :
    (s.addProc p).allocs q = if q = s.nextPid then p.allocList else s.allocs q := by
  unfold Sys.allocs
  rw [Sys.proc_addProc]
  by_cases hq : q = s.nextPid
  · rw [if_pos hq, if_pos hq]
  · rw [if_neg hq, if_neg hq]

theorem Sys.queue_addProc (q : Nat) :
    (s.addProc p).queue q = if q = s.nextPid then p.ipc else s.queue q := by
  unfold Sys.queue
  rw [Sys.proc_addProc]
  by_cases hq : q = s.nextPid
  · rw [if_pos hq, if_pos hq]
  · rw [if_neg hq, if_neg hq]

theorem kmalloc_eq (s : Sys) : ∃ l, s.kmalloc.2 = { s with kmallocs := l } := by
  unfold Sys.kmalloc
  split
  · exact ⟨s.kmallocs, rfl⟩
  · next rest _ => exact ⟨rest, rfl⟩

theorem kmallocAll_eq (n : Nat) (s : Sys) : ∃ l, (kmallocAll n s).2 = { s with kmallocs := l } :=
  forEach_inv (P := fun t : Sys => ∃ l, t = { s with kmallocs := l }) (fun _ _ t ⟨_, ht⟩ => by
      obtain ⟨l, hl⟩ := kmalloc_eq t
      exact ⟨l, by rw [hl, ht]⟩) ⟨s.kmallocs, rfl⟩

/-- The state a fork by `pid` has got to once the address space is made: `ok`
when it goes on to make the process, otherwise the space goes again. -/
inductive ForkedTo (s : Sys) (pid : Nat) : Bool → Sys → Prop
  | early (l : List Bool) : ForkedTo s pid false { s with kmallocs := l }
  | copying (l : List Bool) (t : Sys)
      (h : cloneUserAllocList (s.allocs pid) [] { s with kmallocs := l } = (false, t)) :
      ForkedTo s pid false t
  | late (l l' : List Bool) (t : Sys)
      (h : cloneUserAllocList (s.allocs pid) [] { s with kmallocs := l } = (true, t)) :
      ForkedTo s pid false (schedFreeAllocList { t with kmallocs := l' } (s.allocs pid))
  | done (l l' : List Bool) (t : Sys)
      (h : cloneUserAllocList (s.allocs pid) [] { s with kmallocs := l } = (true, t)) :
      ForkedTo s pid true { t with kmallocs := l' }

theorem ForkedTo.same {t : Sys} {ok : Bool} (h : ForkedTo s pid ok t) : SameProcs s t := by
  have hk : ∀ (s : Sys) (l : List Bool), SameProcs s { s with kmallocs := l } :=
    fun _ _ => ⟨rfl, rfl, rfl, rfl⟩
  have hc : ∀ {b : Bool} {l : List Bool} {t : Sys},
      cloneUserAllocList (s.allocs pid) [] { s with kmallocs := l } = (b, t) →
      SameProcs s t := fun {b l t} h => by
    have := (hk s l).trans (cloneUserAllocList_same _ (s.allocs pid) []).toSameProcs
    rwa [h] at this
  cases h with
  | early l => exact hk s l
  | copying l t h => exact hc h
  | late l l' t h =>
    exact ((hc h).trans (hk t l')).trans (schedFreeAllocList_same _ _).toSameProcs
  | done l l' t h => exact (hc h).trans (hk t l')

/-- What `sched_fork` comes to. -/
theorem schedFork_cases (s : Sys) (pid : Nat) : (∃ mm, pagingCreateAddressSpace s.mm = (none, mm) ∧
      schedFork s pid = (none, { s with mm })) ∨
    ∃ child mm mm1 b, pagingCreateAddressSpace s.mm = (some child, mm) ∧
      pagingCloneUserSpace mm (s.pageMap pid) child = (b, mm1) ∧
      ∃ t ok, ForkedTo { s with mm := mm1 } pid ok t ∧
        (ok = false ∧ schedFork s pid = (none, dropSpace t child) ∨
          ok = true ∧ b = true ∧ schedFork s pid = (some s.nextPid,
            t.addProc { pageMap := child, allocList := s.allocs pid })) := by
  unfold schedFork
  cases hcr : pagingCreateAddressSpace s.mm with
  | mk o mm =>
  cases o with
  | none => exact .inl ⟨mm, rfl, rfl⟩
  | some child =>
    refine .inr ⟨child, mm, ?_⟩
    dsimp only
    cases hcl : pagingCloneUserSpace mm (s.pageMap pid) child with
    | mk b mm1 =>
    refine ⟨mm1, b, rfl, rfl, ?_⟩
    cases b with
    | false => exact ⟨_, _, .early s.kmallocs, .inl ⟨rfl, rfl⟩⟩
    | true =>
      dsimp only
      obtain ⟨l, hl⟩ := kmallocAll_eq 6 { s with mm := mm1 }
      cases hk : kmallocAll 6 { s with mm := mm1 } with
      | mk b1 s1 =>
      rw [hk] at hl
      cases hl
      cases b1 with
      | false => exact ⟨_, _, .early l, .inl ⟨rfl, rfl⟩⟩
      | true =>
        dsimp only
        cases hc : cloneUserAllocList (s.allocs pid) [] { s with mm := mm1, kmallocs := l } with
        | mk b2 s2 =>
        have hal : s2.allocs pid = s.allocs pid := by
          have := (cloneUserAllocList_same { s with mm := mm1, kmallocs := l }
            (s.allocs pid) []).allocs pid
          rwa [hc] at this
        have hnp : s2.nextPid = s.nextPid := by
          have := (cloneUserAllocList_same { s with mm := mm1, kmallocs := l }
            (s.allocs pid) []).nextPid
          rwa [hc] at this
        have hl : Sys.allocs { s with mm := mm1, kmallocs := l } pid = s.allocs pid := rfl
        rw [hl, hc]
        cases b2 with
        | false => exact ⟨_, _, .copying l s2 hc, .inl ⟨rfl, rfl⟩⟩
        | true =>
          dsimp only
          obtain ⟨l', hl'⟩ := kmalloc_eq s2
          cases hk2 : s2.kmalloc with
          | mk b3 s3 =>
          rw [hk2] at hl'
          cases hl'
          cases b3 with
          | false =>
            refine ⟨_, _, .late l l' s2 hc, .inl ⟨rfl, ?_⟩⟩
            change (none, dropSpace (schedFreeAllocList _ (s2.allocs pid)) child) = _
            rw [hal]
            rfl
          | true =>
            refine ⟨_, _, .done l l' s2 hc, .inr ⟨rfl, rfl, ?_⟩⟩
            change (some s2.nextPid, Sys.addProc _
              { pageMap := child, allocList := s2.allocs pid }) = _
            rw [hal, hnp]

/-! ## The processes stay, up to their alloc lists -/

/-- A process without its mappings. -/
def Proc.bare (p : Proc) : Proc := { p with allocList := [] }

/-- The processes are the same but for their alloc lists. -/
structure SameTasks (s s' : Sys) : Prop where
  bare : ∀ q, (s'.proc q).map Proc.bare = (s.proc q).map Proc.bare
  nextPid : s'.nextPid = s.nextPid

theorem SameProcs.tasks {s' : Sys} (h : SameProcs s s') : SameTasks s s' :=
  ⟨fun q => by rw [h.proc], h.nextPid⟩

namespace SameTasks

variable {s s' s'' : Sys} {pid : Nat}

theorem rfl' : SameTasks s s := ⟨fun _ => rfl, rfl⟩

theorem trans (h : SameTasks s s') (h' : SameTasks s' s'') : SameTasks s s'' :=
  ⟨fun q => (h'.bare q).trans (h.bare q), h'.nextPid.trans h.nextPid⟩

theorem setAllocs (pid : Nat) : SameTasks s (s.setAllocs pid l) := ⟨fun q => by
    unfold Sys.setAllocs
    rw [Sys.proc_updProc]
    by_cases hq : q = pid
    · subst hq; rw [if_pos rfl]; cases s.proc q <;> rfl
    · rw [if_neg hq], rfl⟩

theorem mm (m : Memory) : SameTasks s { s with mm := m } := (SameProcs.mm m).tasks

theorem isSome (h : SameTasks s s') (q : Nat) : (s'.proc q).isSome = (s.proc q).isSome := by
  have := congrArg Option.isSome (h.bare q)
  simpa using this

theorem queue (h : SameTasks s s') (q : Nat) : s'.queue q = s.queue q := by
  have hb := h.bare q
  unfold Sys.queue
  cases hs : s.proc q with
  | none =>
    rw [hs] at hb
    rw [Option.map_eq_none_iff.mp hb]
  | some p =>
    rw [hs] at hb
    obtain ⟨p', hp', he⟩ := Option.map_eq_some_iff.mp hb
    rw [hp']
    have hi := congrArg Proc.ipc he
    exact hi

theorem pageMap (h : SameTasks s s') (q : Nat) : s'.pageMap q = s.pageMap q := by
  have hb := h.bare q
  unfold Sys.pageMap
  cases hs : s.proc q with
  | none =>
    rw [hs] at hb
    rw [Option.map_eq_none_iff.mp hb]
  | some p =>
    rw [hs] at hb
    obtain ⟨p', hp', he⟩ := Option.map_eq_some_iff.mp hb
    rw [hp']
    have hi := congrArg Proc.pageMap he
    exact hi

end SameTasks

theorem unmapAlloc_same (s : Sys) (pid : Nat) (a : UserAlloc) : SameProcs s (unmapAlloc pid s a) :=
  (SameProcs.mm _).trans (userAllocFree_same _ _).toSameProcs

theorem foldl_unmapAlloc_same (s : Sys) (pid : Nat) (l : List UserAlloc) :
    SameProcs s (l.foldl (unmapAlloc pid) s) :=
  foldl_inv (fun _ _ _ h => h.trans (unmapAlloc_same _ _ _)) .rfl'

theorem protectFrom_same (fin : Nat) (prot : Prot) (l : List UserAlloc) (s : Sys) :
    SameProcs s (protectFrom fin prot l s).2.2 := by
  induction l generalizing s with
  | nil => exact .rfl'
  | cons a l ih =>
    rw [protectFrom]
    split
    · have hr := (trackProt_same s a prot).toSameProcs
      split
      · next he => rw [he] at hr; exact hr
      · next he => rw [he] at hr; exact hr.trans (ih _)
    · exact .rfl'

theorem protectAllocs_same (addr fin : Nat) (prot : Prot) (l : List UserAlloc) (s : Sys) :
    SameProcs s (protectAllocs addr fin prot l s).2.2 := by
  induction l with
  | nil => exact .rfl'
  | cons a l ih =>
    rw [protectAllocs]
    split
    · exact .rfl'
    split
    · exact protectFrom_same _ _ _ _
    · exact ih

/-! ## What `mmap` comes to -/

/-- The file `map_fd` lets through: it is open, and open for what is asked. -/
structure MapsFile (s : Sys) (prot : Prot) (flags : MapFlags) (f : FileDesc)
    (inode : Backing) : Prop where
  valid : f.valid s = true
  inode : f.inode = some inode
  access : flags.type ≠ .private_ → prot.write = true → f.mode = .rdwr

section

variable (s : Sys)

theorem mapFd_cases (pid addr len : Nat) (prot : Prot) (flags : MapFlags)
    (fd : Option FileDesc) (off : Nat) :
    (∃ e, mapFd s pid addr len prot flags fd off = (.error e, s)) ∨
    ∃ f inode, MapsFile s prot flags f inode ∧
      mapFd s pid addr len prot flags fd off = taskVmaMapFile s pid addr len prot
        { flags with kernelNowrite := decide (flags.type ≠ .private_)
                                        && decide (f.mode ≠ .rdwr) } inode off := by
  unfold mapFd
  split
  · exact .inl ⟨_, rfl⟩
  split
  · exact .inl ⟨_, rfl⟩
  rename_i f
  dsimp only
  split
  · exact .inl ⟨_, rfl⟩
  rename_i hv
  split
  · exact .inl ⟨_, rfl⟩
  rename_i inode hi
  split
  · exact .inl ⟨_, rfl⟩
  rename_i hacc
  split
  · exact .inl ⟨_, rfl⟩
  refine .inr ⟨f, inode, ⟨by simpa using hv, hi, fun hs hw => ?_⟩, rfl⟩
  by_contra hm
  exact hacc (.inr ⟨by simpa using hs, hw, hm⟩)

theorem sysMmap_cases (pid addr len prot flags : Nat) (fd : Option FileDesc) (off : Nat) :
    (∃ e, sysMmap s pid addr len prot flags fd off = (.error e, s)) ∨
    (∃ pr f inode, MapsFile s pr (MapFlags.ofBits flags) f inode ∧
      sysMmap s pid addr len prot flags fd off = taskVmaMapFile s pid addr (vmaLen addr len) pr
          { MapFlags.ofBits flags with
            kernelNowrite := decide ((MapFlags.ofBits flags).type ≠ .private_)
                               && decide (f.mode ≠ .rdwr) } inode off) ∨
    ∃ pr, (MapFlags.ofBits flags).anonymous = true ∧ sysMmap s pid addr len prot flags fd off
        = taskVmaMap s pid addr (vmaLen addr len) pr (MapFlags.ofBits flags) := by
  unfold sysMmap
  dsimp only
  split
  · exact .inl ⟨_, rfl⟩
  split
  · exact .inl ⟨_, rfl⟩
  rename_i pr _
  split
  · exact .inl ⟨_, rfl⟩
  split
  · rcases mapFd_cases s pid addr (vmaLen addr len) pr (MapFlags.ofBits flags) fd off
      with he | ⟨f, inode, hm, he⟩
    · exact .inl he
    · exact .inr (.inl ⟨pr, f, inode, hm, he⟩)
  · next ha => exact .inr (.inr ⟨pr, by simpa using ha, rfl⟩)

/-! ## What `mprotect` comes to -/

/-- The length `sys_mprotect` passes on. -/
def mprotectLen (addr len : Nat) : Nat := pageAlignUp (addr + len) - addr

/-- The pages its second half goes over. -/
def mprotectRange (addr len : Nat) : List Nat :=
  (List.range (mprotectLen addr len / pageSize)).map fun i => addr + i * pageSize

theorem sysMprotect_cases (pid addr len prot : Nat) :
    (∃ r, sysMprotect s pid addr len prot = (r, s)) ∨
    ∃ pr, Prot.ofBits prot = some pr ∧ addr % pageSize = 0 ∧ len ≠ 0 ∧
      (sysMprotect s pid addr len prot = taskVmaProtect s pid addr (mprotectLen addr len) pr ∨
      ∃ s1, taskVmaProtect s pid addr (mprotectLen addr len) pr = (.error .enomem, s1) ∧
        (∃ r, sysMprotect s pid addr len prot = (r, s1) ∨ (∀ page ∈ mprotectRange addr len,
            (pagingGetPage s1.mm (s1.pageMap pid) page).any (·.user) = true) ∧
          sysMprotect s pid addr len prot = (r, { s1 with
            mm := (forEach (mprotectPage (s1.pageMap pid) pr)
              (mprotectRange addr len) s1.mm).2 }))) := by
  unfold sysMprotect
  split
  · exact .inl ⟨_, rfl⟩
  split
  · exact .inl ⟨_, rfl⟩
  rename_i pr hpr
  split
  · exact .inl ⟨_, rfl⟩
  rename_i hlen
  split
  · exact .inl ⟨_, rfl⟩
  dsimp only
  split
  · exact .inl ⟨_, rfl⟩
  refine .inr ⟨pr, hpr, by omega, hlen, ?_⟩
  split
  · rename_i s1 hp
    refine .inr ⟨s1, hp, ?_⟩
    split
    · exact ⟨_, .inl rfl⟩
    split
    · next hall =>
        exact ⟨_, .inr ⟨List.all_eq_true.mp hall, rfl⟩⟩
    · exact ⟨_, .inl rfl⟩
  · exact .inl rfl

/-! ## The other calls, and the processes -/

theorem taskVmaDiscard_same (pid addr len : Nat) : SameProcs s (taskVmaDiscard s pid addr len) := by
  refine foldl_inv (fun a _ t ht => ht.trans ?_) .rfl'
  unfold discardAlloc
  split
  · exact .rfl'
  · exact .mm _

theorem sysMadvise_same (pid addr len : Nat) : SameProcs s (sysMadvise s pid addr len).2 := by
  unfold sysMadvise
  split
  · exact .rfl'
  split
  · exact .rfl'
  dsimp only
  split
  · exact .rfl'
  · exact taskVmaDiscard_same _ _ _ _

theorem pageFault_same (pid cr2 err : Nat) : SameProcs s (pageFault s pid cr2 err).2 := by
  unfold pageFault
  split
  · exact .mm _
  rename_i mm _
  dsimp only
  split
  · exact .mm _
  have hf := (SameProcs.mm mm).trans (taskFaultIn_same { s with mm } pid cr2
    (err.testBit 1) (err.testBit 4))
  split
  · next he => rw [he] at hf; exact hf
  · next he => rw [he] at hf; exact hf.trans (.mm _)

theorem shmCreate_tasks (pid pages : Nat) : SameTasks s (shmCreate s pid pages).2 := by
  have hk := (kmalloc_same s).tasks
  unfold shmCreate
  split
  · exact .rfl'
  split
  · next he => rw [he] at hk; exact hk
  rename_i he
  rw [he] at hk
  split
  · exact hk.trans (.mm _)
  · exact ⟨hk.bare, hk.nextPid⟩

theorem shmDestroy_tasks (pid id : Nat) : SameTasks s (shmDestroy s pid id).2 := by
  unfold shmDestroy
  split
  · exact .rfl'
  split
  · exact .rfl'
  · exact ⟨fun _ => rfl, rfl⟩

theorem shmTaskCleanup_tasks (pid : Nat) : SameTasks s (shmTaskCleanup s pid) :=
  foldl_inv (fun _ _ _ ht => ht.trans (shmDestroy_tasks _ _ _)) .rfl'

end

end BleedKernel.Mm
