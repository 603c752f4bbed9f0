import BleedKernel.Model.Ipc

/-!
# The calls a process can make

The system calls over mappings with the checks each makes on its arguments, the
page fault handler, fork, and the end of a process; then `Op`, one constructor
for each of them, and `step`, which performs one.
-/

namespace BleedKernel.Mm

open BleedKernel.Lib

/-! ## `syscalls/impl/sys_mmap.c` -/

/-- `vma_len`: the length in whole pages, 0 if it does not fit. -/
def vmaLen (addr len : Nat) : Nat :=
  if len = 0 ∨ addr + len ≥ 2 ^ 64 ∨ addr + len > pageAlignDown (2 ^ 64 - 1) then 0
  else pageAlignUp len

/-- How a file was opened. -/
inductive OpenMode where
  | rdonly | wronly | rdwr
deriving DecidableEq, Repr

/-- What a file descriptor refers to; `inode` is missing for anything that is
not a regular file or a memfd. -/
structure FileDesc where
  inode : Option Backing
  mode : OpenMode
deriving DecidableEq, Repr

/-- A descriptor of a memfd is one of its open file. -/
def FileDesc.valid (s : Sys) (fd : FileDesc) : Bool :=
  match fd.inode with
  | some (.memfd id) => (s.memfd id).any (·.fileOpen)
  | _ => true

/-- `map_fd` -/
def mapFd (s : Sys) (pid addr len : Nat) (prot : Prot) (flags : MapFlags)
    (fd : Option FileDesc) (off : Nat) : Except Errno Nat × Sys :=
  if off % pageSize ≠ 0 then (.error .einval, s)
  else
    match fd with
    | none => (.error .ebadf, s)
    | some f =>
      let shared := decide (flags.type ≠ .private_)
      if !f.valid s then (.error .ebadf, s)
      else
        match f.inode with
        | none => (.error .enodev, s)
        | some inode =>
          if f.mode = .wronly ∨ (shared ∧ prot.write ∧ f.mode ≠ .rdwr) then
            (.error .eacces, s)
          else if shared ∧ prot.write ∧ (memfdIs (some inode)).isNone then
            (.error .enodev, s)
          else
            taskVmaMapFile s pid addr len prot
              { flags with kernelNowrite := shared && decide (f.mode ≠ .rdwr) }
              inode off

/-- `sys_mmap` -/
def sysMmap (s : Sys) (pid addr len prot flags : Nat) (fd : Option FileDesc)
    (off : Nat) : Except Errno Nat × Sys :=
  let len := vmaLen addr len
  let flags := MapFlags.ofBits flags
  if len = 0 then (.error .einval, s)
  else
    match Prot.ofBits prot with
    | none => (.error .einval, s)
    | some prot =>
      if flags.type = .other then (.error .einval, s)
      else if !flags.anonymous then mapFd s pid addr len prot flags fd off
      else taskVmaMap s pid addr len prot flags

/-- `sys_munmap`; length 0 unmaps the whole mapping at the address. -/
def sysMunmap (s : Sys) (pid addr len : Nat) : Except Errno Unit × Sys :=
  if addr % pageSize ≠ 0 then (.error .einval, s)
  else if len = 0 then (.ok (), taskMunmap s pid addr)
  else
    let len := vmaLen addr len
    if len = 0 ∨ !userPtrValid addr then (.error .einval, s)
    else taskVmaUnmap s pid addr len

/-- `sys_madvise`, for `MADV_DONTNEED` and `MADV_FREE`; the rest are hints. -/
def sysMadvise (s : Sys) (pid addr len : Nat) : Except Errno Unit × Sys :=
  if addr % pageSize ≠ 0 then (.error .einval, s)
  else if len = 0 then (.ok (), s)
  else
    let len := vmaLen addr len
    if len = 0 then (.error .einval, s)
    else (.ok (), taskVmaDiscard s pid addr len)

/-! ## `syscalls/impl/sys_mprotect.c` -/

/-- One page of the second loop of `sys_mprotect`. -/
def mprotectPage (cr3 : Cr3) (prot : Prot) (page : Nat) (m : Memory) : Bool × Memory :=
  let r :=
    if !prot.write && (m.pte cr3 page).cow then pagingHandleCowFault m cr3 page 7
    else (true, m)
  if !r.1 then (false, r.2)
  else
    let p := r.2.pte cr3 page
    let w := if prot.write then p.writable || !p.cow else false
    (true, r.2.setPteAt cr3 (pageIdx page) { p with writable := w, nx := !prot.exec })

/-- `sys_mprotect`. A range `task_vma_protect` gives up on with `-ENOMEM` is
done page by page, if every page of it is there. -/
def sysMprotect (s : Sys) (pid addr len prot : Nat) : Except Errno Unit × Sys :=
  if addr % pageSize ≠ 0 then (.error .einval, s)
  else
    match Prot.ofBits prot with
    | none => (.error .einval, s)
    | some prot =>
      if len = 0 then (.ok (), s)
      else if addr + len ≥ 2 ^ 64 then (.error .enomem, s)
      else
        let fin := pageAlignUp (addr + len)
        if !userPtrValid addr || !userPtrValid (fin - 1) then (.error .enomem, s)
        else
          match taskVmaProtect s pid addr (fin - addr) prot with
          | (.error .enomem, s) =>
            if !prot.any then (.error .einval, s)
            else
              let cr3 := s.pageMap pid
              let pages := (List.range ((fin - addr) / pageSize)).map
                fun i => addr + i * pageSize
              if pages.all fun page =>
                  (pagingGetPage s.mm cr3 page).any (·.user) then
                let r := forEach (mprotectPage cr3 prot) pages s.mm
                (if r.1 then .ok () else .error .enomem, { s with mm := r.2 })
              else (.error .enomem, s)
          | r => r

/-! ## The page fault handler, and the framebuffer -/

/-- `ke_user_program_exception` on a page fault, up to where it gives up. -/
def pageFault (s : Sys) (pid cr2 err : Nat) : Bool × Sys :=
  match pagingHandleCowFault s.mm (s.pageMap pid) cr2 err with
  | (true, mm) => (true, { s with mm })
  | (false, mm) =>
    let s := { s with mm }
    if err.testBit 0 then (false, s)
    else
      match taskFaultIn s pid cr2 (err.testBit 1) (err.testBit 4) with
      | (true, s) => (true, s)
      | (false, s) =>
        let r := pagingHandleStackFault s.mm (s.pageMap pid) cr2
        (r.1, { s with mm := r.2 })

/-- The loop of `sys_mapfb`: the device's frames, marked as not ours. -/
def mapDevice (cr3 : Cr3) (fb : Frame) (base pages : Nat) (m : Memory) : Memory :=
  (List.range pages).foldl
    (fun m i => pagingMapPageInvl m cr3 (fb + i) (base + i * pageSize)
      { writable := true, user := true, nx := true, nofree := true }) m

/-- `sys_mapfb` -/
def sysMapfb (s : Sys) (pid outPages : Nat) (fb : Frame) (pages : Nat) :
    Except Errno Nat × Sys :=
  if outPages = 0 then (.error .efault, s)
  else
    match copyToUser s pid outPages (leBytes pages) with
    | (false, s) => (.error .efault, s)
    | (true, s) =>
      match taskMmapReserve s pid pages with
      | (none, s) => (.error .enomem, s)
      | (some base, s) =>
        (.ok base, { s with mm := mapDevice (s.pageMap pid) fb base pages s.mm })

/-! ## Fork, exit and the reaper -/

/-- Several allocations, all needed. -/
def kmallocAll (n : Nat) (s : Sys) : Bool × Sys :=
  forEach (fun (_ : Nat) s => s.kmalloc) (List.range n) s

/-- `sched_free_alloc_list` -/
def schedFreeAllocList (s : Sys) (l : List UserAlloc) : Sys := l.foldl userAllocFree s

/-- `clone_user_alloc_list`; `done` are the nodes copied so far, which go again
when one cannot be had. -/
def cloneUserAllocList : List UserAlloc → List UserAlloc → Sys → Bool × Sys
  | [], _, s => (true, s)
  | a :: l, done, s =>
    match s.kmalloc with
    | (false, s) => (false, schedFreeAllocList s done)
    | (true, s) => cloneUserAllocList l (done ++ [a]) (userAllocCopy s a)

/-- `paging_destroy_address_space` on the way out of a fork that failed. -/
def dropSpace (s : Sys) (cr3 : Cr3) : Sys :=
  { s with mm := pagingDestroyAddressSpace s.mm cr3 }

/-- `sched_fork`: the address space, then the task, its pid, group, stack, FPU
state and descriptors, then the alloc list, then the heap. -/
def schedFork (s : Sys) (pid : Nat) : Option Nat × Sys :=
  match pagingCreateAddressSpace s.mm with
  | (none, mm) => (none, { s with mm })
  | (some child, mm) =>
    match pagingCloneUserSpace mm (s.pageMap pid) child with
    | (false, mm) => (none, dropSpace { s with mm } child)
    | (true, mm) =>
      match kmallocAll 6 { s with mm } with
      | (false, s) => (none, dropSpace s child)
      | (true, s) =>
        match cloneUserAllocList (s.allocs pid) [] s with
        | (false, s) => (none, dropSpace s child)
        | (true, s) =>
          match s.kmalloc with
          | (false, s) =>
            (none, dropSpace (schedFreeAllocList s (s.allocs pid)) child)
          | (true, s) =>
            (some s.nextPid,
              s.addProc { pageMap := child, allocList := s.allocs pid })

/-- A new process with nothing mapped. The pages `elf_load` and exec map, and those of the
audio ring, are in no run here. -/
def spawn (s : Sys) : Option Nat × Sys :=
  match pagingCreateAddressSpace s.mm with
  | (none, mm) => (none, { s with mm })
  | (some cr3, mm) =>
    (some s.nextPid, { s with mm }.addProc { pageMap := cr3 })

/-- `process_exit`, as far as memory goes. -/
def processExit (s : Sys) (pid : Nat) : Sys :=
  let s := shmTaskCleanup s pid
  let s := (s.allocs pid).foldl (unmapAlloc pid) s
  let s := s.setAllocs pid []
  let s := { s with mm := pagingReleaseUserSpace s.mm (s.pageMap pid) }
  s.updProc pid fun p => { p with live := false }

/-- `scheduler_reap`, for the last thread of a process. -/
def schedulerReap (s : Sys) (pid : Nat) : Sys :=
  let s := ipcTaskCleanup s pid
  let s := schedFreeAllocList s (s.allocs pid)
  let s := dropSpace s (s.pageMap pid)
  { s with proc := Function.update s.proc pid none }

/-! ## One call -/

/-- Everything that changes the modelled state. -/
inductive Op where
  | spawn
  | fork (pid : Nat)
  | pageFault (pid cr2 err : Nat)
  | mmap (pid addr len prot flags : Nat) (fd : Option FileDesc) (off : Nat)
  | munmap (pid addr len : Nat)
  | mprotect (pid addr len prot : Nat)
  | madvise (pid addr len : Nat)
  | mapfb (pid outPages : Nat) (fb : Frame) (pages : Nat)
  | memfdCreate (allowSealing : Bool)
  | memfdWrite (id : Nat) (data : Nat → UInt8) (size offset : Nat)
  | memfdTruncate (id size : Nat)
  | memfdAddSeals (id bits : Nat)
  | memfdClose (id : Nat)
  | shmCreate (pid pages : Nat)
  | shmMap (pid id userPagesPtr : Nat)
  | shmMapAt (pid id first pages addr : Nat)
  | shmDestroy (pid id : Nat)
  | ipcSend (pid targetPid addr pages : Nat)
  | ipcRecv (pid userMsgPtr : Nat)
  | exit (pid : Nat)
  | reap (pid : Nat)

/-- The process a call is made by, and whether it has to be alive. -/
def Op.caller : Op → Option (Nat × Bool)
  | .fork pid | .pageFault pid _ _ | .mmap pid _ _ _ _ _ _ | .munmap pid _ _
  | .mprotect pid _ _ _ | .madvise pid _ _ | .mapfb pid _ _ _ | .shmCreate pid _
  | .shmMap pid _ _ | .shmMapAt pid _ _ _ _ | .shmDestroy pid _
  | .ipcSend pid _ _ _ | .ipcRecv pid _ | .exit pid => some (pid, true)
  | .reap pid => some (pid, false)
  | _ => none

/-- A call can be made: its process is there, running when it has to run and
over when it has to be over. -/
def Op.enabled (s : Sys) (op : Op) : Bool :=
  match op.caller with
  | none => true
  | some (pid, live) => (s.proc pid).any fun p => p.live == live

/-- A descriptor of the memfd is open. -/
def memfdOpen (s : Sys) (id : Nat) : Bool := (s.memfd id).any (·.fileOpen)

/-- What a call does. -/
def perform (s : Sys) : Op → Sys
  | .spawn => (spawn s).2
  | .fork pid => (schedFork s pid).2
  | .pageFault pid cr2 err => (pageFault s pid cr2 err).2
  | .mmap pid addr len prot flags fd off =>
    (sysMmap s pid addr len prot flags fd off).2
  | .munmap pid addr len => (sysMunmap s pid addr len).2
  | .mprotect pid addr len prot => (sysMprotect s pid addr len prot).2
  | .madvise pid addr len => (sysMadvise s pid addr len).2
  | .mapfb pid outPages fb pages => (sysMapfb s pid outPages fb pages).2
  | .memfdCreate allowSealing => (memfdCreate s allowSealing).2
  | .memfdWrite id data size offset =>
    if memfdOpen s id then (memfdWrite s id data size offset).2 else s
  | .memfdTruncate id size => if memfdOpen s id then (memfdResize s id size).2 else s
  | .memfdAddSeals id bits => if memfdOpen s id then (memfdAddSeals s id bits).2 else s
  | .memfdClose id => memfdClose s id
  | .shmCreate pid pages => (shmCreate s pid pages).2
  | .shmMap pid id ptr => (shmMap s pid id ptr).2
  | .shmMapAt pid id first pages addr => (shmMapAt s pid id first pages addr).2
  | .shmDestroy pid id => (shmDestroy s pid id).2
  | .ipcSend pid target addr pages => (ipcSendPages s pid target addr pages).2.2
  | .ipcRecv pid ptr => (ipcRecv s pid ptr).2.2
  | .exit pid => processExit s pid
  | .reap pid => schedulerReap s pid

/-- One step of the system; a call that cannot be made changes nothing. -/
def step (s : Sys) (op : Op) : Sys := if op.enabled s then perform s op else s

/-- The system before the first process. -/
def Sys.boot (pool : Frame → Bool) (answers : List (Option Frame))
    (cowKmalloc kmallocs : List Bool) (fileReads : List (Option (Nat → UInt8)))
    (bytes : Frame → Nat → UInt8) (usableMem : Nat) : Sys where
  mm := { free := pool, answers, cowReady := false, cowKmalloc,
          cowRefs := fun _ => 0, bytes, spaces := [] }
  proc := fun _ => none
  nextPid := 1
  memfd := fun _ => none
  nextMemfd := 0
  shm := fun _ => none
  shmNextId := 1
  kmallocs := kmallocs
  fileReads := fileReads
  usableMem := usableMem

/-- A machine with 63 frames, handed out in order. `cowKmalloc` and `kmallocs`
are what it has to say to `cow_init` and to everyone else. -/
def Sys.small (answers : List (Option Frame)) (cowKmalloc kmallocs : List Bool) : Sys :=
  Sys.boot (fun f => decide (0 < f) && decide (f < 64)) answers cowKmalloc kmallocs []
    (fun _ _ => 0) (2 ^ 30)

end BleedKernel.Mm
