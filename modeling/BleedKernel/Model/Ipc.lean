import BleedKernel.Model.Mmap

/-!
# `user/user_copy.c`, `ipc/shm.c` and `ipc/zero_copy.c`

Writing to a user's memory, shared memory objects, and messages whose pages
change hands instead of being copied.
-/

namespace BleedKernel.Mm

open BleedKernel.Lib

/-! ## Writing to user memory -/

/-- `USER_MIN` -/
def userMin : Nat := 0x0000000000001000

/-- `USER_MAX` -/
def userMax : Nat := 0x00007fffffffffff

/-- `user_ptr_valid` -/
def userPtrValid (ptr : Nat) : Bool := decide (userMin ≤ ptr) && decide (ptr ≤ userMax)

/-- Grow the stack to the page, if it is missing and the stack's. -/
def stackIn (s : Sys) (pid page : Nat) : Sys :=
  match pagingGetPage s.mm (s.pageMap pid) page with
  | some _ => s
  | none => { s with mm := (pagingHandleStackFault s.mm (s.pageMap pid) page).2 }

/-- Fill the page in, if it is missing and a mapping's. -/
def fillIn (s : Sys) (pid page : Nat) (write : Bool) : Sys :=
  match pagingGetPage s.mm (s.pageMap pid) page with
  | some _ => s
  | none => (taskFaultIn s pid page write false).2

/-- `user_page_pte`: whether the task can touch the page, filled in or copied
first where that is all it takes. -/
def userPagePte (s : Sys) (pid page : Nat) (write : Bool) : Bool × Sys :=
  let cr3 := s.pageMap pid
  let s := fillIn (stackIn s pid page) pid page write
  match pagingGetPage s.mm cr3 page with
  | none => (false, s)
  | some pte =>
    if !pte.user then (false, s)
    else if write && !pte.writable then
      match pagingHandleCowFault s.mm cr3 page 7 with
      | (false, mm) => (false, { s with mm })
      | (true, mm) =>
        match pagingGetPage mm cr3 page with
        | none => (false, { s with mm })
        | some pte => (pte.writable, { s with mm })
    else (true, s)

/-- `user_range_mapped` -/
def userRangeMapped (s : Sys) (pid addr len : Nat) (write : Bool) : Bool × Sys :=
  if addr < userMin ∨ addr + len > userMax then (false, s)
  else
    let start := addr / pageSize
    let stop := (addr + len - 1) / pageSize
    forEach (fun p s => userPagePte s pid (p * pageSize) write)
      (List.range' start (stop + 1 - start)) s

/-- A byte stored through the page tables. -/
def storeByte (m : Memory) (cr3 : Cr3) (va : Nat) (b : UInt8) : Memory :=
  m.setBytes (m.pte cr3 va).phys
    (Function.update (m.bytes (m.pte cr3 va).phys) (va % pageSize) b)

/-- `copy_to_user` -/
def copyToUser (s : Sys) (pid udst : Nat) (src : List UInt8) : Bool × Sys :=
  if udst = 0 ∨ src.length = 0 then (false, s)
  else
    match userRangeMapped s pid udst src.length true with
    | (false, s) => (false, s)
    | (true, s) =>
      let mm := (List.range src.length).foldl
        (fun m k => storeByte m (s.pageMap pid) (udst + k) (src.getD k 0)) s.mm
      (true, { s with mm })

/-- The eight bytes of a word. -/
def leBytes (n : Nat) : List UInt8 :=
  (List.range 8).map fun i => UInt8.ofNat (n / 256 ^ i)

/-! ## `ipc/shm.c` -/

/-- `SHM_MAX_PAGES` -/
def shmMaxPages : Nat := 65536

/-- `shm_drop_frames` -/
def shmDropFrames (m : Memory) (frames : List Frame) : Memory :=
  frames.foldl (fun m f => framePut m (some f)) m

/-- One frame of `shm_create`. -/
def shmCreateFrame (st : Memory × List Frame) : Bool × Memory × List Frame :=
  match pagingAllocEmptyFrame st.1 with
  | (none, m) => (false, shmDropFrames m st.2, [])
  | (some phys, m) =>
    let m := cowRefPage m phys
    let n := (cowGetRefcount m phys).1
    let m := (cowGetRefcount m phys).2
    if n = 0 then (false, shmDropFrames (pmmFreePages m phys 1) st.2, [])
    else (true, m, st.2 ++ [phys])

/-- `shm_create` -/
def shmCreate (s : Sys) (pid pages : Nat) : Except Errno Nat × Sys :=
  if pages = 0 ∨ pages > shmMaxPages then (.error .einval, s)
  else
    match s.kmalloc with
    | (false, s) => (.error .enomem, s)
    | (true, s) =>
      match forEach (fun (_ : Nat) st => shmCreateFrame st) (List.range pages)
          (s.mm, []) with
      | (false, mm, _) => (.error .enomem, { s with mm })
      | (true, mm, frames) =>
        (.ok s.shmNextId,
          { s with mm,
                   shm := Function.update s.shm s.shmNextId
                     (some { ownerPid := pid, frames }),
                   shmNextId := s.shmNextId + 1 })

/-- The loop of `shm_map` and `shm_map_at`: a reference and a mapping for each
frame. What became of the mapping is not looked at. -/
def shmMapFrames (cr3 : Cr3) (flags : Pte) (base : Nat) (frames : List Frame)
    (m : Memory) : Memory :=
  (frames.zipIdx).foldl
    (fun m fi => pagingMapPageInvl (cowRefPage m fi.1) cr3 fi.1
      (base + fi.2 * pageSize) flags) m

/-- `shm_map` -/
def shmMap (s : Sys) (pid id userPagesPtr : Nat) : Except Errno Nat × Sys :=
  if userPagesPtr ≠ 0 ∧ !userPtrValid userPagesPtr then (.error .efault, s)
  else
    match s.shm id with
    | none => (.error .enoent, s)
    | some obj =>
      match taskMmapReserve s pid obj.frames.length with
      | (none, s) => (.error .enomem, s)
      | (some base, s) =>
        let mm := shmMapFrames (s.pageMap pid)
          { user := true, writable := true, nx := true, shared := true }
          base obj.frames s.mm
        let s := { s with mm }
        if userPagesPtr ≠ 0 then
          match copyToUser s pid userPagesPtr (leBytes obj.frames.length) with
          | (false, s) => (.error .efault, taskMunmap s pid base)
          | (true, s) => (.ok base, s)
        else (.ok base, s)

/-- `shm_map_at` -/
def shmMapAt (s : Sys) (pid id first pages addr : Nat) : Except Errno Nat × Sys :=
  if pages = 0 then (.error .einval, s)
  else
    match s.shm id with
    | none => (.error .enoent, s)
    | some obj =>
      if first > obj.frames.length ∨ pages > obj.frames.length - first then
        (.error .einval, s)
      else
        match taskMmapReserveAt s pid addr pages with
        | (none, s) => (.error .eexist, s)
        | (some _, s) =>
          let mm := shmMapFrames (s.pageMap pid)
            { user := true, writable := true, shared := true }
            addr ((obj.frames.drop first).take pages) s.mm
          (.ok addr, { s with mm })

/-- `shm_destroy` -/
def shmDestroy (s : Sys) (pid id : Nat) : Except Errno Unit × Sys :=
  match s.shm id with
  | none => (.error .enoent, s)
  | some obj =>
    if obj.ownerPid ≠ pid then (.error .eperm, s)
    else
      (.ok (), { s.setShm id none with mm := shmDropFrames s.mm obj.frames })

/-- `shm_task_cleanup`: every object of the process goes. -/
def shmTaskCleanup (s : Sys) (pid : Nat) : Sys :=
  (List.range s.shmNextId).foldl (fun s id => (shmDestroy s pid id).2) s

/-! ## `ipc/zero_copy.c` -/

/-- `ipc_range_in_alloc_list` -/
def ipcRangeInAllocList (l : List UserAlloc) (addr pages : Nat) : Bool :=
  let rangeEnd := (addr + pages * pageSize) % 2 ^ 64
  if rangeEnd < addr then false
  else l.any fun a => decide (addr ≥ a.vaddr) && decide (rangeEnd ≤ a.allocEnd)

/-- What `ipc_detach_alloc_range` does with the node it finds the range in. -/
inductive Detach where
  | whole
  | front
  | back
  | middle
deriving DecidableEq, Repr

/-- Which part of the node the range is. -/
def detachKind (a : UserAlloc) (addr rangeEnd : Nat) : Detach :=
  if addr = a.vaddr ∧ rangeEnd = a.allocEnd then .whole
  else if addr = a.vaddr then .front
  else if rangeEnd = a.allocEnd then .back
  else .middle

/-- The node with the range out of it. -/
def UserAlloc.detached (a : UserAlloc) (addr rangeEnd pages : Nat) : List UserAlloc :=
  match detachKind a addr rangeEnd with
  | .whole => []
  | .front =>
    [{ a with vaddr := rangeEnd, pages := a.pages - pages,
              offset := a.offset + pages * pageSize }]
  | .back => [{ a with pages := a.pages - pages }]
  | .middle =>
    [{ a with pages := (addr - a.vaddr) / pageSize },
     { a with vaddr := rangeEnd, pages := (a.allocEnd - rangeEnd) / pageSize,
              offset := a.offset + (rangeEnd - a.vaddr) }]

/-- The first node the whole range lies in, and the list with the range out. -/
def detachList (addr rangeEnd pages : Nat) :
    List UserAlloc → Option (UserAlloc × List UserAlloc)
  | [] => none
  | a :: l =>
    if addr < a.vaddr ∨ rangeEnd > a.allocEnd then
      (detachList addr rangeEnd pages l).map fun r => (r.1, a :: r.2)
    else some (a, a.detached addr rangeEnd pages ++ l)

/-- `ipc_detach_alloc_range` -/
def ipcDetachAllocRange (s : Sys) (pid addr pages : Nat) : Except Errno Unit × Sys :=
  if addr = 0 ∨ pages = 0 then (.error .einval, s)
  else
    let rangeEnd := (addr + pages * pageSize) % 2 ^ 64
    if rangeEnd < addr then (.error .einval, s)
    else
      match detachList addr rangeEnd pages (s.allocs pid) with
      | none => (.error .einval, s)
      | some (a, l) =>
        match detachKind a addr rangeEnd with
        | .whole => (.ok (), userAllocFree (s.setAllocs pid l) a)
        | .front | .back => (.ok (), s.setAllocs pid l)
        | .middle =>
          match s.kmalloc with
          | (false, s) => (.error .enomem, s)
          | (true, s) => (.ok (), (userAllocCopy s a).setAllocs pid l)

/-- One page of `ipc_validate_send_range`. -/
def ipcValidatePage (s : Sys) (pid page : Nat) : Except Errno Unit × Sys :=
  let cr3 := s.pageMap pid
  let s := fillIn s pid page true
  match pagingGetPage s.mm cr3 page with
  | none => (.error .efault, s)
  | some pte =>
    if !pte.user then (.error .efault, s)
    else if pte.nofree || pte.shared then (.error .einval, s)
    else if pte.cow then
      match pagingHandleCowFault s.mm cr3 page 7 with
      | (false, mm) => (.error .enomem, { s with mm })
      | (true, mm) => (.ok (), { s with mm })
    else (.ok (), s)

/-- `ipc_validate_send_range` -/
def ipcValidateSendRange (s : Sys) (pid addr pages : Nat) : Except Errno Unit × Sys :=
  if addr = 0 ∨ pages = 0 then (.error .einval, s)
  else if addr % pageSize ≠ 0 then (.error .einval, s)
  else if !ipcRangeInAllocList (s.allocs pid) addr pages then (.error .einval, s)
  else
    tryEach (fun i s => ipcValidatePage s pid (addr + i * pageSize))
      (List.range pages) s

/-- The loop that takes the pages of a range out of the sender's page tables. -/
def unmapPages (m : Memory) (cr3 : Cr3) (addr pages : Nat) : Memory :=
  (List.range pages).foldl (fun m i => pagingUnmapPage m cr3 (addr + i * pageSize)) m

/-- `ipc_send_pages`; the message it put in the queue beside what it returns. -/
def ipcSendPages (s : Sys) (pid targetPid addr pages : Nat) :
    Except Errno Unit × Option IpcMessage × Sys :=
  if targetPid = 0 ∨ addr = 0 ∨ pages = 0 then (.error .einval, none, s)
  else if pages > userStackTop / pageSize then (.error .einval, none, s)
  else if !((s.proc targetPid).any (·.live)) then (.error .esrch, none, s)
  else
    match ipcValidateSendRange s pid addr pages with
    | (.error e, s) => (.error e, none, s)
    | (.ok (), s) =>
      match s.kmalloc with
      | (false, s) => (.error .enomem, none, s)
      | (true, s) =>
        match s.kmalloc with
        | (false, s) => (.error .enomem, none, s)
        | (true, s) =>
          let ptes := (List.range pages).map fun i =>
            pagingGetPage s.mm (s.pageMap pid) (addr + i * pageSize)
          if ptes.any (·.isNone) then (.error .efault, none, s)
          else
            let msg : IpcMessage :=
              { senderPid := pid, physPages := ptes.map fun p => (p.getD {}).phys }
            match ipcDetachAllocRange s pid addr pages with
            | (.error e, s) => (.error e, none, s)
            | (.ok (), s) =>
              let s := { s with mm := unmapPages s.mm (s.pageMap pid) addr pages }
              (.ok (), some msg,
                s.setQueue targetPid (s.queue targetPid ++ [msg]))

/-- Giving back the frames of a message nobody can receive. -/
def freeMessage (m : Memory) (msg : IpcMessage) : Memory :=
  msg.physPages.foldl (fun m f => pmmFreePages m f 1) m

/-- The loop of `ipc_recv`. What became of a mapping is not looked at. -/
def mapMessage (cr3 : Cr3) (base : Nat) (frames : List Frame) (m : Memory) : Memory :=
  (frames.zipIdx).foldl
    (fun m fi => pagingMapPageInvl m cr3 fi.1 (base + fi.2 * pageSize)
      { user := true, writable := true }) m

/-- `ipc_recv`; the message it took off the queue beside what it returns. -/
def ipcRecv (s : Sys) (pid userMsgPtr : Nat) :
    Except Errno Unit × Option IpcMessage × Sys :=
  if userMsgPtr = 0 ∨ !userPtrValid userMsgPtr then (.error .efault, none, s)
  else
    match s.queue pid with
    | [] => (.error .eagain, none, s)
    | msg :: rest =>
      let s := s.setQueue pid rest
      match taskMmapReserve s pid msg.physPages.length with
      | (none, s) =>
        (.error .enomem, some msg, { s with mm := freeMessage s.mm msg })
      | (some base, s) =>
        let s := { s with mm := mapMessage (s.pageMap pid) base msg.physPages s.mm }
        let out := leBytes msg.senderPid ++ leBytes base
          ++ leBytes msg.physPages.length ++ leBytes msg.flags
        match copyToUser s pid userMsgPtr out with
        | (false, s) => (.error .efault, some msg, taskMunmap s pid base)
        | (true, s) => (.ok (), some msg, s)

/-- `ipc_task_cleanup` -/
def ipcTaskCleanup (s : Sys) (pid : Nat) : Sys :=
  let q := s.queue pid
  let s := s.setQueue pid []
  { s with mm := q.foldl freeMessage s.mm }

end BleedKernel.Mm
