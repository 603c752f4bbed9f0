import BleedKernel.Model.Paging

/-!
# Processes and what they share

The state the user memory code works on above the page tables: each process
with its list of mappings and its message queue, the memfds, and the shared
memory objects. Threads of one process share all of this and are not told
apart; every call here is made under the kernel lock.

Processes, memfds and shared memory objects are looked up by number, and a
number is used once. What `kmalloc` says and what reading a file gives are left
to the environment, like the allocator's answers.
-/

namespace BleedKernel.Mm

/-- The errors the modelled calls return. -/
inductive Errno where
  | eperm | enoent | esrch | ebadf | eagain | enomem | eacces | efault | ebusy
  | eexist | enodev | einval | efbig
deriving DecidableEq, Repr

/-- `PROT_READ`, `PROT_WRITE`, `PROT_EXEC` -/
structure Prot where
  read : Bool := false
  write : Bool := false
  exec : Bool := false
deriving DecidableEq, Repr

/-- The three bits of a system call's `prot`, which may have no others. -/
def Prot.ofBits (n : Nat) : Option Prot :=
  if n < 8 then
    some { read := n.testBit 0, write := n.testBit 1, exec := n.testBit 2 }
  else none

/-- Not `PROT_NONE`. -/
def Prot.any (p : Prot) : Bool := p.read || p.write || p.exec

/-- What a file mapping is a mapping of. -/
inductive Backing where
  | memfd (id : Nat)
  | file (id : Nat)
deriving DecidableEq, Repr

/-- `user_alloc_t`, a node of the alloc list: the range, its protection, the
flags `UALLOC_LAZY`, `UALLOC_SHARED` and `UALLOC_NOWRITE`, and the file. -/
structure UserAlloc where
  vaddr : Nat
  pages : Nat
  prot : Prot
  lazy : Bool := false
  shared : Bool := false
  nowrite : Bool := false
  backing : Option Backing := none
  offset : Nat := 0
deriving DecidableEq, Repr

/-- `alloc_end` -/
def UserAlloc.allocEnd (a : UserAlloc) : Nat := a.vaddr + a.pages * pageSize

/-- The seals of a memfd, `F_SEAL_SEAL` and so on. -/
structure Seals where
  sealSeal : Bool := false
  sealShrink : Bool := false
  sealGrow : Bool := false
  sealWrite : Bool := false
  sealFutureWrite : Bool := false
deriving DecidableEq, Repr

/-- The five bits of `F_ADD_SEALS`, which may have no others. -/
def Seals.ofBits (n : Nat) : Option Seals :=
  if n < 32 then
    some { sealSeal := n.testBit 0, sealShrink := n.testBit 1,
           sealGrow := n.testBit 2, sealWrite := n.testBit 3,
           sealFutureWrite := n.testBit 4 }
  else none

/-- `seals | more` -/
def Seals.or (a b : Seals) : Seals :=
  { sealSeal := a.sealSeal || b.sealSeal,
    sealShrink := a.sealShrink || b.sealShrink,
    sealGrow := a.sealGrow || b.sealGrow,
    sealWrite := a.sealWrite || b.sealWrite,
    sealFutureWrite := a.sealFutureWrite || b.sealFutureWrite }

/-- `memfd_t` and the count of holds on its inode. The slots of `pages` are
the array, `none` where the source has 0. -/
structure Memfd where
  pages : List (Option Frame) := []
  size : Nat := 0
  seals : Seals := {}
  writers : Int := 0
  /-- The file the memfd was made with is still open somewhere. -/
  fileOpen : Bool := true
  /-- `inode->shared` -/
  holds : Nat := 1
deriving Repr

/-- `shm_object_t` -/
structure ShmObject where
  ownerPid : Nat
  frames : List Frame
deriving Repr

/-- `ipc_message_t` -/
structure IpcMessage where
  senderPid : Nat
  flags : Nat := 0
  physPages : List Frame
deriving DecidableEq, Repr

/-- A process, as far as its memory goes. -/
structure Proc where
  pageMap : Cr3
  allocList : List UserAlloc := []
  ipc : List IpcMessage := []
  /-- `task_group_alive` -/
  live : Bool := true

/-- Everything the modelled calls read and write. -/
structure Sys where
  mm : Memory
  proc : Nat → Option Proc
  nextPid : Nat
  memfd : Nat → Option Memfd
  nextMemfd : Nat
  shm : Nat → Option ShmObject
  shmNextId : Nat
  /-- What `kmalloc` will say. -/
  kmallocs : List Bool
  /-- What reading a page of a file will give. -/
  fileReads : List (Option (Nat → UInt8))
  /-- `paging_get_usable_mem_size` -/
  usableMem : Nat

namespace Sys

/-- `kmalloc`, as a yes or a no. -/
def kmalloc (s : Sys) : Bool × Sys :=
  match s.kmallocs with
  | [] => (false, s)
  | b :: rest => (b, { s with kmallocs := rest })

/-- The alloc list of a process. -/
def allocs (s : Sys) (pid : Nat) : List UserAlloc :=
  match s.proc pid with
  | some p => p.allocList
  | none => []

/-- The page map of a process. Only a process that is there is ever asked. -/
def pageMap (s : Sys) (pid : Nat) : Cr3 :=
  match s.proc pid with
  | some p => p.pageMap
  | none => 0

/-- The messages waiting for a process. -/
def queue (s : Sys) (pid : Nat) : List IpcMessage :=
  match s.proc pid with
  | some p => p.ipc
  | none => []

/-- Change a process, if it is there. -/
def updProc (s : Sys) (pid : Nat) (g : Proc → Proc) : Sys :=
  { s with proc := Function.update s.proc pid ((s.proc pid).map g) }

/-- Give a process the next number. -/
def addProc (s : Sys) (p : Proc) : Sys :=
  { s with proc := Function.update s.proc s.nextPid (some p), nextPid := s.nextPid + 1 }

/-- Store the alloc list of a process. -/
def setAllocs (s : Sys) (pid : Nat) (l : List UserAlloc) : Sys :=
  s.updProc pid fun p => { p with allocList := l }

/-- Store the message queue of a process. -/
def setQueue (s : Sys) (pid : Nat) (q : List IpcMessage) : Sys :=
  s.updProc pid fun p => { p with ipc := q }

/-- Store a memfd. -/
def setMemfd (s : Sys) (id : Nat) (o : Option Memfd) : Sys :=
  { s with memfd := Function.update s.memfd id o }

/-- Store a shared memory object. -/
def setShm (s : Sys) (id : Nat) (o : Option ShmObject) : Sys :=
  { s with shm := Function.update s.shm id o }

end Sys

end BleedKernel.Mm
