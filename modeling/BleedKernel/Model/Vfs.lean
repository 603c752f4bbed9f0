import Mathlib.Logic.Function.Basic

/-!
# `fs/vfs.c`: descriptors and the files behind them

Open files live in the kernel heap and are named by their address. A descriptor
table holds addresses, one file may sit in many slots of many tables, and
`shared` counts the holds. When the last one goes the file is freed, and from
then on the allocator may hand its address to the next file that is opened.

`kmalloc` is a choice made from outside: each call that allocates a file comes
with the address it is to get, and an address in use counts as no address.

A file carries a serial number that the kernel does not have. It says which file
this is when two of them had the same address one after the other.

A descriptor is a natural number. The code tests every descriptor for being
negative or past the table, with the same answer to both, so a negative one is
one past the table here.
-/

namespace BleedKernel.Fs

/-- The address of a `file_t`. -/
abbrev Addr := Nat

/-- `MAX_FDS` -/
def maxFds : Nat := 256

/-- `fd_type_t` -/
inductive FdType where
  | fs | dev | pipe | socket | unix | epoll
deriving DecidableEq, Repr

/-- `epoll_item_t`, with the serial number of the file it was registered for. -/
structure Item where
  fd : Nat
  file : Addr
  events : UInt32
  data : UInt64
  outSeen : Bool := false
  disarmed : Bool := false
  serial : Nat
deriving DecidableEq, Repr

/-- `epoll_t`. The count is the length. -/
structure Watch where
  items : List Item := []
  cap : Nat := 0
deriving DecidableEq, Repr

/-- `file_t` and what the modelled functions read of its inode. -/
structure File where
  type : FdType
  /-- The inode is an `INODE_DEVICE`. -/
  device : Bool := true
  /-- What the inode's `poll` answers now, if it has one. For an epoll file
  `poll` is `epoll_poll` and this is not read. -/
  poll : Option UInt32 := none
  shared : Int := 1
  /-- `internal_data` of an epoll file. -/
  watch : Watch := {}
  serial : Nat := 0
deriving DecidableEq, Repr

/-- `fd_table_t`, less `fd_flags`. -/
structure FdTable where
  fds : Nat → Option Addr := fun _ => none
  refs : Nat := 1

/-- The tables by number, the heap of files, and the files that something other
than a table holds: a descriptor that was sent over a socket and not received. -/
structure Sys where
  tables : List FdTable := [{}]
  files : Addr → Option File := fun _ => none
  held : List Addr := []
  serial : Nat := 0

/-- The error codes of the modelled calls. -/
inductive Errno where
  | eperm | enoent | ebadf | enomem | eexist | einval | emfile
deriving DecidableEq, Repr

/-- A table that some task still uses. -/
def Sys.table (s : Sys) (t : Nat) : Option FdTable :=
  s.tables[t]?.filter fun T => decide (0 < T.refs)

/-- `fds[fd]` of a table, and nothing for a descriptor past its end. -/
def FdTable.slot (T : FdTable) (fd : Nat) : Option Addr :=
  if fd < maxFds then T.fds fd else none

/-- What a descriptor of a task's table points to. -/
def Sys.slot (s : Sys) (t fd : Nat) : Option Addr :=
  (s.table t).bind fun T => T.slot fd

/-- A write to a table. -/
def Sys.setTable (s : Sys) (t : Nat) (T : FdTable) : Sys :=
  { s with tables := s.tables.set t T }

/-- A write to a `file_t`, or its end. -/
def Sys.setFile (s : Sys) (a : Addr) (f : Option File) : Sys :=
  { s with files := Function.update s.files a f }

/-- `fds[fd] = f` -/
def Sys.setSlot (s : Sys) (t fd : Nat) (a : Option Addr) : Sys :=
  match s.table t with
  | none => s
  | some T => s.setTable t { T with fds := Function.update T.fds fd a }

/-- `f->shared++` -/
def Sys.hold (s : Sys) (a : Addr) : Sys :=
  match s.files a with
  | none => s
  | some f => s.setFile a (some { f with shared := f.shared + 1 })

/-- `vfs_file_put`. What the release of a file does to other files (a socket
lets go of the descriptors queued on it) is a step of its own. -/
def vfsFilePut (s : Sys) (a : Addr) : Sys :=
  match s.files a with
  | none => s
  | some f =>
    if f.shared - 1 > 0 then s.setFile a (some { f with shared := f.shared - 1 })
    else s.setFile a none

/-- The lowest free slot from `lowest` on. -/
def FdTable.free (T : FdTable) (lowest : Nat) : Option Nat :=
  (List.range' lowest (maxFds - lowest)).find? fun fd => (T.fds fd).isNone

/-- `kmalloc` of a `file_t`: the address from outside, unless it is in use. -/
def kmallocFile (s : Sys) (addr : Option Addr) : Option Addr :=
  addr.filter fun a => (s.files a).isNone

/-- A file that was just filled in. -/
def Sys.create (s : Sys) (a : Addr) (f : File) : Sys :=
  { s with files := Function.update s.files a (some { f with serial := s.serial }),
           serial := s.serial + 1 }

/-- Open a file and put it in the lowest free slot from `lowest` on. With
`lowest` 0 this is the end of `vfs_open_at` (`vfs_fd_install`), with 3 it is
`vfs_install` of a file that was made for it; both free the file when there is
no slot. -/
def openFile (s : Sys) (t lowest : Nat) (f : File) (addr : Option Addr) :
    Except Errno Nat × Sys :=
  match kmallocFile s addr with
  | none => (.error .enomem, s)
  | some a =>
    match (s.table t).bind fun T => T.free lowest with
    | none => (.error .emfile, s)
    | some fd => (.ok fd, (s.create a { f with shared := 1 }).setSlot t fd (some a))

/-- `vfs_pipe`: both slots are found before anything is allocated. -/
def vfsPipe (s : Sys) (t : Nat) (readEnd writeEnd : File) (addr addr' : Option Addr) :
    Except Errno Nat × Sys :=
  match (s.table t).bind fun T => (T.free 3).bind fun r =>
      (T.free (r + 1)).map fun w => (r, w) with
  | none => (.error .emfile, s)
  | some (r, w) =>
    match kmallocFile s addr with
    | none => (.error .enomem, s)
    | some a =>
      let s' := (s.create a { readEnd with shared := 1 }).setSlot t r (some a)
      match kmallocFile s' addr' with
      | none => (.error .enomem, s)
      | some b => (.ok r, (s'.create b { writeEnd with shared := 1 }).setSlot t w (some b))

/-- `vfs_close` -/
def vfsClose (s : Sys) (t fd : Nat) : Except Errno Nat × Sys :=
  match s.slot t fd with
  | none => (.error .ebadf, s)
  | some a => (.ok 0, vfsFilePut (s.setSlot t fd none) a)

/-- `vfs_dup2` -/
def vfsDup2 (s : Sys) (t oldfd newfd : Nat) : Except Errno Nat × Sys :=
  if newfd < maxFds then
    match s.slot t oldfd with
    | none => (.error .ebadf, s)
    | some a =>
      if oldfd = newfd then (.ok newfd, s)
      else (.ok newfd, ((vfsClose s t newfd).2.hold a).setSlot t newfd (some a))
  else (.error .ebadf, s)

/-- `vfs_dup_from`; `vfs_dup` is the same from 0 on. -/
def vfsDupFrom (s : Sys) (t oldfd lowest : Nat) : Except Errno Nat × Sys :=
  match s.slot t oldfd with
  | none => (.error .ebadf, s)
  | some _ =>
    if lowest < maxFds then
      match (s.table t).bind fun T => T.free lowest with
      | none => (.error .emfile, s)
      | some fd => vfsDup2 s t oldfd fd
    else (.error .einval, s)

/-- `vfs_dup` -/
def vfsDup (s : Sys) (t oldfd : Nat) : Except Errno Nat × Sys :=
  vfsDupFrom s t oldfd 0

/-- `vfs_file_get`: a hold that is not a descriptor. -/
def vfsFileGet (s : Sys) (t fd : Nat) : Sys :=
  match s.slot t fd with
  | none => s
  | some a => { s.hold a with held := a :: s.held }

/-- `vfs_install` of a file that was held, which passes its hold on. -/
def vfsInstall (s : Sys) (t : Nat) (a : Addr) : Except Errno Nat × Sys :=
  if a ∈ s.held then
    match (s.table t).bind fun T => T.free 3 with
    | none => (.error .emfile, s)
    | some fd => (.ok fd, { s with held := s.held.erase a }.setSlot t fd (some a))
  else (.error .ebadf, s)

/-- `vfs_file_put` by whoever held the file. -/
def dropHeld (s : Sys) (a : Addr) : Sys :=
  if a ∈ s.held then vfsFilePut { s with held := s.held.erase a } a else s

/-- `vfs_fd_table_clone`: every file gets one more hold. -/
def vfsFdTableClone (s : Sys) (t : Nat) : Sys :=
  match s.table t with
  | none => s
  | some T =>
    let s := ((List.range maxFds).filterMap T.fds).foldl Sys.hold s
    { s with tables := s.tables ++ [{ T with refs := 1 }] }

/-- `vfs_fd_table_share` -/
def vfsFdTableShare (s : Sys) (t : Nat) : Sys :=
  match s.table t with
  | none => s
  | some T => s.setTable t { T with refs := T.refs + 1 }

/-- `vfs_fd_table_drop`: the last one out closes everything. -/
def vfsFdTableDrop (s : Sys) (t : Nat) : Sys :=
  match s.table t with
  | none => s
  | some T =>
    if T.refs > 1 then s.setTable t { T with refs := T.refs - 1 }
    else
      let s := (List.range maxFds).foldl (fun s fd => (vfsClose s t fd).2) s
      match s.table t with
      | none => s
      | some T => s.setTable t { T with refs := 0 }

end BleedKernel.Fs
