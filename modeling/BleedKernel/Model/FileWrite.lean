import BleedKernel.Lib.Run

/-!
# `sys_write.c`: writes to one regular file

One regular file, the open descriptions of it in any number of processes, and the
calls of `sys_write` on them. A call copies a page or less at a time, and what the
other calls do comes between two turns of its loop. The driver is a choice made
from outside: it takes as much of a batch as it likes, or refuses it.
-/

namespace BleedKernel.Regular

open BleedKernel.Lib

/-- `PAGE_SIZE` -/
def pageSize : Nat := 4096

/-- `SYS_WRITE_CHUNK` -/
def sysWriteChunk : Nat := 64 * 1024

/-- `SYS_WRITE_SMALL` -/
def sysWriteSmall : Nat := 256

/-- The flags under `O_MODE`. -/
inductive Mode where
  | rdonly | wronly | rdwr
deriving DecidableEq, Repr

/-- What is read of a `file_t`. -/
structure File where
  offset : Nat := 0
  mode : Mode := .rdwr
  /-- `O_APPEND` is in `flags`. -/
  append : Bool := false
deriving DecidableEq, Repr

/-- A call of `sys_write`. The file as it was when the call was made and the flag
are kept for the statements, the code has neither. -/
structure Call where
  file : Nat
  userBuf : Nat
  data : List UInt8
  append : Bool
  before : List UInt8
  total : Nat := 0
  /-- `kbuf` is not `NULL`. -/
  kbuf : Bool
  ended : Bool := false
deriving DecidableEq, Repr

/-- The bytes of the file, its open descriptions, every call made so far, and what
the writes that are no appends have added to the size. -/
structure Sys where
  bytes : List UInt8 := []
  files : List File := []
  calls : List Call := []
  others : Nat := 0
deriving DecidableEq, Repr

/-- What a driver's `write` leaves of the file: a hole before `offset` reads as
zeros. -/
def writeAt (bytes : List UInt8) (offset : Nat) (src : List UInt8) : List UInt8 :=
  bytes.take offset ++ List.replicate (offset - bytes.length) 0 ++ src
    ++ bytes.drop (offset + src.length)

/-- `vfs_open_at`, where it got the inode. -/
def vfsOpenAt (s : Sys) (mode : Mode) (append trunc : Bool) : Sys :=
  let bytes := if trunc then [] else s.bytes
  { s with bytes, files := s.files ++ [{ offset := if append then bytes.length else 0, mode, append }] }

/-- `vfs_reopen_fd`, where it finds an open file that has the access asked for. -/
def vfsReopenFd (s : Sys) (mode : Mode) (append : Bool) : Sys :=
  { s with files := s.files ++ [{ offset := 0, mode, append }] }

/-- `sys_write` up to its loop. -/
def sysWrite (s : Sys) (file userBuf : Nat) (data : List UInt8) : Sys :=
  match s.files[file]? with
  | none => s
  | some f =>
    if data.length = 0 ∨ userBuf = 0 ∨ f.mode = .rdonly then s
    else { s with calls := s.calls ++ [{
      file, userBuf, data, append := f.append, before := s.bytes
      kbuf := decide (min data.length sysWriteChunk ≤ sysWriteSmall) }] }

/-- What is decided outside of a turn: whether `user_page_ptr` has the page,
`kmalloc` room, `copy_from_user` its bytes, and how many bytes the driver takes, or
nothing for an error. -/
structure Luck where
  page : Bool := true
  alloc : Bool := true
  copied : Bool := true
  written : Option Nat
deriving DecidableEq, Repr

/-- `batch` of the next turn. -/
def Call.batch (c : Call) (page : Bool) : Nat :=
  let batch := min (c.data.length - c.total) (pageSize - (c.userBuf + c.total) % pageSize)
  if page then batch else min batch (min c.data.length sysWriteChunk)

/-- One turn of the loop of `sys_write`. -/
def writeTurn (s : Sys) (k : Nat) (luck : Luck) : Sys :=
  match s.calls[k]? with
  | none => s
  | some c =>
    match s.files[c.file]? with
    | none => s
    | some f =>
      if c.ended then s
      else if luck.page = false ∧ (c.kbuf = false ∧ luck.alloc = false ∨ luck.copied = false) then
        { s with calls := s.calls.set k { c with ended := true } }
      else
        match luck.written with
        | none => { s with calls := s.calls.set k { c with ended := true } }
        | some n =>
          let written := min n (c.batch luck.page)
          let total := c.total + written
          let bytes := writeAt s.bytes f.offset ((c.data.drop c.total).take written)
          { s with
            bytes, others := s.others + if c.append then 0 else bytes.length - s.bytes.length
            files := s.files.set c.file { f with offset := f.offset + written }
            calls := s.calls.set k { c with
              total, kbuf := c.kbuf || !luck.page
              ended := decide (written < c.batch luck.page ∨ c.data.length ≤ total) } }

/-- The calls on one regular file; a write is a call and then its turns. -/
inductive Act where
  | openAt (mode : Mode) (append : Bool)
  | reopenFd (mode : Mode) (append : Bool)
  | lseek (file offset : Nat)
  | write (file userBuf : Nat) (data : List UInt8)
  | turn (call : Nat) (luck : Luck)
  /-- A write that brings its own offset. -/
  | pwrite (offset : Nat) (data : List UInt8)
deriving DecidableEq, Repr

/-- One call, or one turn of a write. -/
def step (s : Sys) : Act → Sys
  | .openAt mode append => vfsOpenAt s mode append false
  | .reopenFd mode append => vfsReopenFd s mode append
  | .lseek file offset => { s with files := s.files.modify file fun f => { f with offset } }
  | .write file userBuf data => sysWrite s file userBuf data
  | .turn call luck => writeTurn s call luck
  | .pwrite offset data =>
    let bytes := writeAt s.bytes offset data
    { s with bytes, others := s.others + (bytes.length - s.bytes.length) }

end BleedKernel.Regular
