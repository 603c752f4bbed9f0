import BleedKernel.Model.System

/-!
# `fs/memfd.c`

A file that is nothing but pages. Each page that exists holds one reference to
its frame, every mapping of it another, and the frame goes with the last of
them.
-/

namespace BleedKernel.Mm

open BleedKernel.Lib

/-- `memfd_is` -/
def memfdIs : Option Backing → Option Nat
  | some (.memfd id) => some id
  | _ => none

/-- `frame_put` -/
def framePut (m : Memory) (p : Option Frame) : Memory :=
  match p with
  | none => m
  | some f =>
    let left := (cowUnrefPage m f).1
    let m := (cowUnrefPage m f).2
    if left = 0 then pmmFreePages m f 1 else m

/-- Double `cap` until it is at least `want`; `fuel` doublings always do. -/
def growCap (want : Nat) : Nat → Nat → Nat
  | 0, cap => cap
  | fuel + 1, cap => if cap < want then growCap want fuel (cap * 2) else cap

/-- `grow_slots`: the slots that are new are empty. -/
def growSlots (s : Sys) (id : Nat) (m : Memfd) (want : Nat) : Bool × Sys :=
  if want ≤ m.pages.length then (true, s)
  else
    let cap := growCap want want (if m.pages.length ≠ 0 then m.pages.length else 16)
    match s.kmalloc with
    | (false, s) => (false, s)
    | (true, s) =>
      (true, s.setMemfd id (some { m with
        pages := m.pages ++ List.replicate (cap - m.pages.length) none }))

/-- `memfd_page`: the frame of a page, made and counted when `create` is set. -/
def memfdPage (s : Sys) (id index : Nat) (create : Bool) : Option Frame × Sys :=
  match s.memfd id with
  | none => (none, s)
  | some m =>
    if index ≥ (m.size + pageSize - 1) / pageSize then (none, s)
    else
      match m.pages[index]? with
      | some (some f) => (some f, s)
      | _ =>
        if !create then (none, s)
        else
          match growSlots s id m (index + 1) with
          | (false, s) => (none, s)
          | (true, s) =>
            match pmmAllocPages s.mm with
            | (none, mm) => (none, { s with mm })
            | (some p, mm) =>
              let mm := cowRefPage (mm.setBytes p fun _ => 0) p
              let s := { s with mm }
              match s.memfd id with
              | none => (none, s)
              | some m =>
                (some p, s.setMemfd id (some { m with
                  pages := m.pages.set index (some p) }))

/-- `cut_to`: whole pages past `size` go, and the tail of the page it ends in is
cleared. -/
def cutTo (s : Sys) (id : Nat) (m : Memfd) (size : Nat) : Sys :=
  let keep := (size + pageSize - 1) / pageSize
  let mm := (m.pages.drop keep).foldl framePut s.mm
  let pages := m.pages.take keep ++ List.replicate (m.pages.length - keep) none
  let mm :=
    match m.pages[keep - 1]? with
    | some (some f) =>
      if size % pageSize ≠ 0 then
        mm.setBytes f fun k => if size % pageSize ≤ k then 0 else mm.bytes f k
      else mm
    | _ => mm
  { s with mm }.setMemfd id (some { m with pages })

/-- `resize` -/
def memfdResize (s : Sys) (id size : Nat) : Except Errno Unit × Sys :=
  match s.memfd id with
  | none => (.error .ebadf, s)
  | some m =>
    if size > m.size ∧ m.seals.sealGrow then (.error .eperm, s)
    else if size < m.size ∧ m.seals.sealShrink then (.error .eperm, s)
    else
      let s := if size < m.size then cutTo s id m size else s
      match s.memfd id with
      | none => (.error .ebadf, s)
      | some m => (.ok (), s.setMemfd id (some { m with size }))

/-- The byte `memfd_read` finds at `pos`; a hole reads as zero. -/
def memfdByte (s : Sys) (m : Memfd) (pos : Nat) : UInt8 :=
  if pos < m.size then
    match m.pages[pos / pageSize]? with
    | some (some f) => s.mm.bytes f (pos % pageSize)
    | _ => 0
  else 0

/-- The loop of `memfd_write`, a page at a time. -/
def memfdWriteLoop (id offset : Nat) (data : Nat → UInt8) (size : Nat) :
    List Nat → Sys → Bool × Sys :=
  forEach fun page s =>
    match memfdPage s id page true with
    | (none, s) => (false, s)
    | (some p, s) =>
      (true, { s with mm := s.mm.setBytes p fun k =>
        let pos := page * pageSize + k
        if offset ≤ pos ∧ pos < offset + size then data (pos - offset)
        else s.mm.bytes p k })

/-- `memfd_write`; `done` is short when it ran out of memory. -/
def memfdWrite (s : Sys) (id : Nat) (data : Nat → UInt8) (size offset : Nat) :
    Except Errno Unit × Sys :=
  match s.memfd id with
  | none => (.error .ebadf, s)
  | some m =>
    if m.seals.sealWrite || m.seals.sealFutureWrite then (.error .eperm, s)
    else if offset + size ≥ 2 ^ 64 then (.error .efbig, s)
    else
      let r :=
        if offset + size > m.size then memfdResize s id (offset + size)
        else (.ok (), s)
      match r with
      | (.error e, s) => (.error e, s)
      | (.ok (), s) =>
        let first := offset / pageSize
        let last := if size = 0 then first else (offset + size + pageSize - 1) / pageSize
        let r := memfdWriteLoop id offset data size
          (List.range' first (last - first)) s
        (.ok (), r.2)

/-- `memfd_drop` -/
def memfdDrop (s : Sys) (id : Nat) : Sys :=
  match s.memfd id with
  | none => s
  | some m => { s with mm := m.pages.foldl framePut s.mm }.setMemfd id none

/-- `memfd_add_seals` -/
def memfdAddSeals (s : Sys) (id bits : Nat) : Except Errno Unit × Sys :=
  match s.memfd id, Seals.ofBits bits with
  | none, _ => (.error .ebadf, s)
  | some _, none => (.error .einval, s)
  | some m, some seals =>
    if m.seals.sealSeal then (.error .eperm, s)
    else if seals.sealWrite ∧ m.writers ≠ 0 then (.error .ebusy, s)
    else (.ok (), s.setMemfd id (some { m with seals := m.seals.or seals }))

/-- `memfd_track_writer`: one more is refused once writing is sealed. -/
def memfdTrackWriter (s : Sys) (id : Nat) (delta : Int) : Bool × Sys :=
  match s.memfd id with
  | none => (false, s)
  | some m =>
    if delta > 0 ∧ (m.seals.sealWrite || m.seals.sealFutureWrite) then (false, s)
    else (true, s.setMemfd id (some { m with writers := m.writers + delta }))

/-- `memfd_create` -/
def memfdCreate (s : Sys) (allowSealing : Bool) : Except Errno Nat × Sys :=
  match s.kmalloc with
  | (false, s) => (.error .enomem, s)
  | (true, s) =>
    (.ok s.nextMemfd,
      { s with
        memfd := Function.update s.memfd s.nextMemfd
          (some { seals := { sealSeal := !allowSealing } }),
        nextMemfd := s.nextMemfd + 1 })

/-! ## Holds on the inode -/

/-- `vfs_hold` -/
def vfsHold (s : Sys) : Backing → Sys
  | .memfd id =>
    match s.memfd id with
    | none => s
    | some m => s.setMemfd id (some { m with holds := m.holds + 1 })
  | .file _ => s

/-- `vfs_drop`: the memfd goes with its last hold. -/
def vfsDrop (s : Sys) : Backing → Sys
  | .memfd id =>
    match s.memfd id with
    | none => s
    | some m =>
      if m.holds = 0 then s
      else if m.holds = 1 then memfdDrop s id
      else s.setMemfd id (some { m with holds := m.holds - 1 })
  | .file _ => s

/-- The last descriptor of the memfd's file goes, `vfs_file_put`. -/
def memfdClose (s : Sys) (id : Nat) : Sys :=
  match s.memfd id with
  | none => s
  | some m =>
    if m.fileOpen then
      vfsDrop (s.setMemfd id (some { m with fileOpen := false })) (.memfd id)
    else s

end BleedKernel.Mm
