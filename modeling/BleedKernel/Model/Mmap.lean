import BleedKernel.Model.Memfd

/-!
# `mm/userspace/mmap.c`

A process's mappings are a list of nodes sorted by address. The first half of
this file is what the source does to that list alone; the second half adds the
page tables, the memfds and the allocations that may fail in between.

Addresses are 64-bit words in the source. Sums stay far below that wherever the
calls admit them, so they are plain sums here; the one difference the source
takes without looking, the gap before a node, is taken as the source takes it.
-/

namespace BleedKernel.Mm

open BleedKernel.Lib

/-- `USER_MMAP_BASE` -/
def userMmapBase : Nat := 0x0000004000000000

/-- `USER_MMAP_LIMIT` -/
def userMmapLimit : Nat := 0x00007fffffe00000

/-! ## The list -/

/-- `alloc_find` -/
def allocFind : List UserAlloc → Nat → Option UserAlloc
  | [], _ => none
  | a :: l, addr =>
    if a.vaddr > addr then none
    else if addr < a.allocEnd then some a
    else allocFind l addr

/-- Store through the pointer `alloc_find` returned. -/
def allocModify (g : UserAlloc → UserAlloc) : List UserAlloc → Nat → List UserAlloc
  | [], _ => []
  | a :: l, addr =>
    if a.vaddr > addr then a :: l
    else if addr < a.allocEnd then g a :: l
    else a :: allocModify g l addr

/-- `alloc_list_unlink` -/
def allocListUnlink (addr : Nat) :
    List UserAlloc → Option (UserAlloc × List UserAlloc)
  | [] => none
  | a :: l =>
    if a.vaddr ≠ addr then (allocListUnlink addr l).map fun r => (r.1, a :: r.2)
    else some (a, l)

/-- The loop of `task_mmap_reserve`: where the first gap that fits starts, and
the nodes before and after it. -/
def reserveLoop (pages : Nat) :
    Nat → List UserAlloc → Nat × List UserAlloc × List UserAlloc
  | base, [] => (base, [], [])
  | base, a :: l =>
    let gapPages := (a.vaddr + (2 ^ 64 - base)) % 2 ^ 64 / pageSize
    if gapPages ≥ pages then (base, [], a :: l)
    else
      let r := reserveLoop pages a.allocEnd l
      (r.1, a :: r.2.1, r.2.2)

/-- The loop of `task_mmap_reserve_at`: the nodes before and after the range, if
none runs into it. -/
def reserveAtLoop (addr fin : Nat) :
    List UserAlloc → Option (List UserAlloc × List UserAlloc)
  | [] => some ([], [])
  | a :: l =>
    if a.vaddr ≥ fin then some ([], a :: l)
    else if a.allocEnd > addr then none
    else (reserveAtLoop addr fin l).map fun r => (a :: r.1, r.2)

/-- The node with another protection. -/
def UserAlloc.withProt (a : UserAlloc) (prot : Prot) : UserAlloc := { a with prot }

/-- A reservation as `task_mmap_reserve` makes it. -/
def UserAlloc.reserved (vaddr pages : Nat) : UserAlloc :=
  { vaddr, pages, prot := { read := true, write := true } }

/-- What `alloc_split` leaves of the node it cuts. -/
def UserAlloc.splitHead (a : UserAlloc) (va : Nat) : UserAlloc :=
  { a with pages := (va - a.vaddr) / pageSize }

/-- What `alloc_split` cuts off. -/
def UserAlloc.splitTail (a : UserAlloc) (va : Nat) : UserAlloc :=
  { a with vaddr := va, pages := (a.allocEnd - va) / pageSize,
           offset := a.offset + (va - a.vaddr) }

/-- The list after `alloc_split` has cut the node that runs across `va`. -/
def splitList : List UserAlloc → Nat → List UserAlloc
  | [], _ => []
  | a :: l, va =>
    if a.vaddr > va then a :: l
    else if va < a.allocEnd then a.splitHead va :: a.splitTail va :: l
    else a :: splitList l va

/-- How far from `cur` the nodes cover without a hole, up to `fin`. -/
def coveredTo (fin : Nat) : List UserAlloc → Nat → Nat
  | [], cur => cur
  | a :: l, cur =>
    if cur < fin then
      if a.allocEnd ≤ cur then coveredTo fin l cur
      else if a.vaddr > cur then cur
      else coveredTo fin l a.allocEnd
    else cur

/-- The nodes from the one over `addr` to the last that starts before `fin`. -/
def allocRange (addr fin : Nat) : List UserAlloc → List UserAlloc
  | [] => []
  | a :: l =>
    if a.vaddr > addr then []
    else if addr < a.allocEnd then (a :: l).takeWhile fun b => b.vaddr < fin
    else allocRange addr fin l

/-! ## Nodes and their files -/

/-- `writes_memfd`: the memfd the node writes to, if it does. -/
def writesMemfd (a : UserAlloc) : Option Nat :=
  if a.shared && a.prot.write then memfdIs a.backing else none

/-- `user_alloc_free` -/
def userAllocFree (s : Sys) (a : UserAlloc) : Sys :=
  match a.backing with
  | none => s
  | some b =>
    let s :=
      match writesMemfd a with
      | some id => (memfdTrackWriter s id (-1)).2
      | none => s
    vfsDrop s b

/-- `user_alloc_copy`: what the copy does to the file. Nobody looks at what
`memfd_track_writer` says. -/
def userAllocCopy (s : Sys) (a : UserAlloc) : Sys :=
  match a.backing with
  | none => s
  | some b =>
    let s := vfsHold s b
    match writesMemfd a with
    | some id => (memfdTrackWriter s id 1).2
    | none => s

/-- `alloc_split` -/
def allocSplit (s : Sys) (pid va : Nat) : Bool × Sys :=
  match allocFind (s.allocs pid) va with
  | none => (true, s)
  | some a =>
    if a.vaddr = va then (true, s)
    else
      match s.kmalloc with
      | (false, s) => (false, s)
      | (true, s) =>
        let s := userAllocCopy s a
        (true, s.setAllocs pid (splitList (s.allocs pid) va))

/-! ## Reserving -/

/-- `task_mmap_reserve` -/
def taskMmapReserve (s : Sys) (pid pages : Nat) : Option Nat × Sys :=
  if pages = 0 then (none, s)
  else
    let r := reserveLoop pages userMmapBase (s.allocs pid)
    if r.1 > userMmapLimit then (none, s)
    else if pages > (userMmapLimit - r.1) / pageSize then (none, s)
    else
      match s.kmalloc with
      | (false, s) => (none, s)
      | (true, s) =>
        (some r.1,
          s.setAllocs pid (r.2.1 ++ UserAlloc.reserved r.1 pages :: r.2.2))

/-- `task_mmap_reserve_at` -/
def taskMmapReserveAt (s : Sys) (pid addr pages : Nat) : Option Nat × Sys :=
  if pages = 0 ∨ addr % pageSize ≠ 0 then (none, s)
  else if addr < userMmapBase ∨ addr > userMmapLimit then (none, s)
  else if pages > (userMmapLimit - addr) / pageSize then (none, s)
  else
    match reserveAtLoop addr (addr + pages * pageSize) (s.allocs pid) with
    | none => (none, s)
    | some r =>
      match s.kmalloc with
      | (false, s) => (none, s)
      | (true, s) =>
        (some addr, s.setAllocs pid (r.1 ++ UserAlloc.reserved addr pages :: r.2))

/-- `task_mmap_release` -/
def taskMmapRelease (s : Sys) (pid addr : Nat) : Sys :=
  match allocListUnlink addr (s.allocs pid) with
  | none => s
  | some (a, l) => userAllocFree (s.setAllocs pid l) a

/-- `task_munmap` -/
def taskMunmap (s : Sys) (pid addr : Nat) : Sys :=
  match allocListUnlink addr (s.allocs pid) with
  | none => s
  | some (a, l) =>
    let s := s.setAllocs pid l
    let s := { s with mm := vmmUnmapFreePages s.mm (s.pageMap pid) addr a.pages }
    userAllocFree s a

/-! ## Filling pages in -/

/-- `prot_pte` -/
def protPte (p : Prot) : Pte :=
  if !p.any then { protnone := true, nx := true }
  else { user := true, writable := p.write, nx := !p.exec }

/-- `inode_read` of one page into a new frame. -/
def inodeRead (s : Sys) (b : Backing) (phys : Frame) (pos : Nat) : Bool × Sys :=
  match b with
  | .memfd id =>
    match s.memfd id with
    | none => (true, s)
    | some m =>
      (true, { s with mm := s.mm.setBytes phys fun k => memfdByte s m (pos + k) })
  | .file _ =>
    match s.fileReads with
    | [] => (false, s)
    | none :: rest => (false, { s with fileReads := rest })
    | some b :: rest =>
      (true, { s with mm := s.mm.setBytes phys b, fileReads := rest })

/-- The part of `task_fault_in` for a node that maps a memfd's own pages. -/
def faultInShared (s : Sys) (pid : Nat) (a : UserAlloc) (page : Nat) : Bool × Sys :=
  match memfdIs a.backing with
  | none => (false, s)
  | some id =>
    match memfdPage s id ((a.offset + (page - a.vaddr)) / pageSize) true with
    | (none, s) => (false, s)
    | (some frame, s) =>
      let cr3 := s.pageMap pid
      let mm := pagingMapPageInvl (cowRefPage s.mm frame) cr3 frame page
        { protPte a.prot with shared := true }
      match pagingGetPage mm cr3 page with
      | none => (false, { s with mm := (cowUnrefPage mm frame).2 })
      | some _ => (true, { s with mm })

/-- What a new page of a node starts out with: zeroes, or its part of the file. -/
def readIn (s : Sys) (a : UserAlloc) (phys : Frame) (page : Nat) : Bool × Sys :=
  match a.backing with
  | none => (true, s)
  | some b => inodeRead s b phys (a.offset + (page - a.vaddr))

/-- The part of `task_fault_in` for a private page. -/
def faultInPrivate (s : Sys) (pid : Nat) (a : UserAlloc) (page : Nat) : Bool × Sys :=
  match pagingAllocEmptyFrame s.mm with
  | (none, mm) => (false, { s with mm })
  | (some phys, mm) =>
    match readIn { s with mm } a phys page with
    | (false, s) => (false, { s with mm := pmmFreePages s.mm phys 1 })
    | (true, s) =>
      let cr3 := s.pageMap pid
      let mm := pagingMapPageInvl s.mm cr3 phys page (protPte a.prot)
      match pagingGetPage mm cr3 page with
      | none => (false, { s with mm := pmmFreePages mm phys 1 })
      | some _ => (true, { s with mm })

/-- `task_fault_in`, for a user task. -/
def taskFaultIn (s : Sys) (pid addr : Nat) (write exec : Bool) : Bool × Sys :=
  match allocFind (s.allocs pid) addr with
  | none => (false, s)
  | some a =>
    if !a.lazy then (false, s)
    else if !a.prot.any then (false, s)
    else if (write && !a.prot.write) || (exec && !a.prot.exec) then (false, s)
    else
      match pagingGetPage s.mm (s.pageMap pid) (pageAlignDown addr) with
      | some _ => (false, s)
      | none =>
        if a.shared then faultInShared s pid a (pageAlignDown addr)
        else faultInPrivate s pid a (pageAlignDown addr)

/-- One page of `fill_shared`. -/
def fillSharedPage (cr3 : Cr3) (prot : Prot) (va : Nat) (m : Memory) : Bool × Memory :=
  match pagingAllocEmptyFrame m with
  | (none, m) => (false, m)
  | (some phys, m) =>
    let m := pagingMapPageInvl (cowRefPage m phys) cr3 phys va
      { protPte prot with shared := true }
    match pagingGetPage m cr3 va with
    | none => (false, pmmFreePages (cowUnrefPage m phys).2 phys 1)
    | some _ => (true, m)

/-- `fill_shared` -/
def fillShared (m : Memory) (cr3 : Cr3) (base pages : Nat) (prot : Prot) :
    Bool × Memory :=
  forEach (fun i m => fillSharedPage cr3 prot (base + i * pageSize) m)
    (List.range pages) m

/-! ## Unmapping -/

/-- Let go of one node: its pages, then its file. -/
def unmapAlloc (pid : Nat) (s : Sys) (a : UserAlloc) : Sys :=
  userAllocFree { s with mm := vmmUnmapFreePages s.mm (s.pageMap pid) a.vaddr a.pages } a

/-- `task_vma_unmap` -/
def taskVmaUnmap (s : Sys) (pid addr len : Nat) : Except Errno Unit × Sys :=
  let fin := addr + len
  match allocSplit s pid addr with
  | (false, s) => (.error .enomem, s)
  | (true, s) =>
    match allocSplit s pid fin with
    | (false, s) => (.error .enomem, s)
    | (true, s) =>
      let l := s.allocs pid
      let below := l.takeWhile fun a => a.vaddr < fin
      let kept := below.filter (fun a => a.vaddr < addr)
        ++ l.dropWhile fun a => a.vaddr < fin
      let gone := below.filter fun a => ¬ a.vaddr < addr
      (.ok (), gone.foldl (unmapAlloc pid) (s.setAllocs pid kept))

/-- One node of `task_vma_discard`. -/
def discardAlloc (pid addr fin : Nat) (s : Sys) (a : UserAlloc) : Sys :=
  if !a.lazy || decide (a.allocEnd ≤ addr) then s
  else
    let start := if a.vaddr > addr then a.vaddr else addr
    let stop := if a.allocEnd < fin then a.allocEnd else fin
    { s with mm := vmmUnmapFreePages s.mm (s.pageMap pid) start
                     ((stop - start) / pageSize) }

/-- `task_vma_discard` -/
def taskVmaDiscard (s : Sys) (pid addr len : Nat) : Sys :=
  ((s.allocs pid).takeWhile fun a => a.vaddr < addr + len).foldl
    (discardAlloc pid addr (addr + len)) s

/-! ## Mapping -/

/-- `flags & MAP_TYPE` -/
inductive MapType where
  | private_ | shared | sharedValidate | other
deriving DecidableEq, Repr

/-- The flags of `mmap` that anything looks at. `kernelNowrite` is the kernel's
own `MAP_KERNEL_NOWRITE`. -/
structure MapFlags where
  type : MapType
  fixed : Bool := false
  anonymous : Bool := false
  noreserve : Bool := false
  populate : Bool := false
  fixedNoreplace : Bool := false
  kernelNowrite : Bool := false
deriving DecidableEq, Repr

/-- The flags in a system call's argument. -/
def MapFlags.ofBits (n : Nat) : MapFlags :=
  { type := match n % 16 with
      | 1 => .shared
      | 2 => .private_
      | 3 => .sharedValidate
      | _ => .other,
    fixed := n.testBit 4, anonymous := n.testBit 5, noreserve := n.testBit 14,
    populate := n.testBit 15, fixedNoreplace := n.testBit 20,
    kernelNowrite := n.testBit 31 }

/-- Where `task_vma_map` puts the range: the node it reserved, or an error. -/
def vmaPlace (s : Sys) (pid hint len : Nat) (flags : MapFlags) :
    Except Errno Nat × Sys :=
  let pages := len / pageSize
  if flags.fixed || flags.fixedNoreplace then
    if hint % pageSize ≠ 0 then (.error .einval, s)
    else if hint < userMmapBase ∨ hint > userMmapLimit ∨
        pages > (userMmapLimit - hint) / pageSize then (.error .enomem, s)
    else
      let r :=
        if flags.fixedNoreplace then (.ok (), s) else taskVmaUnmap s pid hint len
      match r with
      | (.error e, s) => (.error e, s)
      | (.ok (), s) =>
        match taskMmapReserveAt s pid hint pages with
        | (some base, s) => (.ok base, s)
        | (none, s) =>
          (.error (if flags.fixedNoreplace then .eexist else .enomem), s)
  else
    let r :=
      if hint ≠ 0 then taskMmapReserveAt s pid (pageAlignDown hint) pages
      else (none, s)
    match r with
    | (some base, s) => (.ok base, s)
    | (none, s) =>
      match taskMmapReserve s pid pages with
      | (some base, s) => (.ok base, s)
      | (none, s) => (.error .enomem, s)

/-- `task_vma_map` -/
def taskVmaMap (s : Sys) (pid hint len : Nat) (prot : Prot) (flags : MapFlags) :
    Except Errno Nat × Sys :=
  let pages := len / pageSize
  if flags.type = .private_ ∧ prot.write ∧ !flags.noreserve ∧ len > s.usableMem then
    (.error .enomem, s)
  else
    match vmaPlace s pid hint len flags with
    | (.error e, s) => (.error e, s)
    | (.ok base, s) =>
      let s := s.setAllocs pid
        (allocModify (·.withProt prot) (s.allocs pid) base)
      if flags.type ≠ .private_ then
        match fillShared s.mm (s.pageMap pid) base pages prot with
        | (false, mm) =>
          (.error .enomem, (taskVmaUnmap { s with mm } pid base len).2)
        | (true, mm) => (.ok base, { s with mm })
      else
        let s := s.setAllocs pid
          (allocModify
            (fun a => { a with lazy := true, shared := false, nowrite := false })
            (s.allocs pid) base)
        if flags.populate && prot.any then
          match forEach
              (fun i s => taskFaultIn s pid (base + i * pageSize) false false)
              (List.range pages) s with
          | (false, s) => (.error .enomem, (taskVmaUnmap s pid base len).2)
          | (true, s) => (.ok base, s)
        else (.ok base, s)

/-- The flags `task_vma_map_file` reserves its range with. -/
def MapFlags.forFile (flags : MapFlags) : MapFlags :=
  { flags with type := .private_, populate := false, kernelNowrite := false,
               noreserve := true }

/-- The check `task_vma_map_file` starts with: a writer is let in and taken out
again, to see whether one would be let in. -/
def probeWriter (s : Sys) (inode : Backing) (writes : Bool) : Bool × Sys :=
  match memfdIs (some inode) with
  | none => (true, s)
  | some id =>
    if !writes then (true, s)
    else
      match memfdTrackWriter s id 1 with
      | (false, s) => (false, s)
      | (true, s) => (true, (memfdTrackWriter s id (-1)).2)

/-- A node as `task_vma_map_file` fills it in. -/
def UserAlloc.ofFile (inode : Backing) (offset : Nat) (shared nowrite : Bool)
    (a : UserAlloc) : UserAlloc :=
  { a with backing := some inode, offset, lazy := true,
           shared := shared && (memfdIs (some inode)).isSome,
           nowrite := shared && nowrite }

/-- The file behind the new node, its hold and its writer. -/
def attachFile (s : Sys) (pid base : Nat) (inode : Backing) (offset : Nat)
    (shared nowrite : Bool) : Sys :=
  let s := s.setAllocs pid
    (allocModify (UserAlloc.ofFile inode offset shared nowrite) (s.allocs pid) base)
  let s := vfsHold s inode
  match (allocFind (s.allocs pid) base).bind writesMemfd with
  | some id => (memfdTrackWriter s id 1).2
  | none => s

/-- `task_vma_map_file` -/
def taskVmaMapFile (s : Sys) (pid hint len : Nat) (prot : Prot) (flags : MapFlags)
    (inode : Backing) (offset : Nat) : Except Errno Nat × Sys :=
  let shared := decide (flags.type ≠ .private_)
  match probeWriter s inode (shared && prot.write) with
  | (false, s) => (.error .eperm, s)
  | (true, s) =>
    match taskVmaMap s pid hint len prot flags.forFile with
    | (.error e, s) => (.error e, s)
    | (.ok base, s) =>
      let s := attachFile s pid base inode offset shared flags.kernelNowrite
      if flags.populate && prot.any then
        (.ok base, (List.range (len / pageSize)).foldl
          (fun s i => (taskFaultIn s pid (base + i * pageSize) false false).2) s)
      else (.ok base, s)

/-! ## Protecting -/

/-- `protect_pte`, on a present entry. -/
def protectPte (cr3 : Cr3) (prot : Prot) (va : Nat) (m : Memory) : Memory :=
  if !((m.pte cr3 va).user || (m.pte cr3 va).protnone) then m
  else
    let r :=
      if !prot.write && (m.pte cr3 va).cow then pagingHandleCowFault m cr3 va 7
      else (true, m)
    if !r.1 then r.2
    else
      let p := r.2.pte cr3 va
      let f := protPte prot
      r.2.setPteAt cr3 (pageIdx va)
        { p with user := f.user, protnone := f.protnone,
                 writable := f.writable && !p.cow, nx := f.nx }

/-- `vma_each_pte` with `protect_pte`. The source steps over a missing page
table a table at a time. -/
def vmaProtectPtes (m : Memory) (cr3 : Cr3) (addr len : Nat) (prot : Prot) : Memory :=
  (List.range (len / pageSize)).foldl
    (fun m j =>
      let va := addr + j * pageSize
      if pagingGetTable m cr3 (pageIdx va) && (m.pte cr3 va).present then
        protectPte cr3 prot va m
      else m) m

/-- The writer a node becomes, or stops being, when its protection changes. -/
def trackProt (s : Sys) (a : UserAlloc) (prot : Prot) : Bool × Sys :=
  match writesMemfd a, writesMemfd (a.withProt prot) with
  | none, some id => memfdTrackWriter s id 1
  | some id, none => (true, (memfdTrackWriter s id (-1)).2)
  | _, _ => (true, s)

/-- The nodes of `task_vma_protect` from the first one on. A writer that is not
let in stops the loop with the nodes before it changed. -/
def protectFrom (fin : Nat) (prot : Prot) :
    List UserAlloc → Sys → Bool × List UserAlloc × Sys
  | [], s => (true, [], s)
  | a :: l, s =>
    if a.vaddr < fin then
      match trackProt s a prot with
      | (false, s) => (false, a :: l, s)
      | (true, s) =>
        let t := protectFrom fin prot l s
        (t.1, a.withProt prot :: t.2.1, t.2.2)
    else (true, a :: l, s)

/-- The same, from the start of the list. -/
def protectAllocs (addr fin : Nat) (prot : Prot) :
    List UserAlloc → Sys → Bool × List UserAlloc × Sys
  | [], s => (true, [], s)
  | a :: l, s =>
    if a.vaddr > addr then (true, a :: l, s)
    else if addr < a.allocEnd then protectFrom fin prot (a :: l) s
    else
      let t := protectAllocs addr fin prot l s
      (t.1, a :: t.2.1, t.2.2)

/-- `task_vma_protect` -/
def taskVmaProtect (s : Sys) (pid addr len : Nat) (prot : Prot) :
    Except Errno Unit × Sys :=
  let fin := addr + len
  if coveredTo fin (s.allocs pid) addr < fin then (.error .enomem, s)
  else
    match allocSplit s pid addr with
    | (false, s) => (.error .enomem, s)
    | (true, s) =>
      match allocSplit s pid fin with
      | (false, s) => (.error .enomem, s)
      | (true, s) =>
        if prot.write && (allocRange addr fin (s.allocs pid)).any (·.nowrite) then
          (.error .eacces, s)
        else
          match protectAllocs addr fin prot (s.allocs pid) s with
          | (false, l, s) => (.error .eperm, s.setAllocs pid l)
          | (true, l, s) =>
            let s := s.setAllocs pid l
            (.ok (), { s with
              mm := vmaProtectPtes s.mm (s.pageMap pid) addr len prot })

end BleedKernel.Mm
