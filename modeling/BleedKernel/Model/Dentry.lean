import Mathlib.Logic.Function.Basic
import Mathlib.Algebra.Ring.Nat

/-!
# `fs/vfs.c`: inodes, the dentry cache and the path walk

An inode doubles as its own dentry. It lives in the kernel heap, is found by
name through the dentry cache, and holds a ref on the directory above it for as
long as it lives. `vfs_walk` trades one ref for the next along a path; every
way a component can be resolved (a cache hit, an inode the file system builds on
the fly, one that it keeps itself, a link, a mount, `..`) does that differently.

Addresses are given out in order and not used twice. So an inode is older than
every inode with a larger address, and an address that is read after its inode
was freed finds nothing. The cache hashes pointers; what the hash does is left
open.

What the file systems answer is a `World`. The walk asks it for the entry of a
directory, for the target of a link, and for the device behind a placeholder.
-/

namespace BleedKernel.Dentry

/-- The bytes of a name or a path. -/
abbrev Name := List UInt8

/-- `inode_type` -/
inductive Kind where
  | directory | file | device | symlink
deriving DecidableEq, Repr

/-- The error codes of the modelled calls. -/
inductive Errno where
  | eperm | enoent | eio | enomem | ebusy | eexist | exdev | enotdir | eisdir | einval
  | enospc | erofs | enametoolong | enosys | enotempty | eloop
deriving DecidableEq, Repr

variable {Obj : Type}

/-- `INode_t`. `lookup` says whether its operations have one, `obj` is the
`internal_data`, and `hashed` is the bucket the inode went in, if it is in the
cache. -/
structure INode (Obj : Type) where
  shared : Nat := 1
  type : Kind
  lookup : Bool
  obj : Obj
  parent : Option Nat := none
  name : Name := []
  mounted : Option Nat := none
  attached : Bool := false
  hashed : Option Nat := none
deriving DecidableEq, Repr

/-- The inodes and the buckets of the dentry cache. -/
structure Heap (Obj : Type) where
  node : Nat → Option (INode Obj) := fun _ => none
  next : Nat := 1
  dcache : Nat → List Nat := fun _ => []

/-- `vfs_root`, which is pinned and never counted. -/
def vfsRoot : Nat := 0

/-- `VFS_LINK_DEPTH` -/
def linkDepth : Nat := 8

/-- `VFS_LINK_MAX` -/
def linkMax : Nat := 1024

/-- `sizeof(inode->name)` -/
def nameSize : Nat := 256

/-- What a file system's `lookup` hands back: an error, an inode it built for
this call, or one it keeps itself, with `shared++` for the caller. -/
inductive Found (Obj : Type) where
  | missing
  | fresh (type : Kind) (lookup : Bool) (obj : Obj) (name : Name)
  | known (child : Nat)
deriving DecidableEq, Repr

/-- What lies outside the inodes and the cache. `readlink` is missing where the
operations have none. -/
structure World (Obj : Type) where
  hash : Option Nat → Name → Nat
  lookup : Obj → Name → Found Obj
  readlink : Obj → Option (Except Errno Name)
  device : Name → Option Nat

/-- A write to an inode, or its end. -/
def Heap.set (h : Heap Obj) (n : Nat) (x : Option (INode Obj)) : Heap Obj :=
  { h with node := Function.update h.node n x }

/-- A write to an inode that is there. -/
def Heap.modify (h : Heap Obj) (n : Nat) (f : INode Obj → INode Obj) : Heap Obj :=
  match h.node n with
  | none => h
  | some x => h.set n (some (f x))

/-- `kmalloc` of an inode that is filled in at once. -/
def Heap.add (h : Heap Obj) (x : INode Obj) : Heap Obj :=
  { h with node := Function.update h.node h.next (some x), next := h.next + 1 }

/-- A name as the array in the inode keeps it: cut to fit, and over at the first
zero byte. -/
def cName (name : Name) : Name := (name.take (nameSize - 1)).takeWhile (· ≠ 0)

/-- `inode->shared++` -/
def Heap.bump (h : Heap Obj) (n : Nat) : Heap Obj :=
  h.modify n fun x => { x with shared := x.shared + 1 }

/-- `vfs_hold` -/
def vfsHold (h : Heap Obj) (n : Nat) : Heap Obj :=
  if n = vfsRoot then h else h.bump n

/-- `dcache_find` -/
def dcacheFind (W : World Obj) (h : Heap Obj) (parent : Nat) (name : Name) : Option Nat :=
  (h.dcache (W.hash (some parent) name)).find? fun n =>
    (h.node n).any fun x => decide (x.parent = some parent ∧ x.name = name)

/-- `dcache_insert` -/
def dcacheInsert (W : World Obj) (h : Heap Obj) (n : Nat) : Heap Obj :=
  match h.node n with
  | none => h
  | some x =>
    if x.hashed.isSome then h
    else
      let b := W.hash x.parent x.name
      { h.set n (some { x with hashed := some b }) with
        dcache := Function.update h.dcache b (n :: h.dcache b) }

/-- `dcache_remove` -/
def dcacheRemove (h : Heap Obj) (n : Nat) : Heap Obj :=
  match h.node n with
  | none => h
  | some x =>
    match x.hashed with
    | none => h
    | some b =>
      { h.set n (some { x with hashed := none }) with
        dcache := Function.update h.dcache b ((h.dcache b).erase n) }

/-- `inode_drop` and `kfree` of an inode that left the cache. -/
def Heap.free (h : Heap Obj) (n : Nat) : Heap Obj := (dcacheRemove h n).set n none

/-- The directory an inode holds a ref on. -/
def INode.up (x : INode Obj) : Option Nat := if x.attached then x.parent else none

/-- The loop of `vfs_drop`. Every round but the last frees an inode and goes on
with the directory above it, which is older; so the rounds are counted by the
address. -/
def dropLoop : Nat → Heap Obj → Nat → Heap Obj
  | 0, h, _ => h
  | fuel + 1, h, n =>
    if n = vfsRoot then h
    else
      match h.node n with
      | none => h
      | some x =>
        if x.shared = 0 then h
        else if 1 < x.shared then h.set n (some { x with shared := x.shared - 1 })
        else
          match x.up with
          | none => h.free n
          | some p => dropLoop fuel (h.free n) p

/-- `vfs_drop` -/
def vfsDrop (h : Heap Obj) (n : Nat) : Heap Obj := dropLoop (n + 1) h n

/-- `vfs_attach`. A name that had to be cut short stays out of the cache. -/
def vfsAttach (W : World Obj) (h : Heap Obj) (child parent : Nat) (name : Name) : Heap Obj :=
  match h.node child with
  | none => h
  | some x =>
    if x.attached then h
    else
      let h' := h.set child (some { x with name := cName name, parent := some parent })
      let h' := (vfsHold h' parent).modify child fun x => { x with attached := true }
      if name.length < nameSize then dcacheInsert W h' child else h'

/-- `vfs_adopt`: the inode to go on with. -/
def vfsAdopt (W : World Obj) (h : Heap Obj) (parent child : Nat) (name : Name) :
    Nat × Heap Obj :=
  match h.node child with
  | none => (child, h)
  | some x =>
    if x.attached then (child, h)
    else
      -- the file system's own spelling, when it has one
      let name := if x.name = [] then name else x.name
      match dcacheFind W h parent name with
      | some cached =>
        if cached = child then (child, vfsAttach W h child parent name)
        else (cached, vfsDrop (vfsHold h cached) child)
      | none => (child, vfsAttach W h child parent name)

/-- `inode_lookup` in the directory `dir`. The file systems that build an inode
leave a pointer to the directory in it that is not a ref. -/
def inodeLookup (W : World Obj) (h : Heap Obj) (dir : Nat) (obj : Obj) (name : Name) :
    Option (Nat × Heap Obj) :=
  match W.lookup obj name with
  | .missing => none
  | .known c => some (c, h.bump c)
  | .fresh type lookup obj name =>
    some (h.next, h.add { type, lookup, obj, parent := some dir, name := cName name })

/-- The components of a path, each with whether there is more of the path after
it. A trailing slash counts as more. -/
def componentsFrom : Name → Name → List (Name × Bool)
  | comp, [] => if comp = [] then [] else [(comp.reverse, false)]
  | comp, c :: path =>
    if c = 47 then
      if comp = [] then componentsFrom [] path
      else (comp.reverse, true) :: componentsFrom [] path
    else componentsFrom (c :: comp) path

/-- The components of a whole path. -/
def components (path : Name) : List (Name × Bool) := componentsFrom [] path

/-- The inode a component leads to before links and mounts are looked at, with a
ref on it. -/
def walkEntry (W : World Obj) (h : Heap Obj) (cur : Nat) (obj : Obj) (comp : Name) :
    Option (Nat × Heap Obj) :=
  match dcacheFind W h cur comp with
  | some next => some (next, vfsHold h next)
  | none => (inodeLookup W h cur obj comp).map fun r => vfsAdopt W r.2 cur r.1 comp

/-- Something may be mounted on the directory: carry on from its root. -/
def crossMount (h : Heap Obj) (next : Nat) : Nat × Heap Obj :=
  match (h.node next).bind (·.mounted) with
  | none => (next, h)
  | some root => (root, vfsDrop (vfsHold h root) next)

/-- The end of `vfs_walk`: a placeholder is swapped for the device itself. -/
def swapDevice (W : World Obj) (h : Heap Obj) (cur : Nat) : Nat × Heap Obj :=
  match h.node cur with
  | none => (cur, h)
  | some x =>
    if x.type = .device then
      match W.device x.name with
      | none => (cur, h)
      | some dev => if dev = cur then (cur, h) else (dev, vfsDrop (vfsHold h dev) cur)
    else (cur, h)

/-- The type of `vfs_follow` at one depth: the directory a link is in, the link,
and where it leads. -/
abbrev Follow (Obj : Type) := Heap Obj → Nat → Nat → Except Errno Nat × Heap Obj

/-- The loop of `vfs_walk` over the components of the path. `cur` is a ref the
walk owns. -/
def walkLoop (W : World Obj) (follow : Follow Obj) (followLast : Bool) :
    List (Name × Bool) → Heap Obj → Nat → Except Errno Nat × Heap Obj
  | [], h, cur => ((.ok (swapDevice W h cur).1), (swapDevice W h cur).2)
  | (comp, more) :: rest, h, cur =>
    if comp = [46] then walkLoop W follow followLast rest h cur
    else if comp = [46, 46] then
      match (h.node cur).bind (·.parent) with
      | none => walkLoop W follow followLast rest h cur
      | some up => walkLoop W follow followLast rest (vfsDrop (vfsHold h up) cur) up
    else
      match h.node cur with
      | none => (.error .enoent, h)
      | some x =>
        if x.lookup = false then (.error .enotdir, vfsDrop h cur)
        else
          match walkEntry W h cur x.obj comp with
          | none => (.error .enoent, vfsDrop h cur)
          | some (next, h) =>
            if (h.node next).map (·.type) = some .symlink ∧ (more ∨ followLast) then
              match follow h cur next with
              | (.error e, h) => (.error e, vfsDrop (vfsDrop h next) cur)
              | (.ok dest, h) =>
                let (next, h) := crossMount (vfsDrop h next) dest
                walkLoop W follow followLast rest (vfsDrop h cur) next
            else
              let (next, h) := crossMount h next
              walkLoop W follow followLast rest (vfsDrop h cur) next

/-- `vfs_follow` when links may still be followed, `walk` being the walk one
level down. -/
def vfsFollow (W : World Obj) (walk : Nat → Name → Heap Obj → Except Errno Nat × Heap Obj) :
    Follow Obj := fun h dir link =>
  match (h.node link).bind fun x => W.readlink x.obj with
  | none => (.error .eio, h)
  | some (.error e) => (.error e, h)
  | some (.ok target) =>
    let target := target.take (linkMax - 1)
    if target = [] then (.error .enoent, h)
    else walk (if target.head? = some 47 then vfsRoot else dir) target h

/-- `vfs_walk` from the inode `start`, with `links` more levels of links to go:
`VFS_LINK_DEPTH - depth`. -/
def walkFrom (W : World Obj) : Nat → Bool → Nat → Name → Heap Obj →
    Except Errno Nat × Heap Obj
  | 0, followLast, start, path, h =>
    walkLoop W (fun h _ _ => (.error .eloop, h)) followLast (components path)
      (vfsHold h start) start
  | links + 1, followLast, start, path, h =>
    walkLoop W (vfsFollow W (walkFrom W links true)) followLast (components path)
      (vfsHold h start) start

/-- `vfs_walk` at depth 0. -/
def vfsWalk (W : World Obj) (followLast : Bool) (start : Option Nat) (path : Name)
    (h : Heap Obj) : Except Errno Nat × Heap Obj :=
  match start with
  | none => (.error .enoent, h)
  | some start => walkFrom W linkDepth followLast start path h

/-- `vfs_lookup` -/
def vfsLookup (W : World Obj) (start : Nat) (path : Name) (h : Heap Obj) :
    Except Errno Nat × Heap Obj :=
  vfsWalk W true (some start) path h

/-- `vfs_lookup_nofollow` -/
def vfsLookupNofollow (W : World Obj) (start : Nat) (path : Name) (h : Heap Obj) :
    Except Errno Nat × Heap Obj :=
  vfsWalk W false (some start) path h

end BleedKernel.Dentry
