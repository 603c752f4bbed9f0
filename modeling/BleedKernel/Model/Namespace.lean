import BleedKernel.Model.Dentry

/-!
# `fs/vfs.c`, `fs/vfs_mount.c` and the directories of the file systems

Directories, the names in them, and what the calls that make, remove and rename
names do to inodes and to the dentry cache. What a directory of a file system
holds is its list of entries in the order the driver finds them; where a driver
has a choice of where to put an entry, the call says where. `.` and `..` are
entries like the others on the volumes that have them: no path asks for them, but a
driver compares them with the names it is given. Contents of files are left out.

The file systems differ in how they write a name down and in how they compare
one: tempfs, ext2 and ext4 keep its bytes, FAT32 keeps eight and three capitals,
exFAT keeps the spelling and compares in capitals. `Naming` is what the calls
need to know of that.

tempfs has no objects besides its inodes: its directories hold pointers to them,
with a ref each. All other drivers build an inode when one is asked for. An object
has its number for good. The drivers give the number of one that was removed to the
next, also while its inode is still in use, and what they then do through that inode is
not followed here; `Sys.freed` tells which those are.
-/

namespace BleedKernel.Dentry

/-- A file system that is mounted, and an object in it. -/
structure Obj where
  vol : Nat
  file : Nat
deriving DecidableEq, Repr

/-- A name as it is written down: bytes, or the UTF-16 units of exFAT. -/
abbrev Stored := List UInt16

/-- The file systems. -/
inductive Fs where
  | tempfs | ext2 | ext4 | fat32 | exfat
  | iso9660 (rockRidge : Bool)
deriving DecidableEq, Repr

/-- What a driver does with names: how one is written down (or which error it
gets), whether what was written down is an entry at all, whether it keeps a
directory from being empty, what entries and names are compared by, and the name
the inode of an entry gets when it is looked up. -/
structure Naming where
  store : Name → Except Errno Stored
  visible : Stored → Bool := fun _ => true
  counts : Stored → Bool := fun _ => true
  key : Stored → List UInt16
  fold : Name → List UInt16
  spelling : Stored → Name → Name

/-- `tolower` of a byte. -/
def lower (c : UInt8) : UInt8 := if 65 ≤ c ∧ c ≤ 90 then c + 32 else c

/-- `toupper` of a byte. -/
def upper (c : UInt8) : UInt8 := if 97 ≤ c ∧ c ≤ 122 then c - 32 else c

/-- The bytes of a name, one unit each. -/
def units (name : Name) : List UInt16 := name.map (·.toUInt16)

/-- `TEMPFS_MAX_NAME_LEN` -/
def tempfsMaxNameLen : Nat := 128

/-- Names that are kept as they are, up to a length. -/
def plainNaming (limit : Nat) : Naming where
  store := fun name => if name.length < limit then .ok (units name) else .error .enametoolong
  key := id
  fold := units
  spelling := fun _ name => name

/-- ext2 and ext4: as above, and `.` and `..` do not count. -/
def extNaming : Naming :=
  { plainNaming 256 with counts := fun s => decide (s ≠ [46] ∧ s ≠ [46, 46]) }

/-- The part of a name before its last dot and the part after it. -/
def splitDot (name : Name) : Name × Name :=
  if 46 ∈ name then
    ((name.reverse.dropWhile (· ≠ 46)).tail.reverse, (name.reverse.takeWhile (· ≠ 46)).reverse)
  else (name, [])

/-- `fat32_name_to_83` -/
def fat32NameTo83 (name : Name) : Option Stored :=
  let (base, ext) := splitDot name
  if 8 < base.length ∨ 3 < ext.length then none
  else
    some (units (base.map upper ++ List.replicate (8 - base.length) 32
      ++ (ext.map upper ++ List.replicate (3 - ext.length) 32)))

/-- A field of an 8.3 name without the blanks it is filled up with. -/
def unpad (field : List UInt16) : List UInt16 :=
  (field.reverse.dropWhile (· = 32)).reverse

/-- `fat32_83_to_name` -/
def fat3283ToName (stored : Stored) : Name :=
  let text := fun field => ((unpad field).map fun c => lower c.toUInt8).takeWhile (· ≠ 0)
  let base := text (stored.take 8)
  let ext := (unpad (stored.drop 8)).map fun c => lower c.toUInt8
  if ext = [] then base else base ++ 46 :: text (stored.drop 8)

/-- `fat32_name_matches`. `FAT32_ENTRY_FREE` and `FAT32_ENTRY_END` are told by the first
byte of a name, and so are the entries every directory has. -/
def fat32Naming : Naming where
  store := fun name =>
    match fat32NameTo83 name with
    | none => .error .enametoolong
    | some s => .ok s
  visible := fun s => decide (s.head? ≠ some 0xE5 ∧ s.head? ≠ some 0)
  counts := fun s => decide (¬(s[0]? = some 46 ∧ (s[1]? = some 32 ∨ s[1]? = some 46)))
  key := fun s => units ((fat3283ToName s).map lower)
  fold := fun name => units (name.map lower)
  spelling := fun s _ => fat3283ToName s

/-- `EXFAT_MAX_NAME_CHARS` -/
def exfatMaxNameChars : Nat := 255

/-- `exfat_utf8_to_utf16`, `exfat_name_matches` and `exfat_utf16_to_utf8`, over the
upcase table of the volume. -/
def exfatNaming (upcase : UInt16 → UInt16) : Naming where
  store := fun name =>
    if name = [] ∨ exfatMaxNameChars < name.length ∨ ¬(name.all (· < 128)) then
      .error .enametoolong
    else .ok (units name)
  key := fun s => s.map upcase
  fold := fun name => (units name).map upcase
  spelling := fun s _ => s.map fun c => if c < 128 then c.toUInt8 else 95

/-- `iso_name` and `iso_name_matches`. The entry is the name `iso_name` makes of the
record; nothing is ever written. -/
def isoNaming (rockRidge : Bool) : Naming where
  store := fun _ => .error .enosys
  key := fun s => if rockRidge then s else units ((s.map (·.toUInt8)).map lower)
  fold := fun name => if rockRidge then units name else units (name.map lower)
  spelling := fun s _ => s.map (·.toUInt8)

/-- The driver of a directory, and the upcase table of its volume. -/
structure Driver where
  fs : Fs
  upcase : UInt16 → UInt16 := id

/-- What each driver does with names. -/
def Driver.naming (d : Driver) : Naming :=
  match d.fs with
  | .tempfs => plainNaming tempfsMaxNameLen
  | .ext2 => extNaming
  | .ext4 => extNaming
  | .fat32 => fat32Naming
  | .exfat => exfatNaming d.upcase
  | .iso9660 rockRidge => isoNaming rockRidge

/-- An entry of a directory. tempfs has the inode in it. -/
structure DirEnt where
  name : Stored
  file : Nat
  node : Option Nat := none
deriving DecidableEq, Repr

/-- The driver has no operations that write. -/
def Driver.readOnly (d : Driver) : Bool :=
  match d.fs with
  | .iso9660 _ => true
  | _ => false

/-- An object of a file system, less its contents. -/
structure File where
  driver : Driver
  kind : Kind
  target : Name := []
  entries : List DirEnt := []

/-- `mount_entry_t` -/
structure Mount where
  path : Name := []
  mountpoint : Option Nat := none
  fsRoot : Option Nat := none
  dev : Option Nat := none
  active : Bool := false
  devOwned : Bool := false
deriving DecidableEq, Repr

/-- Inodes, what the file systems hold, the mount table, and who holds refs on
inodes: open files and callers of a lookup, working directories, the device list.
An inode that was built and that nobody has a pointer to is in `stranded`, and not in
the heap. `freed` are the objects whose number a driver has given back. -/
structure Sys where
  heap : Heap Obj := {}
  files : Nat → File
  nextFile : Nat
  vols : Nat := 1
  mounts : List Mount
  held : List Nat := []
  cwd : List Nat := []
  devices : List (Name × Nat) := []
  hash : Option Nat → Name → Nat
  stranded : List (INode Obj) := []
  freed : List Nat := []

/-- `VFS_MAX_MOUNTS` -/
def vfsMaxMounts : Nat := 32

/-- `MOUNT_PATH_MAX` -/
def mountPathMax : Nat := 256

/-! ## The drivers -/

/-- The entry a driver finds under a name. -/
def File.find (f : File) (name : Name) : Option DirEnt :=
  f.entries.find? fun e => decide (f.driver.naming.key e.name = f.driver.naming.fold name)

/-- `lookup` of the drivers, `readlink`, and `device_get_by_name`. -/
def Sys.world (s : Sys) : World Obj where
  hash := s.hash
  lookup := fun o name =>
    let dir := s.files o.file
    match dir.find name with
    | none => .missing
    | some e =>
      match e.node with
      | some c => .known c
      | none =>
        let f := s.files e.file
        .fresh f.kind (decide (f.kind = .directory)) ⟨o.vol, e.file⟩
          (dir.driver.naming.spelling e.name name)
  readlink := fun o =>
    if (s.files o.file).kind = .symlink then some (.ok (s.files o.file).target) else none
  device := fun name => (s.devices.find? fun d => decide (d.1 = name)).map (·.2)

/-- Another object under the number. -/
def Sys.setFile (s : Sys) (i : Nat) (f : File) : Sys :=
  { s with files := Function.update s.files i f }

/-- The directory with other entries. -/
def Sys.setEntries (s : Sys) (i : Nat) (es : List DirEnt) : Sys :=
  s.setFile i { s.files i with entries := es }

/-- The entries with one more in that place. -/
def insertAt (pos : Nat) (e : DirEnt) (es : List DirEnt) : List DirEnt :=
  es.take pos ++ e :: es.drop pos

/-- The place of a new entry. `exfat_find_free_run` may find one behind the end of the
directory, where no scan comes. ext2 may find no block for the `.` and `..` of a new
directory, and does without them. -/
structure Place where
  pos : Nat := 0
  seen : Bool := true
  dots : Bool := true
deriving DecidableEq, Repr

/-- The entries with a new one: tempfs puts it at the end, the others where there is
room. -/
def File.with (f : File) (p : Place) (e : DirEnt) : List DirEnt :=
  if f.driver.naming.visible e.name && (decide (f.driver.fs ≠ .exfat) || p.seen) then
    insertAt (if f.driver.fs = .tempfs then f.entries.length else p.pos) e f.entries
  else f.entries

/-- The entries a new object has from the start, for itself and the directory it is in. -/
def Driver.dots (d : Driver) (kind : Kind) (p : Place) (self up : Nat) : List DirEnt :=
  match kind, d.fs with
  | .directory, .ext2 =>
    if p.dots then [{ name := [46], file := self }, { name := [46, 46], file := up }] else []
  | .directory, .ext4 => [{ name := [46], file := self }, { name := [46, 46], file := up }]
  | .directory, .fat32 =>
    [{ name := 46 :: List.replicate 10 32, file := self },
      { name := 46 :: 46 :: List.replicate 9 32, file := up }]
  | _, _ => []

/-- A new object with its entry in the directory `dir`, and the inode that comes back
with one ref for the caller. tempfs keeps a second one. -/
def Sys.make (s : Sys) (dir : Nat) (o : Obj) (stored : Stored) (kind : Kind) (target : Name)
    (p : Place) : Nat × Sys :=
  let d := s.files o.file
  let tmp := decide (d.driver.fs = .tempfs)
  let n := s.heap.next
  let x : INode Obj :=
    { shared := if tmp then 2 else 1
      type := kind
      lookup := decide (kind = .directory)
      obj := ⟨o.vol, s.nextFile⟩
      parent := if tmp then none else some dir }
  let e : DirEnt := { name := stored, file := s.nextFile, node := if tmp then some n else none }
  let s := s.setFile s.nextFile
    { driver := d.driver, kind := kind, target := target
      entries := d.driver.dots kind p s.nextFile o.file }
  (n, { s.setEntries o.file (d.with p e) with
        heap := s.heap.add x
        nextFile := s.nextFile + 1 })

/-- Where the entry under a name is. -/
def File.index (f : File) (name : Name) : Option Nat :=
  f.entries.findIdx? fun e => decide (f.driver.naming.key e.name = f.driver.naming.fold name)

/-- The entries without the one at `i`. tempfs puts the last one in its place. -/
def File.without (f : File) (i : Nat) : List DirEnt :=
  if f.driver.fs = .tempfs then
    match f.entries.getLast? with
    | none => f.entries
    | some e => (f.entries.set i e).dropLast
  else f.entries.eraseIdx i

/-- The directory cannot be removed. -/
def File.full (f : File) : Bool := f.entries.any fun e => f.driver.naming.counts e.name

/-- `unlink` of the drivers: the entry goes, and in tempfs the ref of the tree with
it. The others free the object. `fault` is an error of the volume, before anything is
changed. -/
def Sys.unlink (s : Sys) (o : Obj) (name : Name) (fault : Option Errno) :
    Except Errno Unit × Sys :=
  let d := s.files o.file
  match fault, d.index name with
  | some e, _ => (.error e, s)
  | none, none => (.error .enoent, s)
  | none, some i =>
    match d.entries[i]? with
    | none => (.error .enoent, s)
    | some e =>
      if (s.files e.file).full then (.error .enotempty, s)
      else
        let s := s.setEntries o.file (d.without i)
        (.ok (), match e.node with
          | none => { s with freed := e.file :: s.freed }
          | some c => { s with heap := vfsDrop s.heap c })

/-- The entries of an exFAT name: `(len + 14) / 15`. -/
def exfatSlots (len : Nat) : Nat := (len + 14) / 15

/-- The errors of a volume and of `kmalloc`. -/
inductive Fault where
  | eio | enomem | enospc | erofs
deriving DecidableEq, Repr

/-- As an error code. -/
def Fault.errno : Fault → Errno
  | eio => .eio
  | enomem => .enomem
  | enospc => .enospc
  | erofs => .erofs

/-- What a rename finds on its volume: an error before anything is written; for ext2 and
ext4 the length of the old record, and where there is another place for a name that is too
long for it, or why there is none; and for ext4 an error after the new record is there. -/
structure Fit where
  fault : Option Fault := none
  recLen : Nat := 0
  added : Except Fault Nat := .ok 0
  left : Option Fault := none

/-- The length of a record of ext2 or ext4 for a name of that length. -/
def recSize (len : Nat) : Nat := (8 + len + 3) / 4 * 4

/-- The new name does not fit in the record of the old one, which is as long as that needs or
longer. -/
def File.outgrows (f : File) (e : DirEnt) (stored : Stored) (fit : Fit) : Bool :=
  (decide (f.driver.fs = .ext2) || decide (f.driver.fs = .ext4)) &&
    decide (max fit.recLen (recSize e.name.length) < recSize stored.length)

/-- The entry at `i` goes elsewhere as `e`. ext2 takes the old one away before it looks for
room. ext4 does so once the new one is there. -/
def File.relocate (f : File) (i : Nat) (e : DirEnt) (fit : Fit) : Option Fault × List DirEnt :=
  if f.driver.fs = .ext2 then
    match fit.added with
    | .error err => (some err, f.entries.eraseIdx i)
    | .ok pos => (none, insertAt pos e (f.entries.eraseIdx i))
  else
    match fit.added, fit.left with
    | .error err, _ => (some err, f.entries)
    | .ok pos, some err => (some err, insertAt pos e f.entries)
    | .ok pos, none => (none, insertAt pos e (f.entries.eraseIdx i))

/-- The entry `e` at `i` is given another name: the error, and the entries of the directory. -/
def File.renamed (f : File) (i : Nat) (e : DirEnt) (stored : Stored) (fit : Fit) :
    Option Fault × List DirEnt :=
  match decide (f.driver.fs ≠ .tempfs), fit.fault with
  | true, some err => (some err, f.entries)
  | _, _ =>
    if f.outgrows e stored fit then f.relocate i { e with name := stored } fit
    else if f.driver.naming.visible stored then (none, f.entries.set i { e with name := stored })
    else (none, f.entries.eraseIdx i)

/-- `rename` of the drivers. tempfs looks for the new name first and renames its
inode. -/
def Sys.rename (s : Sys) (o : Obj) (old new : Name) (fit : Fit) : Except Errno Unit × Sys :=
  let d := s.files o.file
  match d.driver.naming.store new with
  | .error e => (.error e, s)
  | .ok stored =>
    if d.driver.fs = .tempfs ∧ (d.find new).isSome then (.error .eexist, s)
    else
      match d.index old with
      | none => (.error .enoent, s)
      | some i =>
        match d.entries[i]? with
        | none => (.error .enoent, s)
        | some e =>
          if d.driver.fs = .exfat ∧ exfatSlots e.name.length < exfatSlots new.length then
            (.error .enametoolong, s)
          else
            let r := d.renamed i e stored fit
            let s := s.setEntries o.file r.2
            match r.1, e.node with
            | some err, _ => (.error err.errno, s)
            | none, none => (.ok (), s)
            | none, some c =>
              (.ok (), { s with heap := s.heap.modify c fun x => { x with name := cName new } })

/-! ## The calls -/

/-- `vfs_path_split`: the path of the directory, and the name in it. -/
def pathSplit (path : Name) : Option (Name × Name) :=
  let p := (path.reverse.dropWhile (· = 47)).reverse
  if p = [] then none
  else
    let name := (p.reverse.takeWhile (· ≠ 47)).reverse
    some (p.take (p.length - name.length), name)

/-- Where relative paths start: the directory of a task, or one that is open. -/
inductive Base where
  | cwd (t : Nat)
  | fd (k : Nat)
deriving DecidableEq, Repr

/-- `vfs_at_base` and `vfs_path_from_relative`. -/
def Sys.start (s : Sys) (base : Base) (path : Name) : Nat :=
  if path.head? = some 47 then vfsRoot
  else
    match base with
    | .cwd t => s.cwd.getD t vfsRoot
    | .fd k => s.held.getD k vfsRoot

/-- `vfs_lookup` -/
def Sys.lookup (s : Sys) (start : Nat) (path : Name) : Except Errno Nat × Sys :=
  let r := vfsLookup s.world start path s.heap
  (r.1, { s with heap := r.2 })

/-- `vfs_lookup_nofollow` -/
def Sys.lookupNofollow (s : Sys) (start : Nat) (path : Name) : Except Errno Nat × Sys :=
  let r := vfsLookupNofollow s.world start path s.heap
  (r.1, { s with heap := r.2 })

/-- `vfs_drop` -/
def Sys.drop (s : Sys) (n : Nat) : Sys := { s with heap := vfsDrop s.heap n }

/-- The type of an inode. -/
def Sys.type (s : Sys) (n : Nat) : Option Kind := (s.heap.node n).map (·.type)

/-- The operations of the inode have `create`, `unlink` and `rename`. -/
def Sys.writes (s : Sys) (x : INode Obj) : Bool :=
  x.lookup && !(s.files x.obj.file).driver.readOnly

/-- The type a new object gets from `create` of the drivers. -/
def createKind (fs : Fs) (kind : Kind) : Except Errno Kind :=
  match kind, fs with
  | .directory, _ => .ok .directory
  | .symlink, .tempfs => .ok .symlink
  | .symlink, .ext2 | .symlink, .ext4 => .error .einval
  | _, _ => .ok .file

/-- What `create` of a driver finds: an error before anything is written, a place for the
entry, or a place for it and then no inode. -/
inductive Room where
  | fault (e : Errno)
  | made (p : Place)
  | bare (p : Place) (e : Fault)
deriving DecidableEq, Repr

/-- A scan comes to the place. -/
def Room.seen : Room → Bool
  | fault _ => true
  | made p | bare p _ => p.seen

/-- The entry of a new object, for which no inode was built. tempfs makes no entry then, and
ext2 gives the number of the object back. -/
def Sys.makeBare (s : Sys) (dir : Nat) (o : Obj) (stored : Stored) (kind : Kind) (target : Name)
    (p : Place) : Sys :=
  if (s.files o.file).driver.fs = .tempfs then s
  else
    { (s.make dir o stored kind target p).2 with
      heap := s.heap
      freed := if (s.files o.file).driver.fs = .ext2 then s.nextFile :: s.freed else s.freed }

/-- `inode_create` in the directory `dir` and `vfs_attach`: the part of `vfs_create`
after the directory was found. -/
def createIn (s : Sys) (dir : Nat) (name : Name) (kind : Kind) (room : Room) :
    Except Errno Nat × Sys :=
  match s.heap.node dir with
  | none => (.error .enoent, s)
  | some x =>
    if s.writes x = false then (.error .enosys, s)
    else
      let d := (s.files x.obj.file).driver
      match createKind d.fs kind, d.naming.store name, room with
      | .error e, _, _ => (.error e, s)
      | .ok _, .error e, _ => (.error e, s)
      | .ok _, .ok _, .fault e => (.error e, s)
      | .ok kind, .ok stored, .bare p e => (.error e.errno, s.makeBare dir x.obj stored kind [] p)
      | .ok kind, .ok stored, .made p =>
        let (n, s) := s.make dir x.obj stored kind [] p
        (.ok n, { s with heap := vfsAttach s.world s.heap n dir name })

/-- `vfs_create` -/
def vfsCreate (s : Sys) (start : Nat) (path : Name) (kind : Kind) (room : Room) :
    Except Errno Nat × Sys :=
  match pathSplit path with
  | none => (.error .enoent, s)
  | some (parent, name) =>
    match s.lookup start parent with
    | (.error e, s) => (.error e, s)
    | (.ok dir, s) =>
      let (r, s) := createIn s dir name kind room
      (r, s.drop dir)

/-- The flags of `vfs_open` that matter here. -/
structure Flags where
  creat : Bool := false
  excl : Bool := false
  nofollow : Bool := false
  directory : Bool := false
deriving DecidableEq, Repr

/-- The end of `vfs_open_at`, with a ref on the inode: `fault` says that there was no
memory or no slot for the file, or that it could not be truncated. -/
def openInode (s : Sys) (n : Nat) (fl : Flags) (fault : Option Errno) : Except Errno Nat × Sys :=
  if fl.directory ∧ s.type n ≠ some .directory then (.error .enotdir, s.drop n)
  else
    match fault with
    | some e => (.error e, s.drop n)
    | none => (.ok n, { s with held := n :: s.held })

/-- `vfs_open_at` -/
def vfsOpen (s : Sys) (base : Base) (path : Name) (fl : Flags) (room : Room)
    (fault : Option Errno) : Except Errno Nat × Sys :=
  if path = [] then (.error .enoent, s)
  else
    match (if fl.nofollow then s.lookupNofollow (s.start base path) path
        else s.lookup (s.start base path) path) with
    | (.ok n, s) =>
      if s.type n = some .symlink then (.error .eloop, s.drop n)
      else if fl.creat ∧ fl.excl then (.error .eexist, s.drop n)
      else openInode s n fl fault
    | (.error e, s) =>
      if fl.creat = false then (.error e, s)
      else
        match vfsCreate s (s.start base path) path .file room with
        | (.error e, s) => (.error e, s)
        | (.ok n, s) => openInode s n fl fault

/-- `vfs_mkdir` -/
def vfsMkdir (s : Sys) (t : Nat) (path : Name) (room : Room) : Except Errno Unit × Sys :=
  match s.lookup (s.start (.cwd t) path) path with
  | (.ok n, s) => (.error .eexist, s.drop n)
  | (.error _, s) =>
    match vfsCreate s (s.start (.cwd t) path) path .directory room with
    | (.error e, s) => (.error e, s)
    | (.ok n, s) => (.ok (), s.drop n)

/-- What `symlink` of a driver finds: as `create`, or a place for the entry and then room for
no more than some bytes of the target. -/
inductive LinkRoom where
  | of (room : Room)
  | short (p : Place) (written : Nat)
deriving DecidableEq, Repr

/-- `symlink` of the drivers in the directory `dir`, and what `vfs_symlink_at` does
with the inode. Only tempfs looks for the name itself. tempfs and ext4 take a link back
that they could not finish. ext2 leaves its entry, and its inode with a ref that nobody
has: `vfs_symlink_at` looks at the inode only if there was no error. -/
def symlinkIn (s : Sys) (dir : Nat) (target name : Name) (room : LinkRoom) :
    Except Errno Unit × Sys :=
  match s.heap.node dir with
  | none => (.error .enoent, s)
  | some x =>
    let d := s.files x.obj.file
    if d.driver.fs = .fat32 ∨ d.driver.fs = .exfat ∨ d.driver.readOnly then (.error .eperm, s)
    else if d.driver.fs = .tempfs ∧ (d.find name).isSome then (.error .eexist, s)
    else
      match d.driver.naming.store name, room with
      | .error e, _ => (.error e, s)
      | .ok _, .of (.fault e) => (.error e, s)
      | .ok stored, .of (.bare p e) =>
        -- ext2 writes the target last
        (.error e.errno, s.makeBare dir x.obj stored .symlink
          (if d.driver.fs = .ext2 then [] else target) p)
      | .ok stored, .short p written =>
        if d.driver.fs = .ext2 then
          let (n, s') := s.make dir x.obj stored .symlink (target.take written) p
          (.error .enospc, { s' with
            heap := s.heap
            stranded := ((s'.heap.node n).map fun x => { x with name := cName name }).toList
              ++ s.stranded })
        else (.error .enospc, s)
      | .ok stored, .of (.made p) =>
        let (n, s) := s.make dir x.obj stored .symlink target p
        (.ok (), Sys.drop { s with heap := vfsAttach s.world s.heap n dir name } n)

/-- `vfs_symlink_at` -/
def vfsSymlink (s : Sys) (base : Base) (target path : Name) (room : LinkRoom) :
    Except Errno Unit × Sys :=
  if target = [] then (.error .enoent, s)
  else if linkMax ≤ target.length then (.error .enametoolong, s)
  else
    match s.lookupNofollow (s.start base path) path with
    | (.ok n, s) => (.error .eexist, s.drop n)
    | (.error _, s) =>
      match pathSplit path with
      | none => (.error .enoent, s)
      | some (parent, name) =>
        match s.lookup (s.start base path) parent with
        | (.error e, s) => (.error e, s)
        | (.ok dir, s) =>
          if s.type dir ≠ some .directory then (.error .enotdir, s.drop dir)
          else
            let (r, s) := symlinkIn s dir target name room
            (r, s.drop dir)

/-- Out of the cache goes what is under this very spelling. -/
def forget (s : Sys) (dir : Nat) (name : Name) : Sys :=
  match dcacheFind s.world s.heap dir name with
  | none => s
  | some victim => { s with heap := dcacheRemove s.heap victim }

/-- `unlink` in the directory `dir`, and what is left of it in the cache. -/
def unlinkIn (s : Sys) (dir : Nat) (name : Name) (fault : Option Errno) :
    Except Errno Unit × Sys :=
  match s.heap.node dir with
  | none => (.error .enoent, s)
  | some x =>
    if s.writes x = false then (.error .enosys, s)
    else
      match s.unlink x.obj name fault with
      | (.error e, s) => (.error e, s)
      | (.ok (), s) => (.ok (), forget s dir name)

/-- `vfs_unlink_from` -/
def vfsUnlink (s : Sys) (base : Base) (path : Name) (fault : Option Errno) :
    Except Errno Unit × Sys :=
  match pathSplit path with
  | none => (.error .enoent, s)
  | some (parent, name) =>
    match s.lookup (s.start base path) parent with
    | (.error e, s) => (.error e, s)
    | (.ok dir, s) =>
      let (r, s) := unlinkIn s dir name fault
      (r, s.drop dir)

/-- `vfs_rename_entry` -/
def renameEntry (s : Sys) (dir : Nat) (old new : Name) (fit : Fit) : Except Errno Unit × Sys :=
  match s.heap.node dir with
  | none => (.error .enoent, s)
  | some x =>
    let moved := dcacheFind s.world s.heap dir old
    let s := forget s dir old
    match s.rename x.obj old new fit with
    | (.error e, s) =>
      (.error e, match moved with
        | none => s
        | some m => { s with heap := dcacheInsert s.world s.heap m })
    | (.ok (), s) =>
      (.ok (), match moved with
        | none => s
        | some m =>
          if new.length < nameSize then
            let h := s.heap.modify m fun x => { x with name := cName new }
            { s with heap := dcacheInsert s.world h m }
          else s)

/-- `vfs_rename_over`: `true` when the name that was taken is free now. -/
def renameOver (s : Sys) (t dir : Nat) (old new newName : Name) (fault : Option Errno) :
    Except Errno Bool × Sys :=
  match s.lookupNofollow (s.start (.cwd t) old) old with
  | (.error e, s) => (.error e, s)
  | (.ok src, s) =>
    match s.lookupNofollow (s.start (.cwd t) new) new with
    | (.error _, s) => (.error .eexist, s.drop src)
    | (.ok dst, s) =>
      let r : Except Errno Bool :=
        if src = dst then .ok false
        else if s.type dst = some .directory then
          .error (if s.type src = some .directory then .enotempty else .eisdir)
        else if s.type src = some .directory then .error .enotdir
        else .ok true
      let s := (s.drop src).drop dst
      match r with
      | .ok true =>
        match unlinkIn s dir newName fault with
        | (.error e, s) => (.error e, s)
        | (.ok (), s) => (.ok true, s)
      | r => (r, s)

/-- The part of `vfs_rename` after both directories were found to be one. -/
def renameIn (s : Sys) (t dir : Nat) (old new oldName newName : Name) (fit : Fit)
    (fault : Option Errno) : Except Errno Unit × Sys :=
  match renameEntry s dir oldName newName fit with
  | (.error .eexist, s) =>
    match renameOver s t dir old new newName fault with
    | (.ok true, s) => renameEntry s dir oldName newName fit
    | (.ok false, s) => (.ok (), s)
    | (.error e, s) => (.error e, s)
  | r => r

/-- `vfs_rename` -/
def vfsRename (s : Sys) (t : Nat) (old new : Name) (fit : Fit) (fault : Option Errno) :
    Except Errno Unit × Sys :=
  match pathSplit old, pathSplit new with
  | some (oldParent, oldName), some (newParent, newName) =>
    match s.lookup (s.start (.cwd t) old) oldParent with
    | (.error e, s) => (.error e, s)
    | (.ok dir, s) =>
      match s.lookup (s.start (.cwd t) new) newParent with
      | (.error e, s) => (.error e, s.drop dir)
      | (.ok dir', s) =>
        if dir ≠ dir' then (.error .exdev, (s.drop dir).drop dir')
        else if (s.heap.node dir).map s.writes ≠ some true then
          (.error .enosys, (s.drop dir).drop dir')
        else
          let (r, s) := renameIn s t dir old new oldName newName fit fault
          (r, (s.drop dir).drop dir')
  | _, _ => (.error .enoent, s)

/-- `vfs_chdir` -/
def vfsChdir (s : Sys) (t : Nat) (path : Name) : Except Errno Unit × Sys :=
  match s.lookup (s.start (.cwd t) path) path with
  | (.error e, s) => (.error e, s)
  | (.ok n, s) =>
    if s.type n ≠ some .directory then (.error .enotdir, s.drop n)
    else
      match s.cwd[t]? with
      | none => (.error .einval, s.drop n)
      | some old => (.ok (), { s.drop old with cwd := s.cwd.set t n })

/-- The last ref on an open file, or the one a lookup gave, goes. -/
def closeHeld (s : Sys) (k : Nat) : Sys :=
  match s.held[k]? with
  | none => s
  | some n => Sys.drop { s with held := s.held.eraseIdx k } n

/-- `vfs_reopen_fd`: another file on what is open. -/
def reopenHeld (s : Sys) (k : Nat) : Sys :=
  match s.held[k]? with
  | none => s
  | some n => { s with heap := vfsHold s.heap n, held := n :: s.held }

/-! ## `fs/vfs_mount.c` -/

/-- What is found on a device: nothing known, something that the driver does not
mount, or a volume with this root. The root is an object that is already there. -/
inductive Probe where
  | unknown
  | bad
  | root (file : Nat)
deriving DecidableEq, Repr

/-- The mount table with another entry in the slot. -/
def Sys.setMount (s : Sys) (i : Nat) (m : Mount) : Sys := { s with mounts := s.mounts.set i m }

/-- `mount_slot_release` -/
def slotRelease (s : Sys) (i : Nat) : Sys :=
  match s.mounts[i]? with
  | none => s
  | some m => s.setMount i { m with active := false }

/-- A mount other than the one in slot `i` has this root. -/
def coveredBy (s : Sys) (i n : Nat) : Bool :=
  (List.range s.mounts.length).any fun j =>
    decide (j ≠ i) && (s.mounts[j]?.any fun m => m.active && decide (m.fsRoot = some n))

/-- The part of `vfs_mount` after the directory was found: the root takes its place
in the tree. -/
def mountOn (s : Sys) (i mp dev : Nat) (path : Name) (probe : Probe) :
    Except Errno Unit × Sys :=
  match s.heap.node mp with
  | none => (.error .enoent, s)
  | some x =>
    if x.type ≠ .directory then (.error .enotdir, slotRelease (s.drop mp) i)
    else if coveredBy s i mp ∨ x.mounted.isSome then
      (.error .ebusy, slotRelease (s.drop mp) i)
    else
      match probe with
      | .root file =>
        if s.nextFile ≤ file then (.error .eio, slotRelease (s.drop mp) i)
        else
          let r := s.heap.next
          let root : INode Obj :=
            { type := .directory, lookup := true, obj := ⟨s.vols, file⟩, name := x.name
              parent := x.parent, attached := true }
          let h := (s.heap.add root)
          let h := match x.parent with
            | none => h
            | some p => vfsHold h p
          let h := h.modify mp fun x => { x with mounted := some r }
          (.ok (), { s with
            heap := h
            vols := s.vols + 1
            mounts := s.mounts.set i
              { path, mountpoint := some mp, fsRoot := some r, dev := some dev, active := true } })
      | _ => (.error .eio, slotRelease (s.drop mp) i)

/-- `vfs_mount` of the device with the inode `dev`. The path is an absolute one. -/
def vfsMount (s : Sys) (path : Name) (dev : Nat) (probe : Probe)
    (room : Room) : Except Errno Unit × Sys :=
  if mountPathMax ≤ path.length then (.error .enametoolong, s)
  else
    match s.mounts.findIdx? fun m => !m.active with
    | none => (.error .enomem, s)
    | some i =>
      match s.mounts[i]? with
      | none => (.error .enomem, s)
      | some m =>
        let s := s.setMount i
          { m with active := true, devOwned := false, fsRoot := none, mountpoint := none }
        if probe = .unknown then (.error .einval, slotRelease s i)
        else
          match s.lookup vfsRoot path with
          | (.ok mp, s) => mountOn s i mp dev path probe
          | (.error _, s) =>
            match vfsCreate s vfsRoot path .directory room with
            | (.error _, s) => (.error .enoent, slotRelease s i)
            | (.ok mp, s) => mountOn s i mp dev path probe

/-- `vfs_mount_file` -/
def vfsMountFile (s : Sys) (path filePath : Name) (probe : Probe)
    (room : Room) : Except Errno Unit × Sys :=
  match s.lookup vfsRoot filePath with
  | (.error _, s) => (.error .enoent, s)
  | (.ok file, s) =>
    if s.type file ≠ some .file then (.error .einval, s.drop file)
    else
      match vfsMount s path file probe room with
      | (.error e, s) => (.error e, s.drop file)
      | (.ok (), s) =>
        (.ok (), { s with
          mounts := s.mounts.map fun m =>
            if m.active ∧ m.dev = some file then { m with devOwned := true } else m })

/-- The loop of `inode_under`: up the tree, to older inodes. -/
def underLoop (h : Heap Obj) (root : Nat) : Nat → Nat → Bool
  | 0, _ => false
  | fuel + 1, n =>
    if n = root then true
    else
      match (h.node n).bind (·.parent) with
      | none => false
      | some p => underLoop h root fuel p

/-- `inode_under` -/
def inodeUnder (h : Heap Obj) (n root : Nat) : Bool := underLoop h root (n + 1) n

/-- A file mounted from inside the file system with this root. -/
def fileMountOn (s : Sys) (root : Nat) : Option Mount :=
  s.mounts.find? fun m => m.active && m.fsRoot.isSome && m.devOwned
    && (m.dev.any fun d => inodeUnder s.heap d root)

/-- The entry is the mount of `path`. -/
def Mount.at (m : Mount) (path : Name) : Bool :=
  m.active && m.fsRoot.isSome && decide (m.path = path)

/-- The second half of `vfs_umount`, for the first mount of that path. -/
def umountIdle (s : Sys) (path : Name) : Except Errno Unit × Sys :=
  match s.mounts.findIdx? (·.at path) with
  | none => (.error .einval, s)
  | some i =>
    match s.mounts[i]? with
    | some { mountpoint := some mp, fsRoot := some root, dev, devOwned, .. } =>
      if 1 < ((s.heap.node root).map (·.shared)).getD 0 then (.error .ebusy, s)
      else
        let s := { s with
          heap := s.heap.modify mp fun x => { x with mounted := none }
          mounts := s.mounts.set i {} }
        let s := (s.drop root).drop mp
        (.ok (), match devOwned, dev with
          | true, some d => s.drop d
          | _, _ => s)
    | _ => (.error .einval, s)

/-- The loop of `umount_files_on` that does not force, with `vfs_umount` as the
call it makes. -/
def umountFilesOn (umount : Sys → Name → Option (Except Errno Unit × Sys)) (root : Nat) :
    Nat → Sys → Option (Except Errno Unit × Sys)
  | 0, _ => none
  | fuel + 1, s =>
    match fileMountOn s root with
    | none => some (.ok (), s)
    | some m =>
      match umount s m.path with
      | none => none
      | some (.error _, s) => some (.error .ebusy, s)
      | some (.ok (), s) => umountFilesOn umount root fuel s

/-- `vfs_umount`. The files mounted from inside come off first, by their paths, in
calls of the same function; `fuel` bounds how deep these go and how long their
loops are, and without enough of it there is no result. -/
def vfsUmount : Nat → Sys → Name → Option (Except Errno Unit × Sys)
  | 0, _, _ => none
  | fuel + 1, s, path =>
    match (s.mounts.reverse.find? (·.at path)).bind (·.fsRoot) with
    | none => some (umountIdle s path)
    | some root =>
      match umountFilesOn (vfsUmount fuel) root (fuel + 1) s with
      | none => none
      | some (.error _, s) => some (.error .ebusy, s)
      | some (.ok (), s) => some (umountIdle s path)

/-! ## The system -/

/-- The calls, with what the drivers and the allocators find during them. -/
inductive Act where
  | lookup (base : Base) (path : Name) (follow : Bool)
  | open (base : Base) (path : Name) (fl : Flags) (room : Room)
      (fault : Option Errno)
  | reopen (k : Nat)
  | close (k : Nat)
  | create (base : Base) (path : Name) (kind : Kind) (room : Room)
  | mkdir (t : Nat) (path : Name) (room : Room)
  | symlink (base : Base) (target path : Name) (room : LinkRoom)
  | unlink (base : Base) (path : Name) (fault : Option Errno)
  | rename (t : Nat) (old new : Name) (fit : Fit) (fault : Option Errno)
  | chdir (t : Nat) (path : Name)
  | mount (path dev : Name) (probe : Probe) (room : Room)
  | mountFile (path file : Name) (probe : Probe) (room : Room)
  | umount (path : Name) (fuel : Nat)

/-- A ref that a call hands back is held by its caller. -/
def Sys.hand (r : Except Errno Nat × Sys) : Sys :=
  match r with
  | (.ok n, s) => { s with held := n :: s.held }
  | (.error _, s) => s

/-- One call. -/
def step (s : Sys) : Act → Sys
  | .lookup base path follow =>
    .hand (if follow then s.lookup (s.start base path) path
      else s.lookupNofollow (s.start base path) path)
  | .open base path fl room fault => (vfsOpen s base path fl room fault).2
  | .reopen k => reopenHeld s k
  | .close k => closeHeld s k
  | .create base path kind room => .hand (vfsCreate s (s.start base path) path kind room)
  | .mkdir t path room => (vfsMkdir s t path room).2
  | .symlink base target path room => (vfsSymlink s base target path room).2
  | .unlink base path fault => (vfsUnlink s base path fault).2
  | .rename t old new fit fault => (vfsRename s t old new fit fault).2
  | .chdir t path => (vfsChdir s t path).2
  | .mount path dev probe room =>
    match s.world.device dev with
    | none => s
    | some d => (vfsMount s path d probe room).2
  | .mountFile path file probe room => (vfsMountFile s path file probe room).2
  | .umount path fuel =>
    match vfsUmount fuel s path with
    | none => s
    | some r => r.2

end BleedKernel.Dentry
