import BleedKernel.Model.Vfs

/-!
# `fs/epoll.c`

An interest is a descriptor number and the address of the file that was behind it
when it was registered; it holds no reference. Whether it is still meant is
decided each time it is looked at, by comparing the address with what the calling
task's table has at that number.

`item_ready` on an interest in another epoll file calls `epoll_poll`, which calls
`item_ready` on that file's interests in turn. Nothing bounds this nesting, so the
functions here take the depth they may go to and answer `none` when it does not
suffice.

A call of `epoll_wait` is a series of rounds of `epoll_collect`, and between two
of them the task sleeps. Each round is one step. What a round did is kept turn by
turn; the events that go out are those of the turns that report one.
-/

namespace BleedKernel.Fs

def POLLIN : UInt32 := 0x0001
def POLLOUT : UInt32 := 0x0004
def POLLERR : UInt32 := 0x0008
def POLLHUP : UInt32 := 0x0010
def EPOLLRDHUP : UInt32 := 0x2000
def EPOLLONESHOT : UInt32 := 0x40000000
def EPOLLET : UInt32 := 0x80000000

/-- `EPOLL_CTL_ADD`, `EPOLL_CTL_DEL`, `EPOLL_CTL_MOD`, and any other number. -/
inductive CtlOp where
  | add | del | mod | other
deriving DecidableEq, Repr

/-- `epoll_event_t` -/
structure Event where
  events : UInt32
  data : UInt64
deriving DecidableEq, Repr

/-- The interests of a file, if it is an epoll file. -/
def interests : Option File → List Item
  | some f => if f.type = .epoll then f.watch.items else []
  | none => []

/-- The interests of the epoll file at `a`. -/
def Sys.items (s : Sys) (a : Addr) : List Item := interests (s.files a)

/-- Store the interests of the epoll file at `a`. -/
def Sys.setItems (s : Sys) (a : Addr) (items : List Item) : Sys :=
  match s.files a with
  | some f => s.setFile a (some { f with watch := { f.watch with items := items } })
  | none => s

/-- `epoll_from_fd` -/
def epollFromFd (s : Sys) (t fd : Nat) : Option Addr :=
  (s.slot t fd).filter fun a => (s.files a).any fun f => decide (f.type = .epoll)

/-- `item_alive` -/
def itemAlive (s : Sys) (t : Nat) (it : Item) : Bool :=
  decide (s.slot t it.fd = some it.file)

/-- What `item_remove` makes of the items from the removed one on, given those
after it: the last one takes its place. -/
def swapIn (rest : List Item) : List Item :=
  match rest.getLast? with
  | none => []
  | some last => last :: rest.dropLast

/-- `item_remove` -/
def itemRemove (items : List Item) (i : Nat) : List Item :=
  items.take i ++ swapIn (items.drop (i + 1))

/-- `ops->poll` of the file at `a`, where `poll` is `epoll_poll`. -/
def pollFile (poll : Addr → Option UInt32) (s : Sys) (a : Addr) : Option UInt32 :=
  match s.files a with
  | none => some 0
  | some f =>
    if f.type = .epoll then poll a else some (f.poll.getD (POLLIN ||| POLLOUT))

/-- What an interest asked for of what its file answered. -/
def wanted (it : Item) (mask : UInt32) : UInt32 :=
  let mask :=
    if mask &&& POLLHUP ≠ 0 ∧ it.events &&& EPOLLRDHUP ≠ 0 then mask ||| EPOLLRDHUP
    else mask
  mask &&& (it.events ||| POLLERR ||| POLLHUP)

/-- `item_ready`, where `poll` is `epoll_poll`. -/
def itemReadyWith (poll : Addr → Option UInt32) (s : Sys) (it : Item) : Option UInt32 :=
  (pollFile poll s it.file).map (wanted it)

/-- The loop of `epoll_poll`. -/
def pollItems (ready : Item → Option UInt32) (s : Sys) (t : Nat) :
    List Item → Option UInt32
  | [] => some 0
  | it :: items =>
    if itemAlive s t it && !it.disarmed then
      match ready it with
      | none => none
      | some mask => if mask ≠ 0 then some POLLIN else pollItems ready s t items
    else pollItems ready s t items

/-- `epoll_poll`, nested to at most `depth` levels. -/
def epollPoll (s : Sys) (t : Nat) : Nat → Addr → Option UInt32
  | 0, _ => none
  | depth + 1, a => pollItems (itemReadyWith (epollPoll s t depth) s) s t (s.items a)

/-- `item_ready` -/
def itemReady (s : Sys) (t depth : Nat) (it : Item) : Option UInt32 :=
  itemReadyWith (epollPoll s t depth) s it

/-- `epoll_create`. `mem` is whether the other two allocations went well, `valid`
whether the flags are no others than `EPOLL_CLOEXEC`. -/
def epollCreate (s : Sys) (t : Nat) (valid mem : Bool) (addr : Option Addr) :
    Except Errno Nat × Sys :=
  if !valid then (.error .einval, s)
  else if !mem then (.error .enomem, s)
  else openFile s t 3 { type := .epoll } addr

/-- The first loop of `epoll_ctl`: drop what went stale, and say where `fd` is. -/
def dropStale (s : Sys) (t fd : Nat) :
    Nat → Nat → List Item → Option Nat → List Item × Option Nat
  | 0, _, items, found => (items, found)
  | left + 1, i, items, found =>
    match items[i]? with
    | none => (items, found)
    | some it =>
      if !itemAlive s t it then dropStale s t fd left i (itemRemove items i) found
      else dropStale s t fd left (i + 1) items (if it.fd = fd then some i else found)

/-- The switch of `epoll_ctl`, on the epoll file at `a` with `items` left and `fd`
found at `found`. `mem` is whether a longer array could be had. -/
def ctlSwitch (s : Sys) (a : Addr) (items : List Item) (found : Option Nat) (op : CtlOp)
    (fd : Nat) (f : Addr) (ev : Event) (mem : Bool) : Except Errno Nat × Sys :=
  let s := s.setItems a items
  match op, found with
  | .add, some _ => (.error .eexist, s)
  | .add, none =>
    match s.files a with
    | none => (.error .ebadf, s)
    | some e =>
      let full := decide (items.length = e.watch.cap)
      if full && !mem then (.error .enomem, s)
      else
        let cap := if full then (if e.watch.cap ≠ 0 then e.watch.cap * 2 else 16)
          else e.watch.cap
        let serial := ((s.files f).map File.serial).getD 0
        let it : Item :=
          { fd := fd, file := f, events := ev.events, data := ev.data, serial := serial }
        (.ok 0, s.setFile a (some { e with watch := ⟨items ++ [it], cap⟩ }))
  | .mod, none => (.error .enoent, s)
  | .mod, some i =>
    (.ok 0, s.setItems a (items.modify i fun it =>
      { it with events := ev.events, data := ev.data, outSeen := false,
                disarmed := false }))
  | .del, none => (.error .enoent, s)
  | .del, some i => (.ok 0, s.setItems a (itemRemove items i))
  | .other, _ => (.error .einval, s)

/-- `epoll_ctl` -/
def epollCtl (s : Sys) (t epfd : Nat) (op : CtlOp) (fd : Nat) (ev : Event) (mem : Bool) :
    Except Errno Nat × Sys :=
  match epollFromFd s t epfd with
  | none => (if (s.slot t epfd).isSome then .error .einval else .error .ebadf, s)
  | some a =>
    match s.slot t fd with
    | none => (.error .ebadf, s)
    | some f =>
      if fd = epfd then (.error .einval, s)
      else if (s.files f).any fun x => decide (x.type = .fs) && !x.device then
        (.error .eperm, s)
      else
        let r := dropStale s t fd (s.items a).length 0 (s.items a) none
        ctlSwitch s a r.1 r.2 op fd f ev mem

/-- One turn of `epoll_collect` on an interest it did not pass over: the interest
before and after, what `item_ready` said, whether `out` had room left, and the
mask that went out. -/
structure Turn where
  before : Item
  ready : UInt32
  room : Bool
  after : Item
  report : Option UInt32
deriving DecidableEq, Repr

/-- `out_seen` of an interest once its file was looked at. -/
def stillSeen (it : Item) (ready : UInt32) : Bool :=
  if it.events &&& EPOLLET ≠ 0 ∧ ready &&& POLLOUT = 0 then false else it.outSeen

/-- What is left to report once edge triggering held back `POLLOUT`. -/
def edgeMask (it : Item) (ready : UInt32) : UInt32 :=
  if it.events &&& EPOLLET ≠ 0 ∧ ready &&& POLLOUT ≠ 0 ∧ it.outSeen then ready &&& ~~~POLLOUT
  else ready

/-- What one turn of `epoll_collect` does with the answer of `item_ready`. -/
def collectItem (it : Item) (ready : UInt32) (room : Bool) : Turn :=
  let mask := edgeMask it ready
  if mask = 0 ∨ !room then
    ⟨it, ready, room, { it with outSeen := stillSeen it ready }, none⟩
  else
    ⟨it, ready, room,
      { it with outSeen := stillSeen it ready || decide (mask &&& POLLOUT ≠ 0),
                disarmed := it.disarmed || decide (it.events &&& EPOLLONESHOT ≠ 0) },
      some mask⟩

/-- How many events are out. -/
def reports (turns : List Turn) : Nat := turns.countP fun u => u.report.isSome

/-- The loop of `epoll_collect`, with `left` items to go from item `i` on. -/
def collectLoop (t depth : Nat) (a : Addr) (max : Nat) :
    Nat → Nat → Sys → List Turn → Option (Sys × List Turn)
  | 0, _, s, turns => some (s, turns)
  | left + 1, i, s, turns =>
    match (s.items a)[i]? with
    | none => some (s, turns)
    | some it =>
      if !itemAlive s t it then
        collectLoop t depth a max left i (s.setItems a (itemRemove (s.items a) i)) turns
      else if it.disarmed then collectLoop t depth a max left (i + 1) s turns
      else
        match itemReady s t depth it with
        | none => none
        | some ready =>
          let u := collectItem it ready (decide (reports turns < max))
          collectLoop t depth a max left (i + 1)
            (s.setItems a ((s.items a).set i u.after)) (turns ++ [u])

/-- `epoll_collect` -/
def epollCollect (s : Sys) (t depth : Nat) (a : Addr) (max : Nat) :
    Option (Sys × List Turn) :=
  collectLoop t depth a max (s.items a).length 0 s []

/-! ## The calls -/

/-- What can happen next. `t` is the descriptor table of the task that calls. -/
inductive Act where
  | openAt (t : Nat) (f : File) (addr : Option Addr)
  | install (t : Nat) (f : File) (addr : Option Addr)
  | pipe (t : Nat) (readEnd writeEnd : File) (addr addr' : Option Addr)
  | create (t : Nat) (valid mem : Bool) (addr : Option Addr)
  | close (t fd : Nat)
  | dup (t fd : Nat)
  | dup2 (t oldfd newfd : Nat)
  | dupFrom (t fd lowest : Nat)
  | get (t fd : Nat)
  | receive (t : Nat) (a : Addr)
  | drop (a : Addr)
  | fork (t : Nat)
  | share (t : Nat)
  | exit (t : Nat)
  | ctl (t epfd : Nat) (op : CtlOp) (fd : Nat) (ev : Event) (mem : Bool)
  /-- A round of `epoll_wait`. -/
  | collect (t epfd depth max : Nat)
  /-- The answer of a file's `poll` changes. -/
  | ready (a : Addr) (mask : UInt32)

/-- The answer of `poll` changes for a file that has one. -/
def setReady (s : Sys) (a : Addr) (mask : UInt32) : Sys :=
  match s.files a with
  | some f => s.setFile a (some { f with poll := f.poll.map fun _ => mask })
  | none => s

/-- A round of `epoll_wait`: the state it leaves and the turns it took. -/
def waitRound (s : Sys) (t epfd depth max : Nat) : Option (Sys × List Turn) :=
  (epollFromFd s t epfd).bind fun a => epollCollect s t depth a max

/-- A file of any kind that is not an epoll file; those come from
`epoll_create` only. -/
def plain (f : File) : File :=
  if f.type = .epoll then { f with type := .dev, watch := {} } else { f with watch := {} }

/-- One step. A round that does not come to an end within its depth leaves
nothing behind. -/
def step (s : Sys) : Act → Sys
  | .openAt t f addr => (openFile s t 0 (plain f) addr).2
  | .install t f addr => (openFile s t 3 (plain f) addr).2
  | .pipe t r w addr addr' => (vfsPipe s t (plain r) (plain w) addr addr').2
  | .create t valid mem addr => (epollCreate s t valid mem addr).2
  | .close t fd => (vfsClose s t fd).2
  | .dup t fd => (vfsDup s t fd).2
  | .dup2 t oldfd newfd => (vfsDup2 s t oldfd newfd).2
  | .dupFrom t fd lowest => (vfsDupFrom s t fd lowest).2
  | .get t fd => vfsFileGet s t fd
  | .receive t a => (vfsInstall s t a).2
  | .drop a => dropHeld s a
  | .fork t => vfsFdTableClone s t
  | .share t => vfsFdTableShare s t
  | .exit t => vfsFdTableDrop s t
  | .ctl t epfd op fd ev mem => (epollCtl s t epfd op fd ev mem).2
  | .collect t epfd depth max => ((waitRound s t epfd depth max).map Prod.fst).getD s
  | .ready a mask => setReady s a mask

/-- One task, nothing open. -/
def Sys.init : Sys := {}

end BleedKernel.Fs
