import BleedKernel.Model.Tcp

/-!
# Connections, listeners and their lists

What `net/tcp.c`, `net/tcp_input.c` and `net/tcp_output.c` do to the pointers of a `tcb_t`:
`tcp_list` with the connections that `tcp_input` and `tcp_tick` look at, the queue of a
listener, the pointer of a child to its listener, and the memory of all of them. What
happens to the other fields is in `Model.Tcp`.

A `tcb_t` is named by a number that is never given twice, so a pointer to freed memory
can be told from one to what was put there since. `stale` says that such a pointer, or
`NULL`, was followed, or that memory was freed twice. Every function runs under
`tcp_lock`, so a call is one step.
-/

namespace BleedKernel.TcpList

open Lib Tcp

/-- A pointer to a connection. -/
abbrev Ptr := Option Nat

/-- `TCP_BACKLOG_MAX` -/
def tcpBacklogMax : Int := 128

/-- The memory of all `tcb_t`s, `tcp_list`, and the `tcp_out_t` of the call that runs.
`born` of them were ever made, `frees` says how often each was freed, and `owned` which
of them are in the hands of a socket. -/
structure Net where
  born : Nat
  frees : Nat → Nat
  stale : Bool
  tcpList : Ptr
  tcb : Nat → Tcb
  next : Nat → Ptr
  linked : Nat → Bool
  parent : Nat → Ptr
  acceptHead : Nat → Ptr
  acceptTail : Nat → Ptr
  acceptNext : Nat → Ptr
  backlog : Nat → Int
  pending : Nat → Int
  owned : Nat → Bool
  out : Out

namespace Net

/-- The memory is in use. -/
def live (s : Net) (a : Nat) : Bool := decide (a < s.born) && s.frees a == 0

/-- A pointer is followed. -/
def touch (s : Net) (a : Nat) : Net := { s with stale := s.stale || !s.live a }

/-- What a function that works on one connection does. -/
def work (s : Net) (a : Nat) (f : Work → Work) : Net :=
  let s := s.touch a
  let w := f { t := s.tcb a, out := s.out }
  { s with tcb := Function.update s.tcb a w.t, out := w.out }

/-- The state of the connection at `a`. -/
def state (s : Net) (a : Nat) : State := (s.tcb a).state

/-- `tcp_alloc` when it has memory: nothing points to it, it points to nothing. -/
def tcpAlloc (s : Net) (t : Tcb) : Net :=
  { s with
    born := s.born + 1
    tcb := Function.update s.tcb s.born t
    next := Function.update s.next s.born none
    linked := Function.update s.linked s.born false
    parent := Function.update s.parent s.born none
    acceptHead := Function.update s.acceptHead s.born none
    acceptTail := Function.update s.acceptTail s.born none
    acceptNext := Function.update s.acceptNext s.born none
    backlog := Function.update s.backlog s.born 0
    pending := Function.update s.pending s.born 0
    owned := Function.update s.owned s.born false }

/-- The connection goes to the front of the list. -/
def link (s : Net) (a : Nat) : Net :=
  { s with
    next := Function.update s.next a s.tcpList
    tcpList := some a
    linked := Function.update s.linked a true }

/-- What the pointer `at` of `tcp_unlink` points to: `tcp_list`, or the field of a
connection. -/
def cell (s : Net) : Ptr → Ptr
  | none => s.tcpList
  | some p => s.next p

/-- A store through that pointer. -/
def setCell (s : Net) (v : Ptr) : Ptr → Net
  | none => { s with tcpList := v }
  | some p => { s with next := Function.update s.next p v }

/-- The loop of `tcp_unlink`. -/
def unlinkLoop (t : Nat) : Nat → Ptr → Net → Net
  | 0, _, s => { s with stale := true }
  | fuel + 1, cell, s =>
    match s.cell cell with
    | none => s
    | some x =>
      let s := s.touch x
      if x = t then s.setCell (s.next t) cell else unlinkLoop t fuel (some x) s

/-- `tcp_unlink` -/
def tcpUnlink (s : Net) (t : Nat) : Net :=
  let s := unlinkLoop t (s.born + 1) none (s.touch t)
  { s with linked := Function.update s.linked t false }

/-- `kfree` of a connection -/
def kfree (s : Net) (t : Nat) : Net :=
  let s := s.touch t
  { s with frees := Function.update s.frees t (s.frees t + 1) }

/-- `tcp_free` -/
def tcpFree (s : Net) (t : Nat) : Net :=
  let s := s.touch t
  (if s.linked t then s.tcpUnlink t else s).kfree t

/-- `tcp_drop_child`, for the listener -/
def dropParent (s : Net) (t : Nat) : Net :=
  let s := s.touch t
  let s :=
    match s.parent t with
    | none => s
    | some l =>
      let s := s.touch l
      { s with pending := Function.update s.pending l (s.pending l - 1) }
  { s with parent := Function.update s.parent t none }

/-- The connection `tcp_find` goes by: a listener is only remembered. -/
def findLoop (src : UInt32) (srcPort : UInt16) (dst : UInt32) (dstPort : UInt16) :
    Nat → Ptr → Ptr → Net → Net × Ptr
  | 0, _, _, s => ({ s with stale := true }, none)
  | _, none, listener, s => (s, listener)
  | fuel + 1, some t, listener, s =>
    let s := s.touch t
    let go := fun listener => findLoop src srcPort dst dstPort fuel (s.next t) listener s
    let tcb := s.tcb t
    if tcb.localPort ≠ dstPort ∨ tcb.state = .closed then go listener
    else if tcb.localIp ≠ 0 ∧ tcb.localIp ≠ dst then go listener
    else if tcb.state = .listen then go (some t)
    else if tcb.remotePort = srcPort ∧ tcb.remoteIp = src then (s, some t)
    else go listener

/-- `tcp_find` -/
def tcpFind (s : Net) (src : UInt32) (srcPort : UInt16) (dst : UInt32) (dstPort : UInt16) :
    Net × Ptr :=
  findLoop src srcPort dst dstPort (s.born + 1) s.tcpList none s

/-! ## Segments -/

/-- `tcp_reset_reply` -/
def tcpResetReply (s : Net) (src dst : UInt32) (h : Seg) : Net :=
  let one (b : Bool) : UInt32 := if b then 1 else 0
  let seg : Seg :=
    { srcPort := h.dstPort
      dstPort := h.srcPort
      seq := if h.flags.ack then h.ack else 0
      ack := if h.flags.ack then 0
        else h.seq + UInt32.ofNat h.body.length + one h.flags.syn + one h.flags.fin
      flags := { rst := true, ack := !h.flags.ack }
      window := 0
      opts := []
      body := [] }
  { s with out := tcpSegment s.out { src := src, dst := dst, seg := seg, off := 0 } }

/-- `tcp_listen_input`. `mem` says whether there is memory for the child. -/
def tcpListenInput (s : Net) (l : Nat) (src dst : UInt32) (h : Seg) (mem : Bool) (iss : UInt32)
    (now : Nat) : Net :=
  let s := s.touch l
  if h.flags.rst then s
  else if h.flags.ack then s.tcpResetReply dst src h
  else if !h.flags.syn || decide (s.pending l ≥ s.backlog l) then s
  else if !mem then s
  else
    let t := s.born
    let s := s.tcpAlloc (tcpListenChild (s.tcb l) src dst h iss now)
    let s := { s with
      parent := Function.update s.parent t (some l)
      pending := Function.update s.pending l (s.pending l + 1) }
    (s.link t).work t fun w =>
      let w := tcpSendSyn w
      { w with t := tcpArmRto w.t now }

/-- A connection that is open goes behind the queue of its listener. -/
def enqueue (s : Net) (t : Nat) : Net :=
  match s.parent t with
  | none => { s with stale := true }
  | some l =>
    let s := s.touch l
    let s :=
      match s.acceptTail l with
      | some tail =>
        let s := s.touch tail
        { s with acceptNext := Function.update s.acceptNext tail (some t) }
      | none => { s with acceptHead := Function.update s.acceptHead l (some t) }
    { s with acceptTail := Function.update s.acceptTail l (some t) }

/-- `tcp_syn_rcvd`, and whether the connection survived it -/
def tcpSynRcvd (s : Net) (t : Nat) (h : Seg) (rings : Option Rings) : Bool × Net :=
  let verdict := (Tcp.tcpSynRcvd { t := s.tcb t, out := s.out } h rings).1
  let s := s.work t fun w => (Tcp.tcpSynRcvd w h rings).2
  match verdict with
  | .dropped => (false, s.dropParent t)
  | .waits => (false, s)
  | .landed => (true, s.enqueue t)

/-- The peer came back on the same ports, the old connection is done with. -/
def givesWay (t : Tcb) (h : Seg) : Bool :=
  t.state == .timeWait && h.flags.syn && !h.flags.ack && seqLt t.rcvNxt h.seq

/-- What `tcp_input` does with the connection it has found. -/
def tcpFound (s : Net) (t : Nat) (src dst : UInt32) (h : Seg) (mem : Bool) (iss : UInt32)
    (rings : Option Rings) (now : Nat) : Net :=
  let s := s.touch t
  match s.state t with
  | .listen => s.tcpListenInput t src dst h mem iss now
  | .synSent => s.work t fun w => tcpSynSent w h now
  | .synRcvd =>
    let r := s.tcpSynRcvd t h rings
    if h.flags.rst = false ∧ r.1 then r.2.work t fun w => tcpArrives w h now else r.2
  | _ =>
    if h.flags.rst then
      if resets (s.tcb t) h then
        s.work t fun w =>
          { w with t := tcpSetClosed w.t (if w.t.peerFin then none else some .econnreset) }
      else s
    else s.work t fun w => tcpArrives w h now

/-- The connection `tcp_input` takes the segment to. One that gives way is closed, and the
list is searched again. -/
def tcpLook (s : Net) (src dst : UInt32) (h : Seg) : Net × Ptr :=
  let find (s : Net) := s.tcpFind src h.srcPort dst h.dstPort
  let r := find s
  match r.2 with
  | some t =>
    if givesWay (r.1.tcb t) h then
      find (r.1.work t fun w => { w with t := tcpSetClosed w.t none })
    else r
  | none => r

/-- `tcp_input`, for a segment whose checksum is right -/
def tcpInput (s : Net) (src dst : UInt32) (h : Seg) (mem : Bool) (iss : UInt32)
    (rings : Option Rings) (now : Nat) : Net :=
  let r := s.tcpLook src dst h
  match r.2 with
  | none => if h.flags.rst then r.1 else r.1.tcpResetReply dst src h
  | some t => r.1.tcpFound t src dst h mem iss rings now

/-- `tcp_unreachable` -/
def tcpUnreachable (s : Net) (code : Nat) (src : UInt32) (srcPort : UInt16) (dst : UInt32)
    (dstPort : UInt16) (seq : UInt32) : Net :=
  let r := s.tcpFind dst dstPort src srcPort
  match r.2 with
  | none => r.1
  | some t => r.1.work t fun w => { w with t := Tcp.tcpUnreachable w.t code seq }

/-! ## Ticks -/

/-- One turn of the loop of `tcp_tick`. -/
def tickOne (s : Net) (t : Nat) (now : Nat) : Net :=
  let gone := (Tcp.tcpTick { t := s.tcb t, out := s.out } now).1
  let s := s.work t fun w => (Tcp.tcpTick w now).2
  let s := if gone then s.dropParent t else s
  if tickFrees (s.tcb t) then s.tcpFree t
  else if s.state t == .closed && s.linked t then s.tcpUnlink t
  else s

/-- The loop of `tcp_tick`: where it goes on is read before the turn. -/
def tickLoop (now : Nat) : Nat → Ptr → Net → Net
  | 0, _, s => { s with stale := true }
  | _, none, s => s
  | fuel + 1, some t, s =>
    let s := s.touch t
    tickLoop now fuel (s.next t) (s.tickOne t now)

/-- `tcp_tick` -/
def tcpTick (s : Net) (now : Nat) : Net := tickLoop now (s.born + 1) s.tcpList s

/-! ## The calls of the socket -/

/-- `tcp_create` when it has memory -/
def tcpCreate (s : Net) (rings : Rings) : Net :=
  let t := s.born
  let s := s.tcpAlloc (tcpAllocRings Tcp.tcpAlloc rings)
  { s with owned := Function.update s.owned t true }

/-- `tcp_connect` -/
def tcpConnect (s : Net) (t : Nat) (route : Option Ip.Netif) (localIp : UInt32)
    (localPort : UInt16) (remoteIp : UInt32) (remotePort : UInt16) (iss : UInt32) (now : Nat) :
    Net :=
  let connects (w : Work) :=
    Tcp.tcpConnect w route localIp localPort remoteIp remotePort iss now
  let done := (connects { t := s.tcb t, out := s.out }).1
  let s := s.work t fun w => (connects w).2
  match done with
  | .error _ => s
  | .ok () => if s.linked t then s else s.link t

/-- `tcp_listen` sets the fields of the connection. -/
def startListen (t : Tcb) (localIp : UInt32) (localPort : UInt16) : Tcb :=
  { t with localIp := localIp, localPort := localPort, state := .listen }

/-- `tcp_listen` -/
def tcpListen (s : Net) (t : Nat) (localIp : UInt32) (localPort : UInt16) (backlog : Int) : Net :=
  let backlog := if backlog < 1 then 1 else if backlog > tcpBacklogMax then tcpBacklogMax else backlog
  let s := s.touch t
  if s.state t = .listen then { s with backlog := Function.update s.backlog t backlog }
  else if s.state t ≠ .closed ∨ (s.tcb t).wasConnected then s
  else
    let s := { s with
      tcb := Function.update s.tcb t (startListen (s.tcb t) localIp localPort)
      backlog := Function.update s.backlog t backlog }
    if s.linked t then s else s.link t

/-- `tcp_accept`, for a socket that takes the connection -/
def tcpAccept (s : Net) (t : Nat) : Net :=
  let s := s.touch t
  if s.state t ≠ .listen then s
  else
    match s.acceptHead t with
    | none => s
    | some c =>
      let s := s.touch c
      let head := s.acceptNext c
      { s with
        acceptHead := Function.update s.acceptHead t head
        acceptTail :=
          if head.isNone then Function.update s.acceptTail t none else s.acceptTail
        pending := Function.update s.pending t (s.pending t - 1)
        acceptNext := Function.update s.acceptNext c none
        parent := Function.update s.parent c none
        owned := Function.update s.owned c true }

/-- A connection is told that it is over. -/
def sendReset (s : Net) (t : Nat) : Net :=
  s.work t fun w => tcpSendCtl w { rst := true, ack := true } w.t.sndNxt

/-- The first loop of `tcp_listener_gone`, over the queue. -/
def goneQueue : Nat → Ptr → Net → Net
  | 0, _, s => { s with stale := true }
  | _, none, s => s
  | fuel + 1, some c, s =>
    let s := s.touch c
    let next := s.acceptNext c
    goneQueue fuel next ((if s.state c ≠ .closed then s.sendReset c else s).tcpFree c)

/-- The second one, over all connections. -/
def goneHalf (l : Nat) : Nat → Ptr → Net → Net
  | 0, _, s => { s with stale := true }
  | _, none, s => s
  | fuel + 1, some t, s =>
    let s := s.touch t
    let s :=
      if s.parent t = some l then
        let s := (s.sendReset t).dropParent t
        { s with tcb := Function.update s.tcb t (tcpDropChild (s.tcb t)) }
      else s
    goneHalf l fuel (s.next t) s

/-- `tcp_listener_gone` -/
def tcpListenerGone (s : Net) (l : Nat) : Net :=
  let s := goneQueue (s.born + 1) (s.acceptHead l) (s.touch l)
  goneHalf l (s.born + 1) s.tcpList s

/-- `tcp_detach`: the socket lets go of the connection. -/
def tcpDetach (s : Net) (t : Nat) (abort : Bool) (now : Nat) : Net :=
  let s := { s.touch t with owned := Function.update s.owned t false }
  if s.state t = .listen then
    let s := { s with tcb := Function.update s.tcb t { s.tcb t with detached := true } }
    (s.tcpListenerGone t).tcpFree t
  else
    let frees := (Tcp.tcpDetach { t := s.tcb t, out := s.out } abort now).1
    let s := s.work t fun w => (Tcp.tcpDetach w abort now).2
    if frees then s.tcpFree t else s

end Net

/-! ## Runs -/

/-- The calls of a socket that stay within its connection. -/
inductive Req where
  | send (buf : List UInt8) (now : Nat)
  | recv (len : Nat) (peek : Bool)
  | shutdown (rd wr : Bool) (now : Nat)
  | takeError
  | setKeepalive (on : Bool) (now : Nat)
  | setopt (name : Opt) (val : Int)

/-- The call on its connection. -/
def Req.work (r : Req) (w : Work) : Work :=
  match r with
  | .send buf now => (tcpSend w buf now).2
  | .recv len peek => (tcpRecv w len peek).2
  | .shutdown rd wr now => (tcpShutdown w rd wr now).2
  | .takeError => { w with t := tcpTakeError w.t }
  | .setKeepalive on now => { w with t := tcpSetKeepalive w.t on now }
  | .setopt name val => { w with t := (tcpSetopt w.t name val).2 }

/-- What happens: a socket makes a call on the connection in its hands, something comes
in, or time passes. -/
inductive Event where
  | create (rings : Rings)
  | connect (t : Nat) (route : Option Ip.Netif) (localIp : UInt32) (localPort : UInt16)
      (remoteIp : UInt32) (remotePort : UInt16) (iss : UInt32) (now : Nat)
  | listen (t : Nat) (localIp : UInt32) (localPort : UInt16) (backlog : Int)
  | accept (t : Nat)
  | request (t : Nat) (r : Req)
  | detach (t : Nat) (abort : Bool) (now : Nat)
  | segment (src dst : UInt32) (h : Seg) (mem : Bool) (iss : UInt32) (rings : Option Rings)
      (now : Nat)
  | unreachable (code : Nat) (src : UInt32) (srcPort : UInt16) (dst : UInt32) (dstPort : UInt16)
      (seq : UInt32)
  | tick (now : Nat)

/-- An event and what `netbuf_alloc` answers during it. -/
structure Step where
  event : Event
  bufs : Nat → Bool

/-- A call that only a socket makes, on the connection it has. -/
def byOwner (s : Net) (t : Nat) (f : Net → Net) : Net := if s.owned t then f s else s

/-- One step. -/
def step (s : Net) (e : Step) : Net :=
  let s := { s with out := { packets := [], bufs := e.bufs, asked := 0 } }
  match e.event with
  | .create rings => s.tcpCreate rings
  | .connect t route localIp localPort remoteIp remotePort iss now =>
    byOwner s t fun s => s.tcpConnect t route localIp localPort remoteIp remotePort iss now
  | .listen t localIp localPort backlog =>
    byOwner s t fun s => s.tcpListen t localIp localPort backlog
  | .accept t => byOwner s t fun s => s.tcpAccept t
  | .request t r => byOwner s t fun s => s.work t r.work
  | .detach t abort now => byOwner s t fun s => s.tcpDetach t abort now
  | .segment src dst h mem iss rings now => s.tcpInput src dst h mem iss rings now
  | .unreachable code src srcPort dst dstPort seq =>
    s.tcpUnreachable code src srcPort dst dstPort seq
  | .tick now => s.tcpTick now

/-- Nothing was made yet. -/
def boot : Net where
  born := 0
  frees := fun _ => 0
  stale := false
  tcpList := none
  tcb := fun _ => Tcp.tcpAlloc
  next := fun _ => none
  linked := fun _ => false
  parent := fun _ => none
  acceptHead := fun _ => none
  acceptTail := fun _ => none
  acceptNext := fun _ => none
  backlog := fun _ => 0
  pending := fun _ => 0
  owned := fun _ => false
  out := { packets := [], bufs := fun _ => false, asked := 0 }

end BleedKernel.TcpList
