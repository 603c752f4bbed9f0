import BleedKernel.Lib.Run
import BleedKernel.Lib.Serial
import BleedKernel.Model.Ipv4

/-!
# One TCP connection

`net/tcp_input.c`, `net/tcp_output.c` and `net/tcp.c`, as far as they work on one
`tcb_t`: the handshake, the receive ring with its list of ranges past a hole, the send
ring with acknowledgements, retransmission and congestion control, the timers and the
calls of the socket. What they do to the list of connections, to the listener and its
queue is in `Model.TcpList`.

Every function runs under `tcp_lock`, so a call is one step. Segments are queued in a
`tcp_out_t` on the stack of the call and sent after the lock is released; `netbuf_alloc`
may fail for any of them. Wake-ups are left out.
-/

namespace BleedKernel.Tcp

open Lib

/-- `TCP_OUT_MAX` -/
def tcpOutMax : Nat := 24

/-- `TCP_RX_BUF` -/
def tcpRxBuf : Nat := 262144

/-- `TCP_TX_BUF` -/
def tcpTxBuf : Nat := 131072

/-- `TCP_WSCALE` -/
def tcpWscale : Nat := 3

/-- `TCP_MSS` -/
def tcpMss : Nat := 1460

/-- `TCP_MSS_DEFAULT` -/
def tcpMssDefault : Nat := 536

/-- `TCP_OOO_MAX` -/
def tcpOooMax : Nat := 8

/-- `TCP_INIT_CWND` -/
def tcpInitCwnd : UInt32 := 10

/-- `TCP_RTO_MS` -/
def tcpRtoMs : UInt32 := 1000

/-- `TCP_RTO_MIN_MS` -/
def tcpRtoMinMs : UInt32 := 300

/-- `TCP_RTO_MAX_MS` -/
def tcpRtoMaxMs : UInt32 := 30000

/-- `TCP_SYN_RETRIES` -/
def tcpSynRetries : Nat := 5

/-- `TCP_RETRIES` -/
def tcpRetries : Nat := 8

/-- `TCP_TIMEWAIT_MS` -/
def tcpTimewaitMs : Nat := 2000

/-- `TCP_LINGER_MS` -/
def tcpLingerMs : Nat := 30000

/-- `TCP_KEEP_IDLE_S` -/
def tcpKeepIdleS : UInt32 := 7200

/-- `TCP_KEEP_INTVL_S` -/
def tcpKeepIntvlS : UInt32 := 75

/-- `TCP_KEEP_CNT` -/
def tcpKeepCnt : UInt32 := 9

/-- `SEQ_LT` -/
def seqLt (a b : UInt32) : Bool := serialLt a b

/-- `SEQ_LEQ` -/
def seqLeq (a b : UInt32) : Bool := serialLe a b

/-- The errors of the calls. -/
inductive Errno where
  | eagain | einval | epipe | enotconn | eisconn | ealready
  | econnrefused | econnreset | etimedout | enetunreach | ehostunreach
deriving DecidableEq, Repr

/-- The flags of a header. -/
structure Flags where
  fin : Bool := false
  syn : Bool := false
  rst : Bool := false
  psh : Bool := false
  ack : Bool := false
deriving DecidableEq, Repr

/-- A segment: the fields of `tcp_hdr_t` in host order, the bytes between the fixed
header and `hlen`, and the bytes after it. -/
structure Seg where
  srcPort : UInt16
  dstPort : UInt16
  seq : UInt32
  ack : UInt32
  flags : Flags
  window : UInt16
  opts : List UInt8
  body : List UInt8
deriving DecidableEq, Repr

/-- `tcp_state_t` -/
inductive State where
  | closed | listen | synSent | synRcvd | established | finWait1 | finWait2
  | closing | timeWait | closeWait | lastAck
deriving DecidableEq, Repr

/-- `tcp_recovery_t` -/
inductive Recovery where
  | none | fast | rto
deriving DecidableEq, Repr

/-- `tcp_range_t` -/
structure Range where
  start : UInt32
  stop : UInt32
deriving DecidableEq, Repr

/-- The fields of `tcb_t` for what is sent. `tx` is the ring. -/
structure SndSide where
  iss : UInt32
  sndUna : UInt32
  sndNxt : UInt32
  sndWnd : UInt32
  sndWl1 : UInt32
  sndShift : Nat
  tx : Nat → UInt8
  txStart : Nat
  txLen : Nat
  finWanted : Bool
  finSent : Bool

/-- The fields of `tcb_t` for what is received. `rx` is the ring, `ooo` has `ooo_count`
ranges. -/
structure RcvSide where
  rcvNxt : UInt32
  rcvShift : Nat
  ooo : List Range
  finSeq : UInt32
  finSeen : Bool
  rx : Nat → UInt8
  rxStart : Nat
  rxLen : Nat
  peerFin : Bool
  rdShut : Bool

/-- The fields of `tcb_t` for congestion control. `faulted` says that `tcp_cc_acked` has
divided by zero. -/
structure Congestion where
  mss : UInt16
  cwnd : UInt32
  ssthresh : UInt32
  dupacks : Nat
  recovery : Recovery
  recover : UInt32
  faulted : Bool

/-- The fields of `tcb_t` for retransmission and the timers. -/
structure Timers where
  rtxNxt : UInt32
  rtxOne : Bool
  rttAt : Nat
  rttSeq : UInt32
  srtt : UInt32
  rttvar : UInt32
  rtoBase : UInt32
  rtoAt : Nat
  rtoMs : UInt32
  retries : Nat
  doneAt : Nat
  keepalive : Bool
  keepIdle : UInt32
  keepIntvl : UInt32
  keepCnt : UInt32
  keepSent : UInt32
  lastRx : Nat

/-- `tcb_t` without its links to other ones. -/
structure Tcb extends SndSide, RcvSide, Congestion, Timers where
  state : State
  localIp : UInt32
  remoteIp : UInt32
  localPort : UInt16
  remotePort : UInt16
  shiftNext : Nat
  sackOk : Bool
  rcvAdv : UInt32
  wasConnected : Bool
  error : Option Errno
  detached : Bool

/-- The contents `kmalloc` left in the two rings. -/
structure Rings where
  rx : Nat → UInt8
  tx : Nat → UInt8

/-- `tcp_alloc` -/
def tcpAlloc : Tcb where
  state := .closed
  localIp := 0
  remoteIp := 0
  localPort := 0
  remotePort := 0
  iss := 0
  sndUna := 0
  sndNxt := 0
  sndWnd := 0
  sndWl1 := 0
  mss := .ofNat tcpMssDefault
  sndShift := 0
  rcvShift := 0
  shiftNext := 0
  sackOk := false
  rcvNxt := 0
  rcvAdv := 0
  ooo := []
  finSeq := 0
  finSeen := false
  cwnd := 0
  ssthresh := 0
  dupacks := 0
  recovery := .none
  recover := 0
  rtxNxt := 0
  rtxOne := false
  rttAt := 0
  rttSeq := 0
  srtt := 0
  rttvar := 0
  rtoBase := tcpRtoMs
  rx := fun _ => 0
  rxStart := 0
  rxLen := 0
  tx := fun _ => 0
  txStart := 0
  txLen := 0
  finWanted := false
  finSent := false
  peerFin := false
  rdShut := false
  wasConnected := false
  error := none
  rtoAt := 0
  rtoMs := tcpRtoMs
  retries := 0
  doneAt := 0
  detached := false
  keepalive := false
  keepIdle := tcpKeepIdleS
  keepIntvl := tcpKeepIntvlS
  keepCnt := tcpKeepCnt
  keepSent := 0
  lastRx := 0
  faulted := false

/-- `tcp_alloc_rings` when it has memory -/
def tcpAllocRings (t : Tcb) (rings : Rings) : Tcb := { t with rx := rings.rx, tx := rings.tx }

/-! ## Segments that go out -/

/-- What `ipv4_output` is called with. `off` is where the data was read, in bytes past
`snd_una`. -/
structure Packet where
  src : UInt32
  dst : UInt32
  seg : Seg
  off : Nat

/-- `tcp_out_t`, and what `netbuf_alloc` answers: its call number `i` of this call of the
kernel gives a buffer when `bufs i` holds. `asked` calls were made. `queued` packets are not
of this connection. -/
structure Out where
  packets : List Packet
  bufs : Nat → Bool
  asked : Nat
  queued : Nat := 0

/-- The field `count`. -/
def Out.count (out : Out) : Nat := out.queued + out.packets.length

/-- A call at work: the connection and what it is going to send. -/
structure Work where
  t : Tcb
  out : Out

/-- `tcp_segment` -/
def tcpSegment (out : Out) (p : Packet) : Out :=
  if out.count ≥ tcpOutMax then out
  else if out.bufs out.asked then
    { out with packets := out.packets ++ [p], asked := out.asked + 1 }
  else { out with asked := out.asked + 1 }

/-- The data `tcp_segment` reads out of the tx ring. -/
def fromTx (t : Tcb) (off len : Nat) : List UInt8 :=
  let pos := (t.txStart + off) % tcpTxBuf
  let first := if tcpTxBuf - pos < len then tcpTxBuf - pos else len
  slice t.tx pos first ++ slice t.tx 0 (len - first)

/-- `tcp_rcv_window` -/
def tcpRcvWindow (t : Tcb) : Nat :=
  let room := (tcpRxBuf - t.rxLen) >>> t.rcvShift
  if room > 0xFFFF then 0xFFFF else room

/-- `tcp_emit` -/
def tcpEmit (w : Work) (flags : Flags) (seq : UInt32) (off len : Nat) (opts : List UInt8) :
    Work :=
  let window := tcpRcvWindow w.t
  let t := { w.t with rcvAdv := w.t.rcvNxt + UInt32.ofNat (window <<< w.t.rcvShift) }
  { t := t
    out := tcpSegment w.out
      { src := t.localIp
        dst := t.remoteIp
        seg :=
          { srcPort := t.localPort
            dstPort := t.remotePort
            seq := seq
            ack := t.rcvNxt
            flags := flags
            window := .ofNat window
            opts := opts
            body := fromTx t off len }
        off := off } }

/-- `tcp_send_ctl` -/
def tcpSendCtl (w : Work) (flags : Flags) (seq : UInt32) : Work := tcpEmit w flags seq 0 0 []

/-- A number in network order. -/
def be32 (n : UInt32) : List UInt8 :=
  [(n >>> 24).toUInt8, (n >>> 16).toUInt8, (n >>> 8).toUInt8, n.toUInt8]

/-- The options of an ack: up to three of the ranges. -/
def sackOpts (t : Tcb) : List UInt8 :=
  let blocks := if t.sackOk then t.ooo.take 3 else []
  if blocks.isEmpty then []
  else
    [1, 1, 5, .ofNat (2 + blocks.length * 8)] ++
      blocks.flatMap fun r => be32 r.start ++ be32 r.stop

/-- `tcp_send_ack` -/
def tcpSendAck (w : Work) : Work :=
  tcpEmit w { ack := true } w.t.sndNxt 0 0 (sackOpts w.t)

/-- `tcp_send_syn` -/
def tcpSendSyn (w : Work) : Work :=
  let opts := [2, 4, 1460 >>> 8, 1460 &&& 0xFF, 1, 3, 3, 3, 1, 1, 4, 2].map UInt8.ofNat
  tcpEmit w { syn := true, ack := w.t.state == .synRcvd } w.t.iss 0 0 opts

/-- `tcp_arm_rto` -/
def tcpArmRto (t : Tcb) (now : Nat) : Tcb :=
  if t.rtoAt = 0 then { t with rtoAt := now + t.rtoMs.toNat } else t

/-- The data that was sent and is not acked ends this far past `snd_una`. -/
def dataEnd (t : Tcb) : UInt32 := t.sndNxt - t.sndUna - (if t.finSent then 1 else 0)

/-- `tcp_resend`, with the sequence space it covered. -/
def tcpResend (w : Work) (seq : UInt32) : UInt32 × Work :=
  let off := seq - w.t.sndUna
  let w := { w with t := { w.t with rttAt := 0 } }
  if off < dataEnd w.t then
    let n := if dataEnd w.t - off < w.t.mss.toUInt32 then dataEnd w.t - off
      else w.t.mss.toUInt32
    (n, tcpEmit w { ack := true, psh := true } seq off.toNat n.toNat [])
  else if w.t.finSent && seq == w.t.sndNxt - 1 then
    (1, tcpSendCtl w { fin := true, ack := true } seq)
  else (0, w)

/-- The loop of `tcp_push_recovery`. Every turn but the last moves `rtx_nxt` on, so
`recover - rtx_nxt` turns are enough. -/
def rtoLoop : Nat → Work → Work
  | 0, w => w
  | fuel + 1, w =>
    if seqLt w.t.rtxNxt w.t.recover && decide (w.t.rtxNxt - w.t.sndUna < w.t.cwnd) &&
        decide (w.out.count < tcpOutMax) then
      let r := tcpResend w w.t.rtxNxt
      if r.1 = 0 then r.2
      else rtoLoop fuel { r.2 with t := { r.2.t with rtxNxt := r.2.t.rtxNxt + r.1 } }
    else w

/-- `tcp_push_recovery` -/
def tcpPushRecovery (w : Work) : Work :=
  match w.t.recovery with
  | .fast =>
    if w.t.rtxOne then (tcpResend { w with t := { w.t with rtxOne := false } } w.t.sndUna).2
    else w
  | .none => w
  | .rto =>
    let t := if seqLt w.t.rtxNxt w.t.sndUna then { w.t with rtxNxt := w.t.sndUna } else w.t
    rtoLoop ((t.recover - t.rtxNxt).toNat + 1) { w with t := t }

/-- The data of the next segment of `tcp_push`, before the window is looked at. -/
def pushSize (t : Tcb) (sent : Nat) : Nat :=
  let n := t.txLen - sent
  if n > t.mss.toNat then t.mss.toNat else n

/-- The round trip of the next byte is timed when none is and nothing was lost. -/
def startClock (t : Tcb) (now : Nat) : Tcb :=
  if t.rttAt = 0 ∧ t.recovery = .none then { t with rttAt := now, rttSeq := t.sndNxt } else t

/-- `tcp_push` sends `n` bytes that lie `sent` bytes past `snd_una`. -/
def pushOne (w : Work) (now sent n : Nat) : Work :=
  let w := tcpEmit { w with t := startClock w.t now } { ack := true, psh := true } w.t.sndNxt
    sent n []
  { w with t := tcpArmRto { w.t with sndNxt := w.t.sndNxt + UInt32.ofNat n } now }

/-- The loop of `tcp_push`, with `sent` when it ends. A turn that does not end it counts data
as sent. When `mss` is 0 there is none: such a turn uses up one of the `TCP_OUT_MAX` places, or
changes nothing if `netbuf_alloc` fails. The C loop then goes round for as long as that fails,
and only here it comes to an end. -/
def pushLoop (now wnd : Nat) : Nat → Nat → Work → Nat × Work
  | 0, sent, w => (sent, w)
  | fuel + 1, sent, w =>
    let room := wnd - sent
    let n := pushSize w.t sent
    if sent < w.t.txLen ∧ w.out.count < tcpOutMax ∧ room ≠ 0 ∧
        -- wait for a proper segment while acks are still due
        (n ≤ room ∨ sent = 0) then
      pushLoop now wnd fuel (sent + min n room) (pushOne w now sent (min n room))
    else (sent, w)

/-- The connection once `tcp_push` has sent its FIN. -/
def afterFin (t : Tcb) : Tcb :=
  { t with
    sndNxt := t.sndNxt + 1
    finSent := true
    state := if t.state = .closeWait then .lastAck else .finWait1 }

/-- The FIN of `tcp_push`. -/
def sendFin (w : Work) (now : Nat) : Work :=
  let w := tcpSendCtl w { fin := true, ack := true } w.t.sndNxt
  { w with t := tcpArmRto (afterFin w.t) now }

/-- The timer for a probe, at the end of `tcp_push`. -/
def armProbe (w : Work) (now sent : Nat) : Work :=
  if w.t.txLen ≠ 0 ∧ sent = 0 ∧ w.t.sndWnd = 0 then { w with t := tcpArmRto w.t now } else w

/-- What may be in flight. -/
def sendWindow (t : Tcb) : Nat := if t.sndWnd < t.cwnd then t.sndWnd.toNat else t.cwnd.toNat

/-- `tcp_push` once `tcp_push_recovery` is done and the state lets it go on. -/
def pushNew (w : Work) (now : Nat) : Work :=
  let sent := (w.t.sndNxt - w.t.sndUna).toNat
  let r := pushLoop now (sendWindow w.t) (w.t.txLen - sent + tcpOutMax) sent w
  let w := if r.2.t.finWanted && !r.2.t.finSent && r.1 == r.2.t.txLen then sendFin r.2 now
    else r.2
  armProbe w now r.1

/-- `tcp_push` -/
def tcpPush (w : Work) (now : Nat) : Work :=
  let w := tcpPushRecovery w
  if w.t.state ≠ .established ∧ w.t.state ≠ .closeWait then w else pushNew w now

/-! ## The end of a connection -/

/-- `tcp_set_closed` -/
def tcpSetClosed (t : Tcb) (err : Option Errno) : Tcb :=
  { t with
    error := if t.error = none then err else t.error
    state := .closed
    rtoAt := 0
    recovery := .none }

/-- `tcp_drop_child`, for the connection itself -/
def tcpDropChild (t : Tcb) : Tcb := { t with detached := true, state := .closed, rtoAt := 0 }

/-! ## The handshake -/

/-- `tcp_syn_opts_t` -/
structure SynOpts where
  mss : Nat
  wscale : Nat
  hasWscale : Bool
  sackOk : Bool
deriving DecidableEq, Repr

/-- The loop of `tcp_parse_syn`. Every turn takes at least one byte off the options. -/
def parseLoop : Nat → List UInt8 → SynOpts → SynOpts
  | 0, _, o => o
  | _, [], o => o
  | fuel + 1, kind :: rest, o =>
    if kind = 0 then o
    else if kind = 1 then parseLoop fuel rest o
    else
      match rest with
      | [] => o
      | len :: _ =>
        let opt := kind :: rest
        if len < 2 ∨ opt.length < len.toNat then o
        else
          let o :=
            if kind = 2 ∧ len = 4 then { o with mss := Ip.be16 opt 2 }
            else if kind = 3 ∧ len = 3 then
              { o with
                hasWscale := true
                wscale := if Ip.byteAt opt 2 > 14 then 14 else Ip.byteAt opt 2 }
            else if kind = 4 ∧ len = 2 then { o with sackOk := true }
            else o
          parseLoop fuel (opt.drop len.toNat) o

/-- `tcp_parse_syn` -/
def tcpParseSyn (opts : List UInt8) : SynOpts :=
  parseLoop opts.length opts ⟨tcpMssDefault, 0, false, false⟩

/-- `tcp_use_syn_opts` -/
def tcpUseSynOpts (t : Tcb) (o : SynOpts) (now : Nat) : Tcb :=
  let mss : UInt16 := .ofNat (if o.mss < tcpMss then o.mss else tcpMss)
  { t with
    mss := mss
    sndShift := if o.hasWscale then o.wscale else 0
    rcvShift := if o.hasWscale then tcpWscale else 0
    sackOk := o.sackOk
    cwnd := tcpInitCwnd * mss.toUInt32
    ssthresh := 0xFFFFFFFF
    lastRx := now }

/-- `tcp_syn_sent` -/
def tcpSynSent (w : Work) (h : Seg) (now : Nat) : Work :=
  if h.flags.ack && h.ack != w.t.sndNxt then
    if h.flags.rst then w else tcpSendCtl w { rst := true } h.ack
  else if h.flags.rst then
    if h.flags.ack then { w with t := tcpSetClosed w.t (some .econnrefused) } else w
  else if !h.flags.syn || !h.flags.ack then w
  else
    let t := tcpUseSynOpts w.t (tcpParseSyn h.opts) now
    let t := { t with
      rcvNxt := h.seq + 1
      sndUna := h.ack
      sndWnd := h.window.toUInt32
      sndWl1 := h.seq
      state := .established
      wasConnected := true
      rtoAt := 0
      rtoMs := t.rtoBase
      retries := 0 }
    tcpSendCtl { w with t := t } { ack := true } t.sndNxt

/-- The connection `tcp_listen_input` makes for a SYN to a listener: `l` is the listener,
`dst` the address the segment came to, `src` the one it came from. -/
def tcpListenChild (l : Tcb) (src dst : UInt32) (h : Seg) (iss : UInt32) (now : Nat) : Tcb :=
  let o := tcpParseSyn h.opts
  let t := tcpUseSynOpts tcpAlloc o now
  { t with
    rcvShift := 0
    localIp := dst
    localPort := h.dstPort
    remoteIp := src
    remotePort := h.srcPort
    iss := iss
    sndUna := iss
    sndNxt := iss + 1
    sndWnd := h.window.toUInt32
    sndWl1 := h.seq
    rcvNxt := h.seq + 1
    state := .synRcvd
    keepalive := l.keepalive
    keepIdle := l.keepIdle
    keepIntvl := l.keepIntvl
    keepCnt := l.keepCnt
    shiftNext := if o.hasWscale then tcpWscale else 0 }

/-- The child once its SYN ACK is out. -/
def tcpListenInput (l : Tcb) (src dst : UInt32) (h : Seg) (iss : UInt32) (now : Nat)
    (out : Out) : Work :=
  let w := tcpSendSyn { t := tcpListenChild l src dst h iss now, out := out }
  { w with t := tcpArmRto w.t now }

/-- What became of a half open connection. -/
inductive HalfOpen where
  | dropped | waits | landed
deriving DecidableEq, Repr

/-- `tcp_syn_rcvd`, for the connection itself. `rings` are the rings when there is
memory for them. -/
def tcpSynRcvd (w : Work) (h : Seg) (rings : Option Rings) : HalfOpen × Work :=
  if h.flags.rst then
    if h.seq = w.t.rcvNxt then (.dropped, { w with t := tcpDropChild w.t }) else (.waits, w)
  else if h.flags.syn && h.seq + 1 == w.t.rcvNxt then (.waits, tcpSendSyn w)
  else if !h.flags.ack then (.waits, w)
  else if h.ack ≠ w.t.sndNxt then (.waits, tcpSendCtl w { rst := true } h.ack)
  else
    match rings with
    | none =>
      let w := tcpSendCtl w { rst := true } h.ack
      (.dropped, { w with t := tcpDropChild w.t })
    | some rings =>
      let t := tcpAllocRings w.t rings
      (.landed, { w with t := { t with
        rcvShift := t.shiftNext
        sndUna := h.ack
        state := .established
        wasConnected := true
        rtoAt := 0
        rtoMs := t.rtoBase
        retries := 0 } })

/-! ## Acknowledgements -/

/-- `tcp_rtt_sample` -/
def tcpRttSample (t : Tcb) (now : Nat) : Tcb :=
  let rtt := UInt32.ofNat (now - t.rttAt)
  let est : UInt32 × UInt32 :=
    if t.srtt = 0 then (if rtt ≠ 0 then rtt else 1, rtt / 2)
    else
      let delta := if rtt > t.srtt then rtt - t.srtt else t.srtt - rtt
      ((7 * t.srtt + rtt) / 8, (3 * t.rttvar + delta) / 4)
  let rto := est.1 + 4 * est.2
  let rto := if rto < tcpRtoMinMs then tcpRtoMinMs else rto
  let rto := if rto > tcpRtoMaxMs then tcpRtoMaxMs else rto
  { t with rttAt := 0, srtt := est.1, rttvar := est.2, rtoBase := rto }

/-- One segment more for an ack below `ssthresh`. -/
def ccSlowStart (t : Tcb) (acked : UInt32) : Tcb :=
  let mss := t.mss.toUInt32
  { t with dupacks := 0, cwnd := t.cwnd + (if acked < mss then acked else mss) }

/-- One segment more for a whole window, from `ssthresh` on. -/
def ccAvoid (t : Tcb) : Tcb :=
  let mss := t.mss.toUInt32
  let inc := mss * mss / t.cwnd
  { t with
    dupacks := 0
    cwnd := t.cwnd + (if inc ≠ 0 then inc else 1)
    faulted := t.faulted || t.cwnd == 0 }

/-- The window has a limit. -/
def ccCap (t : Tcb) : Tcb := if t.cwnd > 0x40000000 then { t with cwnd := 0x40000000 } else t

/-- The end of `tcp_cc_acked`, where the window grows. -/
def ccGrow (t : Tcb) (acked : UInt32) : Tcb :=
  ccCap (if t.cwnd < t.ssthresh then ccSlowStart t acked else ccAvoid t)

/-- `tcp_cc_acked` -/
def tcpCcAcked (t : Tcb) (acked ack : UInt32) : Tcb :=
  let mss := t.mss.toUInt32
  if t.recovery ≠ .none ∧ seqLt ack t.recover then
    if t.recovery = .fast then
      { t with
        cwnd := if t.cwnd > acked then t.cwnd - acked + mss else mss
        rtxOne := true }
    else ccGrow t acked
  else if t.recovery ≠ .none then
    { t with
      cwnd := if t.recovery = .fast then t.ssthresh else t.cwnd
      recovery := .none
      dupacks := 0 }
  else ccGrow t acked

/-- Half of what is in flight, two segments at least: `tcp_cc_dupack`, `tcp_enter_rto`. -/
def halfFlight (t : Tcb) : UInt32 :=
  let half := (t.sndNxt - t.sndUna) / 2
  if half > 2 * t.mss.toUInt32 then half else 2 * t.mss.toUInt32

/-- `tcp_cc_dupack` -/
def tcpCcDupack (t : Tcb) : Tcb :=
  if t.recovery = .fast then { t with cwnd := t.cwnd + t.mss.toUInt32 }
  else if t.recovery ≠ .none then t
  else if t.dupacks + 1 < 3 then { t with dupacks := t.dupacks + 1 }
  else
    { t with
      dupacks := t.dupacks + 1
      ssthresh := halfFlight t
      cwnd := halfFlight t + 3 * t.mss.toUInt32
      recovery := .fast
      recover := t.sndNxt
      rtxOne := true }

/-- What was acked leaves the ring. -/
def ackData (t : Tcb) (ack : UInt32) : Tcb :=
  let acked := (ack - t.sndUna).toNat
  let data := if acked < t.txLen then acked else t.txLen
  { t with
    txStart := (t.txStart + data) % tcpTxBuf
    txLen := t.txLen - data
    sndUna := ack
    retries := 0
    rtoMs := t.rtoBase
    rtoAt := 0 }

/-- The round trip is over when the byte that is timed was acked. -/
def ackRtt (t : Tcb) (ack : UInt32) (now : Nat) : Tcb :=
  if t.rttAt ≠ 0 ∧ seqLt t.rttSeq ack then tcpRttSample t now else t

/-- The timer runs on while something is in flight. -/
def ackRto (t : Tcb) (now : Nat) : Tcb :=
  if t.sndUna ≠ t.sndNxt then tcpArmRto { t with rtoMs := t.rtoBase } now
  else { t with rtoMs := t.rtoBase }

/-- Our FIN is the last thing there is to ack. -/
def ackFin (t : Tcb) (ack : UInt32) (now : Nat) : Tcb :=
  if t.finSent && ack == t.sndNxt then
    match t.state with
    | .finWait1 => { t with state := .finWait2 }
    | .closing => { t with state := .timeWait, doneAt := now + tcpTimewaitMs }
    | .lastAck => tcpSetClosed t none
    | _ => t
  else t

/-- `tcp_got_ack` for an ack of something new. -/
def gotNewAck (t : Tcb) (ack : UInt32) (now : Nat) : Tcb :=
  ackFin (tcpCcAcked (ackRto (ackRtt (ackData t ack) ack now) now) (ack - t.sndUna) ack) ack now

/-- The probe byte was thrown away and the window is open now: the byte is unsent again. -/
def takeBackProbe (t : Tcb) (window ack : UInt32) : Tcb :=
  if t.sndWnd = 0 ∧ window ≠ 0 ∧ ack = t.sndUna ∧ t.sndNxt - ack = 1 ∧ t.finSent = false then
    { t with sndNxt := ack, rtoAt := 0, rtoMs := t.rtoBase }
  else t

/-- The window of an ack that is not an old one. -/
def takeWindow (t : Tcb) (window seq ack : UInt32) : Tcb :=
  if seqLeq t.sndUna ack && seqLeq ack t.sndNxt && seqLeq t.sndWl1 seq then
    { t with sndWnd := window, sndWl1 := seq }
  else t

/-- A shut peer still answering keeps the persist timer from giving up. -/
def stillAnswers (t : Tcb) (window ack : UInt32) : Tcb :=
  if window = 0 ∧ ack = t.sndUna then { t with retries := 0 } else t

/-- What an ack says, before its window is looked at. -/
def ackNumber (t : Tcb) (window ack : UInt32) (bare : Bool) (now : Nat) : Tcb :=
  let moved := window != t.sndWnd
  if seqLt t.sndUna ack && seqLeq ack t.sndNxt then gotNewAck t ack now
  else if ack == t.sndUna && bare && !moved && t.sndUna != t.sndNxt then tcpCcDupack t
  else t

/-- `tcp_got_ack` -/
def tcpGotAck (t : Tcb) (seq ack : UInt32) (rawWindow : UInt16) (bare : Bool) (now : Nat) :
    Tcb :=
  let window := UInt32.ofNat (rawWindow.toNat <<< t.sndShift)
  let t := ackNumber t window ack bare now
  takeWindow (stillAnswers (takeBackProbe t window ack) window ack) window seq ack

/-! ## Data that comes in -/

/-- The ranges the new one reaches, taken into it: the second loop of `tcp_ooo_add`. -/
def oooAbsorb (r : Range) : List Range → List Range
  | [] => [r]
  | x :: l =>
    if seqLeq x.start r.stop then
      oooAbsorb { r with stop := if seqLt r.stop x.stop then x.stop else r.stop } l
    else r :: x :: l

/-- `tcp_ooo_add` -/
def tcpOooAdd (ooo : List Range) (start stop : UInt32) : List Range :=
  let low := ooo.takeWhile fun r => seqLt r.stop start
  let rest := ooo.dropWhile fun r => seqLt r.stop start
  let insert := if ooo.length = tcpOooMax then ooo else low ++ ⟨start, stop⟩ :: rest
  match rest with
  | [] => insert
  | r :: after =>
    if seqLeq r.start stop then
      low ++ oooAbsorb
        { start := if seqLt start r.start then start else r.start
          stop := if seqLt r.stop stop then stop else r.stop } after
    else insert

/-- The loop of `tcp_ooo_settle`, over the ranges it takes off the front. -/
def settleLoop : List Range → Tcb → Tcb
  | [], t => { t with ooo := [] }
  | r :: l, t =>
    if seqLeq r.start t.rcvNxt then
      settleLoop l
        (if seqLt t.rcvNxt r.stop then
          { t with rxLen := t.rxLen + (r.stop - t.rcvNxt).toNat, rcvNxt := r.stop }
        else t)
    else { t with ooo := r :: l }

/-- `tcp_ooo_settle` -/
def tcpOooSettle (t : Tcb) : Tcb := settleLoop t.ooo t

/-- The peer's FIN, once everything before it is there. -/
def takeFin (t : Tcb) (now : Nat) : Tcb :=
  if t.finSeen && t.finSeq == t.rcvNxt then
    let t := { t with rcvNxt := t.rcvNxt + 1, peerFin := true }
    match t.state with
    | .established => { t with state := .closeWait }
    | .finWait1 => { t with state := .closing }
    | .finWait2 => { t with state := .timeWait, doneAt := now + tcpTimewaitMs }
    | _ => t
  else t

/-- The bytes go to their place in the ring. -/
def putRx (t : Tcb) (off : Nat) (data : List UInt8) : Tcb :=
  let pos := (t.rxStart + t.rxLen + off) % tcpRxBuf
  let first := if tcpRxBuf - pos < data.length then tcpRxBuf - pos else data.length
  { t with rx := store (store t.rx pos (data.take first)) 0 (data.drop first) }

/-- How many of `len` bytes that start `off` bytes past `rcv_nxt` there is room for. -/
def takeSize (t : Tcb) (off len : Nat) : Nat :=
  let room := tcpRxBuf - t.rxLen
  if len < room - off then len else room - off

/-- A FIN whose data all fitted is remembered. -/
def noteFin (t : Tcb) (fin : Bool) (stop : UInt32) : Tcb :=
  if fin then { t with finSeen := true, finSeq := stop } else t

/-- Bytes past a hole. -/
def takeAhead (t : Tcb) (seq : UInt32) (take : Nat) : Tcb :=
  if take ≠ 0 then { t with ooo := tcpOooAdd t.ooo seq (seq + UInt32.ofNat take) } else t

/-- The next bytes. -/
def takeNext (t : Tcb) (take : Nat) : Tcb :=
  tcpOooSettle { t with rxLen := t.rxLen + take, rcvNxt := t.rcvNxt + UInt32.ofNat take }

/-- `tcp_got_data` from where the bytes that were there already are cut off. -/
def takeData (t : Tcb) (seq : UInt32) (data : List UInt8) (fin : Bool) (now : Nat) : Tcb :=
  let off := (seq - t.rcvNxt).toNat
  if off ≠ 0 ∧ off ≥ tcpRxBuf - t.rxLen then t
  else
    let take := takeSize t off data.length
    let t := noteFin (putRx t off (data.take take)) (fin && take == data.length)
      (seq + UInt32.ofNat take)
    takeFin (if off ≠ 0 then takeAhead t seq take else takeNext t take) now

/-- `tcp_got_data` -/
def tcpGotData (t : Tcb) (seq : UInt32) (data : List UInt8) (fin : Bool) (now : Nat) : Tcb :=
  if seqLt seq t.rcvNxt then
    let skip := (t.rcvNxt - seq).toNat
    if skip > data.length then t
    else if t.peerFin then t
    else takeData t t.rcvNxt (data.drop skip) fin now
  else if t.peerFin then t
  else takeData t seq data fin now

/-- `tcp_can_take_data` -/
def tcpCanTakeData (t : Tcb) : Bool :=
  t.state == .established || t.state == .finWait1 || t.state == .finWait2

/-! ## A segment for a connection -/

/-- The segment takes up room in the peer's stream. -/
def Seg.carries (h : Seg) : Bool := !h.body.isEmpty || h.flags.fin

/-- The connection takes what the segment has for it. -/
def takeSegment (t : Tcb) (h : Seg) (now : Nat) : Tcb :=
  let t := if h.flags.ack then tcpGotAck t h.seq h.ack h.window (!h.carries) now else t
  if h.carries && tcpCanTakeData t then tcpGotData t h.seq h.body h.flags.fin now else t

/-- The connection goes on sending. Everything is acked, even duplicates; a repeated SYN
ACK means our ack got lost. -/
def answerSegment (w : Work) (h : Seg) (now : Nat) : Work :=
  if w.t.state ≠ .closed then
    let w := tcpPush w now
    if h.carries || h.flags.syn then tcpSendAck w else w
  else w

/-- The peer was heard from. -/
def heard (t : Tcb) (now : Nat) : Tcb := { t with lastRx := now, keepSent := 0 }

/-- What `tcp_input` does with a segment without RST once the handshake is done. -/
def tcpArrives (w : Work) (h : Seg) (now : Nat) : Work :=
  let w := { w with t := heard w.t now }
  if h.flags.ack && seqLt w.t.sndNxt h.ack then
    -- acks something we never sent
    tcpSendCtl w { ack := true } w.t.sndNxt
  else if w.t.detached && !h.body.isEmpty &&
      seqLt w.t.rcvNxt (h.seq + UInt32.ofNat h.body.length) && tcpCanTakeData w.t then
    -- nobody left to read it
    let w := tcpSendCtl w { rst := true, ack := true } h.ack
    { w with t := tcpSetClosed w.t none }
  else answerSegment { w with t := takeSegment w.t h now } h now

/-- A RST that is in the window. -/
def resets (t : Tcb) (h : Seg) : Bool :=
  let win := tcpRxBuf - t.rxLen
  h.seq == t.rcvNxt ||
    (seqLeq t.rcvNxt h.seq && seqLt h.seq (t.rcvNxt + UInt32.ofNat (if win ≠ 0 then win else 1)))

/-- A segment for a connection past its handshake. A SYN that a connection in
`TCP_TIME_WAIT` gives way to goes on to a listener. -/
def tcpOpenInput (w : Work) (h : Seg) (now : Nat) : Work :=
  if w.t.state = .timeWait ∧ h.flags.syn ∧ h.flags.ack = false ∧ seqLt w.t.rcvNxt h.seq then
    { w with t := tcpSetClosed w.t none }
  else if h.flags.rst then
    if resets w.t h then
      { w with t := tcpSetClosed w.t (if w.t.peerFin then none else some .econnreset) }
    else w
  else tcpArrives w h now

/-- What `tcp_input` does with a segment for this connection, once `tcp_find` has found
it: it never finds a closed one. -/
def tcpInput (w : Work) (h : Seg) (rings : Option Rings) (now : Nat) : Work :=
  match w.t.state with
  | .closed | .listen => w
  | .synSent => tcpSynSent w h now
  | .synRcvd =>
    let r := tcpSynRcvd w h rings
    if h.flags.rst = false ∧ r.1 = .landed then tcpArrives r.2 h now else r.2
  | _ => tcpOpenInput w h now

/-! ## Timers -/

/-- `tcp_enter_rto` -/
def tcpEnterRto (t : Tcb) : Tcb :=
  { t with
    ssthresh := halfFlight t
    cwnd := t.mss.toUInt32
    dupacks := 0
    rtxOne := false
    recovery := .rto
    recover := t.sndNxt
    rtxNxt := t.sndUna
    rttAt := 0 }

/-- The handshake is not done: `syn` of `tcp_timeout`. -/
def isSyn (t : Tcb) : Bool := t.state == .synSent || t.state == .synRcvd

/-- There is data, nothing of it in flight, and the window is shut: `probe` of
`tcp_timeout`. -/
def wantsProbe (t : Tcb) : Bool := t.sndNxt - t.sndUna == 0 && t.txLen != 0 && t.sndWnd == 0

/-- `limit` of `tcp_timeout` -/
def retryLimit (t : Tcb) : Nat := if isSyn t then tcpSynRetries else tcpRetries

/-- `tcp_timeout` gives the connection up. Whether it was a half open one. -/
def giveUp (w : Work) : Bool × Work :=
  if w.t.state = .synRcvd then (true, { w with t := tcpDropChild w.t })
  else if w.t.state = .synSent then
    (false, { w with t := tcpSetClosed w.t (some .etimedout) })
  else
    let w := tcpSendCtl w { rst := true } w.t.sndNxt
    (false, { w with t := tcpSetClosed w.t (some .etimedout) })

/-- A byte past the shut window asks whether its open again. -/
def sendProbe (w : Work) : Work :=
  let w := tcpEmit w { ack := true } w.t.sndNxt 0 1 []
  { w with t := { w.t with sndNxt := w.t.sndNxt + 1 } }

/-- What `tcp_timeout` sends again. -/
def tryAgain (w : Work) : Work :=
  if isSyn w.t then tcpSendSyn w
  else if wantsProbe w.t then sendProbe w
  else { w with t := tcpEnterRto w.t }

/-- The next timeout is twice as far away. -/
def backOff (t : Tcb) (now : Nat) : Tcb :=
  let rtoMs := if t.rtoMs * 2 > tcpRtoMaxMs then tcpRtoMaxMs else t.rtoMs * 2
  { t with rtoMs := rtoMs, rtoAt := now + rtoMs.toNat }

/-- `tcp_timeout`, and whether a half open connection was given up. -/
def tcpTimeout (w : Work) (now : Nat) : Bool × Work :=
  -- the window opened by itself, nothing was lost
  if !isSyn w.t && w.t.sndNxt - w.t.sndUna == 0 && !wantsProbe w.t then
    (false, { w with t := { w.t with rtoAt := 0 } })
  else
    let w := { w with t := { w.t with retries := w.t.retries + 1 } }
    if w.t.retries > retryLimit w.t then giveUp w
    else
      let w := tryAgain w
      (false, { w with t := backOff w.t now })

/-- `tcp_keepalive` -/
def tcpKeepalive (w : Work) (now : Nat) : Work :=
  if !w.t.keepalive || (w.t.state != .established && w.t.state != .closeWait) then w
  else if w.t.sndUna ≠ w.t.sndNxt then w
  else
    let next := (w.t.lastRx +
      (w.t.keepIdle.toNat + w.t.keepSent.toNat * w.t.keepIntvl.toNat) * 1000) % 2 ^ 64
    if now < next then w
    else if w.t.keepSent ≥ w.t.keepCnt then
      let w := tcpSendCtl w { rst := true } w.t.sndNxt
      { w with t := tcpSetClosed w.t (some .etimedout) }
    else
      tcpSendCtl { w with t := { w.t with keepSent := w.t.keepSent + 1 } } { ack := true }
        (w.t.sndNxt - 1)

/-- The timer of a connection is due, or not. -/
def tickTimer (w : Work) (now : Nat) : Bool × Work :=
  if w.t.rtoAt ≠ 0 ∧ now ≥ w.t.rtoAt then tcpTimeout w now else (false, w)

/-- The end of `TCP_TIME_WAIT`. -/
def tickWait (w : Work) (now : Nat) : Work :=
  if w.t.state = .timeWait ∧ now ≥ w.t.doneAt then { w with t := tcpSetClosed w.t none } else w

/-- A connection whose socket is gone does not linger for ever. -/
def tickLinger (w : Work) (now : Nat) : Work :=
  if w.t.detached = true ∧ w.t.state ≠ .closed ∧ w.t.doneAt ≠ 0 ∧ now ≥ w.t.doneAt then
    let w := tcpSendCtl w { rst := true, ack := true } w.t.sndNxt
    { w with t := tcpSetClosed w.t none }
  else w

/-- A turn of the loop of `tcp_tick` before it frees or unlinks the connection, and
whether a half open connection was given up. -/
def tcpTick (w : Work) (now : Nat) : Bool × Work :=
  let r := tickTimer w now
  -- the window opened while nothing was in flight to carry the news
  (r.1, tickLinger (tickWait (tcpKeepalive (tcpPush r.2 now) now) now) now)

/-- The end of that turn frees the connection. -/
def tickFrees (t : Tcb) : Bool := t.detached && t.state == .closed

/-! ## The calls of the socket -/

/-- `src` of `tcp_connect` -/
def connectSource (nif : Ip.Netif) (localIp remoteIp : UInt32) : UInt32 :=
  if localIp ≠ 0 then localIp else Ip.ipv4Source nif remoteIp

/-- `tcp_connect` sets out. -/
def startConnect (w : Work) (localIp : UInt32) (localPort : UInt16) (remoteIp : UInt32)
    (remotePort : UInt16) (iss : UInt32) (now : Nat) : Work :=
  let w := tcpSendSyn { w with t := { w.t with
    localIp := localIp
    localPort := localPort
    remoteIp := remoteIp
    remotePort := remotePort
    iss := iss
    sndUna := iss
    sndNxt := iss + 1
    state := .synSent
    error := none
    retries := 0
    rtoMs := w.t.rtoBase
    rtoAt := 0 } }
  { w with t := tcpArmRto w.t now }

/-- `tcp_connect`. `route` is what `ipv4_route` finds, `iss` what `tcp_new_iss` gives. -/
def tcpConnect (w : Work) (route : Option Ip.Netif) (localIp : UInt32) (localPort : UInt16)
    (remoteIp : UInt32) (remotePort : UInt16) (iss : UInt32) (now : Nat) :
    Except Errno Unit × Work :=
  match route with
  | none => (.error .enetunreach, w)
  | some nif =>
    if connectSource nif localIp remoteIp = 0 then (.error .enetunreach, w)
    else if w.t.state = .synSent then (.error .ealready, w)
    else if w.t.state ≠ .closed ∨ w.t.wasConnected then (.error .eisconn, w)
    else
      (.ok (), startConnect w (connectSource nif localIp remoteIp) localPort remoteIp
        remotePort iss now)

/-- The read half of `tcp_shutdown`. -/
def shutRead (t : Tcb) (rd : Bool) : Tcb := if rd then { t with rdShut := true } else t

/-- The write half of `tcp_shutdown`. -/
def shutWrite (w : Work) (wr : Bool) (now : Nat) : Work :=
  if wr && !w.t.finWanted then tcpPush { w with t := { w.t with finWanted := true } } now else w

/-- `tcp_shutdown` -/
def tcpShutdown (w : Work) (rd wr : Bool) (now : Nat) : Except Errno Unit × Work :=
  if !w.t.wasConnected || w.t.state == .closed then (.error .enotconn, w)
  else (.ok (), shutWrite { w with t := shutRead w.t rd } wr now)

/-- The bytes go behind what is in the tx ring. -/
def putTx (t : Tcb) (data : List UInt8) : Tcb :=
  let pos := (t.txStart + t.txLen) % tcpTxBuf
  let first := if tcpTxBuf - pos < data.length then tcpTxBuf - pos else data.length
  { t with
    tx := store (store t.tx pos (data.take first)) 0 (data.drop first)
    txLen := t.txLen + data.length }

/-- The bytes of `buf` that `tcp_send` takes when it takes any. -/
def sendTakes (t : Tcb) (buf : List UInt8) : List UInt8 := buf.take (tcpTxBuf - t.txLen)

/-- `tcp_send` -/
def tcpSend (w : Work) (buf : List UInt8) (now : Nat) : Except Errno Nat × Work :=
  match w.t.error with
  | some e => (.error e, w)
  | none =>
    if w.t.state = .synSent then (.error .eagain, w)
    else if (w.t.state ≠ .established ∧ w.t.state ≠ .closeWait) ∨ w.t.finWanted then
      (.error (if w.t.wasConnected then .epipe else .enotconn), w)
    else
      let data := sendTakes w.t buf
      let w := tcpPush { w with t := putTx w.t data } now
      (if data.isEmpty then .error .eagain else .ok data.length, w)

/-- The first `n` bytes of the rx ring. -/
def recvBytes (t : Tcb) (n : Nat) : List UInt8 :=
  let first := if tcpRxBuf - t.rxStart < n then tcpRxBuf - t.rxStart else n
  slice t.rx t.rxStart first ++ slice t.rx 0 (n - first)

/-- The first `n` bytes leave the rx ring. -/
def recvTake (t : Tcb) (n : Nat) : Tcb :=
  { t with rxStart := (t.rxStart + n) % tcpRxBuf, rxLen := t.rxLen - n }

/-- Tell a sender thats nearly run out of window, once its worth it. -/
def tellWindow (w : Work) : Work :=
  let edge := w.t.rcvNxt + UInt32.ofNat (tcpRxBuf - w.t.rxLen)
  let told := w.t.rcvAdv - w.t.rcvNxt
  if told.toNat < tcpRxBuf / 4 ∧ (edge - w.t.rcvAdv).toInt32 ≥ 2 * 1460 ∧
      w.t.state ≠ .closed then
    tcpSendCtl w { ack := true } w.t.sndNxt
  else w

/-- `tcp_recv` -/
def tcpRecv (w : Work) (len : Nat) (peek : Bool) : Except Errno (List UInt8) × Work :=
  if w.t.rxLen ≠ 0 then
    let n := if len < w.t.rxLen then len else w.t.rxLen
    (.ok (recvBytes w.t n), if peek then w else tellWindow { w with t := recvTake w.t n })
  else if w.t.peerFin || w.t.rdShut then (.ok [], w)
  else
    match w.t.error with
    | some e => (.error e, { w with t := { w.t with error := none } })
    | none =>
      if w.t.state = .closed ∨ w.t.state = .listen then
        (if w.t.wasConnected then .ok [] else .error .enotconn, w)
      else (.error .eagain, w)

/-- `tcp_take_error` -/
def tcpTakeError (t : Tcb) : Tcb := { t with error := none }

/-- `tcp_set_keepalive` -/
def tcpSetKeepalive (t : Tcb) (on : Bool) (now : Nat) : Tcb :=
  { t with keepalive := on, keepSent := 0, lastRx := now }

/-- The options of `tcp_setopt` that change the connection. -/
inductive Opt where
  | keepidle | keepintvl | keepcnt
deriving DecidableEq, Repr

/-- `tcp_setopt` -/
def tcpSetopt (t : Tcb) (name : Opt) (val : Int) : Except Errno Unit × Tcb :=
  if val < 1 then (.error .einval, t)
  else
    match name with
    | .keepidle => (.ok (), { t with keepIdle := .ofNat val.toNat })
    | .keepintvl => (.ok (), { t with keepIntvl := .ofNat val.toNat })
    | .keepcnt => (.ok (), { t with keepCnt := .ofNat val.toNat })

/-- `tcp_detach` of a connection, and whether it frees it. -/
def tcpDetach (w : Work) (abort : Bool) (now : Nat) : Bool × Work :=
  let w := { w with t := { w.t with detached := true } }
  match w.t.state with
  | .listen | .closed | .synSent => (true, w)
  | _ =>
    if abort || (w.t.rxLen != 0 && !w.t.finSent) then
      -- unread data on close means reset
      (true, tcpSendCtl w { rst := true, ack := true } w.t.sndNxt)
    else if w.t.state ≠ .timeWait then
      (false, tcpPush { w with t := { w.t with
        finWanted := true
        doneAt := now + tcpLingerMs } } now)
    else (false, w)

/-- `tcp_unreachable` for a connection `tcp_find` has found -/
def tcpUnreachable (t : Tcb) (code : Nat) (seq : UInt32) : Tcb :=
  if t.state = .synSent ∧ seq = t.iss then
    tcpSetClosed t (some (
      if code = 0 then .enetunreach
      else if code = 2 ∨ code = 3 then .econnrefused
      else .ehostunreach))
  else t

/-! ## Runs of one connection -/

/-- The calls that reach a connection. -/
inductive Act where
  | connect (route : Option Ip.Netif) (localIp : UInt32) (localPort : UInt16)
      (remoteIp : UInt32) (remotePort : UInt16) (iss : UInt32) (now : Nat)
  | segment (h : Seg) (rings : Option Rings) (now : Nat)
  | send (buf : List UInt8) (now : Nat)
  | recv (len : Nat) (peek : Bool)
  /-- `tcp_tick` has one `tcp_out_t` for all connections, with `queued` packets of others in it. -/
  | tick (now : Nat) (queued : Nat := 0)
  | shutdown (rd wr : Bool) (now : Nat)
  | detach (abort : Bool) (now : Nat)
  | unreachable (code : Nat) (seq : UInt32)
  | takeError
  | setKeepalive (on : Bool) (now : Nat)
  | setopt (name : Opt) (val : Int)

/-- A call and what `netbuf_alloc` answers during it. -/
structure Call where
  act : Act
  bufs : Nat → Bool

/-- The packets of others in the queue when the call comes to the connection. -/
def Act.queued : Act → Nat
  | .tick _ queued => queued
  | _ => 0

/-- A call starts with nothing to send. -/
def Call.begin (c : Call) (t : Tcb) : Work :=
  { t := t, out := { packets := [], bufs := c.bufs, asked := 0, queued := c.act.queued } }

/-- What a call does, and whether it frees the connection. -/
def exec (t : Tcb) (c : Call) : Bool × Work :=
  let w := c.begin t
  match c.act with
  | .connect route localIp localPort remoteIp remotePort iss now =>
    (false, (tcpConnect w route localIp localPort remoteIp remotePort iss now).2)
  | .segment h rings now => (false, tcpInput w h rings now)
  | .send buf now => (false, (tcpSend w buf now).2)
  | .recv len peek => (false, (tcpRecv w len peek).2)
  | .tick now _ =>
    let w := (tcpTick w now).2
    (tickFrees w.t, w)
  | .shutdown rd wr now => (false, (tcpShutdown w rd wr now).2)
  | .detach abort now => tcpDetach w abort now
  | .unreachable code seq => (false, { w with t := tcpUnreachable t code seq })
  | .takeError => (false, { w with t := tcpTakeError t })
  | .setKeepalive on now => (false, { w with t := tcpSetKeepalive t on now })
  | .setopt name val => (false, { w with t := (tcpSetopt t name val).2 })

/-- The connection after a call; nothing once it is freed. -/
def step : Option Tcb → Call → Option Tcb
  | none, _ => none
  | some t, c => if (exec t c).1 then none else some (exec t c).2.t

end BleedKernel.Tcp
