import BleedKernel.Proofs.TcpFrames

/-!
# What a call is made of

Whatever reaches a connection works on it in moves of a few kinds: it sends a segment
without data, pushes, closes, takes an ack or data, starts over after a timeout. What is
kept by every move is kept by every call, so that the send side, the congestion window and
the stages of a connection need not go through the calls one by one.

`tcp_send` is left out: it is the one call that gives the connection something to send.
-/

namespace BleedKernel.Tcp

/-- The handshake is done, and the connection is not closed. -/
def State.past : State → Bool
  | .closed | .listen | .synSent | .synRcvd => false
  | _ => true

/-- What is to be sent, how much of it at a time, and the stage of the connection are as
before, and no timer was started. -/
structure Still (t u : Tcb) : Prop where
  snd : u.toSndSide = t.toSndSide
  cc : u.toCongestion = t.toCongestion
  state : u.state = t.state
  detached : u.detached = t.detached
  was : u.wasConnected = t.wasConnected
  timer : t.rtoAt = 0 → u.rtoAt = 0

/-- The connection once `tcp_syn_sent` has its SYN ACK. -/
def synAcked (t : Tcb) (h : Seg) (now : Nat) : Tcb :=
  let t := tcpUseSynOpts t (tcpParseSyn h.opts) now
  { t with
    rcvNxt := h.seq + 1
    sndUna := h.ack
    sndWnd := h.window.toUInt32
    sndWl1 := h.seq
    state := .established
    wasConnected := true
    rtoAt := 0
    rtoMs := t.rtoBase
    retries := 0 }

/-- The connection once `tcp_syn_rcvd` has opened it. -/
def landed (t : Tcb) (h : Seg) (rings : Rings) : Tcb :=
  let t := tcpAllocRings t rings
  { t with
    rcvShift := t.shiftNext
    sndUna := h.ack
    state := .established
    wasConnected := true
    rtoAt := 0
    rtoMs := t.rtoBase
    retries := 0 }

/-- One move of a call that found the connection, and what was sent, as in `w₀`. -/
inductive Move (w₀ : Work) (act : Act) : Work → Work → Prop
  | still {w : Work} {u : Tcb} (h : Still w.t u) : Move w₀ act w { w with t := u }
  | ctl {w : Work} {flags : Flags} {seq : UInt32} {opts : List UInt8} (hf : flags.fin = false) :
    Move w₀ act w (tcpEmit w flags seq 0 0 opts)
  | push {w : Work} {now : Nat} : Move w₀ act w (tcpPush w now)
  | close {w : Work} {err : Option Errno} : Move w₀ act w { w with t := tcpSetClosed w.t err }
  | drop {w : Work} (hs : w.t.state = .synRcvd) : Move w₀ act w { w with t := tcpDropChild w.t }
  | leave {w : Work} {abort : Bool} {now : Nat} (ha : act = .detach abort now) :
    Move w₀ act w { w with t := { w.t with detached := true } }
  | fin {w : Work} : Move w₀ act w { w with t := { w.t with finWanted := true } }
  | ack {w : Work} {h : Seg} {rings : Option Rings} {now : Nat} (ha : act = .segment h rings now)
    (hf : h.flags.ack = true) (hs : w.t.state.past = true)
    (hcc : w.t.toCongestion = w₀.t.toCongestion) (ho : w.out = w₀.out)
    (hno : seqLt w.t.sndNxt h.ack = false) :
    Move w₀ act w { w with t := tcpGotAck w.t h.seq h.ack h.window (!h.carries) now }
  | feed {w : Work} {u : Tcb} (hs : w.t.state.past = true) (h : Fed w.t u) :
    Move w₀ act w { w with t := u }
  | probe {w : Work} (hsyn : isSyn w.t = false) (hdue : w.t.rtoAt ≠ 0)
    (hp : wantsProbe w.t = true) : Move w₀ act w (sendProbe w)
  | rto {w : Work} (hsyn : isSyn w.t = false) (hdue : w.t.rtoAt ≠ 0)
    (hfly : w.t.sndNxt - w.t.sndUna ≠ 0) : Move w₀ act w { w with t := tcpEnterRto w.t }
  | synAck {h : Seg} {rings : Option Rings} {now : Nat} (ha : act = .segment h rings now)
    (hs : w₀.t.state = .synSent) (hf : h.flags.syn = true ∧ h.flags.ack = true)
    (hr : h.flags.rst = false) (hn : h.ack = w₀.t.sndNxt) :
    Move w₀ act w₀ { w₀ with t := synAcked w₀.t h now }
  | land {h : Seg} {rings : Rings} (hs : w₀.t.state = .synRcvd) (hn : h.ack = w₀.t.sndNxt) :
    Move w₀ act w₀ { w₀ with t := landed w₀.t h rings }
  | connect {localIp remoteIp iss : UInt32} {localPort remotePort : UInt16} {now : Nat}
    (hs : w₀.t.state = .closed) (hwas : w₀.t.wasConnected = false) :
    Move w₀ act w₀ (startConnect w₀ localIp localPort remoteIp remotePort iss now)

/-- The moves of a call up to some point. -/
def Moves (w₀ : Work) (act : Act) (w : Work) : Prop := Relation.ReflTransGen (Move w₀ act) w₀ w

namespace Moves

variable {w₀ w : Work} {act : Act} {now : Nat} {h : Seg} {rings : Option Rings}

theorem start : Moves w₀ act w₀ := .refl

section

variable (m : Moves w₀ act w)

include m

theorem next {v : Work} (h : Move w₀ act w v) : Moves w₀ act v := Relation.ReflTransGen.tail m h

/-- What every move keeps holds at the end. -/
theorem keeps {P : Work → Prop} (h₀ : P w₀)
    (hstep : ∀ {v v'}, Move w₀ act v v' → P v → P v') : P w := by
  induction m with
  | refl => exact h₀
  | tail _ hmove ih => exact hstep hmove ih

theorem still {u : Tcb} (h : Still w.t u) : Moves w₀ act { w with t := u } := m.next (.still h)

theorem ctl {flags : Flags} {seq : UInt32} (hf : flags.fin = false) :
    Moves w₀ act (tcpSendCtl w flags seq) := m.next (.ctl hf)

theorem close {err : Option Errno} :
    Moves w₀ act { w with t := tcpSetClosed w.t err } := m.next .close

theorem reset {flags : Flags} {seq : UInt32} {err : Option Errno}
    (hf : flags.fin = false) : Moves w₀ act { tcpSendCtl w flags seq with
      t := tcpSetClosed (tcpSendCtl w flags seq).t err } := (m.ctl hf).close

theorem push : Moves w₀ act (tcpPush w now) := m.next .push

/-! ## Segments -/

theorem arrives (ha : act = .segment h rings now)
    (hs : w.t.state.past = true) (hcc : w.t.toCongestion = w₀.t.toCongestion)
    (ho : w.out = w₀.out) : Moves w₀ act (tcpArrives w h now) := by
  have hheard : Moves w₀ act { w with t := heard w.t now } := m.still ⟨rfl, rfl, rfl, rfl, rfl, id⟩
  simp only [tcpArrives]
  split
  · exact hheard.ctl rfl
  rename_i hno
  split
  · exact hheard.reset rfl
  have hack : Moves w₀ act { w with t := (if h.flags.ack then
      tcpGotAck (heard w.t now) h.seq h.ack h.window (!h.carries) now else heard w.t now) } := by
    split
    · rename_i hf
      rw [hf, Bool.not_eq_true] at hno
      exact hheard.next (.ack ha hf hs hcc ho hno)
    · exact hheard
  have htake : Moves w₀ act { w with t := takeSegment (heard w.t now) h now } := by
    simp only [takeSegment]
    generalize (if h.flags.ack then _ else heard w.t now) = v at *
    split
    · rename_i hcan
      have hpast : v.state.past = true := by
        rw [tcpCanTakeData] at hcan
        revert hcan
        cases v.state <;> simp [State.past]
      exact hack.next (.feed hpast .gotData)
    · exact hack
  simp only [answerSegment]
  split
  · split
    · exact htake.push.next (.ctl rfl)
    · exact htake.push
  · exact htake

end

theorem synSent (ha : act = .segment h rings now) (hs : w₀.t.state = .synSent) :
    Moves w₀ act (tcpSynSent w₀ h now) := by
  simp only [tcpSynSent]
  split
  · split
    · exact start
    · exact start.ctl rfl
  rename_i hack
  split
  · split
    · exact start.close
    · exact start
  rename_i hrst
  split
  · exact start
  rename_i hsyn
  rw [Bool.or_eq_true, Bool.not_eq_true', Bool.not_eq_true', not_or, Bool.not_eq_false,
    Bool.not_eq_false] at hsyn
  rw [hsyn.2, Bool.true_and, bne_iff_ne, not_not] at hack
  exact (start.next (.synAck ha hs hsyn (Bool.eq_false_iff.mpr hrst) hack)).ctl rfl

/-- A half open connection is given up, waits on, or opens. -/
theorem synRcvd (act : Act) (h : Seg) (rings : Option Rings) (hs : w₀.t.state = .synRcvd) :
    Moves w₀ act (tcpSynRcvd w₀ h rings).2 ∧ ((tcpSynRcvd w₀ h rings).1 = .landed →
      ∃ r, (tcpSynRcvd w₀ h rings).2 = { w₀ with t := landed w₀.t h r }) := by
  simp only [tcpSynRcvd]
  split
  · split
    · exact ⟨start.next (.drop hs), nofun⟩
    · exact ⟨start, nofun⟩
  split
  · exact ⟨start.next (.ctl rfl), nofun⟩
  split
  · exact ⟨start, nofun⟩
  split
  · exact ⟨start.ctl rfl, nofun⟩
  rename_i hn
  split
  · exact ⟨(start.ctl rfl).next (.drop hs), nofun⟩
  · exact ⟨start.next (.land hs (not_not.mp hn)), fun _ => ⟨_, rfl⟩⟩

theorem input (ha : act = .segment h rings now) : Moves w₀ act (tcpInput w₀ h rings now) := by
  simp only [tcpInput]
  split
  · exact start
  · exact start
  · next hs => exact synSent ha hs
  · rename_i hs
    obtain ⟨hm, hland⟩ := synRcvd act h rings hs
    split
    · rename_i hl
      obtain ⟨r, heq⟩ := hland hl.2
      rw [heq] at hm ⊢
      exact hm.arrives ha rfl rfl rfl
    · exact hm
  · rename_i h1 h2 h3 h4
    have hpast : w₀.t.state.past = true := by
      revert h1 h2 h3 h4
      cases w₀.t.state <;> simp [State.past]
    rw [tcpOpenInput]
    split
    · exact start.close
    split
    · split
      · exact start.close
      · exact start
    · exact start.arrives ha hpast rfl rfl

/-! ## Timers -/

theorem timeout (m : Moves w₀ act w) (hdue : w.t.rtoAt ≠ 0) :
    Moves w₀ act (tcpTimeout w now).2 := by
  simp only [tcpTimeout]
  split
  · exact m.still ⟨rfl, rfl, rfl, rfl, rfl, fun _ => rfl⟩
  rename_i hidle
  have hcount : Moves w₀ act { w with t := { w.t with retries := w.t.retries + 1 } } :=
    m.still ⟨rfl, rfl, rfl, rfl, rfl, id⟩
  split
  · simp only [giveUp]
    split
    · next hs => exact hcount.next (.drop hs)
    split
    · exact hcount.close
    · exact hcount.reset rfl
  -- The timer was running, and is set anew.
  have hback : ∀ {v : Work}, Moves w₀ act v → v.t.rtoAt ≠ 0 →
      Moves w₀ act { v with t := backOff v.t now } :=
    fun hv hd => hv.still ⟨rfl, rfl, rfl, rfl, rfl, fun hz => absurd hz hd⟩
  simp only [tryAgain]
  split
  · exact hback (hcount.next (.ctl rfl)) hdue
  rename_i hsyn
  have hsyn : isSyn w.t = false := Bool.eq_false_iff.mpr hsyn
  split
  · next hp => exact hback (hcount.next (.probe hsyn hdue hp)) hdue
  rename_i hp
  have hp : wantsProbe w.t = false := Bool.eq_false_iff.mpr hp
  refine hback (hcount.next (.rto hsyn hdue fun hz => hidle ?_)) hdue
  rw [hsyn, hp]
  simpa using hz

theorem keepalive (m : Moves w₀ act w) : Moves w₀ act (tcpKeepalive w now) := by
  simp only [tcpKeepalive]
  split
  · exact m
  split
  · exact m
  split
  · exact m
  split
  · exact m.reset rfl
  · exact (m.still (u := { w.t with keepSent := w.t.keepSent + 1 })
      ⟨rfl, rfl, rfl, rfl, rfl, id⟩).ctl rfl

theorem tick (m : Moves w₀ act w) : Moves w₀ act (tcpTick w now).2 := by
  have htimer : Moves w₀ act (tickTimer w now).2 := by
    rw [tickTimer]
    split
    · next hdue => exact m.timeout hdue.1
    · exact m
  have hwait : ∀ {v : Work}, Moves w₀ act v → Moves w₀ act (tickWait v now) := by
    intro v hv
    rw [tickWait]
    split
    · exact hv.close
    · exact hv
  simp only [tcpTick]
  generalize hv : tickWait _ now = v
  have hhv : Moves w₀ act v := hv ▸ hwait htimer.push.keepalive
  rw [tickLinger]
  split
  · exact hhv.reset rfl
  · exact hhv

/-! ## The calls of the socket -/

theorem recv {len : Nat} {peek : Bool} : Moves w₀ act (tcpRecv w₀ len peek).2 := by
  simp only [tcpRecv]
  split
  · generalize (if len < w₀.t.rxLen then len else w₀.t.rxLen) = n
    have htake : Moves w₀ act { w₀ with t := recvTake w₀.t n } :=
      start.still ⟨rfl, rfl, rfl, rfl, rfl, id⟩
    split
    · exact start
    simp only [tellWindow]
    split
    · exact htake.ctl rfl
    · exact htake
  · split
    · exact start
    · split
      · exact start.still ⟨rfl, rfl, rfl, rfl, rfl, id⟩
      · split <;> exact start

theorem shutdown {rd wr : Bool} : Moves w₀ act (tcpShutdown w₀ rd wr now).2 := by
  have hread : Moves w₀ act { w₀ with t := shutRead w₀.t rd } := by
    rw [shutRead]
    split
    · exact start.still ⟨rfl, rfl, rfl, rfl, rfl, id⟩
    · exact start
  simp only [tcpShutdown]
  split
  · exact start
  simp only [shutWrite]
  split
  · exact (hread.next .fin).push
  · exact hread

theorem detach {abort : Bool} (ha : act = .detach abort now) :
    Moves w₀ act (tcpDetach w₀ abort now).2 := by
  have hgone : Moves w₀ act { w₀ with t := { w₀.t with detached := true } } :=
    start.next (.leave ha)
  simp only [tcpDetach]
  split
  · exact hgone
  · exact hgone
  · exact hgone
  · split
    · exact hgone.ctl rfl
    · split
      · have hwants : Moves w₀ act { w₀ with t := { w₀.t with
            detached := true, finWanted := true, doneAt := now + tcpLingerMs } } :=
          (hgone.next .fin).still ⟨rfl, rfl, rfl, rfl, rfl, id⟩
        exact hwants.push
      · exact hgone

theorem connect {route : Option Ip.Netif} {localIp remoteIp iss : UInt32}
    {localPort remotePort : UInt16} :
    Moves w₀ act (tcpConnect w₀ route localIp localPort remoteIp remotePort iss now).2 := by
  simp only [tcpConnect]
  split
  · exact start
  split
  · exact start
  split
  · exact start
  split
  · exact start
  rename_i hno
  rw [not_or, not_not, Bool.not_eq_true] at hno
  exact start.next (.connect hno.1 hno.2)

theorem unreachable {code : Nat} {seq : UInt32} :
    Moves w₀ act { w₀ with t := tcpUnreachable w₀.t code seq } := by
  rw [tcpUnreachable]
  split
  · exact start.close
  · exact start

theorem setopt {name : Opt} {val : Int} :
    Moves w₀ act { w₀ with t := (tcpSetopt w₀.t name val).2 } := by
  simp only [tcpSetopt]
  split
  · exact start
  · split <;> exact start.still ⟨rfl, rfl, rfl, rfl, rfl, id⟩

/-- Every call but `tcp_send` is made of moves. -/
theorem exec {t : Tcb} {c : Call} (hsend : ∀ buf now, c.act ≠ .send buf now) :
    Moves (c.begin t) c.act (Tcp.exec t c).2 := by
  obtain ⟨act, bufs⟩ := c
  cases act with
  | connect => exact connect
  | segment => exact input rfl
  | send buf now => exact absurd rfl (hsend buf now)
  | recv => exact recv
  | tick => exact start.tick
  | shutdown => exact shutdown
  | detach => exact detach rfl
  | unreachable => exact unreachable
  | takeError | setKeepalive => exact start.still ⟨rfl, rfl, rfl, rfl, rfl, id⟩
  | setopt => exact setopt

end Moves

end BleedKernel.Tcp
