import BleedKernel.Model.TcpList
import BleedKernel.Proofs.TcpMoves

/-!
# The stages of a connection

What the lists of connections have to know of one is its stage: closed, listening, half
open, or open. An open one stays open until it is closed (`Ends`), a half open one waits,
is given up or lands, and one that is closed or listens is left alone by the timers.
-/

namespace BleedKernel.Tcp

/-- What the lists know of a connection. -/
inductive Stage where
  | closed | listen | half | open
deriving DecidableEq

/-- Half open is `TCP_SYN_RCVD` only. -/
def State.stage : State → Stage
  | .closed => .closed
  | .listen => .listen
  | .synRcvd => .half
  | _ => .open

theorem State.stage_closed {x : State} : x.stage = .closed ↔ x = .closed := by cases x <;> decide

theorem State.stage_listen {x : State} : x.stage = .listen ↔ x = .listen := by cases x <;> decide

theorem State.stage_half {x : State} : x.stage = .half ↔ x = .synRcvd := by cases x <;> decide

theorem State.stage_past {x : State} (h : x.past = true) : x.stage = .open := by
  revert h
  cases x <;> decide

/-- A connection that is not open has nothing to send again, and no timer unless its
handshake is on. -/
structure Idle (t : Tcb) : Prop where
  recovery : t.state.stage ≠ .open → t.recovery = .none
  timer : t.state = .closed ∨ t.state = .listen → t.rtoAt = 0
  fresh : t.state = .listen → t.wasConnected = false

/-- The connection is open, or it was closed. -/
structure Ends (t u : Tcb) : Prop where
  detached : u.detached = t.detached
  stage : u.state.stage = .open ∨ (u.state = .closed ∧ u.recovery = .none ∧ u.rtoAt = 0)

section

variable {t u : Tcb} {w : Work} {now : Nat} {h : Seg}

theorem Ends.idle (h : Ends t u) : Idle u := by
  rcases h.stage with ho | ⟨hc, hr, ht⟩
  · refine ⟨absurd ho, ?_, ?_⟩
    · rintro (hs | hs) <;> (rw [hs] at ho; cases ho)
    · intro hs
      rw [hs] at ho
      cases ho
  · refine ⟨fun _ => hr, fun _ => ht, ?_⟩
    intro hs
    rw [hc] at hs
    cases hs

theorem Ends.refl (h : t.state.stage = .open) : Ends t t := ⟨rfl, .inl h⟩

theorem Pushed.stage_open (h : Pushed t u) (ho : t.state.stage = .open) :
    u.state.stage = .open := by
  rcases h.state with hs | ⟨-, hs⟩ | ⟨-, hs⟩
  · rwa [hs]
  · rw [hs]
    rfl
  · rw [hs]
    rfl

namespace Ends

theorem trans {v : Tcb} (h : Ends t u) (h' : Ends u v) : Ends t v :=
  ⟨h'.detached.trans h.detached, h'.stage⟩

theorem setClosed (h : Ends t u) {err : Option Errno} : Ends t (tcpSetClosed u err) :=
  ⟨h.detached, .inr ⟨rfl, rfl, rfl⟩⟩

/-- Nothing is pushed on a closed connection. -/
theorem push (h : Ends t w.t) : Ends t (tcpPush w now).t := by
  rcases h.stage with ho | ⟨hc, hr, -⟩
  · have hp : Pushed w.t (tcpPush w now).t := .push (.refl _)
    exact ⟨hp.detached.trans h.detached, .inl (hp.stage_open ho)⟩
  rw [tcpPush_of_not_open hr (by rw [hc]; exact ⟨nofun, nofun⟩)]
  exact h

theorem gotAck (ho : t.state.stage = .open) {seq ack : UInt32} {rawWindow : UInt16}
    {bare : Bool} : Ends t (tcpGotAck t seq ack rawWindow bare now) := by
  have hin : ∀ {v : Tcb}, Inner t v → Ends t v :=
    fun hi => ⟨hi.detached, .inl (by rw [hi.state]; exact ho)⟩
  have hnumber : ∀ window, Ends t (ackNumber t window ack bare now) := by
    intro window
    simp only [ackNumber]
    split
    · have hdata : Inner t (ackData t ack) := (Inner.refl t).set _ _ _
      have hi : Inner t (tcpCcAcked (ackRto (ackRtt (ackData t ack) ack now) now)
          (ack - t.sndUna) ack) := hdata.ackRtt.ackRto.ccAcked
      rw [gotNewAck]
      rw [ackFin]
      split
      · split
        · exact ⟨hi.detached, .inl rfl⟩
        · exact ⟨hi.detached, .inl rfl⟩
        · exact (hin hi).setClosed
        · exact hin hi
      · exact hin hi
    · split
      · exact hin (Inner.refl t).ccDupack
      · exact .refl ho
  -- The rest is about the window of the peer.
  have hrest : ∀ {v : Tcb} {window : UInt32}, Ends t v →
      Ends t (takeWindow (stillAnswers (takeBackProbe v window ack) window ack) window seq ack) := by
    intro v window hv
    have hback : Ends t (takeBackProbe v window ack) := by
      rw [takeBackProbe]
      split
      · exact ⟨hv.detached, hv.stage.imp id fun hc => ⟨hc.1, hc.2.1, rfl⟩⟩
      · exact hv
    have hstill : Ends t (stillAnswers (takeBackProbe v window ack) window ack) := by
      rw [stillAnswers]
      split
      · exact ⟨hback.detached, hback.stage⟩
      · exact hback
    rw [takeWindow]
    split
    · exact ⟨hstill.detached, hstill.stage⟩
    · exact hstill
  exact hrest (hnumber _)

/-- What a move makes of an open connection. -/
theorem move {w₀ w' : Work} {act : Act} (ho : w₀.t.state.stage = .open)
    (hd : ∀ abort now, act ≠ .detach abort now) (m : Move w₀ act w w') (h : Ends w₀.t w.t) :
    Ends w₀.t w'.t := by
  have hrcvd : w.t.state ≠ .synRcvd := by
    intro hs
    rcases h.stage with hv | ⟨hc, -⟩
    · rw [hs] at hv
      cases hv
    · cases hc.symm.trans hs
  have hdue : w.t.rtoAt ≠ 0 → w.t.state.stage = .open :=
    fun hne => h.stage.resolve_right fun hc => hne hc.2.2
  cases m with
  | still hq =>
    refine ⟨hq.detached.trans h.detached, ?_⟩
    rw [hq.state, hq.cc]
    exact h.stage.imp id fun hc => ⟨hc.1, hc.2.1, hq.timer hc.2.2⟩
  | ctl | fin => exact ⟨h.detached, h.stage⟩
  | push => exact h.push
  | close => exact h.setClosed
  | drop hs => exact absurd hs hrcvd
  | leave ha => exact absurd ha (hd _ _)
  | ack _ _ hs => exact h.trans (gotAck (State.stage_past hs))
  | feed hs hf =>
    refine ⟨hf.detached.trans h.detached, .inl ?_⟩
    rcases hf.state with hu | ⟨-, hu⟩ | ⟨-, hu⟩ | ⟨-, hu⟩
    · rw [hu]
      exact State.stage_past hs
    all_goals rw [hu]; rfl
  | probe _ hne | rto _ hne => exact ⟨h.detached, .inl (hdue hne)⟩
  | synAck => exact ⟨rfl, .inl rfl⟩
  | land hs => exact absurd hs hrcvd
  | connect hs =>
    rw [hs] at ho
    cases ho

theorem moves {w₀ : Work} (act : Act) (ho : w₀.t.state.stage = .open)
    (hd : ∀ abort now, act ≠ .detach abort now) (m : Moves w₀ act w) : Ends w₀.t w.t :=
  m.keeps (.refl ho) (move ho hd)

theorem arrives (hs : w.t.state.past = true) : Ends w.t (tcpArrives w h now).t :=
  moves (.segment h none now) (State.stage_past hs) nofun (.arrives .start rfl hs rfl rfl)

theorem synSent (hs : w.t.state = .synSent) : Ends w.t (tcpSynSent w h now).t :=
  moves (.segment h none now) (by rw [hs]; rfl) nofun (.synSent rfl hs)

theorem unreachable (ho : w.t.state.stage = .open) {code : Nat} {seq : UInt32} :
    Ends w.t (tcpUnreachable w.t code seq) :=
  moves (.unreachable code seq) ho nofun .unreachable

theorem tick (ho : w.t.state.stage = .open) (now : Nat) :
    (tcpTick w now).1 = false ∧ Ends w.t (tcpTick w now).2.t := by
  refine ⟨?_, moves (.tick now) ho nofun Moves.start.tick⟩
  have hrcvd : w.t.state ≠ .synRcvd := by
    intro hs
    rw [hs] at ho
    cases ho
  show (tickTimer w now).1 = false
  rw [tickTimer]
  split
  · simp only [tcpTimeout, giveUp]
    split
    · rfl
    · split
      · split <;> rfl
      · rfl
  · rfl

end Ends

/-- Nothing is pushed on a connection that is not open. -/
theorem Idle.push (h : Idle w.t) (hs : w.t.state.stage ≠ .open) : tcpPush w now = w := by
  refine tcpPush_of_not_open (h.recovery hs) ?_
  constructor
  all_goals
    intro he
    rw [he] at hs
    exact hs rfl

theorem Idle.keepalive (hs : w.t.state.stage ≠ .open) : tcpKeepalive w now = w := by
  rw [tcpKeepalive, if_pos]
  rw [Bool.or_eq_true, Bool.and_eq_true, bne_iff_ne, bne_iff_ne]
  refine .inr ⟨?_, ?_⟩
  all_goals
    intro he
    rw [he] at hs
    exact hs rfl

theorem Idle.wait (hs : w.t.state.stage ≠ .open) : tickWait w now = w := by
  rw [tickWait, if_neg]
  rintro ⟨he, -⟩
  rw [he] at hs
  exact hs rfl

/-- A tick that finds a connection closed or listening. -/
theorem Idle.tick (h : Idle w.t)
    (hs : w.t.state = .closed ∨ (w.t.state = .listen ∧ w.t.detached = false)) (now : Nat) :
    tcpTick w now = (false, w) := by
  have hno : w.t.state.stage ≠ .open := by
    rcases hs with hs | ⟨hs, -⟩ <;> (rw [hs]; decide)
  have hzero : w.t.rtoAt = 0 := h.timer (hs.imp id And.left)
  have htimer : tickTimer w now = (false, w) := by
    rw [tickTimer, if_neg fun hc => hc.1 hzero]
  have hlinger : tickLinger w now = w := by
    rw [tickLinger, if_neg]
    rintro ⟨hd, hne, -⟩
    rcases hs with hs | ⟨-, hd'⟩
    · exact hne hs
    · rw [hd] at hd'
      cases hd'
  rw [tcpTick, htimer]
  show (false, _) = _
  rw [h.push hno, Idle.keepalive hno, Idle.wait hno, hlinger]

/-- A connection that was given up before it was open. -/
structure Dropped (u : Tcb) : Prop where
  state : u.state = .closed
  detached : u.detached = true
  idle : Idle u

theorem Idle.dropChild (h : Idle t) (hs : t.state = .synRcvd) : Dropped (tcpDropChild t) := by
  refine ⟨rfl, rfl, fun _ => ?_, fun _ => rfl, fun hl => (by cases hl)⟩
  exact h.recovery (by rw [hs]; decide)

/-- A half open connection that waits on. -/
structure Waits (t u : Tcb) : Prop where
  state : u.state = .synRcvd
  detached : u.detached = t.detached
  idle : Idle u

theorem Idle.waits (h : Idle t) (hs : t.state = .synRcvd) (hstate : u.state = t.state)
    (hd : u.detached = t.detached) (hr : u.recovery = t.recovery) : Waits t u := by
  have hu : u.state = .synRcvd := hstate.trans hs
  refine ⟨hu, hd, ?_, ?_, ?_⟩
  · intro _
    rw [hr]
    exact h.recovery (by rw [hs]; decide)
  · rw [hu]
    exact fun hc => hc.elim nofun nofun
  · rw [hu]
    exact nofun

/-- A tick that finds one. -/
theorem Idle.tick_half (h : Idle w.t) (hs : w.t.state = .synRcvd) (hd : w.t.detached = false)
    (now : Nat) :
    ((tcpTick w now).1 = true ∧ Dropped (tcpTick w now).2.t) ∨
      ((tcpTick w now).1 = false ∧ Waits w.t (tcpTick w now).2.t) := by
  have htimer : ((tickTimer w now).1 = true ∧ Dropped (tickTimer w now).2.t) ∨
      ((tickTimer w now).1 = false ∧ Waits w.t (tickTimer w now).2.t) := by
    have hsyn : isSyn w.t = true := by
      rw [isSyn, hs]
      rfl
    rw [tickTimer]
    split
    · simp only [tcpTimeout, hsyn, Bool.not_true, Bool.false_and, Bool.false_eq_true, if_false]
      split
      · have hcount : Idle { w.t with retries := w.t.retries + 1 } := ⟨h.recovery, h.timer, h.fresh⟩
        simp only [giveUp]
        rw [if_pos hs]
        exact .inl ⟨rfl, hcount.dropChild hs⟩
      · have hagain : tryAgain { w with t := { w.t with retries := w.t.retries + 1 } }
            = tcpSendSyn { w with t := { w.t with retries := w.t.retries + 1 } } := if_pos hsyn
        rw [hagain]
        exact .inr ⟨rfl, h.waits hs rfl rfl rfl⟩
    · exact .inr ⟨rfl, h.waits hs rfl rfl rfl⟩
  simp only [tcpTick]
  -- It is not open either way, and the rest of the turn leaves it alone.
  have hrest : ∀ {v : Work}, Idle v.t → v.t.state.stage ≠ .open →
      (v.t.state = .closed ∨ v.t.detached = false) →
      tickLinger (tickWait (tcpKeepalive (tcpPush v now) now) now) now = v := by
    intro v hv hno hl
    rw [hv.push hno, Idle.keepalive hno, Idle.wait hno, tickLinger, if_neg]
    rintro ⟨hd, hne, -⟩
    rcases hl with hc | hd'
    · exact hne hc
    · rw [hd] at hd'
      cases hd'
  rcases htimer with ⟨hr, hdrop⟩ | ⟨hr, hwait⟩
  · rw [hrest hdrop.idle (by rw [hdrop.state]; decide) (.inl hdrop.state)]
    exact .inl ⟨hr, hdrop⟩
  · rw [hrest hwait.idle (by rw [hwait.state]; decide) (.inr (hwait.detached.trans hd))]
    exact .inr ⟨hr, hwait⟩

/-- What a segment makes of one. -/
theorem Idle.synRcvd (hi : Idle w.t) (hs : w.t.state = .synRcvd) (rings : Option Rings) :
    ((tcpSynRcvd w h rings).1 = .dropped ∧ Dropped (tcpSynRcvd w h rings).2.t) ∨
      ((tcpSynRcvd w h rings).1 = .waits ∧ Waits w.t (tcpSynRcvd w h rings).2.t) ∨
      ((tcpSynRcvd w h rings).1 = .landed ∧ (tcpSynRcvd w h rings).2.t.state = .established ∧
        (tcpSynRcvd w h rings).2.t.detached = w.t.detached) := by
  simp only [tcpSynRcvd]
  split
  · split
    · exact .inl ⟨rfl, hi.dropChild hs⟩
    · exact .inr (.inl ⟨rfl, hi.waits hs rfl rfl rfl⟩)
  split
  · exact .inr (.inl ⟨rfl, hi.waits hs rfl rfl rfl⟩)
  split
  · exact .inr (.inl ⟨rfl, hi.waits hs rfl rfl rfl⟩)
  split
  · exact .inr (.inl ⟨rfl, hi.waits hs rfl rfl rfl⟩)
  split
  · have hctl : Idle (tcpSendCtl w { rst := true } h.ack).t := ⟨hi.recovery, hi.timer, hi.fresh⟩
    exact .inl ⟨rfl, hctl.dropChild hs⟩
  · exact .inr (.inr ⟨rfl, rfl, rfl⟩)

/-! ## The calls of the socket -/

theorem recv_same {len : Nat} {peek : Bool} : (tcpRecv w len peek).2.t.state = w.t.state ∧
      (tcpRecv w len peek).2.t.detached = w.t.detached ∧
      (tcpRecv w len peek).2.t.recovery = w.t.recovery ∧
      (tcpRecv w len peek).2.t.rtoAt = w.t.rtoAt ∧
      (tcpRecv w len peek).2.t.wasConnected = w.t.wasConnected := by
  simp only [tcpRecv]
  split
  · generalize (if len < w.t.rxLen then len else w.t.rxLen) = n
    split
    · exact ⟨rfl, rfl, rfl, rfl, rfl⟩
    · simp only [tellWindow]
      split <;> exact ⟨rfl, rfl, rfl, rfl, rfl⟩
  · split
    · exact ⟨rfl, rfl, rfl, rfl, rfl⟩
    · split
      · exact ⟨rfl, rfl, rfl, rfl, rfl⟩
      · split <;> exact ⟨rfl, rfl, rfl, rfl, rfl⟩

/-- What a call of the socket makes of an open connection. -/
theorem Ends.request (ho : w.t.state.stage = .open) (r : TcpList.Req) : Ends w.t (r.work w).t := by
  cases r with
  | send buf now =>
    show Ends w.t (tcpSend w buf now).2.t
    rcases tcpSend_cases w buf now with ⟨err, heq⟩ | ⟨-, heq⟩
    · rw [heq]
      exact .refl ho
    · rw [heq]
      exact push ⟨rfl, .inl ho⟩
  | recv len peek => exact moves (.recv len peek) ho nofun .recv
  | shutdown rd wr now => exact moves (.shutdown rd wr now) ho nofun .shutdown
  | takeError => exact ⟨rfl, .inl ho⟩
  | setKeepalive on now => exact ⟨rfl, .inl ho⟩
  | setopt name val => exact moves (.setopt name val) ho nofun .setopt

/-- Of one that is closed or listens: it stays that, and idle. -/
theorem Idle.request (hi : Idle w.t) (hs : w.t.state = .closed ∨ w.t.state = .listen)
    (r : TcpList.Req) :
    (r.work w).t.state = w.t.state ∧ (r.work w).t.detached = w.t.detached ∧ Idle (r.work w).t := by
  have hsame : ∀ {v : Tcb}, v.state = w.t.state ∧ v.detached = w.t.detached ∧
      v.recovery = w.t.recovery ∧ v.rtoAt = w.t.rtoAt ∧ v.wasConnected = w.t.wasConnected →
      v.state = w.t.state ∧ v.detached = w.t.detached ∧ Idle v := by
    rintro v ⟨h1, h2, h3, h4, h5⟩
    refine ⟨h1, h2, ?_, ?_, ?_⟩
    · rw [h1, h3]
      exact hi.recovery
    · rw [h1, h4]
      exact hi.timer
    · rw [h1, h5]
      exact hi.fresh
  cases r with
  | send buf now =>
    show (tcpSend w buf now).2.t.state = _ ∧ (tcpSend w buf now).2.t.detached = _ ∧
      Idle (tcpSend w buf now).2.t
    rcases tcpSend_cases w buf now with ⟨err, heq⟩ | ⟨hopen, -⟩
    · rw [heq]
      exact ⟨rfl, rfl, hi⟩
    · rcases hs with hs | hs <;> (rw [hs] at hopen; exact hopen.elim nofun nofun)
  | recv len peek => exact hsame recv_same
  | shutdown rd wr now =>
    -- It is refused.
    have hno : (!w.t.wasConnected || w.t.state == .closed) = true := by
      rcases hs with hs | hs
      · rw [hs]
        exact Bool.or_true _
      · rw [hi.fresh hs]
        rfl
    show (tcpShutdown w rd wr now).2.t.state = _ ∧ (tcpShutdown w rd wr now).2.t.detached = _ ∧
      Idle (tcpShutdown w rd wr now).2.t
    rw [tcpShutdown, if_pos hno]
    exact ⟨rfl, rfl, hi⟩
  | takeError | setKeepalive on now => exact hsame ⟨rfl, rfl, rfl, rfl, rfl⟩
  | setopt name val =>
    refine hsame ?_
    show (tcpSetopt w.t name val).2.state = _ ∧ (tcpSetopt w.t name val).2.detached = _ ∧
      (tcpSetopt w.t name val).2.recovery = _ ∧ (tcpSetopt w.t name val).2.rtoAt = _ ∧
      (tcpSetopt w.t name val).2.wasConnected = _
    simp only [tcpSetopt]
    split
    · exact ⟨rfl, rfl, rfl, rfl, rfl⟩
    · split <;> exact ⟨rfl, rfl, rfl, rfl, rfl⟩

/-- `tcp_connect` is refused, or a closed connection sets out. -/
theorem connect_cases (w : Work) (route : Option Ip.Netif) (localIp : UInt32)
    (localPort : UInt16) (remoteIp : UInt32) (remotePort : UInt16) (iss : UInt32) (now : Nat) :
    let r := tcpConnect w route localIp localPort remoteIp remotePort iss now
    (∃ err, r = (.error err, w)) ∨ (r.1 = .ok () ∧ w.t.state = .closed ∧ r.2.t.state = .synSent ∧
        r.2.t.detached = w.t.detached) := by
  simp only [tcpConnect]
  split
  · exact .inl ⟨_, rfl⟩
  split
  · exact .inl ⟨_, rfl⟩
  split
  · exact .inl ⟨_, rfl⟩
  split
  · exact .inl ⟨_, rfl⟩
  rename_i hopen
  rw [not_or, not_not] at hopen
  have hq : ∀ v : Tcb, Quiet v (tcpArmRto v now) := fun v => (Quiet.refl v).armRto
  exact .inr ⟨rfl, hopen.1, (hq _).state, (hq _).detached⟩

/-- `tcp_detach` frees a closed connection. An open one that it does not free stays open. -/
theorem detach_cases (hs : w.t.state = .closed ∨ w.t.state.stage = .open) (abort : Bool)
    (now : Nat) :
    (tcpDetach w abort now).1 = true ∨
      (w.t.state.stage = .open ∧ (tcpDetach w abort now).2.t.state.stage = .open ∧
        (tcpDetach w abort now).2.t.detached = true) := by
  simp only [tcpDetach]
  split
  · exact .inl rfl
  · exact .inl rfl
  · exact .inl rfl
  · rename_i hclosed _
    have ho : w.t.state.stage = .open := hs.elim (fun hc => absurd hc hclosed) id
    split
    · exact .inl rfl
    refine .inr ⟨ho, ?_⟩
    split
    · have hp : Pushed { w.t with detached := true, finWanted := true, doneAt := now + tcpLingerMs }
          (tcpPush ⟨{ w.t with detached := true, finWanted := true, doneAt := now + tcpLingerMs },
            w.out⟩ now).t := .push (.refl _)
      exact ⟨hp.stage_open ho, hp.detached⟩
    · exact ⟨ho, rfl⟩

end

end BleedKernel.Tcp
