import BleedKernel.Model.Tcp

/-!
# What the parts of a connection leave alone

Sending a segment, or sending one again, changes the timers and the edge of the window
the peer was told (`Quiet`). Pushing out what is new moves `snd_nxt` on besides, and may
send the FIN (`Pushed`). What comes in acts on one side at a time: an ack does not touch
the receive side (`Acked`), data does not touch the send side (`Fed`).
-/

namespace BleedKernel.Tcp

open Lib

variable {t' t'' : Tcb} {flags : Flags} {ack seq window : UInt32} {fuel sent : Nat}

variable {t : Tcb} {now : Nat}

/-- The edge of the window that is told with the next segment. -/
def advEdge (t : Tcb) : UInt32 := t.rcvNxt + UInt32.ofNat (tcpRcvWindow t <<< t.rcvShift)

theorem advEdge_congr (h : t'.toRcvSide = t.toRcvSide) : advEdge t' = advEdge t := by
  simp only [advEdge, tcpRcvWindow, h]

/-- The edge was told anew, if anything. -/
def Told (t t' : Tcb) : Prop := t'.rcvAdv = t.rcvAdv ∨ t'.rcvAdv = advEdge t

theorem Told.trans (hr : t'.toRcvSide = t.toRcvSide) (h : Told t t')
    (h' : Told t' t'') : Told t t'' := by
  rcases h' with hadv | hadv
  · rw [Told, hadv]
    exact h
  · exact .inr (hadv.trans (advEdge_congr hr))

/-! ## Sending -/

/-- Only the timers and the edge change. -/
structure Quiet (t t' : Tcb) : Prop where
  snd : t'.toSndSide = t.toSndSide
  rcv : t'.toRcvSide = t.toRcvSide
  cc : t'.toCongestion = t.toCongestion
  state : t'.state = t.state
  error : t'.error = t.error
  detached : t'.detached = t.detached
  was : t'.wasConnected = t.wasConnected
  told : Told t t'

namespace Quiet

theorem refl (t : Tcb) : Quiet t t := ⟨rfl, rfl, rfl, rfl, rfl, rfl, rfl, .inl rfl⟩

theorem trans (h : Quiet t t') (h' : Quiet t' t'') : Quiet t t'' :=
  ⟨h'.snd.trans h.snd, h'.rcv.trans h.rcv, h'.cc.trans h.cc, h'.state.trans h.state,
    h'.error.trans h.error, h'.detached.trans h.detached, h'.was.trans h.was,
    h.told.trans h.rcv h'.told⟩

variable {t u : Tcb} {w : Work}

theorem timers (h : Quiet t u) (timers : Timers) : Quiet t { u with toTimers := timers } :=
  h.trans ⟨rfl, rfl, rfl, rfl, rfl, rfl, rfl, .inl rfl⟩

theorem emit (h : Quiet t w.t) {off len : Nat}
    {opts : List UInt8} : Quiet t (tcpEmit w flags seq off len opts).t :=
  h.trans ⟨rfl, rfl, rfl, rfl, rfl, rfl, rfl, .inr rfl⟩

theorem sendCtl (h : Quiet t w.t) : Quiet t (tcpSendCtl w flags seq).t := h.emit

theorem sendAck (h : Quiet t w.t) : Quiet t (tcpSendAck w).t := h.emit

theorem sendSyn (h : Quiet t w.t) : Quiet t (tcpSendSyn w).t := h.emit

theorem armRto (h : Quiet t u) : Quiet t (tcpArmRto u now) := by
  rw [tcpArmRto]
  split
  · exact h.timers _
  · exact h

theorem startClock (h : Quiet t u) : Quiet t (Tcp.startClock u now) := by
  rw [Tcp.startClock]
  split
  · exact h.timers _
  · exact h

theorem resend (h : Quiet t w.t) : Quiet t (tcpResend w seq).2.t := by
  have hrtt : Quiet t { w.t with rttAt := 0 } := h.timers _
  simp only [tcpResend]
  split
  · exact hrtt.emit
  split
  · exact hrtt.sendCtl
  · exact hrtt

theorem rtoLoop (h : Quiet t w.t) : Quiet t (Tcp.rtoLoop fuel w).t := by
  induction fuel generalizing w with
  | zero => exact h
  | succ fuel ih =>
    simp only [Tcp.rtoLoop]
    split
    · split
      · exact h.resend
      · exact ih (h.resend.timers _)
    · exact h

theorem pushRecovery (h : Quiet t w.t) : Quiet t (tcpPushRecovery w).t := by
  simp only [tcpPushRecovery]
  split
  · split
    · exact (h.timers { w.t.toTimers with rtxOne := false }).resend
    · exact h
  · exact h
  · refine rtoLoop ?_
    show Quiet t (if _ then _ else _)
    split
    · exact h.timers _
    · exact h

end Quiet

/-- Besides, `snd_nxt` moves on, and the FIN may be sent. -/
structure Pushed (t t' : Tcb) : Prop where
  snd : t'.toSndSide = { t.toSndSide with sndNxt := t'.sndNxt, finSent := t'.finSent }
  rcv : t'.toRcvSide = t.toRcvSide
  cc : t'.toCongestion = t.toCongestion
  state : t'.state = t.state ∨ (t.state = .established ∧ t'.state = .finWait1) ∨
    (t.state = .closeWait ∧ t'.state = .lastAck)
  error : t'.error = t.error
  detached : t'.detached = t.detached
  was : t'.wasConnected = t.wasConnected
  told : Told t t'

theorem Quiet.pushed (h : Quiet t t') : Pushed t t' :=
  ⟨by rw [h.snd], h.rcv, h.cc, .inl h.state, h.error, h.detached, h.was, h.told⟩

theorem tcpArmRto_state (t : Tcb) (now : Nat) : (tcpArmRto t now).state = t.state :=
  (Quiet.refl t).armRto.state

theorem pushLoop_state {wnd : Nat} {w : Work} :
    (pushLoop now wnd fuel sent w).2.t.state = w.t.state := by
  induction fuel generalizing sent w with
  | zero => rfl
  | succ fuel ih =>
    simp only [pushLoop]
    split
    · rw [ih]
      simp only [pushOne, tcpArmRto_state]
      exact (Quiet.refl w.t).startClock.state
    · rfl

namespace Pushed

theorem trans (h : Pushed t t') (h' : Pushed t' t'') : Pushed t t'' := by
  refine ⟨by rw [h'.snd, h.snd], h'.rcv.trans h.rcv, h'.cc.trans h.cc, ?_,
    h'.error.trans h.error, h'.detached.trans h.detached, h'.was.trans h.was,
    h.told.trans h.rcv h'.told⟩
  rcases h.state with hs | ⟨hs, hs'⟩ | ⟨hs, hs'⟩
  · rw [← hs]
    exact h'.state
  · -- A state the FIN led to is not left again.
    rcases h'.state with h2 | ⟨h2, -⟩ | ⟨h2, -⟩
    · exact .inr (.inl ⟨hs, h2.trans hs'⟩)
    · cases hs'.symm.trans h2
    · cases hs'.symm.trans h2
  · rcases h'.state with h2 | ⟨h2, -⟩ | ⟨h2, -⟩
    · exact .inr (.inr ⟨hs, h2.trans hs'⟩)
    · cases hs'.symm.trans h2
    · cases hs'.symm.trans h2

variable {t u : Tcb} {w : Work}

theorem refl (t : Tcb) : Pushed t t := (Quiet.refl t).pushed

theorem emit (h : Pushed t w.t) {off len : Nat}
    {opts : List UInt8} : Pushed t (tcpEmit w flags seq off len opts).t :=
  h.trans (Quiet.refl w.t).emit.pushed

theorem armRto (h : Pushed t u) : Pushed t (tcpArmRto u now) := h.trans (Quiet.refl u).armRto.pushed

theorem nxt (h : Pushed t u) {nxt : UInt32} : Pushed t { u with sndNxt := nxt } :=
  h.trans ⟨rfl, rfl, rfl, .inl rfl, rfl, rfl, rfl, .inl rfl⟩

theorem one (h : Pushed t w.t) {n : Nat} : Pushed t (pushOne w now sent n).t := by
  have hclock : Pushed t (startClock w.t now) := h.trans (Quiet.refl w.t).startClock.pushed
  exact hclock.emit.nxt.armRto

theorem loop (h : Pushed t w.t) {wnd : Nat} : Pushed t (pushLoop now wnd fuel sent w).2.t := by
  induction fuel generalizing sent w with
  | zero => exact h
  | succ fuel ih =>
    simp only [pushLoop]
    split
    · exact ih h.one
    · exact h

theorem afterFin (h : Pushed t u) (hs : u.state = .established ∨ u.state = .closeWait) :
    Pushed t (Tcp.afterFin u) := by
  refine h.trans ⟨rfl, rfl, rfl, ?_, rfl, rfl, rfl, .inl rfl⟩
  show (if u.state = .closeWait then State.lastAck else .finWait1) = u.state ∨
    (_ ∧ (if u.state = .closeWait then State.lastAck else .finWait1) = _) ∨ _ ∧ _
  rcases hs with hs | hs
  · exact .inr (.inl ⟨hs, by rw [hs]; rfl⟩)
  · exact .inr (.inr ⟨hs, if_pos hs⟩)

theorem fin (h : Pushed t w.t) (hs : w.t.state = .established ∨ w.t.state = .closeWait) :
    Pushed t (sendFin w now).t :=
  (h.emit.afterFin hs).armRto

theorem probe (h : Pushed t w.t) : Pushed t (armProbe w now sent).t := by
  rw [armProbe]
  split
  · exact h.armRto
  · exact h

theorem new (h : Pushed t w.t) (hs : w.t.state = .established ∨ w.t.state = .closeWait) :
    Pushed t (pushNew w now).t := by
  refine probe ?_
  split
  · exact h.loop.fin (by rwa [pushLoop_state])
  · exact h.loop

theorem push (h : Pushed t w.t) : Pushed t (tcpPush w now).t := by
  have hrec : Pushed t (tcpPushRecovery w).t := h.trans (Quiet.refl w.t).pushRecovery.pushed
  simp only [tcpPush]
  split
  · exact hrec
  rename_i hs
  refine hrec.new ?_
  by_contra hno
  exact hs ⟨fun he => hno (.inl he), fun he => hno (.inr he)⟩

end Pushed

/-- Nothing is pushed on a connection that is not open. -/
theorem tcpPush_of_not_open {w : Work} (hr : w.t.recovery = .none)
    (hs : w.t.state ≠ .established ∧ w.t.state ≠ .closeWait) : tcpPush w now = w := by
  have hrec : tcpPushRecovery w = w := by
    simp only [tcpPushRecovery, hr]
  simp only [tcpPush, hrec]
  rw [if_pos hs]

/-! ## Calls that are turned away, or change an option -/

section Calls

variable {t : Tcb} {w : Work} {now : Nat}

theorem tcpConnect_refused {route : Option Ip.Netif} {localIp remoteIp iss : UInt32}
    {localPort remotePort : UInt16} (hwas : w.t.wasConnected = true) :
    (tcpConnect w route localIp localPort remoteIp remotePort iss now).2 = w := by
  cases route with
  | none => rfl
  | some nif =>
    simp only [tcpConnect, hwas, or_true]
    split
    · rfl
    · split <;> rfl

/-- What `tcp_send` does: nothing, or it takes what there is room for and pushes. -/
theorem tcpSend_cases (w : Work) (buf : List UInt8) (now : Nat) :
    (∃ err, tcpSend w buf now = (.error err, w)) ∨
      ((w.t.state = .established ∨ w.t.state = .closeWait) ∧ tcpSend w buf now =
          (if (sendTakes w.t buf).isEmpty then .error .eagain else .ok (sendTakes w.t buf).length,
            tcpPush { w with t := putTx w.t (sendTakes w.t buf) } now)) := by
  simp only [tcpSend]
  split
  · exact .inl ⟨_, rfl⟩
  split
  · exact .inl ⟨_, rfl⟩
  split
  · exact .inl ⟨_, rfl⟩
  rename_i hopen
  refine .inr ⟨?_, rfl⟩
  by_contra hno
  exact hopen (.inl ⟨fun hs => hno (.inl hs), fun hs => hno (.inr hs)⟩)

end Calls

/-! ## An ack comes in -/

/-- Only the send side, congestion control and the timers change. -/
structure Inner (t t' : Tcb) : Prop where
  rcv : t'.toRcvSide = t.toRcvSide
  adv : t'.rcvAdv = t.rcvAdv
  state : t'.state = t.state
  error : t'.error = t.error
  detached : t'.detached = t.detached
  was : t'.wasConnected = t.wasConnected

namespace Inner

variable {t u : Tcb}

theorem refl (t : Tcb) : Inner t t := ⟨rfl, rfl, rfl, rfl, rfl, rfl⟩

theorem trans (h : Inner t t') (h' : Inner t' t'') : Inner t t'' :=
  ⟨h'.rcv.trans h.rcv, h'.adv.trans h.adv, h'.state.trans h.state, h'.error.trans h.error,
    h'.detached.trans h.detached, h'.was.trans h.was⟩

section

variable (h : Inner t u)

include h

theorem set (snd : SndSide) (cc : Congestion) (timers : Timers) :
    Inner t { u with toSndSide := snd, toCongestion := cc, toTimers := timers } :=
  h.trans ⟨rfl, rfl, rfl, rfl, rfl, rfl⟩

theorem armRto : Inner t (tcpArmRto u now) := by
  rw [tcpArmRto]
  split
  · exact h.set _ _ _
  · exact h

theorem rttSample : Inner t (tcpRttSample u now) := h.set _ _ _

theorem ccCap : Inner t (Tcp.ccCap u) := by
  rw [Tcp.ccCap]
  split
  · exact h.set _ _ _
  · exact h

theorem ccGrow {acked : UInt32} : Inner t (Tcp.ccGrow u acked) := by
  refine ccCap ?_
  split <;> exact h.set _ _ _

theorem ccAcked {acked : UInt32} : Inner t (tcpCcAcked u acked ack) := by
  simp only [tcpCcAcked]
  split
  · split
    · exact h.set _ _ _
    · exact h.ccGrow
  · split
    · exact h.set _ _ _
    · exact h.ccGrow

theorem ccDupack : Inner t (tcpCcDupack u) := by
  simp only [tcpCcDupack]
  split
  · exact h.set _ _ _
  split
  · exact h
  · split <;> exact h.set _ _ _

theorem takeBackProbe : Inner t (Tcp.takeBackProbe u window ack) := by
  rw [Tcp.takeBackProbe]
  split
  · exact h.set _ _ _
  · exact h

theorem ackRtt : Inner t (Tcp.ackRtt u ack now) := by
  rw [Tcp.ackRtt]
  split
  · exact h.rttSample
  · exact h

theorem ackRto : Inner t (Tcp.ackRto u now) := by
  rw [Tcp.ackRto]
  split
  · exact (h.set _ _ _).armRto
  · exact h.set _ _ _

theorem stillAnswers : Inner t (Tcp.stillAnswers u window ack) := by
  rw [Tcp.stillAnswers]
  split
  · exact h.set _ _ _
  · exact h

theorem takeWindow : Inner t (Tcp.takeWindow u window seq ack) := by
  rw [Tcp.takeWindow]
  split
  · exact h.set _ _ _
  · exact h

end

end Inner

/-- An ack was taken: besides, the FIN may have been acked. -/
structure Acked (t t' : Tcb) : Prop where
  rcv : t'.toRcvSide = t.toRcvSide
  adv : t'.rcvAdv = t.rcvAdv
  state : t'.state = t.state ∨ (t.state = .finWait1 ∧ t'.state = .finWait2) ∨
    (t.state = .closing ∧ t'.state = .timeWait) ∨ (t.state = .lastAck ∧ t'.state = .closed)
  error : t'.error = t.error
  detached : t'.detached = t.detached
  was : t'.wasConnected = t.wasConnected

theorem Inner.acked (h : Inner t t') : Acked t t' :=
  ⟨h.rcv, h.adv, .inl h.state, h.error, h.detached, h.was⟩

theorem tcpSetClosed_error : (tcpSetClosed t none).error = t.error := by
  simp only [tcpSetClosed]
  split
  · next h => exact h.symm
  · rfl

namespace Acked

variable {t u : Tcb}

theorem inner (h : Acked t u) (h' : Inner u t') : Acked t t' :=
  ⟨h'.rcv.trans h.rcv, h'.adv.trans h.adv, by rw [h'.state]; exact h.state,
    h'.error.trans h.error, h'.detached.trans h.detached, h'.was.trans h.was⟩

theorem fin (h : Inner t u) : Acked t (ackFin u ack now) := by
  have moves : ∀ {t' : Tcb}, t'.toRcvSide = u.toRcvSide → t'.rcvAdv = u.rcvAdv →
      t'.error = u.error → t'.detached = u.detached → t'.wasConnected = u.wasConnected →
      ((u.state = .finWait1 ∧ t'.state = .finWait2) ∨ (u.state = .closing ∧ t'.state = .timeWait) ∨
        (u.state = .lastAck ∧ t'.state = .closed)) → Acked t t' := by
    intro t' hr ha he hd hw hs
    rw [h.state] at hs
    exact ⟨hr.trans h.rcv, ha.trans h.adv, .inr hs, he.trans h.error, hd.trans h.detached,
      hw.trans h.was⟩
  rw [ackFin]
  split
  · split
    · next hs => exact moves rfl rfl rfl rfl rfl (.inl ⟨hs, rfl⟩)
    · next hs => exact moves rfl rfl rfl rfl rfl (.inr (.inl ⟨hs, rfl⟩))
    · next hs =>
        exact moves rfl rfl tcpSetClosed_error rfl rfl (.inr (.inr ⟨hs, rfl⟩))
    · exact h.acked
  · exact h.acked

theorem number (t : Tcb) {bare : Bool} : Acked t (ackNumber t window ack bare now) := by
  have hdata : Inner t (ackData t ack) := (Inner.refl t).set _ _ _
  simp only [ackNumber]
  split
  · exact fin hdata.ackRtt.ackRto.ccAcked
  split
  · exact (Inner.refl t).ccDupack.acked
  · exact (Inner.refl t).acked

theorem gotAck (t : Tcb) {rawWindow : UInt16} {bare : Bool} :
    Acked t (tcpGotAck t seq ack rawWindow bare now) :=
  (number t).inner (Inner.refl _).takeBackProbe.stillAnswers.takeWindow

end Acked

/-! ## Data comes in -/

/-- Only the receive side changes, and the FIN of the peer may have come. -/
structure Fed (t t' : Tcb) : Prop where
  snd : t'.toSndSide = t.toSndSide
  cc : t'.toCongestion = t.toCongestion
  adv : t'.rcvAdv = t.rcvAdv
  state : t'.state = t.state ∨ (t.state = .established ∧ t'.state = .closeWait) ∨
    (t.state = .finWait1 ∧ t'.state = .closing) ∨ (t.state = .finWait2 ∧ t'.state = .timeWait)
  error : t'.error = t.error
  detached : t'.detached = t.detached
  was : t'.wasConnected = t.wasConnected

/-- Only the receive side changes, and neither end of it is closed. -/
structure OnlyRcv (t u : Tcb) : Prop where
  eq : u = { t with toRcvSide := u.toRcvSide }
  fin : u.peerFin = t.peerFin
  shut : u.rdShut = t.rdShut

namespace OnlyRcv

variable {t u : Tcb}

theorem refl (t : Tcb) : OnlyRcv t t := ⟨rfl, rfl, rfl⟩

theorem set (h : OnlyRcv t u) (rcv : RcvSide) (hf : rcv.peerFin = u.peerFin)
    (hs : rcv.rdShut = u.rdShut) : OnlyRcv t { u with toRcvSide := rcv } := by
  refine ⟨?_, hf.trans h.fin, hs.trans h.shut⟩
  show { u with toRcvSide := rcv } = { t with toRcvSide := rcv }
  rw [h.eq]

theorem noteFin (h : OnlyRcv t u) {fin : Bool} {stop : UInt32} :
    OnlyRcv t (Tcp.noteFin u fin stop) := by
  rw [Tcp.noteFin]
  split
  · exact h.set _ rfl rfl
  · exact h

theorem takeAhead (h : OnlyRcv t u) {take : Nat} : OnlyRcv t (Tcp.takeAhead u seq take) := by
  rw [Tcp.takeAhead]
  split
  · exact h.set _ rfl rfl
  · exact h

theorem settleLoop (h : OnlyRcv t u) {l : List Range} : OnlyRcv t (Tcp.settleLoop l u) := by
  induction l generalizing u with
  | nil => exact h.set _ rfl rfl
  | cons r l ih =>
    rw [Tcp.settleLoop]
    split
    · refine ih ?_
      split
      · exact h.set _ rfl rfl
      · exact h
    · exact h.set _ rfl rfl

theorem takeNext (h : OnlyRcv t u) {take : Nat} : OnlyRcv t (Tcp.takeNext u take) := by
  refine settleLoop ?_
  exact h.set _ rfl rfl

end OnlyRcv

/-- What `tcp_got_data` does: nothing, or something on the receive side and then the FIN. -/
theorem tcpGotData_cases (t : Tcb) (seq : UInt32) (data : List UInt8) (fin : Bool) (now : Nat) :
    tcpGotData t seq data fin now = t ∨
      ∃ u, OnlyRcv t u ∧ tcpGotData t seq data fin now = takeFin u now := by
  have htake : ∀ seq data, takeData t seq data fin now = t ∨
      ∃ u, OnlyRcv t u ∧ takeData t seq data fin now = takeFin u now := by
    intro seq data
    have hput : ∀ off l, OnlyRcv t (putRx t off l) := fun off l => (OnlyRcv.refl t).set _ rfl rfl
    simp only [takeData]
    split
    · exact .inl rfl
    refine .inr ⟨_, ?_, rfl⟩
    split
    · exact (hput _ _).noteFin.takeAhead
    · exact (hput _ _).noteFin.takeNext
  simp only [tcpGotData]
  split
  · split
    · exact .inl rfl
    · split
      · exact .inl rfl
      · exact htake _ _
  · split
    · exact .inl rfl
    · exact htake _ _

namespace Fed

variable {t u : Tcb}

theorem of_onlyRcv (h : OnlyRcv t u) : Fed t u := by
  rw [h.eq]
  exact ⟨rfl, rfl, rfl, .inl rfl, rfl, rfl, rfl⟩

theorem takeFin (h : OnlyRcv t u) : Fed t (Tcp.takeFin u now) := by
  obtain ⟨hs, hc, ha, hst, he, hd, hw⟩ := of_onlyRcv h
  have hstate : u.state = t.state := by rw [h.eq]
  simp only [Tcp.takeFin]
  split
  · split
    · next hu => exact ⟨hs, hc, ha, .inr (.inl ⟨hstate ▸ hu, rfl⟩), he, hd, hw⟩
    · next hu => exact ⟨hs, hc, ha, .inr (.inr (.inl ⟨hstate ▸ hu, rfl⟩)), he, hd, hw⟩
    · next hu => exact ⟨hs, hc, ha, .inr (.inr (.inr ⟨hstate ▸ hu, rfl⟩)), he, hd, hw⟩
    · exact ⟨hs, hc, ha, hst, he, hd, hw⟩
  · exact ⟨hs, hc, ha, hst, he, hd, hw⟩

theorem gotData {data : List UInt8} {fin : Bool} : Fed t (tcpGotData t seq data fin now) := by
  rcases tcpGotData_cases t seq data fin now with heq | ⟨u, hu, heq⟩
  · rw [heq]
    exact of_onlyRcv (.refl t)
  · rw [heq]
    exact takeFin hu

end Fed

end BleedKernel.Tcp
