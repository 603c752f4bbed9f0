import BleedKernel.Proofs.TcpMoves

/-!
# The send side of a connection

The socket gives the connection a stream of bytes. What the peer has acked of it is gone,
the rest is in the ring; `snd_una` is the number of the first byte in the ring, and what
is in flight is a part of the ring from there on, with the FIN behind it once that was
sent (`Stream`). Every segment that goes out is read from the ring at its distance from
`snd_una`, so its bytes are those of the stream at its number (`Faithful`).

The distance is taken modulo `2 ^ 32` and the end of the data is worked out as
`snd_nxt - snd_una - 1` after a FIN, which turns around once the FIN was acked. Nothing is
sent again then: a recovery has its end past `snd_una` and not past `snd_nxt`, so it is
over with the last ack (`Recovering`).
-/

namespace BleedKernel.Tcp

open Lib List UInt32

variable {p : Packet} {n sent : Nat} {window : UInt32} {w₀ w' : Work} {act : Act}

/-- What was sent and is not acked. -/
def flight (s : SndSide) : Nat := (s.sndNxt - s.sndUna).toNat

/-- The socket gave the connection `given`, and the last `tx_len` bytes of it are in the
ring. `e` says that the FIN was sent some time ago. -/
structure Stream (given : List UInt8) (e : Prop) (s : SndSide) : Prop where
  start : s.txStart < tcpTxBuf
  room : s.txLen ≤ tcpTxBuf
  held : s.txLen ≤ given.length
  ring : ringList tcpTxBuf s.tx s.txStart s.txLen = given.drop (given.length - s.txLen)
  -- Once the FIN is acked `snd_una` is one further on, and of no use any more.
  una : s.finSent = false ∨ flight s ≠ 0 → s.sndUna = serial (s.iss + 1) (given.length - s.txLen)
  flies : s.finSent = false → flight s ≤ s.txLen
  fin : s.finSent = true → flight s = s.txLen + 1 ∨ (flight s = 0 ∧ s.txLen = 0)
  ended : e → s.finSent = true

/-- What is sent again ends past `snd_una`, and not past what is in flight: but for a byte
that was taken back. -/
def Recovering (s : SndSide) (c : Congestion) : Prop :=
  c.recovery ≠ .none → ∃ r, 0 < r ∧ (r ≤ flight s ∨ (s.finSent = false ∧ r = 1)) ∧
    c.recover = serial s.sndUna r

/-- A connection past its handshake. -/
structure Sending (given : List UInt8) (e : Prop) (t : Tcb) : Prop where
  stream : Stream given e t.toSndSide
  recovering : Recovering t.toSndSide t.toCongestion
  finState : t.finSent = true → t.state ≠ .established ∧ t.state ≠ .closeWait
  syn : isSyn t = false
  was : t.wasConnected = true

/-- A packet has bytes of the stream at its number, which were in the ring, and the FIN
only at the end. -/
structure Faithful (given : List UInt8) (s : SndSide) (p : Packet) : Prop where
  data : p.seg.body ≠ [] → ∃ k, p.seg.seq = serial (s.iss + 1) k ∧
    p.seg.body = (given.drop k).take p.seg.body.length ∧
    k + p.seg.body.length ≤ given.length ∧ given.length ≤ k + tcpTxBuf
  fin : p.seg.flags.fin = true → p.seg.seq = serial (s.iss + 1) given.length ∧ s.finSent = true
  held : p.off + p.seg.body.length ≤ s.txLen

theorem Faithful.mono {given : List UInt8} {s s' : SndSide} (h : Faithful given s p)
    (hi : s'.iss = s.iss) (hl : s'.txLen = s.txLen) (hf : s.finSent = true → s'.finSent = true) :
    Faithful given s' p := by
  refine ⟨?_, ?_, ?_⟩
  · rw [hi]
    exact h.data
  · intro hp
    rw [hi]
    exact ⟨(h.fin hp).1, hf (h.fin hp).2⟩
  · rw [hl]
    exact h.held

/-- One byte of it. -/
theorem Faithful.byte {given : List UInt8} {s : SndSide} (h : Faithful given s p)
    {j : Nat} (hj : j < p.seg.body.length) :
    ∃ k < given.length, given.length ≤ k + tcpTxBuf ∧
      p.seg.seq + ofNat j = s.iss + 1 + ofNat k ∧ p.seg.body[j]? = given[k]? := by
  obtain ⟨k, hseq, hbody, hin, hnear⟩ := h.data (ne_nil_of_length_pos (by omega))
  refine ⟨k + j, by omega, by omega, ?_, ?_⟩
  · rw [hseq, serial_add_ofNat]
    rfl
  · rw [hbody, getElem?_take_of_lt hj, getElem?_drop]

/-- A call at work that has sent nothing else. -/
structure Honest (given : List UInt8) (e : Prop) (w : Work) : Prop where
  sending : Sending given e w.t
  packets : ∀ p ∈ w.out.packets, Faithful given w.t.toSndSide p

section

variable {given : List UInt8} {e : Prop} {s : SndSide} {t u : Tcb} {w : Work} {now : Nat}

theorem serial_flight : serial s.sndUna (flight s) = s.sndNxt := serial_sub_toNat

theorem Stream.flight_le (h : Stream given e s) : flight s ≤ s.txLen + 1 := by
  cases hf : s.finSent with
  | false =>
    have := h.flies hf
    omega
  | true =>
    have := h.fin hf
    omega

theorem Stream.small (h : Stream given e s) : flight s < 2 ^ 31 := by
  have hle := h.flight_le
  have hroom := h.room
  have hbuf : tcpTxBuf = 131072 := rfl
  omega

/-- What is read of the ring is the stream's. -/
theorem Stream.fromTx (h : Stream given e t.toSndSide) {off len : Nat} (hl : off + len ≤ t.txLen) :
    fromTx t off len = (given.drop (given.length - t.txLen + off)).take len := by
  have hroom := h.room
  have hpos : (t.txStart + off) % tcpTxBuf < tcpTxBuf := Nat.mod_lt _ (by decide)
  have hring : Tcp.fromTx t off len = ringList tcpTxBuf t.tx ((t.txStart + off) % tcpTxBuf) len :=
    slice_append_slice hpos (by omega)
  rw [hring, ringList_part hl, h.ring, drop_drop]

/-! ## Sending -/

theorem Sending.frame (h : Sending given e t) (hsnd : u.toSndSide = t.toSndSide)
    (hcc : u.toCongestion = t.toCongestion) (hstate : u.state = t.state)
    (hwas : u.wasConnected = t.wasConnected) : Sending given e u := by
  have hfs : u.finSent = t.finSent := congrArg SndSide.finSent hsnd
  refine ⟨?_, ?_, ?_, ?_, hwas.trans h.was⟩
  · rw [hsnd]
    exact h.stream
  · rw [hsnd, hcc]
    exact h.recovering
  · rw [hfs, hstate]
    exact h.finState
  · rw [isSyn, hstate]
    exact h.syn

theorem Sending.quiet (h : Sending given e t) (hq : Quiet t u) : Sending given e u :=
  h.frame hq.snd hq.cc hq.state hq.was

theorem Honest.same (h : Honest given e w) (hs : Sending given e u)
    (hsnd : u.toSndSide = w.t.toSndSide) : Honest given e { w with t := u } := by
  refine ⟨hs, ?_⟩
  show ∀ p ∈ w.out.packets, Faithful given u.toSndSide p
  rw [hsnd]
  exact h.packets

theorem Honest.quiet (h : Honest given e w) (hq : Quiet w.t u) :
    Honest given e { w with t := u } := h.same (h.sending.quiet hq) hq.snd

theorem mem_tcpSegment {out : Out} {q : Packet} (h : q ∈ (tcpSegment out p).packets) :
    q ∈ out.packets ∨ q = p := by
  rw [tcpSegment] at h
  split at h
  · exact .inl h
  split at h
  · exact (mem_append.mp h).imp id mem_singleton.mp
  · exact .inl h

variable {flags : Flags} {seq : UInt32} {off len : Nat} {opts : List UInt8}

/-- Bytes that are in the ring go out with the number of their place. -/
theorem Honest.data (h : Honest given e w) (hseq : seq = serial w.t.sndUna off)
    (hl : off + len ≤ w.t.txLen) (hopen : w.t.finSent = false ∨ flight w.t.toSndSide ≠ 0)
    (hf : flags.fin = false) : Honest given e (tcpEmit w flags seq off len opts) := by
  have hheld := h.sending.stream.held
  have hroom := h.sending.stream.room
  refine ⟨h.sending.quiet (Quiet.refl w.t).emit, ?_⟩
  intro p hp
  rcases mem_tcpSegment hp with hp | rfl
  · exact h.packets p hp
  have hbody : fromTx w.t off len = (given.drop (given.length - w.t.txLen + off)).take len :=
    h.sending.stream.fromTx hl
  have hlen : (fromTx w.t off len).length = len := by
    rw [hbody, length_take, length_drop]
    omega
  refine ⟨?_, ?_, ?_⟩
  · intro _
    refine ⟨given.length - w.t.txLen + off, ?_, ?_, ?_, ?_⟩
    · show seq = _
      rw [hseq, h.sending.stream.una hopen, serial_serial]
      rfl
    · show fromTx w.t off len = (given.drop _).take (fromTx w.t off len).length
      rw [hlen, hbody]
    · show _ + (fromTx w.t off len).length ≤ _
      omega
    · omega
  · intro hfin
    exact absurd hfin (by show ¬ flags.fin = true; rw [hf]; decide)
  · show off + (fromTx w.t off len).length ≤ w.t.txLen
    omega

/-- A segment without data goes out. -/
theorem Honest.ctl (h : Honest given e w)
    (hf : flags.fin = true → seq = serial (w.t.iss + 1) given.length ∧ w.t.finSent = true) :
    Honest given e (tcpEmit w flags seq 0 0 opts) := by
  refine ⟨h.sending.quiet (Quiet.refl w.t).emit, ?_⟩
  intro p hp
  rcases mem_tcpSegment hp with hp | rfl
  · exact h.packets p hp
  have hbody : fromTx w.t 0 0 = [] := by
    simp [fromTx, slice]
  refine ⟨absurd hbody, hf, ?_⟩
  show 0 + (fromTx w.t 0 0).length ≤ w.t.txLen
  exact Nat.zero_le _

/-- While something is sent again the FIN is not acked. -/
theorem Sending.inFlight (h : Sending given e t) (hrec : t.recovery ≠ .none) :
    t.finSent = false ∨ flight t.toSndSide ≠ 0 := by
  obtain ⟨r, hpos, hr, -⟩ := h.recovering hrec
  rcases hr with hle | ⟨hf, -⟩
  · exact .inr (by omega)
  · exact .inl hf

/-- The end of the data does not turn around then. -/
theorem Stream.dataEnd_le (h : Stream given e t.toSndSide)
    (hopen : t.finSent = false ∨ flight t.toSndSide ≠ 0) : (dataEnd t).toNat ≤ t.txLen := by
  have hflight : (t.sndNxt - t.sndUna).toNat = flight t.toSndSide := rfl
  cases hf : t.finSent with
  | false =>
    rw [dataEnd, hf, if_neg Bool.false_ne_true, UInt32.sub_zero]
    exact h.flies hf
  | true =>
    have hfin := h.fin hf
    rw [dataEnd, hf, if_pos rfl, UInt32.toNat_sub, show UInt32.toNat 1 = 1 from rfl]
    rw [hf] at hopen
    rcases hopen with hopen | hopen
    · cases hopen
    · omega

/-- The number before `snd_nxt` is that of the end of the stream once the FIN was sent. -/
theorem Stream.fin_seq (h : Stream given e s) (hf : s.finSent = true) (hopen : flight s ≠ 0) :
    s.sndNxt - 1 = serial (s.iss + 1) given.length := by
  have hheld := h.held
  have hfin := h.fin hf
  have hlen : flight s = s.txLen + 1 := by omega
  rw [← serial_flight, hlen, ← serial_add_one, UInt32.add_sub_cancel, h.una (.inr hopen),
    serial_serial, Nat.sub_add_cancel hheld]

theorem Honest.resend (h : Honest given e w) (hrec : w.t.recovery ≠ .none) :
    Honest given e (tcpResend w seq).2 := by
  have hopen := h.sending.inFlight hrec
  have hend := h.sending.stream.dataEnd_le hopen
  have h' : Honest given e { w with t := { w.t with rttAt := 0 } } :=
    h.quiet ((Quiet.refl w.t).timers _)
  simp only [tcpResend]
  split
  · rename_i hoff
    refine h'.data ?_ ?_ hopen rfl
    · exact serial_sub_toNat.symm
    · -- No more is sent than up to the end of the data.
      have hoff : (seq - w.t.sndUna).toNat < (dataEnd w.t).toNat := lt_iff_toNat_lt.mp hoff
      refine Nat.le_trans ?_ hend
      show (seq - w.t.sndUna).toNat + UInt32.toNat (if dataEnd w.t - (seq - w.t.sndUna) < _
        then dataEnd w.t - (seq - w.t.sndUna) else w.t.mss.toUInt32) ≤ (dataEnd w.t).toNat
      have hsub : (dataEnd w.t - (seq - w.t.sndUna)).toNat
          = (dataEnd w.t).toNat - (seq - w.t.sndUna).toNat :=
        UInt32.toNat_sub_of_le _ _ (UInt32.le_iff_toNat_le.mpr (by omega))
      split
      · omega
      rename_i hmss
      have hmss := UInt32.not_lt.mp hmss
      rw [UInt32.le_iff_toNat_le] at hmss
      omega
  · split
    · rename_i hfin
      rw [Bool.and_eq_true, beq_iff_eq] at hfin
      refine h'.ctl fun _ => ⟨?_, hfin.1⟩
      have hne : flight w.t.toSndSide ≠ 0 := by
        rcases hopen with hf | hne
        · exact absurd (hfin.1.symm.trans hf) (by decide)
        · exact hne
      exact hfin.2.trans (h.sending.stream.fin_seq hfin.1 hne)
    · exact h'

theorem recovery_resend : (tcpResend w seq).2.t.recovery = w.t.recovery :=
  congrArg Congestion.recovery (Quiet.refl w.t).resend.cc

theorem Honest.rtoLoop (h : Honest given e w) (hrec : w.t.recovery ≠ .none) {fuel : Nat} :
    Honest given e (Tcp.rtoLoop fuel w) := by
  induction fuel generalizing w with
  | zero => exact h
  | succ fuel ih =>
    simp only [Tcp.rtoLoop]
    split
    · split
      · exact h.resend hrec
      · refine ih ((h.resend hrec).quiet ((Quiet.refl _).timers _)) ?_
        show (tcpResend w w.t.rtxNxt).2.t.recovery ≠ .none
        rwa [recovery_resend]
    · exact h

theorem Honest.pushRecovery (h : Honest given e w) : Honest given e (tcpPushRecovery w) := by
  simp only [tcpPushRecovery]
  split
  · rename_i hrec
    split
    · refine (h.quiet ((Quiet.refl w.t).timers _)).resend ?_
      show w.t.recovery ≠ .none
      rw [hrec]
      decide
    · exact h
  · exact h
  · rename_i hrec
    have hne : w.t.recovery ≠ .none := by
      rw [hrec]
      decide
    split
    · exact (h.quiet ((Quiet.refl w.t).timers { w.t.toTimers with rtxNxt := w.t.sndUna })).rtoLoop
        hne
    · exact h.rtoLoop hne

/-- More of the ring is in flight. -/
theorem Sending.flown (h : Sending given e t) (hf : t.finSent = false)
    (hn : flight t.toSndSide + n ≤ t.txLen) :
    Sending given e { t with sndNxt := t.sndNxt + ofNat n } ∧
      flight { t.toSndSide with sndNxt := t.sndNxt + ofNat n } = flight t.toSndSide + n := by
  have hroom := h.stream.room
  have hbuf : tcpTxBuf = 131072 := rfl
  have hnxt : t.sndNxt + ofNat n = serial t.sndUna (flight t.toSndSide + n) := by
    rw [← serial_serial]
    show _ = t.sndUna + _ + _
    rw [show t.sndUna + ofNat (flight t.toSndSide) = t.sndNxt from serial_flight]
  have hflight : flight { t.toSndSide with sndNxt := t.sndNxt + ofNat n }
      = flight t.toSndSide + n := by
    have hdist : (serial t.sndUna (flight t.toSndSide + n) - serial t.sndUna 0).toNat = _ :=
      toNat_serial_sub (Nat.zero_le _) (by omega)
    rw [serial_zero, ← hnxt] at hdist
    exact hdist
  obtain ⟨hstream, hrec, hfin, hsyn, hwas⟩ := h
  refine ⟨⟨?_, ?_, hfin, hsyn, hwas⟩, hflight⟩
  · refine ⟨hstream.start, hstream.room, hstream.held, hstream.ring, ?_, ?_, ?_, hstream.ended⟩
    · exact fun _ => hstream.una (.inl hf)
    · intro _
      rw [hflight]
      exact hn
    · exact fun hf' => absurd (hf.symm.trans hf') (by decide)
  · intro hne
    obtain ⟨r, hpos, hr, heq⟩ := hrec hne
    refine ⟨r, hpos, ?_, heq⟩
    rw [hflight]
    exact hr.imp (fun hle => by omega) id

theorem pushOne_snd : (pushOne w now sent n).t.toSndSide
      = { w.t.toSndSide with sndNxt := w.t.sndNxt + ofNat n } := by
  have hclock : (startClock w.t now).toSndSide = w.t.toSndSide := (Quiet.refl w.t).startClock.snd
  refine (Quiet.refl _).armRto.snd.trans ?_
  show ({ (startClock w.t now).toSndSide with
    sndNxt := (startClock w.t now).toSndSide.sndNxt + ofNat n }) = _
  rw [hclock]

theorem Honest.pushOne (h : Honest given e w) (hf : w.t.finSent = false)
    (hn : flight w.t.toSndSide + n ≤ w.t.txLen) :
    Honest given e (Tcp.pushOne w now (flight w.t.toSndSide) n) := by
  have hq : Quiet w.t (startClock w.t now) := (Quiet.refl w.t).startClock
  have hnxt : w.t.sndNxt = serial (startClock w.t now).sndUna (flight w.t.toSndSide) := by
    rw [show (startClock w.t now).sndUna = w.t.sndUna from congrArg SndSide.sndUna hq.snd]
    exact serial_flight.symm
  have hf' : (startClock w.t now).finSent = false := (congrArg SndSide.finSent hq.snd).trans hf
  have hlen : (startClock w.t now).txLen = w.t.txLen := congrArg SndSide.txLen hq.snd
  have hdata : Honest given e (tcpEmit { w with t := startClock w.t now }
      { ack := true, psh := true } w.t.sndNxt (flight w.t.toSndSide) n []) :=
    (h.quiet hq).data hnxt (hlen ▸ hn) (.inl hf') rfl
  have hsnd : (tcpEmit { w with t := startClock w.t now } { ack := true, psh := true } w.t.sndNxt
      (flight w.t.toSndSide) n []).t.toSndSide = w.t.toSndSide := hq.snd
  simp only [Tcp.pushOne]
  generalize tcpEmit { w with t := startClock w.t now } { ack := true, psh := true } w.t.sndNxt
      (flight w.t.toSndSide) n [] = v at *
  have hflown := hdata.sending.flown (by rw [hsnd]; exact hf) (by rw [hsnd]; exact hn)
  refine Honest.quiet (w := { v with t := { v.t with sndNxt := v.t.sndNxt + ofNat n } })
    ⟨hflown.1, ?_⟩ (Quiet.refl _).armRto
  intro p hp
  exact (hdata.packets p hp).mono rfl rfl id

/-- The loop goes on from what is in flight, and leaves it at `sent`. -/
theorem Honest.pushLoop (h : Honest given e w) (hf : w.t.finSent = false) (now wnd fuel : Nat)
    (hsent : sent = flight w.t.toSndSide) :
    let r := Tcp.pushLoop now wnd fuel sent w
    Honest given e r.2 ∧ r.2.t.finSent = false ∧ r.1 = flight r.2.t.toSndSide := by
  induction fuel generalizing sent w with
  | zero => exact ⟨h, hf, hsent⟩
  | succ fuel ih =>
    simp only [Tcp.pushLoop]
    split
    · have hn : flight w.t.toSndSide + min (pushSize w.t sent) (wnd - sent) ≤ w.t.txLen := by
        have hsize : pushSize w.t sent ≤ w.t.txLen - sent := by
          simp only [pushSize]
          split <;> omega
        omega
      subst hsent
      refine ih (h.pushOne hf hn) ?_ ?_
      · rw [pushOne_snd]
        exact hf
      · rw [pushOne_snd]
        exact (h.sending.flown hf hn).2.symm
    · exact ⟨h, hf, hsent⟩

/-- The FIN is in flight behind all of the ring. -/
theorem Sending.afterFin (h : Sending given e t) (hf : t.finSent = false)
    (hall : flight t.toSndSide = t.txLen) : Sending given e (Tcp.afterFin t) := by
  obtain ⟨hstream, hrec, -, -, hwas⟩ := h
  have hroom := hstream.room
  have hbuf : tcpTxBuf = 131072 := rfl
  have hflight : flight (Tcp.afterFin t).toSndSide = t.txLen + 1 := by
    have hdist : (serial t.sndUna (flight t.toSndSide + 1) - serial t.sndUna 0).toNat = _ :=
      toNat_serial_sub (Nat.zero_le _) (by omega)
    rw [serial_zero, ← serial_add_one, serial_flight, hall] at hdist
    exact hdist
  refine ⟨?_, ?_, ?_, ?_, hwas⟩
  · refine ⟨hstream.start, hstream.room, hstream.held, hstream.ring, ?_, ?_, ?_, fun _ => rfl⟩
    · exact fun _ => hstream.una (.inl hf)
    · exact fun hf' => absurd (show true = false from hf') (by decide)
    · exact fun _ => .inl hflight
  · intro hne
    obtain ⟨r, hpos, hr, heq⟩ := hrec hne
    refine ⟨r, hpos, .inl ?_, heq⟩
    rcases hr with hle | ⟨-, hone⟩ <;> omega
  · intro _
    show (if t.state = .closeWait then State.lastAck else .finWait1) ≠ _ ∧
      (if t.state = .closeWait then State.lastAck else .finWait1) ≠ _
    split <;> decide
  · show ((if t.state = .closeWait then State.lastAck else .finWait1) == _ ||
      (if t.state = .closeWait then State.lastAck else .finWait1) == _) = false
    split <;> decide

theorem Honest.sendFin (h : Honest given e w) (hf : w.t.finSent = false)
    (hall : flight w.t.toSndSide = w.t.txLen) : Honest given e (Tcp.sendFin w now) := by
  have hctl : Sending given e (tcpSendCtl w { fin := true, ack := true } w.t.sndNxt).t :=
    h.sending.quiet (Quiet.refl w.t).sendCtl
  refine Honest.quiet (w := { (tcpSendCtl w { fin := true, ack := true } w.t.sndNxt) with
    t := Tcp.afterFin (tcpSendCtl w { fin := true, ack := true } w.t.sndNxt).t })
    ⟨hctl.afterFin hf hall, ?_⟩ (Quiet.refl _).armRto
  intro p hp
  rcases mem_tcpSegment hp with hp | rfl
  · exact (h.packets p hp).mono rfl rfl fun _ => rfl
  have hbody : fromTx w.t 0 0 = [] := by
    simp [fromTx, slice]
  refine ⟨absurd hbody, fun _ => ⟨?_, rfl⟩, ?_⟩
  · show w.t.sndNxt = serial (w.t.iss + 1) given.length
    rw [← serial_flight, hall, h.sending.stream.una (.inl hf), serial_serial,
      Nat.sub_add_cancel h.sending.stream.held]
  · show 0 + (fromTx w.t 0 0).length ≤ w.t.txLen
    exact Nat.zero_le _

theorem Honest.armProbe (h : Honest given e w) : Honest given e (Tcp.armProbe w now sent) := by
  rw [Tcp.armProbe]
  split
  · exact h.quiet (Quiet.refl w.t).armRto
  · exact h

theorem Honest.pushNew (h : Honest given e w)
    (hs : w.t.state = .established ∨ w.t.state = .closeWait) :
    Honest given e (Tcp.pushNew w now) := by
  have hf : w.t.finSent = false := by
    rw [← Bool.not_eq_true]
    intro hf
    have hno := h.sending.finState hf
    exact hs.elim hno.1 hno.2
  refine Honest.armProbe ?_
  have hloop := h.pushLoop hf now (sendWindow w.t)
    (w.t.txLen - (w.t.sndNxt - w.t.sndUna).toNat + tcpOutMax) rfl
  split
  · rename_i hfin
    rw [Bool.and_eq_true, beq_iff_eq] at hfin
    exact hloop.1.sendFin hloop.2.1 (hloop.2.2.symm.trans hfin.2)
  · exact hloop.1

theorem Honest.push (h : Honest given e w) : Honest given e (tcpPush w now) := by
  simp only [tcpPush]
  split
  · exact h.pushRecovery
  rename_i hs
  refine h.pushRecovery.pushNew ?_
  by_contra hno
  exact hs ⟨fun he => hno (.inl he), fun he => hno (.inr he)⟩

/-! ## Acks -/

variable {ack : UInt32}

/-- An ack that is past `snd_una` and not past `snd_nxt` is of something in flight. -/
theorem new_ack (hlt : seqLt s.sndUna ack = true) (hle : seqLt s.sndNxt ack = false) :
    0 < (ack - s.sndUna).toNat ∧ (ack - s.sndUna).toNat ≤ flight s := by
  have hno : ¬ 2 ^ 31 ≤ (s.sndNxt - ack).toNat := by
    rw [← serialLt_iff]
    exact Bool.eq_false_iff.mp hle
  have hack := ack.toNat_lt
  have hu := s.sndUna.toNat_lt
  rw [seqLt, serialLt_iff, UInt32.toNat_sub] at hlt
  rw [flight, UInt32.toNat_sub]
  rw [UInt32.toNat_sub] at hno ⊢
  omega

theorem ackData_flight (hle : (ack - t.sndUna).toNat ≤ flight t.toSndSide) :
    flight (ackData t ack).toSndSide = flight t.toSndSide - (ack - t.sndUna).toNat := by
  have hlt : flight t.toSndSide < 2 ^ 32 := toNat_lt _
  have hdist : (serial t.sndUna (flight t.toSndSide)
      - serial t.sndUna (ack - t.sndUna).toNat).toNat = _ := toNat_serial_sub hle (by omega)
  rw [serial_flight, serial_sub_toNat] at hdist
  exact hdist

/-- What is acked leaves the ring: all of it when the FIN is acked. -/
theorem Stream.acked (h : Stream given e t.toSndSide) (hpos : 0 < (ack - t.sndUna).toNat)
    (hle : (ack - t.sndUna).toNat ≤ flight t.toSndSide) :
    Stream given e (ackData t ack).toSndSide := by
  have hflight := ackData_flight hle
  have hroom := h.room
  have hheld := h.held
  have hflies := h.flies
  have hfin := h.fin
  obtain ⟨data, hdata⟩ : ∃ data, data = (if (ack - t.sndUna).toNat < t.txLen
      then (ack - t.sndUna).toNat else t.txLen) := ⟨_, rfl⟩
  have hmin : data ≤ t.txLen ∧ ((ack - t.sndUna).toNat ≤ t.txLen → data = (ack - t.sndUna).toNat) ∧
      (t.txLen ≤ (ack - t.sndUna).toNat → data = t.txLen) := by
    rw [hdata]
    split <;> omega
  have hlen : (ackData t ack).txLen = t.txLen - data := by
    rw [hdata]
    rfl
  have hstart : (ackData t ack).txStart = (t.txStart + data) % tcpTxBuf := by
    rw [hdata]
    rfl
  refine ⟨?_, ?_, ?_, ?_, ?_, ?_, ?_, h.ended⟩
  · exact Nat.mod_lt _ (by decide)
  · omega
  · omega
  · rw [hlen, hstart, show given.length - (t.txLen - data) = given.length - t.txLen + data by omega,
      ← drop_drop, ← h.ring]
    exact ringList_drop hmin.1
  · intro hopen
    have hsmall : (ack - t.sndUna).toNat ≤ t.txLen := by
      rcases hopen with hf | hne
      · exact Nat.le_trans hle (hflies hf)
      · have := h.flight_le
        omega
    have huna := h.una (hopen.imp id fun hne => by omega)
    rw [hlen]
    show ack = serial (t.iss + 1) _
    rw [← serial_sub_toNat (a := t.sndUna) (b := ack), huna, serial_serial, ← huna]
    congr 1
    omega
  · intro hf
    have := hflies hf
    omega
  · intro hf
    have := hfin hf
    omega

theorem ccGrow_recover {acked : UInt32} :
    (ccGrow t acked).recovery = t.recovery ∧ (ccGrow t acked).recover = t.recover ∧
      (ccGrow t acked).toSndSide = t.toSndSide := by
  have hcap : ∀ u : Tcb, (ccCap u).recovery = u.recovery ∧ (ccCap u).recover = u.recover ∧
      (ccCap u).toSndSide = u.toSndSide := by
    intro u
    rw [ccCap]
    split <;> exact ⟨rfl, rfl, rfl⟩
  rw [ccGrow]
  split <;> exact hcap _

theorem ccAcked_snd {acked : UInt32} : (tcpCcAcked t acked ack).toSndSide = t.toSndSide := by
  simp only [tcpCcAcked]
  split
  · split
    · rfl
    · exact ccGrow_recover.2.2
  · split
    · rfl
    · exact ccGrow_recover.2.2

/-- A recovery goes on after an ack only when the ack is before its end. -/
theorem ccAcked_recover {acked : UInt32} (hne : (tcpCcAcked t acked ack).recovery ≠ .none) :
    t.recovery ≠ .none ∧ seqLt ack t.recover = true ∧
      (tcpCcAcked t acked ack).recover = t.recover := by
  revert hne
  simp only [tcpCcAcked]
  split
  · rename_i hrec
    split
    · exact fun _ => ⟨hrec.1, hrec.2, rfl⟩
    · exact fun _ => ⟨hrec.1, hrec.2, ccGrow_recover.2.1⟩
  · split
    · exact absurd rfl
    · rename_i hnone
      intro hne
      rw [ccGrow_recover.1] at hne
      exact absurd hne hnone

/-- The end of a recovery as seen from the new `snd_una`. -/
theorem Recovering.acked {c c' : Congestion} (h : Recovering t.toSndSide c)
    (hsmall : flight t.toSndSide < 2 ^ 31) (hpos : 0 < (ack - t.sndUna).toNat)
    (hle : (ack - t.sndUna).toNat ≤ flight t.toSndSide)
    (hc : c'.recovery ≠ .none →
      c.recovery ≠ .none ∧ seqLt ack c.recover = true ∧ c'.recover = c.recover) :
    Recovering (ackData t ack).toSndSide c' := by
  intro hne
  obtain ⟨hrec, hlt, heq⟩ := hc hne
  obtain ⟨r, hr0, hr, hrecover⟩ := h hrec
  have hbefore : (ack - t.sndUna).toNat < r := by
    rw [hrecover, seqLt, ← serial_sub_toNat (b := ack),
      serialLt_serial (by omega) (by omega), decide_eq_true_eq] at hlt
    exact hlt
  refine ⟨r - (ack - t.sndUna).toNat, by omega, .inl ?_, ?_⟩
  · rw [ackData_flight hle]
    omega
  · rw [heq, hrecover]
    show _ = serial ack _
    rw [← serial_sub_toNat (b := ack), serial_serial, serial_sub_toNat]
    congr 1
    omega

theorem Sending.setClosed (h : Sending given e t) {err : Option Errno} :
    Sending given e (tcpSetClosed t err) :=
  ⟨h.stream, absurd rfl, fun _ => ⟨nofun, nofun⟩, rfl, h.was⟩

theorem Sending.ackFin (h : Sending given e t) : Sending given e (Tcp.ackFin t ack now) := by
  rw [Tcp.ackFin]
  split
  · split
    · exact ⟨h.stream, h.recovering, fun _ => ⟨by simp, by simp⟩, rfl, h.was⟩
    · exact ⟨h.stream, h.recovering, fun _ => ⟨by simp, by simp⟩, rfl, h.was⟩
    · exact h.setClosed
    · exact h
  · exact h

theorem ackRto_quiet : Quiet t (ackRto (ackRtt t ack now) now) := by
  have hrtt : Quiet t (ackRtt t ack now) := by
    rw [ackRtt]
    split
    · exact (Quiet.refl t).timers _
    · exact .refl t
  rw [ackRto]
  split
  · exact (hrtt.timers _).armRto
  · exact hrtt.timers _

section

variable (h : Sending given e t)

include h

theorem Sending.gotNewAck (hlt : seqLt t.sndUna ack = true)
    (hle : seqLt t.sndNxt ack = false) : Sending given e (Tcp.gotNewAck t ack now) := by
  obtain ⟨hpos, hin⟩ := new_ack hlt hle
  have hq : Quiet (ackData t ack) (ackRto (ackRtt (ackData t ack) ack now) now) := ackRto_quiet
  refine Sending.ackFin ?_
  generalize ackRto (ackRtt (ackData t ack) ack now) now = u at *
  have hcc : Inner u (tcpCcAcked u (ack - t.sndUna) ack) := (Inner.refl u).ccAcked
  have hsnd : (tcpCcAcked u (ack - t.sndUna) ack).toSndSide = (ackData t ack).toSndSide :=
    ccAcked_snd.trans hq.snd
  have hstate : (tcpCcAcked u (ack - t.sndUna) ack).state = t.state := hcc.state.trans hq.state
  have hfs := congrArg SndSide.finSent hsnd
  refine ⟨?_, ?_, ?_, ?_, hcc.was.trans (hq.was.trans h.was)⟩
  · rw [hsnd]
    exact h.stream.acked hpos hin
  · rw [hsnd]
    refine Recovering.acked ?_ h.stream.small hpos hin ccAcked_recover
    rw [hq.cc]
    exact h.recovering
  · rw [hstate, hfs]
    exact h.finState
  · rw [isSyn, hstate]
    exact h.syn

theorem Sending.ccDupack (hne : t.sndUna ≠ t.sndNxt) : Sending given e (tcpCcDupack t) := by
  have hfly : 0 < flight t.toSndSide := by
    rw [Nat.pos_iff_ne_zero]
    intro hzero
    have hnxt : serial t.sndUna (flight t.toSndSide) = t.sndNxt := serial_flight
    rw [hzero, serial_zero] at hnxt
    exact hne hnxt
  simp only [tcpCcDupack]
  split
  · exact ⟨h.stream, h.recovering, h.finState, h.syn, h.was⟩
  split
  · exact h
  split
  · exact ⟨h.stream, h.recovering, h.finState, h.syn, h.was⟩
  · exact ⟨h.stream, fun _ => ⟨_, hfly, .inl (Nat.le_refl _), serial_flight.symm⟩, h.finState,
      h.syn, h.was⟩

theorem Sending.takeBackProbe : Sending given e (Tcp.takeBackProbe t window ack) := by
  rw [Tcp.takeBackProbe]
  split
  · rename_i hback
    obtain ⟨-, -, hack, hone, hf⟩ := hback
    have hzero : flight { t.toSndSide with sndNxt := ack } = 0 := by
      show (ack - t.sndUna).toNat = 0
      rw [hack, sub_self]
      rfl
    have hflight : flight t.toSndSide = 1 := by
      show (t.sndNxt - t.sndUna).toNat = 1
      rw [← hack, hone]
      rfl
    obtain ⟨hstream, hrec, hfin, hsyn, hwas⟩ := h
    refine ⟨⟨hstream.start, hstream.room, hstream.held, hstream.ring, ?_, ?_, ?_,
      hstream.ended⟩, ?_, hfin, hsyn, hwas⟩
    · exact fun _ => hstream.una (.inl hf)
    · intro _
      rw [hzero]
      exact Nat.zero_le _
    · exact fun hf' => absurd (hf.symm.trans hf') (by decide)
    · intro hne
      obtain ⟨r, hpos, hr, heq⟩ := hrec hne
      refine ⟨r, hpos, .inr ⟨hf, ?_⟩, heq⟩
      rcases hr with hle | ⟨-, h1⟩ <;> omega
  · exact h

theorem Sending.stillAnswers : Sending given e (Tcp.stillAnswers t window ack) := by
  rw [Tcp.stillAnswers]
  split
  · exact h.quiet ((Quiet.refl t).timers _)
  · exact h

theorem Sending.takeWindow : Sending given e (Tcp.takeWindow t window seq ack) := by
  rw [Tcp.takeWindow]
  split
  · obtain ⟨hstream, hrec, hfin, hsyn, hwas⟩ := h
    exact ⟨⟨hstream.start, hstream.room, hstream.held, hstream.ring, hstream.una, hstream.flies,
      hstream.fin, hstream.ended⟩, hrec, hfin, hsyn, hwas⟩
  · exact h

theorem Sending.gotAck {rawWindow : UInt16} {bare : Bool} (hle : seqLt t.sndNxt ack = false) :
    Sending given e (tcpGotAck t seq ack rawWindow bare now) := by
  have hnumber : ∀ window, Sending given e (ackNumber t window ack bare now) := by
    intro window
    simp only [ackNumber]
    split
    · rename_i hnew
      rw [Bool.and_eq_true] at hnew
      exact h.gotNewAck hnew.1 hle
    · split
      · rename_i hdup
        rw [Bool.and_eq_true, bne_iff_ne] at hdup
        exact h.ccDupack hdup.2
      · exact h
  exact (hnumber _).takeBackProbe.stillAnswers.takeWindow

end

/-! ## Segments and ticks -/

theorem Sending.honest (h : Sending given e w.t) (hw : w.out.packets = []) : Honest given e w :=
  ⟨h, fun p hp => by rw [hw] at hp; cases hp⟩

theorem Sending.fed (h : Sending given e t) (hfed : Fed t u) : Sending given e u := by
  have hfs : u.finSent = t.finSent := congrArg SndSide.finSent hfed.snd
  refine ⟨?_, ?_, ?_, ?_, hfed.was.trans h.was⟩
  · rw [hfed.snd]
    exact h.stream
  · rw [hfed.snd, hfed.cc]
    exact h.recovering
  · intro hf
    have hno := h.finState (hfs.symm.trans hf)
    rcases hfed.state with hs | ⟨hs, -⟩ | ⟨-, hs⟩ | ⟨-, hs⟩
    · rwa [hs]
    · exact absurd hs hno.1
    · rw [hs]
      exact ⟨nofun, nofun⟩
    · rw [hs]
      exact ⟨nofun, nofun⟩
  · rw [isSyn]
    rcases hfed.state with hs | ⟨-, hs⟩ | ⟨-, hs⟩ | ⟨-, hs⟩
    · rw [hs]
      exact h.syn
    all_goals rw [hs]; rfl

theorem Honest.probe (h : Honest given e w) (hprobe : wantsProbe w.t = true) :
    Honest given e (sendProbe w) := by
  rw [wantsProbe, Bool.and_eq_true, Bool.and_eq_true, beq_iff_eq, bne_iff_ne] at hprobe
  have hzero : flight w.t.toSndSide = 0 := by
    show (w.t.sndNxt - w.t.sndUna).toNat = 0
    rw [hprobe.1.1]
    rfl
  have hf : w.t.finSent = false := by
    rw [← Bool.not_eq_true]
    intro hf
    have := h.sending.stream.fin hf
    omega
  have hone : flight w.t.toSndSide + 1 ≤ w.t.txLen := by omega
  have hnxt : w.t.sndNxt = serial w.t.sndUna 0 := by
    rw [← hzero]
    exact serial_flight.symm
  have hdata : Honest given e (tcpEmit w { ack := true } w.t.sndNxt 0 1 []) :=
    h.data hnxt (by omega) (.inl hf) rfl
  refine ⟨(hdata.sending.flown hf hone).1, ?_⟩
  intro p hp
  exact (hdata.packets p hp).mono rfl rfl id

/-! ## The calls of the socket -/

/-- The bytes are put behind those in the ring. -/
theorem Sending.putTx (h : Sending given e t) {data : List UInt8} (hf : t.finSent = false)
    (hfit : t.txLen + data.length ≤ tcpTxBuf) :
    Sending (given ++ data) e (Tcp.putTx t data) := by
  obtain ⟨hstream, hrec, hfin, hsyn, hwas⟩ := h
  have hheld := hstream.held
  have hlen : (Tcp.putTx t data).txLen = t.txLen + data.length := rfl
  have hplace : (given ++ data).length - (t.txLen + data.length) = given.length - t.txLen := by
    rw [length_append]
    omega
  refine ⟨⟨hstream.start, hfit, ?_, ?_, ?_, ?_, ?_, hstream.ended⟩, hrec, hfin, hsyn, hwas⟩
  · rw [length_append]
    omega
  · rw [hlen, hplace, drop_append_of_le_length (by omega), ← hstream.ring]
    exact ringList_ringStore hfit
  · intro _
    rw [hlen, hplace]
    exact hstream.una (.inl hf)
  · intro _
    exact Nat.le_trans (hstream.flies hf) (Nat.le_add_right _ _)
  · exact fun hf' => absurd (hf.symm.trans hf') (by decide)

/-- The bytes a call of `tcp_send` with this result has taken. -/
def taken (buf : List UInt8) : Except Errno Nat → List UInt8
  | .ok n => buf.take n
  | .error _ => []

/-- No bytes at all are the same as an error. -/
theorem taken_sendTakes {buf : List UInt8} :
    taken buf (if (sendTakes t buf).isEmpty then .error .eagain else .ok (sendTakes t buf).length)
      = sendTakes t buf := by
  split
  · next hempty => exact (isEmpty_iff.mp hempty).symm
  show buf.take (buf.take (tcpTxBuf - t.txLen)).length = _
  rw [length_take]
  exact take_eq_take_iff.mpr (by omega)

theorem Sending.send (h : Sending given e w.t) (hw : w.out.packets = []) {buf : List UInt8} :
    Honest (given ++ taken buf (tcpSend w buf now).1) e (tcpSend w buf now).2 := by
  rcases tcpSend_cases w buf now with ⟨err, heq⟩ | ⟨hs, heq⟩
  · rw [heq]
    show Honest (given ++ []) e w
    rw [append_nil]
    exact h.honest hw
  have hf : w.t.finSent = false := by
    rw [← Bool.not_eq_true]
    intro hf
    exact hs.elim (h.finState hf).1 (h.finState hf).2
  have hfit : w.t.txLen + (sendTakes w.t buf).length ≤ tcpTxBuf := by
    have hroom := h.stream.room
    rw [sendTakes, length_take]
    omega
  rw [heq, taken_sendTakes]
  exact (Sending.honest (w := { w with t := Tcp.putTx w.t (sendTakes w.t buf) })
    (h.putTx hf hfit) hw).push

/-- The FIN is wanted from now on. -/
theorem Sending.finWanted (h : Sending given e t) :
    Sending given e { t with finWanted := true } := by
  obtain ⟨hstream, hrec, hfin, hsyn, hwas⟩ := h
  exact ⟨⟨hstream.start, hstream.room, hstream.held, hstream.ring, hstream.una, hstream.flies,
    hstream.fin, hstream.ended⟩, hrec, hfin, hsyn, hwas⟩

/-- Something is in flight, and is sent again. -/
theorem Sending.enterRto (h : Sending given e t) (hfly : t.sndNxt - t.sndUna ≠ 0) :
    Sending given e (tcpEnterRto t) := by
  refine ⟨h.stream, fun _ => ⟨flight t.toSndSide, ?_, .inl (Nat.le_refl _), serial_flight.symm⟩,
    h.finState, h.syn, h.was⟩
  exact Nat.pos_iff_ne_zero.mpr fun hz => hfly (UInt32.toNat_inj.mp hz)

/-- What a move makes of a connection past its handshake. The handshake is not begun again. -/
theorem Honest.move (hw : w₀.out.packets = []) (m : Move w₀ act w w')
    (h : Honest given e w) : Honest given e w' := by
  have hs := h.sending
  have hsyn : ∀ {x : State}, w.t.state = x → (x == .synSent || x == .synRcvd) = false := by
    rintro x rfl
    exact hs.syn
  cases m with
  | still hq => exact h.same (hs.frame hq.snd hq.cc hq.state hq.was) hq.snd
  | ctl hf => exact h.ctl fun hfin => absurd (hf.symm.trans hfin) (by decide)
  | push => exact h.push
  | close => exact h.same hs.setClosed rfl
  | drop hr | synAck _ hr | land hr => cases hsyn hr
  | leave => exact h.same (hs.frame rfl rfl rfl rfl) rfl
  | fin => exact ⟨hs.finWanted, fun p hp => (h.packets p hp).mono rfl rfl id⟩
  | ack _ _ _ _ ho hno => exact Sending.honest (hs.gotAck hno) (by rw [ho]; exact hw)
  | feed _ hf => exact h.same (hs.fed hf) hf.snd
  | probe _ _ hp => exact h.probe hp
  | rto _ _ hfly => exact h.same (hs.enterRto hfly) rfl
  | connect _ hwas => exact absurd (hwas.symm.trans hs.was) (by decide)

/-! ## Before the handshake is done -/

/-- A connection that was never open. -/
structure Unborn (t : Tcb) : Prop where
  start : t.txStart < tcpTxBuf
  empty : t.txLen = 0
  fin : t.finSent = false
  recovery : t.recovery = .none
  was : t.wasConnected = false
  state : t.state = .closed ∨ isSyn t = true
  nxt : isSyn t = true → t.sndNxt = t.iss + 1
  timer : isSyn t = false → t.rtoAt = 0

/-- A call at work on one. -/
structure Knocking (w : Work) : Prop where
  unborn : Unborn w.t
  packets : ∀ p ∈ w.out.packets, Faithful [] w.t.toSndSide p

theorem Unborn.frame (h : Unborn t) (hsnd : u.toSndSide = t.toSndSide)
    (hcc : u.toCongestion = t.toCongestion) (hstate : u.state = t.state)
    (hwas : u.wasConnected = t.wasConnected) (htimer : isSyn t = false → u.rtoAt = 0) :
    Unborn u := by
  have hsyn : isSyn u = isSyn t := by rw [isSyn, isSyn, hstate]
  refine ⟨?_, ?_, ?_, ?_, hwas.trans h.was, ?_, ?_, hsyn ▸ htimer⟩
  · rw [hsnd]
    exact h.start
  · rw [hsnd]
    exact h.empty
  · rw [hsnd]
    exact h.fin
  · rw [hcc]
    exact h.recovery
  · rw [hstate, hsyn]
    exact h.state
  · rw [hsnd, hsyn]
    exact h.nxt

theorem Unborn.knocking (h : Unborn w.t) (hw : w.out.packets = []) : Knocking w :=
  ⟨h, fun p hp => by rw [hw] at hp; cases hp⟩

theorem Unborn.setClosed (h : Unborn t) {err : Option Errno} : Unborn (tcpSetClosed t err) :=
  ⟨h.start, h.empty, h.fin, rfl, h.was, .inl rfl, fun hs => (by cases hs), fun _ => rfl⟩

theorem Unborn.dropChild (h : Unborn t) : Unborn (tcpDropChild t) :=
  ⟨h.start, h.empty, h.fin, h.recovery, h.was, .inl rfl, fun hs => (by cases hs), fun _ => rfl⟩

theorem Knocking.ctl (h : Knocking w) (hf : flags.fin = false) :
    Knocking (tcpEmit w flags seq 0 0 opts) := by
  refine ⟨h.unborn.frame rfl rfl rfl rfl h.unborn.timer, ?_⟩
  intro p hp
  rcases mem_tcpSegment hp with hp | rfl
  · exact h.packets p hp
  have hbody : fromTx w.t 0 0 = [] := by
    simp [fromTx, slice]
  refine ⟨absurd hbody, fun hfin => absurd (hf.symm.trans hfin) (by decide), ?_⟩
  show 0 + (fromTx w.t 0 0).length ≤ w.t.txLen
  exact Nat.zero_le _

/-- The connection is open, and nothing was sent but the SYN. -/
theorem Sending.opened (hstart : t.txStart < tcpTxBuf) (hlen : t.txLen = 0)
    (hf : t.finSent = false) (hrec : t.recovery = .none) (huna : t.sndUna = t.iss + 1)
    (hnxt : t.sndNxt = t.iss + 1) (hsyn : isSyn t = false) (hwas : t.wasConnected = true)
    (he : ¬ e) : Sending [] e t := by
  have hflight : flight t.toSndSide = 0 := by
    rw [flight, huna, hnxt, sub_self]
    rfl
  refine ⟨⟨hstart, ?_, ?_, ?_, ?_, ?_, ?_, fun he' => absurd he' he⟩, ?_, ?_, hsyn, hwas⟩
  · rw [hlen]
    exact Nat.zero_le _
  · rw [hlen]
    exact Nat.zero_le _
  · rw [hlen]
    rfl
  · intro _
    rw [huna, hlen]
    exact serial_zero.symm
  · intro _
    rw [hflight]
    exact Nat.zero_le _
  · exact fun hf' => absurd (hf.symm.trans hf') (by decide)
  · exact absurd hrec
  · exact fun hf' => absurd (hf.symm.trans hf') (by decide)

/-- What a call leaves: a connection that has sent bytes of `given`, or one that was never
open. -/
def Lives (given : List UInt8) (e : Prop) (w : Work) : Prop :=
  Honest given e w ∨ (given = [] ∧ ¬ e ∧ Knocking w)

theorem Knocking.lives (h : Knocking w) (he : ¬ e) : Lives [] e w := .inr ⟨rfl, he, h⟩

theorem Unborn.not_open (h : Unborn t) : t.state ≠ .established ∧ t.state ≠ .closeWait := by
  constructor
  all_goals
    intro hs
    have hno := h.state
    rw [isSyn, hs] at hno
    exact hno.elim nofun nofun

theorem Unborn.not_past (h : Unborn t) : t.state.past = false := by
  have hno := h.state
  rw [isSyn] at hno
  revert hno
  cases t.state <;> simp [State.past]

theorem Knocking.armRto (h : Knocking w) (hsyn : isSyn w.t = true) :
    Knocking { w with t := tcpArmRto w.t now } := by
  have hq : Quiet w.t (tcpArmRto w.t now) := (Quiet.refl w.t).armRto
  refine ⟨h.unborn.frame hq.snd hq.cc hq.state hq.was fun hno => ?_, ?_⟩
  · exact absurd (hsyn.symm.trans hno) (by decide)
  · show ∀ p ∈ w.out.packets, Faithful [] (tcpArmRto w.t now).toSndSide p
    rw [hq.snd]
    exact h.packets

theorem Unborn.startConnect (h : Unborn w.t) (hw : w.out.packets = [])
    {localIp remoteIp iss : UInt32} {localPort remotePort : UInt16} :
    Knocking (Tcp.startConnect w localIp localPort remoteIp remotePort iss now) := by
  refine Knocking.armRto (Knocking.ctl (Unborn.knocking ?_ hw) rfl) rfl
  exact ⟨h.start, h.empty, h.fin, h.recovery, h.was, .inr rfl, fun _ => rfl, fun _ => rfl⟩

/-- What a move makes of one: it waits on, is closed, or opens. -/
theorem Knocking.move (hw : w₀.out.packets = []) (he : ¬ e)
    (m : Move w₀ act w w') (h : Knocking w) : Lives [] e w' := by
  have hu := h.unborn
  cases m with
  | still hq =>
    refine Knocking.lives ⟨hu.frame hq.snd hq.cc hq.state hq.was fun hno => ?_, ?_⟩ he
    · exact hq.timer (hu.timer hno)
    · rw [hq.snd]
      exact h.packets
  | ctl hf => exact (h.ctl hf).lives he
  | push =>
    rw [tcpPush_of_not_open hu.recovery hu.not_open]
    exact h.lives he
  | close => exact Knocking.lives ⟨hu.setClosed, h.packets⟩ he
  | drop => exact Knocking.lives ⟨hu.dropChild, h.packets⟩ he
  | leave => exact Knocking.lives ⟨hu.frame rfl rfl rfl rfl hu.timer, h.packets⟩ he
  | fin =>
    refine Knocking.lives ⟨?_, fun p hp => (h.packets p hp).mono rfl rfl id⟩ he
    exact ⟨hu.start, hu.empty, hu.fin, hu.recovery, hu.was, hu.state, hu.nxt, hu.timer⟩
  | ack _ _ hs | feed hs => exact absurd (hu.not_past.symm.trans hs) (by decide)
  | probe hsyn hdue | rto hsyn hdue => exact absurd (hu.timer hsyn) hdue
  | synAck _ hs _ _ hn | land hs hn =>
    have hnxt := hu.nxt (by rw [isSyn, hs]; rfl)
    refine .inl (Sending.honest (.opened hu.start hu.empty hu.fin hu.recovery ?_ hnxt rfl rfl he) hw)
    exact hn.trans hnxt
  | connect => exact (hu.startConnect hw).lives he

/-- A connection that opens during a call goes on like one that was open. -/
theorem Lives.move (hw : w₀.out.packets = []) (m : Move w₀ act w w')
    (h : Lives given e w) : Lives given e w' := by
  rcases h with h | ⟨rfl, he, h⟩
  · exact .inl (h.move hw m)
  · exact h.move hw he m

/-! ## Every run -/

/-- What the call gives the connection to send. -/
def gives (t : Tcb) (c : Call) : List UInt8 :=
  match c.act with
  | .send buf now => taken buf (tcpSend (c.begin t) buf now).1
  | _ => []

theorem Sending.exec (h : Sending given e t) (c : Call) :
    Honest (given ++ gives t c) e (Tcp.exec t c).2 := by
  have hb : Sending given e (c.begin t).t := h
  obtain ⟨act, bufs⟩ := c
  cases act with
  | send buf now => exact hb.send rfl
  | _ =>
    show Honest (given ++ []) e _
    rw [append_nil]
    refine Moves.keeps (.exec ?_) (hb.honest rfl) (Honest.move rfl)
    exact nofun

theorem Unborn.exec (h : Unborn t) (he : ¬ e) (c : Call) :
    Lives (gives t c) e (Tcp.exec t c).2 := by
  have hk : Knocking (c.begin t) := Unborn.knocking h rfl
  obtain ⟨act, bufs⟩ := c
  cases act with
  | send buf now =>
    rcases tcpSend_cases (Call.begin ⟨.send buf now, bufs⟩ t) buf now with ⟨err, heq⟩ | ⟨hs, -⟩
    · simp only [gives, Tcp.exec, heq]
      exact hk.lives he
    · exact (hs.elim h.not_open.1 h.not_open.2).elim
  | _ =>
    refine Moves.keeps (.exec ?_) (hk.lives he) (Lives.move rfl)
    exact nofun

/-- A connection and the bytes its socket gave it. -/
structure Sender where
  tcb : Option Tcb
  given : List UInt8

/-- A call, and what it was given to send. -/
def Sender.step (s : Sender) (c : Call) : Sender :=
  { tcb := Tcp.step s.tcb c
    given := s.given ++ s.tcb.elim [] fun t => gives t c }

/-- What holds between two calls. -/
def Sender.Ok (e : Prop) (s : Sender) : Prop :=
  ∀ t, s.tcb = some t → Sending s.given e t ∨ (s.given = [] ∧ ¬ e ∧ Unborn t)

theorem Sender.Ok.exec {s : Sender} (h : s.Ok e) (ht : s.tcb = some t) (c : Call) :
    Lives (s.step c).given e (Tcp.exec t c).2 := by
  have hgiven : (s.step c).given = s.given ++ gives t c := by
    rw [Sender.step, ht]
    rfl
  rw [hgiven]
  rcases h t ht with hs | ⟨hnil, he, hu⟩
  · exact .inl (hs.exec c)
  · rw [hnil]
    exact hu.exec he c

/-- What is left of a call. -/
theorem Sender.tcb_step {s : Sender} {c : Call} (h : (s.step c).tcb = some u) :
    ∃ t, s.tcb = some t ∧ (exec t c).2.t = u := by
  simp only [Sender.step] at h
  cases ht : s.tcb with
  | none =>
    rw [ht] at h
    cases h
  | some t =>
    rw [ht] at h
    simp only [Tcp.step] at h
    split at h
    · cases h
    · exact ⟨t, rfl, Option.some.inj h⟩

theorem Sender.Ok.step {s : Sender} (h : s.Ok e) (c : Call) : (s.step c).Ok e := by
  intro u hu
  obtain ⟨t, ht, rfl⟩ := Sender.tcb_step hu
  rcases h.exec ht c with hh | ⟨hnil, he, hk⟩
  · exact .inl hh.sending
  · exact .inr ⟨hnil, he, hk.unborn⟩

theorem Sender.Ok.run {s : Sender} (h : s.Ok e) (calls : List Call) :
    (Lib.run Sender.step s calls).Ok e :=
  run_inv (fun _ c hs _ => hs.step c) h (Meets.of_all fun _ _ => trivial)

theorem Sender.given_prefix (s : Sender) (calls : List Call) :
    s.given <+: (Lib.run Sender.step s calls).given := by
  induction calls generalizing s with
  | nil => exact prefix_rfl
  | cons c l ih => exact (prefix_append _ _).trans (ih (s.step c))

/-- Once the FIN was sent the connection takes no more. -/
theorem Sender.Ok.ended {s : Sender} (h : s.Ok True) (calls : List Call) :
    (Lib.run Sender.step s calls).given = s.given := by
  induction calls generalizing s with
  | nil => rfl
  | cons c l ih =>
    rw [run_cons, ih (h.step c), Sender.step]
    cases ht : s.tcb with
    | none => exact append_nil _
    | some t =>
      rcases h t ht with hs | ⟨-, hno, -⟩
      · have hstate := hs.finState (hs.stream.ended trivial)
        have hnone : gives t c = [] := by
          rw [gives]
          split
          · rename_i buf now _
            rcases tcpSend_cases (c.begin t) buf now with ⟨err, heq⟩ | ⟨hopen, -⟩
            · rw [heq]
              rfl
            · exact (hopen.elim hstate.1 hstate.2).elim
          · rfl
        show s.given ++ gives t c = s.given
        rw [hnone, append_nil]
      · exact absurd trivial hno

theorem Sending.ends (h : Sending given e t) (hf : t.finSent = true) : Sending given True t :=
  ⟨⟨h.stream.start, h.stream.room, h.stream.held, h.stream.ring, h.stream.una, h.stream.flies,
    h.stream.fin, fun _ => hf⟩, h.recovering, h.finState, h.syn, h.was⟩

end

/-- A connection no segment was sent to yet: that of a new socket, or the one a listener
makes for a SYN. -/
inductive Start : Tcb → Prop
  | socket (rings : Rings) : Start (tcpAllocRings tcpAlloc rings)
  | child (l : Tcb) (src dst : UInt32) (h : Seg) (iss : UInt32) (now : Nat) (out : Out) :
      Start (tcpListenInput l src dst h iss now out).t

theorem Start.unborn {t : Tcb} (h : Start t) : Unborn t := by
  have hpos : 0 < tcpTxBuf := by decide
  cases h with
  | socket rings =>
    exact ⟨hpos, rfl, rfl, rfl, rfl, .inl rfl, fun hs => (by cases hs), fun _ => rfl⟩
  | child l src dst sg iss now out =>
    have hchild : Unborn (tcpListenChild l src dst sg iss now) :=
      ⟨hpos, rfl, rfl, rfl, rfl, .inr rfl, fun _ => rfl, fun _ => rfl⟩
    have hq : Quiet (tcpListenChild l src dst sg iss now)
        (tcpListenInput l src dst sg iss now out).t :=
      (Quiet.sendSyn (w := ⟨_, out⟩) (.refl _)).armRto
    exact hchild.frame hq.snd hq.cc hq.state hq.was fun hno => (by cases hno)

/-- Every byte that goes out is the one the socket gave at that number, the FIN goes out at
the end of all it ever gives, nothing is read past the bytes in the ring, and no more is
in flight than they and the FIN. -/
theorem sent_is_given {t₀ t : Tcb} (h₀ : Start t₀) (before after : List Call) (c : Call)
    (ht : (Lib.run Sender.step ⟨some t₀, []⟩ before).tcb = some t) :
    let s := Lib.run Sender.step ⟨some t₀, []⟩ (before ++ [c])
    let all := (Lib.run Sender.step s after).given
    let u := (exec t c).2.t
    (∀ p ∈ (exec t c).2.out.packets,
      (∀ j < p.seg.body.length, ∃ k < s.given.length, s.given.length ≤ k + tcpTxBuf ∧
        p.seg.seq + ofNat j = u.iss + 1 + ofNat k ∧ p.seg.body[j]? = all[k]?) ∧
      (p.seg.flags.fin = true → p.seg.seq = u.iss + 1 + ofNat all.length) ∧
      p.off + p.seg.body.length ≤ u.txLen) ∧
    (u.wasConnected = true →
      (u.sndNxt - u.sndUna).toNat ≤ u.txLen + if u.finSent then 1 else 0) := by
  intro s all u
  have hstart : Sender.Ok False ⟨some t₀, []⟩ := by
    intro t₁ ht₁
    cases ht₁
    exact .inr ⟨rfl, id, h₀.unborn⟩
  have hbefore := hstart.run before
  generalize hs' : Lib.run Sender.step ⟨some t₀, []⟩ before = s' at *
  have hs : s = s'.step c := by
    show Lib.run Sender.step _ (before ++ [c]) = _
    rw [run_append, hs']
    rfl
  have hlives : Lives s.given False (exec t c).2 := hs ▸ hbefore.exec ht c
  have hpackets : ∀ p ∈ (exec t c).2.out.packets, Faithful s.given u.toSndSide p := by
    rcases hlives with hh | ⟨hnil, -, hk⟩
    · exact hh.packets
    · rw [hnil]
      exact hk.packets
  have hended : u.finSent = true → all = s.given := by
    intro hf
    refine Sender.Ok.ended ?_ after
    intro v hv
    obtain ⟨t', ht', rfl⟩ := Sender.tcb_step (hs ▸ hv)
    cases ht.symm.trans ht'
    rcases hlives with hh | ⟨-, -, hk⟩
    · exact .inl (hh.sending.ends hf)
    · exact absurd (hk.unborn.fin.symm.trans hf) (by decide)
  refine ⟨fun p hp => ⟨?_, ?_, (hpackets p hp).held⟩, ?_⟩
  · intro j hj
    obtain ⟨k, hk, hnear, hseq, hbyte⟩ := (hpackets p hp).byte hj
    obtain ⟨rest, hrest⟩ : s.given <+: all := Sender.given_prefix s after
    refine ⟨k, hk, hnear, hseq, ?_⟩
    rw [hbyte, ← hrest, getElem?_append_left hk]
  · intro hfin
    obtain ⟨hseq, hf⟩ := (hpackets p hp).fin hfin
    rw [hended hf]
    exact hseq
  · intro hwas
    rcases hlives with hh | ⟨-, -, hk⟩
    · show flight u.toSndSide ≤ _
      split
      · exact hh.sending.stream.flight_le
      · next hf => exact hh.sending.stream.flies (Bool.eq_false_iff.mpr hf)
    · exact absurd (hk.unborn.was.symm.trans hwas) (by decide)

/-- Three bytes for a window of two, and the end: the third byte and the FIN go out with
the ack. -/
theorem sent_is_given_closing : let seg (seq ack : UInt32) (syn : Bool) (window : UInt16) : Seg :=
      { srcPort := 80, dstPort := 4000, seq := seq, ack := ack
        flags := { syn := syn, ack := true }, window := window, opts := [], body := [] }
    let call (act : Act) : Call := ⟨act, fun _ => true⟩
    let t₀ := tcpAllocRings tcpAlloc ⟨fun _ => 0, fun _ => 0⟩
    let before := [call (.connect (some ⟨0, 0, false⟩) 0 4000 0x0100007F 80 0xFFFFFFFE 1),
      call (.segment (seg 0 0xFFFFFFFF true 2) none 2), call (.send [1, 2, 3] 3),
      call (.shutdown false true 4)]
    let c := call (.segment (seg 1 1 false 9) none 5)
    ∃ t, (Lib.run Sender.step ⟨some t₀, []⟩ before).tcb = some t ∧
      (exec t c).2.out.packets.map (fun p => (p.seg.seq, p.seg.body, p.seg.flags.fin))
        = [(1, [3], false), (2, [], true)] ∧
      ∀ p ∈ (exec t c).2.out.packets, p.seg.flags.fin = true →
        p.seg.seq = 0xFFFFFFFE + 1 + ofNat [1, 2, 3].length := by
  intro seg call t₀ before c
  have hout : ((Lib.run Sender.step ⟨some t₀, []⟩ before).tcb.map fun t =>
      ((exec t c).2.out.packets.map fun p => (p.seg.seq, p.seg.body, p.seg.flags.fin),
        (exec t c).2.t.iss)) = some ([(1, [3], false), (2, [], true)], 0xFFFFFFFE) := by decide
  have hgiven : (Lib.run Sender.step (Lib.run Sender.step ⟨some t₀, []⟩ (before ++ [c])) []).given
      = [1, 2, 3] := by decide
  obtain ⟨t, ht, hout⟩ := Option.map_eq_some_iff.mp hout
  obtain ⟨hpackets, hiss⟩ := Prod.mk.inj hout
  refine ⟨t, ht, hpackets, ?_⟩
  intro p hp hf
  have hsent := sent_is_given (.socket ⟨fun _ => 0, fun _ => 0⟩) before [] c ht
  have hseq := (hsent.1 p hp).2.1 hf
  rw [hgiven, hiss] at hseq
  exact hseq

end BleedKernel.Tcp
