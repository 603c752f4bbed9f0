import BleedKernel.Proofs.TcpSend

/-!
# The congestion window

`tcp_cc_acked` divides by `cwnd`, and `tcp_push` sends nothing while `cwnd` is 0 or the
size of a segment is. The size comes from the peer, and `tcp_use_syn_opts` takes a size
of 0 for what it is. With any other size the window never gets to 0 (`Pace`): it starts at
ten segments, falls back to one after a timeout and to `ssthresh`, two segments at least,
after a fast recovery. It is kept from turning around by a limit, but not during a fast
recovery, where every ack that repeats the last one adds a segment.
-/

namespace BleedKernel.Tcp

open Lib List

variable {c : Call} {t : Tcb} {fuel : Nat}

/-- The window and the size of a segment are not 0. -/
structure Pace (c : Congestion) : Prop where
  sound : c.faulted = false
  mss : 0 < c.mss.toNat
  cwnd : 0 < c.cwnd.toNat
  fast : c.recovery = .fast → 0 < c.ssthresh.toNat ∧ c.ssthresh.toNat ≤ 2 ^ 31
  slow : c.recovery ≠ .fast → c.cwnd.toNat ≤ 2 ^ 31

/-- An ack during a fast recovery does not turn the window around. -/
def Roomy (c : Congestion) : Prop := c.recovery = .fast → c.cwnd.toNat + c.mss.toNat < 2 ^ 32

section

variable {t u : Tcb} {acked ack seq : UInt32} {now : Nat}

theorem halfFlight_bounds (h : 0 < t.mss.toNat) :
    0 < (halfFlight t).toNat ∧ (halfFlight t).toNat < 2 ^ 31 := by
  have hmss : t.mss.toUInt32.toNat = t.mss.toNat := UInt16.toNat_toUInt32 _
  have hlt := t.mss.toNat_lt
  have hflight := (t.sndNxt - t.sndUna).toNat_lt
  have htwo : (2 * t.mss.toUInt32).toNat = 2 * t.mss.toNat := by
    rw [UInt32.toNat_mul, show UInt32.toNat 2 = 2 from rfl]
    omega
  have hhalf : ((t.sndNxt - t.sndUna) / 2).toNat = (t.sndNxt - t.sndUna).toNat / 2 :=
    UInt32.toNat_div _ _
  simp only [halfFlight]
  split
  · rename_i hgt
    have hgt := UInt32.lt_iff_toNat_lt.mp hgt
    omega
  · omega

/-- What a round trip adds does not turn the window around. -/
theorem avoid_lt {mss : UInt16} {cwnd : UInt32} (hpos : 0 < cwnd.toNat)
    (hle : cwnd.toNat ≤ 2 ^ 31) :
    cwnd.toNat + (mss.toUInt32 * mss.toUInt32 / cwnd).toNat < 2 ^ 32 := by
  have hlt : (mss.toUInt32 * mss.toUInt32).toNat ≤ 65535 * 65535 := by
    have hm := mss.toNat_lt
    rw [UInt32.toNat_mul, UInt16.toNat_toUInt32]
    refine Nat.le_trans (Nat.mod_le _ _) ?_
    exact Nat.mul_le_mul (by omega) (by omega)
  rw [UInt32.toNat_div]
  generalize (mss.toUInt32 * mss.toUInt32).toNat = m at hlt
  rcases Nat.lt_or_ge 1 cwnd.toNat with htwo | hone
  · have hhalf : m / cwnd.toNat ≤ m / 2 := Nat.div_le_div_left htwo (by decide)
    omega
  · have hone : cwnd.toNat = 1 := by omega
    rw [hone]
    omega

section

variable (h : Pace t.toCongestion)

include h

/-- The window grows, up to a limit. -/
theorem Pace.grow (hs : t.recovery ≠ .fast) : Pace (ccGrow t acked).toCongestion := by
  have hmss : t.mss.toUInt32.toNat = t.mss.toNat := UInt16.toNat_toUInt32 _
  have hlt := t.mss.toNat_lt
  have hle := h.slow hs
  have hpos := h.cwnd
  have cap : ∀ {u : Tcb}, u.faulted = false → u.mss = t.mss → u.recovery = t.recovery →
      0 < u.cwnd.toNat → Pace (ccCap u).toCongestion := by
    intro u hf hm hr hc
    rw [ccCap]
    split
    · refine ⟨hf, hm ▸ h.mss, ?_, fun hfast => absurd (hr.symm.trans hfast) hs, fun _ => ?_⟩
      · show 0 < UInt32.toNat 0x40000000
        decide
      · show UInt32.toNat 0x40000000 ≤ 2 ^ 31
        decide
    · rename_i hcap
      have hcap := UInt32.le_iff_toNat_le.mp (UInt32.not_lt.mp hcap)
      refine ⟨hf, hm ▸ h.mss, hc, fun hfast => absurd (hr.symm.trans hfast) hs, fun _ => ?_⟩
      exact Nat.le_trans hcap (by decide)
  rw [ccGrow]
  split
  · refine cap h.sound rfl rfl ?_
    show 0 < (t.cwnd + _).toNat
    rw [UInt32.toNat_add]
    split
    · rename_i hacked
      have hacked := UInt32.lt_iff_toNat_lt.mp hacked
      omega
    · omega
  · refine cap ?_ rfl rfl ?_
    · show (t.faulted || t.cwnd == 0) = false
      rw [Bool.or_eq_false_iff]
      refine ⟨h.sound, beq_false_of_ne ?_⟩
      intro hzero
      rw [hzero] at hpos
      exact absurd hpos (by decide)
    · have havoid : t.cwnd.toNat + (t.mss.toUInt32 * t.mss.toUInt32 / t.cwnd).toNat < 2 ^ 32 :=
        avoid_lt hpos hle
      show 0 < (t.cwnd + _).toNat
      rw [UInt32.toNat_add]
      split
      · omega
      · show 0 < (t.cwnd.toNat + 1) % 2 ^ 32
        omega

/-- Of the segments that come in one at most has an effect on the window. -/
theorem Pace.ccAcked (hroom : Roomy t.toCongestion) :
    Pace (tcpCcAcked t acked ack).toCongestion := by
  have hmss : t.mss.toUInt32.toNat = t.mss.toNat := UInt16.toNat_toUInt32 _
  have hpos := h.mss
  simp only [tcpCcAcked]
  split
  · split
    · rename_i hfast
      have hroom := hroom hfast
      refine ⟨h.sound, h.mss, ?_, fun _ => h.fast hfast, absurd hfast⟩
      show 0 < UInt32.toNat (if t.cwnd > acked then t.cwnd - acked + t.mss.toUInt32
        else t.mss.toUInt32)
      split
      · rename_i hgt
        have hgt := UInt32.lt_iff_toNat_lt.mp hgt
        rw [UInt32.toNat_add, UInt32.toNat_sub_of_le _ _ (UInt32.le_iff_toNat_le.mpr (by omega))]
        omega
      · omega
    · next hslow => exact h.grow hslow
  · split
    · refine ⟨h.sound, h.mss, ?_, fun hfast => (by cases hfast), fun _ => ?_⟩
      · show 0 < UInt32.toNat (if t.recovery = .fast then t.ssthresh else t.cwnd)
        split
        · next hfast => exact (h.fast hfast).1
        · exact h.cwnd
      · show UInt32.toNat (if t.recovery = .fast then t.ssthresh else t.cwnd) ≤ _
        split
        · next hfast => exact (h.fast hfast).2
        · next hslow => exact h.slow hslow
    · rename_i hnone
      refine h.grow fun hfast => hnone ?_
      rw [hfast]
      decide

theorem Pace.ccDupack (hroom : Roomy t.toCongestion) : Pace (tcpCcDupack t).toCongestion := by
  have hmss : t.mss.toUInt32.toNat = t.mss.toNat := UInt16.toNat_toUInt32 _
  have hlt := t.mss.toNat_lt
  have hpos := h.cwnd
  simp only [tcpCcDupack]
  split
  · rename_i hfast
    have hroom := hroom hfast
    refine ⟨h.sound, h.mss, ?_, fun _ => h.fast hfast, absurd hfast⟩
    show 0 < (t.cwnd + t.mss.toUInt32).toNat
    rw [UInt32.toNat_add]
    omega
  split
  · exact h
  split
  · exact ⟨h.sound, h.mss, h.cwnd, h.fast, h.slow⟩
  have hhalf := halfFlight_bounds h.mss
  refine ⟨h.sound, h.mss, ?_, fun _ => ⟨hhalf.1, Nat.le_of_lt hhalf.2⟩, fun hno => ?_⟩
  · show 0 < (halfFlight t + 3 * t.mss.toUInt32).toNat
    rw [UInt32.toNat_add, UInt32.toNat_mul, hmss, show UInt32.toNat 3 = 3 from rfl,
      Nat.mod_eq_of_lt (show 3 * t.mss.toNat < 2 ^ 32 by omega),
      Nat.mod_eq_of_lt (by omega)]
    omega
  · exact absurd rfl hno

theorem Pace.enterRto : Pace (tcpEnterRto t).toCongestion := by
  have hmss : t.mss.toUInt32.toNat = t.mss.toNat := UInt16.toNat_toUInt32 _
  have hlt := t.mss.toNat_lt
  have hpos := h.mss
  refine ⟨h.sound, h.mss, ?_, fun hfast => (by cases hfast), fun _ => ?_⟩
  · show 0 < t.mss.toUInt32.toNat
    omega
  · show t.mss.toUInt32.toNat ≤ 2 ^ 31
    omega

end

/-! ## Every call -/

/-- The handshake has come as far as the peer's options. -/
def synced (s : State) : Bool :=
  match s with
  | .closed | .listen | .synSent => false
  | _ => true

/-- Nothing has divided by zero, and nothing will. -/
structure Paced (t : Tcb) : Prop where
  sound : t.faulted = false
  pace : synced t.state = true → Pace t.toCongestion

theorem Paced.frame (h : Paced t) (hcc : u.toCongestion = t.toCongestion)
    (hs : synced u.state = true → synced t.state = true) : Paced u := by
  refine ⟨?_, ?_⟩
  · rw [hcc]
    exact h.sound
  · intro hu
    rw [hcc]
    exact h.pace (hs hu)

theorem Paced.pushed (h : Paced t) (hp : Pushed t u) : Paced u := by
  refine h.frame hp.cc ?_
  rcases hp.state with hs | ⟨hs, -⟩ | ⟨hs, -⟩
  · rw [hs]
    exact id
  · rw [hs]
    exact fun _ => rfl
  · rw [hs]
    exact fun _ => rfl

theorem Paced.fed (h : Paced t) (hf : Fed t u) : Paced u := by
  refine h.frame hf.cc ?_
  rcases hf.state with hs | ⟨hs, -⟩ | ⟨hs, -⟩ | ⟨hs, -⟩
  · rw [hs]
    exact id
  all_goals
    rw [hs]
    exact fun _ => rfl

theorem Paced.gotAck (h : Paced t) (hs : synced t.state = true) (hroom : Roomy t.toCongestion)
    {rawWindow : UInt16} {bare : Bool} : Paced (tcpGotAck t seq ack rawWindow bare now) := by
  have hpace := h.pace hs
  have hnumber : ∀ window, Paced (ackNumber t window ack bare now) := by
    intro window
    simp only [ackNumber]
    split
    · have hcc : (ackRto (ackRtt (ackData t ack) ack now) now).toCongestion = t.toCongestion :=
        ackRto_quiet.cc
      rw [gotNewAck]
      generalize ackRto (ackRtt (ackData t ack) ack now) now = v at *
      have hv : Pace (tcpCcAcked v (ack - t.sndUna) ack).toCongestion :=
        Pace.ccAcked (hcc ▸ hpace) (hcc ▸ hroom)
      rw [ackFin]
      split
      · split
        · exact ⟨hv.sound, fun _ => hv⟩
        · exact ⟨hv.sound, fun _ => hv⟩
        · exact ⟨hv.sound, (absurd · Bool.false_ne_true)⟩
        · exact ⟨hv.sound, fun _ => hv⟩
      · exact ⟨hv.sound, fun _ => hv⟩
    · split
      · have hdup := hpace.ccDupack hroom
        exact ⟨hdup.sound, fun _ => hdup⟩
      · exact h
  -- The rest is about the window of the peer.
  have hrest : ∀ {v : Tcb} {window : UInt32}, Paced v →
      Paced (takeWindow (stillAnswers (takeBackProbe v window ack) window ack) window seq ack) := by
    intro v window hv
    have hback : Paced (takeBackProbe v window ack) := by
      rw [takeBackProbe]
      split
      · exact hv.frame rfl id
      · exact hv
    have hstill : Paced (stillAnswers (takeBackProbe v window ack) window ack) := by
      rw [stillAnswers]
      split
      · exact hback.frame rfl id
      · exact hback
    rw [takeWindow]
    split
    · exact hstill.frame rfl id
    · exact hstill
  exact hrest (hnumber _)

theorem Pace.useSynOpts {o : SynOpts} (ho : o.mss ≠ 0) (hf : t.faulted = false)
    (hr : t.recovery = .none) : Pace (tcpUseSynOpts t o now).toCongestion := by
  obtain ⟨m, hm⟩ : ∃ m, m = (if o.mss < tcpMss then o.mss else tcpMss) := ⟨_, rfl⟩
  have hbound : 0 < m ∧ m ≤ 1460 := by
    rw [hm, tcpMss]
    split <;> omega
  have hmss : (tcpUseSynOpts t o now).mss.toNat = m := by
    show (UInt16.ofNat (if o.mss < tcpMss then o.mss else tcpMss)).toNat = m
    rw [← hm]
    exact UInt16.toNat_ofNat_of_lt (Nat.lt_of_le_of_lt hbound.2 (by decide))
  have hcwnd : (tcpUseSynOpts t o now).cwnd.toNat = 10 * m := by
    show (tcpInitCwnd * (tcpUseSynOpts t o now).mss.toUInt32).toNat = _
    rw [UInt32.toNat_mul, UInt16.toNat_toUInt32, show tcpInitCwnd.toNat = 10 from rfl]
    omega
  refine ⟨hf, by omega, by omega, fun hfast => ?_, fun _ => by omega⟩
  rw [show (tcpUseSynOpts t o now).recovery = .none from hr] at hfast
  cases hfast

/-- The segment is the SYN ACK the connection waits for. -/
def opens (t : Tcb) (h : Seg) : Bool :=
  t.state == .synSent && h.flags.syn && h.flags.ack && !h.flags.rst && h.ack == t.sndNxt

/-- The condition on a call: the SYN ACK does not offer segments without a byte, and an ack
during a fast recovery does not turn the window around. -/
def Guarded : Option Tcb → Call → Prop
  | none, _ => True
  | some t, c =>
    match c.act with
    | .segment h _ _ =>
      (opens t h = true → (tcpParseSyn h.opts).mss ≠ 0) ∧
        (h.flags.ack = true → Roomy t.toCongestion)
    | _ => True

instance Guarded.decidable : ∀ (s : Option Tcb) (c : Call), Decidable (Guarded s c)
  | none, _ => .isTrue trivial
  | some t, ⟨.segment h _ _, _⟩ =>
    inferInstanceAs (Decidable ((opens t h = true → (tcpParseSyn h.opts).mss ≠ 0) ∧
      (h.flags.ack = true → t.recovery = .fast → t.cwnd.toNat + t.mss.toNat < 2 ^ 32)))
  | some _, ⟨.connect .., _⟩ | some _, ⟨.send .., _⟩ | some _, ⟨.recv .., _⟩
  | some _, ⟨.tick .., _⟩ | some _, ⟨.shutdown .., _⟩ | some _, ⟨.detach .., _⟩
  | some _, ⟨.unreachable .., _⟩ | some _, ⟨.takeError, _⟩ | some _, ⟨.setKeepalive .., _⟩
  | some _, ⟨.setopt .., _⟩ => .isTrue trivial

/-- What a move of a call makes of the window. -/
theorem Paced.move {w₀ w w' : Work} (hrec : isSyn w₀.t = true → w₀.t.recovery = .none)
    (hg : Guarded (some w₀.t) c) (m : Move w₀ c.act w w') (h : Paced w.t) : Paced w'.t := by
  cases m with
  | still hq => exact h.frame hq.cc (by rw [hq.state]; exact id)
  | ctl | leave | fin | probe => exact h.frame rfl id
  | push => exact h.pushed (.push (.refl _))
  | close | drop => exact ⟨h.sound, (absurd · Bool.false_ne_true)⟩
  | @ack w sg _ _ ha hf hs hcc =>
    simp only [Guarded, ha] at hg
    refine h.gotAck ?_ (hcc ▸ hg.2 hf)
    revert hs
    cases w.t.state <;> simp [State.past, synced]
  | feed _ hf => exact h.fed hf
  | rto => exact ⟨h.sound, fun hs => (h.pace hs).enterRto⟩
  | @synAck sg _ now ha hs hf hr hn =>
    simp only [Guarded, ha] at hg
    have hpace : Pace (tcpUseSynOpts w₀.t (tcpParseSyn sg.opts) now).toCongestion :=
      .useSynOpts (hg.1 (by simp [opens, hs, hf, hr, hn])) h.sound (hrec (by rw [isSyn, hs]; rfl))
    exact ⟨hpace.sound, fun _ => hpace⟩
  | land hs => exact h.frame rfl fun _ => (by rw [hs]; rfl)
  | connect =>
    refine Paced.frame (t := { w₀.t with state := .synSent }) ⟨h.sound, (absurd · Bool.false_ne_true)⟩ ?_ ?_
    · exact (Quiet.refl _).armRto.cc
    · exact id

theorem Paced.exec (h : Paced t) (hrec : isSyn t = true → t.recovery = .none)
    (hg : Guarded (some t) c) : Paced (Tcp.exec t c).2.t := by
  obtain ⟨act, bufs⟩ := c
  cases act with
  | send buf now =>
    rcases tcpSend_cases (Call.begin ⟨.send buf now, bufs⟩ t) buf now with ⟨err, heq⟩ | ⟨-, heq⟩
    · simp only [Tcp.exec, heq]
      exact h
    · simp only [Tcp.exec, heq]
      have hput : Paced (putTx t (sendTakes t buf)) := h.frame rfl id
      exact hput.pushed (.push (.refl _))
  | _ =>
    refine Moves.keeps (P := fun w => Paced w.t) (.exec ?_) h (Paced.move hrec hg)
    simp

end

/-! ## What goes out -/

/-- The bytes of data in what goes out. -/
def Out.bytes (out : Out) : Nat := (out.packets.map fun p => p.seg.body.length).sum

/-- There is a buffer for every segment. -/
def Out.Ample (out : Out) : Prop := ∀ i, out.bufs i = true

section

variable {w : Work} {flags : Flags} {seq : UInt32} {off len now : Nat} {opts : List UInt8}

theorem length_fromTx : (fromTx t off len).length = len := by
  simp only [fromTx, length_append, length_slice]
  split <;> omega

theorem tcpSegment_bytes {out : Out} {p : Packet} :
    out.bytes ≤ (tcpSegment out p).bytes ∧ (tcpSegment out p).bufs = out.bufs := by
  rw [tcpSegment]
  split
  · exact ⟨Nat.le_refl _, rfl⟩
  split
  · refine ⟨?_, rfl⟩
    simp only [Out.bytes, map_append, sum_append]
    exact Nat.le_add_right _ _
  · exact ⟨Nat.le_refl _, rfl⟩

/-- A segment with data goes out when there is a buffer and a place for it. -/
theorem tcpEmit_bytes (hb : w.out.Ample) (hlen : w.out.count < tcpOutMax) :
    (tcpEmit w flags seq off len opts).out.bytes = w.out.bytes + len := by
  simp only [tcpEmit, tcpSegment]
  rw [if_neg (by omega), if_pos (hb _)]
  simp only [Out.bytes, map_append, sum_append, map_cons, map_nil,
    sum_cons, sum_nil, length_fromTx, Nat.add_zero]

/-- Something was sent besides, and the buffers are as before. -/
structure Adds (out out' : Out) : Prop where
  bytes : out.bytes ≤ out'.bytes
  bufs : out'.bufs = out.bufs

theorem Adds.refl (out : Out) : Adds out out := ⟨Nat.le_refl _, rfl⟩

theorem Adds.trans {a b c : Out} (h : Adds a b) (h' : Adds b c) : Adds a c :=
  ⟨Nat.le_trans h.bytes h'.bytes, h'.bufs.trans h.bufs⟩

variable {out : Out}

section

variable (h : Adds out w.out)

include h

theorem Adds.emit : Adds out (tcpEmit w flags seq off len opts).out :=
  h.trans ⟨tcpSegment_bytes.1, tcpSegment_bytes.2⟩

theorem Adds.resend : Adds out (tcpResend w seq).2.out := by
  simp only [tcpResend]
  split
  · exact Adds.emit h
  split
  · exact Adds.emit h
  · exact h

theorem Adds.rtoLoop : Adds out (Tcp.rtoLoop fuel w).out := by
  induction fuel generalizing w with
  | zero => exact h
  | succ fuel ih =>
    simp only [Tcp.rtoLoop]
    split
    · split
      · exact h.resend
      · exact ih h.resend
    · exact h

theorem Adds.pushOne {sent n : Nat} : Adds out (Tcp.pushOne w now sent n).out := Adds.emit h

theorem Adds.pushLoop {wnd sent : Nat} : Adds out (Tcp.pushLoop now wnd fuel sent w).2.out := by
  induction fuel generalizing sent w with
  | zero => exact h
  | succ fuel ih =>
    simp only [Tcp.pushLoop]
    split
    · exact ih h.pushOne
    · exact h

end

theorem Adds.pushNew (h : Adds out (Tcp.pushLoop now (sendWindow w.t)
      (w.t.txLen - (w.t.sndNxt - w.t.sndUna).toNat + tcpOutMax) (w.t.sndNxt - w.t.sndUna).toNat
      w).2.out) : Adds out (Tcp.pushNew w now).out := by
  simp only [Tcp.pushNew]
  have hprobe : ∀ {v : Work} {sent : Nat}, (armProbe v now sent).out = v.out := by
    intro v sent
    rw [armProbe]
    split <;> rfl
  rw [hprobe]
  split
  · exact h.emit
  · exact h

/-- Data that is sent again is at least a byte, and without a FIN there is nothing else to
send again. -/
theorem resend_bytes (hf : w.t.finSent = false) (hm : 0 < w.t.mss.toNat) (hb : w.out.Ample)
    (hlen : w.out.count < tcpOutMax) :
    ((tcpResend w seq).1 = 0 ∧ (tcpResend w seq).2.out = w.out) ∨
      w.out.bytes < (tcpResend w seq).2.out.bytes := by
  have hmss : w.t.mss.toUInt32.toNat = w.t.mss.toNat := UInt16.toNat_toUInt32 _
  simp only [tcpResend]
  split
  · rename_i hoff
    have hoff : (seq - w.t.sndUna).toNat < (dataEnd w.t).toNat := UInt32.lt_iff_toNat_lt.mp hoff
    have hsub : (dataEnd w.t - (seq - w.t.sndUna)).toNat
        = (dataEnd w.t).toNat - (seq - w.t.sndUna).toNat :=
      UInt32.toNat_sub_of_le _ _ (UInt32.le_iff_toNat_le.mpr (by omega))
    refine .inr (Nat.lt_of_lt_of_eq (Nat.lt_add_of_pos_right ?_) (tcpEmit_bytes hb hlen).symm)
    show 0 < UInt32.toNat (if dataEnd w.t - (seq - w.t.sndUna) < w.t.mss.toUInt32
      then dataEnd w.t - (seq - w.t.sndUna) else w.t.mss.toUInt32)
    split <;> omega
  · rw [hf]
    exact .inl ⟨rfl, rfl⟩

theorem rtoLoop_bytes (hf : w.t.finSent = false) (hm : 0 < w.t.mss.toNat) (hb : w.out.Ample) :
    (rtoLoop fuel w).out = w.out ∨ w.out.bytes < (rtoLoop fuel w).out.bytes := by
  cases fuel with
  | zero => exact .inl rfl
  | succ fuel =>
    simp only [rtoLoop]
    split
    · rename_i hgo
      rw [Bool.and_eq_true, decide_eq_true_eq] at hgo
      split
      · next hzero =>
          exact (resend_bytes hf hm hb hgo.2).imp And.right id
      rename_i hne
      rcases resend_bytes hf hm hb hgo.2 with ⟨hzero, -⟩ | hmore
      · exact absurd hzero hne
      · refine .inr (Nat.lt_of_lt_of_le hmore (Adds.bytes ?_))
        exact .rtoLoop (.refl _)
    · exact .inl rfl

/-- What is sent again is data, or nothing is. -/
theorem pushRecovery_bytes (hf : w.t.finSent = false) (hm : 0 < w.t.mss.toNat)
    (hb : w.out.Ample) (hlen : w.out.count < tcpOutMax) :
    (tcpPushRecovery w).out = w.out ∨ w.out.bytes < (tcpPushRecovery w).out.bytes := by
  simp only [tcpPushRecovery]
  split
  · split
    · exact (resend_bytes (w := ⟨{ w.t with rtxOne := false }, w.out⟩) hf hm hb hlen).imp
        And.right id
    · exact .inl rfl
  · exact .inl rfl
  · split
    · exact rtoLoop_bytes hf hm hb
    · exact rtoLoop_bytes hf hm hb

/-- The next segment fits into the window, or nothing is in flight and the peer takes
something. -/
def sendOpen (t : Tcb) : Prop :=
  (flight t.toSndSide = 0 ∧ t.sndWnd ≠ 0) ∨
    pushSize t (flight t.toSndSide) ≤ sendWindow t - flight t.toSndSide

theorem sendOpen.window (h : sendOpen t) (hp : Pace t.toCongestion)
    (hdata : flight t.toSndSide < t.txLen) : flight t.toSndSide < sendWindow t := by
  have hmss := hp.mss
  rcases h with ⟨hzero, hwnd⟩ | hfits
  · have hpos : 0 < t.sndWnd.toNat := by
      rw [Nat.pos_iff_ne_zero]
      exact fun h0 => hwnd (UInt32.toNat_inj.mp h0)
    rw [hzero, sendWindow]
    split
    · exact hpos
    · exact hp.cwnd
  · have hsize : 0 < pushSize t (flight t.toSndSide) := by
      simp only [pushSize]
      split <;> omega
    omega

theorem pushLoop_bytes {wnd sent : Nat} (hdata : sent < w.t.txLen)
    (hm : 0 < w.t.mss.toNat) (hroom : sent < wnd) (ho : pushSize w.t sent ≤ wnd - sent ∨ sent = 0)
    (hb : w.out.Ample) (hlen : w.out.count < tcpOutMax) :
    w.out.bytes < (pushLoop now wnd (fuel + 1) sent w).2.out.bytes := by
  have hsize : 0 < min (pushSize w.t sent) (wnd - sent) := by
    simp only [pushSize]
    split <;> omega
  have hone : w.out.bytes < (pushOne w now sent (min (pushSize w.t sent) (wnd - sent))).out.bytes :=
    Nat.lt_of_lt_of_eq (Nat.lt_add_of_pos_right hsize)
      (tcpEmit_bytes (w := ⟨startClock w.t now, w.out⟩) hb hlen).symm
  rw [pushLoop, if_pos ⟨hdata, hlen, by omega, ho⟩]
  refine Nat.lt_of_lt_of_le hone (Adds.bytes ?_)
  exact .pushLoop (.refl _)

theorem push_bytes (hs : w.t.state = .established) (hp : Pace w.t.toCongestion)
    (hf : w.t.finSent = false) (hdata : flight w.t.toSndSide < w.t.txLen) (ho : sendOpen w.t)
    (hb : w.out.Ample) (hlen : w.out.count < tcpOutMax) :
    w.out.bytes < (tcpPush w now).out.bytes := by
  have hq : Quiet w.t (tcpPushRecovery w).t := (Quiet.refl w.t).pushRecovery
  have hpush : tcpPush w now = pushNew (tcpPushRecovery w) now := by
    rw [tcpPush, hq.state, hs]
    rfl
  rw [hpush]
  rcases pushRecovery_bytes hf hp.mss hb hlen with hsame | hmore
  · -- The same fields decide as before.
    have hsize : pushSize (tcpPushRecovery w).t = pushSize w.t := by
      funext sent
      simp only [pushSize, hq.snd, hq.cc]
    have hwnd : sendWindow (tcpPushRecovery w).t = sendWindow w.t := by
      simp only [sendWindow, hq.snd, hq.cc]
    have hfly : ((tcpPushRecovery w).t.sndNxt - (tcpPushRecovery w).t.sndUna).toNat
        = flight w.t.toSndSide := by
      rw [flight, hq.snd]
    have hlen' : (tcpPushRecovery w).t.txLen = w.t.txLen := congrArg SndSide.txLen hq.snd
    have hmss : (tcpPushRecovery w).t.mss = w.t.mss := congrArg Congestion.mss hq.cc
    refine Nat.lt_of_lt_of_le ?_ (Adds.pushNew (.refl _)).bytes
    rw [hwnd, hfly, ← hsame]
    refine pushLoop_bytes (hlen'.symm ▸ hdata) (hmss.symm ▸ hp.mss) (ho.window hp hdata) ?_
      (hsame.symm ▸ hb) (hsame.symm ▸ hlen)
    rw [hsize]
    exact ho.elim (fun h => .inr h.1) .inl
  · refine Nat.lt_of_lt_of_le hmore (Adds.bytes ?_)
    exact .pushNew (.pushLoop (.refl _))

end

/-! ## Every run -/

/-- What holds between two calls. -/
def Fit (s : Option Tcb) : Prop :=
  ∀ t, s = some t → Paced t ∧ ((∃ given, Sending given False t) ∨ Unborn t)

theorem Fit.step {s : Option Tcb} (h : Fit s) (hg : Guarded s c) : Fit (Tcp.step s c) := by
  intro u hu
  cases s with
  | none => cases hu
  | some t =>
    obtain ⟨hpaced, hlives⟩ := h t rfl
    have hrec : isSyn t = true → t.recovery = .none := by
      intro hsyn
      rcases hlives with ⟨given, hs⟩ | hu
      · exact absurd (hs.syn.symm.trans hsyn) (by decide)
      · exact hu.recovery
    simp only [Tcp.step] at hu
    split at hu
    · cases hu
    cases hu
    refine ⟨hpaced.exec hrec hg, ?_⟩
    rcases hlives with ⟨given, hs⟩ | hu
    · exact .inl ⟨_, (hs.exec c).sending⟩
    rcases hu.exec id c with hh | ⟨-, -, hk⟩
    · exact .inl ⟨_, hh.sending⟩
    · exact .inr hk.unborn

theorem Start.paced (h : Start t) (hm : t.mss ≠ 0) : Paced t := by
  cases h with
  | socket rings => exact ⟨rfl, fun hs => (by cases hs)⟩
  | child l src dst sg iss now out =>
    have hq : Quiet (tcpListenChild l src dst sg iss now)
        (tcpListenInput l src dst sg iss now out).t :=
      (Quiet.sendSyn (w := ⟨_, out⟩) (.refl _)).armRto
    have ho : (tcpParseSyn sg.opts).mss ≠ 0 := by
      intro hzero
      refine hm ((congrArg Congestion.mss hq.cc).trans ?_)
      show UInt16.ofNat (if (tcpParseSyn sg.opts).mss < tcpMss then (tcpParseSyn sg.opts).mss
        else tcpMss) = 0
      rw [hzero]
      rfl
    have hpace : Pace (tcpUseSynOpts tcpAlloc (tcpParseSyn sg.opts) now).toCongestion :=
      .useSynOpts ho rfl rfl
    exact Paced.pushed (t := tcpListenChild l src dst sg iss now) ⟨hpace.sound, fun _ => hpace⟩
      hq.pushed

/-- Unless the peer offers segments without a byte, or acks so often during one fast
recovery that the window turns around, nothing is divided by zero, and `tcp_push` sends
something whenever the window is open. -/
theorem window_stays_open {t₀ t : Tcb} (h₀ : Start t₀) (hm : t₀.mss ≠ 0) {calls : List Call}
    (hc : Meets Tcp.step Guarded (some t₀) calls)
    (ht : Lib.run Tcp.step (some t₀) calls = some t) :
    t.faulted = false ∧ (t.state = .established → flight t.toSndSide < t.txLen → sendOpen t →
        ∀ out now, out.Ample → out.count < tcpOutMax →
          out.bytes < (tcpPush ⟨t, out⟩ now).out.bytes) := by
  have hstart : Fit (some t₀) := by
    intro t₁ ht₁
    cases ht₁
    exact ⟨h₀.paced hm, .inr h₀.unborn⟩
  have hrun : Fit (Lib.run Tcp.step (some t₀) calls) := run_inv (fun _ _ h => h.step) hstart hc
  obtain ⟨hpaced, hlives⟩ := hrun t ht
  refine ⟨hpaced.sound, ?_⟩
  intro hs hdata ho out now hb hlen
  have hf : t.finSent = false := by
    rcases hlives with ⟨given, hsend⟩ | hu
    · rw [← Bool.not_eq_true]
      exact fun hf => (hsend.finState hf).1 hs
    · exact hu.fin
  exact push_bytes (w := ⟨t, out⟩) hs (hpaced.pace (by rw [hs]; rfl)) hf hdata ho hb hlen

/-- The connection of a new socket. -/
def newTcb : Tcb := tcpAllocRings tcpAlloc ⟨fun _ => 0, fun _ => 0⟩

/-- It connects, and the peer says in its SYN ACK how long a segment may be. -/
def answered (mss : UInt8) (window : UInt16) : List Call :=
  [⟨.connect (some ⟨0, 0, false⟩) 0 4000 0x0100007F 80 0 1, fun _ => true⟩, ⟨.segment
      { srcPort := 80, dstPort := 4000, seq := 0, ack := 1, flags := { syn := true, ack := true }
        window := window, opts := [2, 4, 0, mss], body := [] } none 2, fun _ => true⟩,
    ⟨.send [1, 2] 3, fun _ => true⟩]

/-- An ack with a shut window. -/
def shutAck (ack : UInt32) (now : Nat) : Call :=
  ⟨.segment
    { srcPort := 80, dstPort := 4000, seq := 1, ack := ack, flags := { ack := true }
      window := 0, opts := [], body := [] } none now, fun _ => true⟩

/-- Both bytes are probes, and the first is acked after a timeout. -/
def probes : List Call :=
  [⟨.tick 10000, fun _ => true⟩, ⟨.tick 20000, fun _ => true⟩, shutAck 2 20001,
    ⟨.tick 40000, fun _ => true⟩, shutAck 3 40001]

theorem window_stays_open_probes : Meets Tcp.step Guarded (some newTcb) (answered 1 0 ++ probes) ∧
      ∃ t, Lib.run Tcp.step (some newTcb) (answered 1 0 ++ probes) = some t ∧
        t.faulted = false := by
  have hc : Meets Tcp.step Guarded (some newTcb) (answered 1 0 ++ probes) := by decide
  have hsome : (Lib.run Tcp.step (some newTcb) (answered 1 0 ++ probes)).isSome = true := by
    decide
  obtain ⟨t, ht⟩ := Option.isSome_iff_exists.mp hsome
  exact ⟨hc, t, ht, (window_stays_open (.socket _) (by decide) hc ht).1⟩

/-- With segments of size 0 the second ack divides by zero; and when the window was open
from the start, nothing is ever sent. -/
theorem window_shut_by_empty_segments :
    (Lib.run Tcp.step (some newTcb) (answered 0 0 ++ probes)).map (·.faulted) = some true ∧
      ∃ t, Lib.run Tcp.step (some newTcb) (answered 0 1000) = some t ∧
        t.state = .established ∧ flight t.toSndSide < t.txLen ∧ sendOpen t ∧
        (tcpPush ⟨t, ⟨[], fun _ => true, 0, 0⟩⟩ 4).out.bytes = 0 := by
  refine ⟨by decide, ?_⟩
  have hstalls : (Lib.run Tcp.step (some newTcb) (answered 0 1000)).map (fun t =>
      (t.state, flight t.toSndSide, t.txLen, t.sndWnd,
        (tcpPush ⟨t, ⟨[], fun _ => true, 0, 0⟩⟩ 4).out.bytes))
      = some (.established, 0, 2, 1000, 0) := by decide
  obtain ⟨t, ht, hfields⟩ := Option.map_eq_some_iff.mp hstalls
  obtain ⟨hs, hrest⟩ := Prod.mk.inj hfields
  obtain ⟨hfly, hrest⟩ := Prod.mk.inj hrest
  obtain ⟨hlen, hrest⟩ := Prod.mk.inj hrest
  obtain ⟨hwnd, hbytes⟩ := Prod.mk.inj hrest
  refine ⟨t, ht, hs, by omega, .inl ⟨hfly, ?_⟩, hbytes⟩
  rw [hwnd]
  decide

end BleedKernel.Tcp
