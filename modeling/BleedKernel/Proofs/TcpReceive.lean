import BleedKernel.Proofs.TcpFrames

/-!
# The bytes a connection receives

The peer sends segments of one stream, and whatever the network makes of them the reader
gets a prefix of that stream. The invariant ties four things together: the place of the
stream the reader has come to, the bytes of the ring behind it, the ranges further on
that lie past a hole, and `rcv_nxt`. Sequence numbers are places of the stream modulo
`2 ^ 32`. All the places that are compared lie within one ring of each other, except for
the segment that comes in, and that is where the number of a place can be mistaken for
the number of another one.
-/

namespace BleedKernel.Tcp

open Lib List

variable {irs : UInt32} {c : Call} {got now n : Nat} {t : Tcb} {data : List UInt8} {fin : Bool}

theorem seqLt_serial {x y : Nat} (h1 : x < y + 2 ^ 31) (h2 : y ≤ x + 2 ^ 31) :
    seqLt (serial irs x) (serial irs y) = decide (x < y) := serialLt_serial h1 h2

theorem seqLeq_serial {x y : Nat} (h1 : x < y + 2 ^ 31) (h2 : y ≤ x + 2 ^ 31) :
    seqLeq (serial irs x) (serial irs y) = decide (x ≤ y) := serialLe_serial h1 h2

/-! ## Ranges past a hole -/

/-- The ranges are those of places of the stream, in order and with a hole before each
of them, past `lo` and up to `hi`; every place in them has `P`. -/
def Held (irs : UInt32) (P : Nat → Prop) (hi : Nat) : Nat → List Range → Prop
  | _, [] => True
  | lo, r :: l => ∃ a b, r = ⟨serial irs a, serial irs b⟩ ∧ lo < a ∧ a < b ∧ b ≤ hi ∧
      (∀ p, a ≤ p → p < b → P p) ∧ Held irs P hi b l

section Held

variable {irs : UInt32} {P Q : Nat → Prop} {lo hi hi' a b : Nat} {l : List Range}

theorem Held.mono (h : Held irs P hi lo l) (hhi : hi ≤ hi')
    (hPQ : ∀ p, lo < p → p < hi → P p → Q p) : Held irs Q hi' lo l := by
  induction l generalizing lo with
  | nil => trivial
  | cons r l ih =>
    obtain ⟨a, b, hr, hlo, hab, hb, hP, hl⟩ := h
    refine ⟨a, b, hr, hlo, hab, by omega, ?_, ih hl ?_⟩
    · intro p hap hpb
      exact hPQ p (by omega) (by omega) (hP p hap hpb)
    · intro p hbp hph
      exact hPQ p (by omega) hph

/-- The ranges the new one reaches are taken into it. -/
theorem Held.absorb (hhi : hi ≤ lo + 2 ^ 31) (hlo : lo < a) (hab : a < b) (hb : b ≤ hi)
    (hP : ∀ p, a ≤ p → p < b → P p) {c : Nat} (hc : lo < c) (hcb : c ≤ b)
    (h : Held irs P hi c l) :
    Held irs P hi lo (oooAbsorb ⟨serial irs a, serial irs b⟩ l) := by
  induction l generalizing b c with
  | nil => exact ⟨a, b, rfl, hlo, hab, hb, hP, trivial⟩
  | cons r l ih =>
    obtain ⟨x, y, rfl, hcx, hxy, hy, hPx, hl⟩ := h
    have hreach : seqLeq (serial irs x) (serial irs b) = decide (x ≤ b) :=
      seqLeq_serial (by omega) (by omega)
    have hfar : seqLt (serial irs b) (serial irs y) = decide (b < y) :=
      seqLt_serial (by omega) (by omega)
    simp only [oooAbsorb, hreach, hfar, decide_eq_true_eq]
    by_cases hxb : x ≤ b
    · rw [if_pos hxb]
      by_cases hby : b < y
      · -- It reaches further than the new range did.
        rw [if_pos hby]
        refine ih (by omega) hy ?_ (by omega) (Nat.le_refl y) hl
        intro p hap hpy
        rcases Nat.lt_or_ge p b with hpb | hpb
        · exact hP p hap hpb
        · exact hPx p (by omega) hpy
      · rw [if_neg hby]
        exact ih hab hb hP (by omega) (by omega) hl
    · rw [if_neg hxb]
      exact ⟨a, b, rfl, hlo, hab, hb, hP, x, y, rfl, by omega, hxy, hy, hPx, hl⟩

/-- Where `tcp_ooo_add` puts a range when it has room for it. -/
def oooInsert (start stop : UInt32) : List Range → List Range
  | [] => [⟨start, stop⟩]
  | r :: l =>
    if seqLt r.stop start then r :: oooInsert start stop l
    else if seqLeq r.start stop then
      oooAbsorb
        { start := if seqLt start r.start then start else r.start
          stop := if seqLt r.stop stop then stop else r.stop } l
    else ⟨start, stop⟩ :: r :: l

theorem oooInsert_eq (start stop : UInt32) (l : List Range) :
    oooInsert start stop l = (l.takeWhile fun r => seqLt r.stop start) ++
      match l.dropWhile fun r => seqLt r.stop start with
      | [] => [⟨start, stop⟩]
      | r :: after =>
        if seqLeq r.start stop then
          oooAbsorb
            { start := if seqLt start r.start then start else r.start
              stop := if seqLt r.stop stop then stop else r.stop } after
        else ⟨start, stop⟩ :: r :: after := by
  induction l with
  | nil => rfl
  | cons r l ih =>
    rw [oooInsert, takeWhile_cons, dropWhile_cons]
    split
    · rw [ih, cons_append]
    · rw [nil_append]

theorem tcpOooAdd_cases (ooo : List Range) (start stop : UInt32) :
    tcpOooAdd ooo start stop = ooo ∨ tcpOooAdd ooo start stop = oooInsert start stop ooo := by
  rw [oooInsert_eq]
  simp only [tcpOooAdd]
  split
  · rename_i h
    rw [h]
    split
    · exact .inl rfl
    · exact .inr rfl
  · rename_i r after h
    rw [h]
    by_cases hr : seqLeq r.start stop = true
    · exact .inr (by simp only [if_pos hr])
    simp only [if_neg hr]
    split
    · exact .inl rfl
    · exact .inr rfl

/-- A new range takes its place among those that are held. -/
theorem Held.insert (hhi : hi ≤ lo + 2 ^ 31) (hlo : lo < a) (hab : a < b) (hb : b ≤ hi)
    (hP : ∀ p, a ≤ p → p < b → P p) (h : Held irs P hi lo l) :
    Held irs P hi lo (oooInsert (serial irs a) (serial irs b) l) := by
  induction l generalizing lo with
  | nil => exact ⟨a, b, rfl, hlo, hab, hb, hP, trivial⟩
  | cons r l ih =>
    obtain ⟨x, y, rfl, hlx, hxy, hy, hPx, hl⟩ := h
    have hbelow : seqLt (serial irs y) (serial irs a) = decide (y < a) :=
      seqLt_serial (by omega) (by omega)
    have hreach : seqLeq (serial irs x) (serial irs b) = decide (x ≤ b) :=
      seqLeq_serial (by omega) (by omega)
    have hfirst : seqLt (serial irs a) (serial irs x) = decide (a < x) :=
      seqLt_serial (by omega) (by omega)
    have hlast : seqLt (serial irs y) (serial irs b) = decide (y < b) :=
      seqLt_serial (by omega) (by omega)
    simp only [oooInsert, hbelow, hreach, hfirst, hlast, decide_eq_true_eq]
    by_cases hya : y < a
    · rw [if_pos hya]
      exact ⟨x, y, rfl, hlx, hxy, hy, hPx, ih (by omega) hya hl⟩
    rw [if_neg hya]
    by_cases hxb : x ≤ b
    · -- The two ranges touch: together they are one.
      rw [if_pos hxb]
      have hstart : (if a < x then serial irs a else serial irs x) = serial irs (min a x) := by
        split
        · rw [Nat.min_eq_left (by omega)]
        · rw [Nat.min_eq_right (by omega)]
      have hstop : (if y < b then serial irs b else serial irs y) = serial irs (max b y) := by
        split
        · rw [Nat.max_eq_left (by omega)]
        · rw [Nat.max_eq_right (by omega)]
      rw [hstart, hstop]
      refine Held.absorb hhi (by omega) (by omega) (by omega) ?_ (by omega) (by omega) hl
      intro p hp hp'
      by_cases hpa : a ≤ p ∧ p < b
      · exact hP p hpa.1 hpa.2
      · exact hPx p (by omega) (by omega)
    · rw [if_neg hxb]
      exact ⟨a, b, rfl, hlo, hab, hb, hP, x, y, rfl, by omega, hxy, hy, hPx, hl⟩

theorem Held.add (hhi : hi ≤ lo + 2 ^ 31) (hlo : lo < a) (hab : a < b) (hb : b ≤ hi)
    (hP : ∀ p, a ≤ p → p < b → P p) (h : Held irs P hi lo l) :
    Held irs P hi lo (tcpOooAdd l (serial irs a) (serial irs b)) := by
  rcases tcpOooAdd_cases l (serial irs a) (serial irs b) with he | he
  · rw [he]
    exact h
  · rw [he]
    exact h.insert hhi hlo hab hb hP

/-- The ranges the next place has come to are taken off the front. -/
theorem Held.settle {lo hi : Nat} (hlo : got ≤ lo) (hhi : hi ≤ got + 2 ^ 31)
    (hn : t.rcvNxt = serial irs (got + t.rxLen)) (hle : got + t.rxLen ≤ hi)
    (hP : ∀ p, got ≤ p → p < got + t.rxLen → P p) (h : Held irs P hi lo l) :
    ∃ len ooo, settleLoop l t =
        { t with rxLen := len, rcvNxt := serial irs (got + len), ooo := ooo } ∧
      t.rxLen ≤ len ∧ got + len ≤ hi ∧ (∀ p, got ≤ p → p < got + len → P p) ∧
      Held irs P hi (got + len) ooo := by
  induction l generalizing lo t with
  | nil => exact ⟨t.rxLen, [], by rw [settleLoop, ← hn], Nat.le_refl _, hle, hP, trivial⟩
  | cons r l ih =>
    obtain ⟨x, y, rfl, hlx, hxy, hy, hPx, hl⟩ := h
    have hreach : seqLeq (serial irs x) t.rcvNxt = decide (x ≤ got + t.rxLen) := by
      rw [hn]
      exact seqLeq_serial (by omega) (by omega)
    have hfar : seqLt t.rcvNxt (serial irs y) = decide (got + t.rxLen < y) := by
      rw [hn]
      exact seqLt_serial (by omega) (by omega)
    simp only [settleLoop, hreach, hfar, decide_eq_true_eq]
    by_cases hx : x ≤ got + t.rxLen
    · rw [if_pos hx]
      by_cases hy' : got + t.rxLen < y
      · rw [if_pos hy']
        have hlen : t.rxLen + (serial irs y - t.rcvNxt).toNat = y - got := by
          rw [hn, toNat_serial_sub (by omega) (by omega)]
          omega
        have hplace : got + (y - got) = y := by omega
        have hPy : ∀ p, got ≤ p → p < got + (y - got) → P p := by
          intro p hp hpy
          rcases Nat.lt_or_ge p (got + t.rxLen) with hlt | hge
          · exact hP p hp hlt
          · exact hPx p (by omega) (by omega)
        obtain ⟨len, ooo, heq, hge, hle', hP', hl'⟩ := ih
          (t := { t with rxLen := y - got, rcvNxt := serial irs y }) (by omega)
          (by rw [hplace]) (show got + (y - got) ≤ hi by omega) hPy hl
        have hge : y - got ≤ len := hge
        rw [hlen]
        exact ⟨len, ooo, heq, by omega, hle', hP', hl'⟩
      · rw [if_neg hy']
        exact ih (by omega) hn hle hP hl
    · rw [if_neg hx]
      refine ⟨t.rxLen, ⟨serial irs x, serial irs y⟩ :: l, by rw [← hn], Nat.le_refl _, hle, hP, ?_⟩
      exact ⟨x, y, rfl, by omega, hxy, hy, hPx, hl⟩

end Held

/-! ## The receive side -/

/-- Place `p` of the stream is in the ring where the reader, who has come to place `got`,
will find it. -/
def Right (stream : List UInt8) (got : Nat) (t : RcvSide) (p : Nat) : Prop :=
  t.rx ((t.rxStart + (p - got)) % tcpRxBuf) = stream.getD p 0

/-- The receive side of a connection whose reader has come to place `got` of the stream,
whose first byte has the number `irs`. -/
structure Received (stream : List UInt8) (irs : UInt32) (got : Nat) (t : RcvSide) : Prop where
  start : t.rxStart < tcpRxBuf
  fits : t.rxLen ≤ tcpRxBuf
  within : got + t.rxLen ≤ stream.length
  nxt : t.rcvNxt = serial irs (got + t.rxLen + if t.peerFin then 1 else 0)
  bytes : ∀ p, got ≤ p → p < got + t.rxLen → Right stream got t p
  held : Held irs (Right stream got t) (min (got + tcpRxBuf) stream.length) (got + t.rxLen) t.ooo
  fin : t.finSeen = true → t.finSeq = serial irs stream.length ∧ stream.length ≤ got + tcpRxBuf
  done : t.peerFin = true → got + t.rxLen = stream.length

section Received

variable {stream : List UInt8} {irs : UInt32} {got : Nat}

theorem Received.nxt_of_open {t : RcvSide} (h : Received stream irs got t)
    (hf : t.peerFin = false) : t.rcvNxt = serial irs (got + t.rxLen) := by
  rw [h.nxt, hf]
  rfl

/-- The bytes that were there stay, and the new ones are right when they are those of the
stream. -/
theorem putRx_right {off : Nat} (hfit : t.rxLen + off + data.length ≤ tcpRxBuf)
    (hdata : ∀ j < data.length, data.getD j 0 = stream.getD (got + t.rxLen + off + j) 0) {p : Nat}
    (hp : got ≤ p) (hp' : p < got + tcpRxBuf)
    (h : Right stream got t.toRcvSide p ∨
      (got + t.rxLen + off ≤ p ∧ p < got + t.rxLen + off + data.length)) :
    Right stream got (putRx t off data).toRcvSide p := by
  have hrx : (putRx t off data).rx
      = ringStore tcpRxBuf t.rx ((t.rxStart + (t.rxLen + off)) % tcpRxBuf) data := by
    rw [← Nat.add_assoc]
    rfl
  show (putRx t off data).rx ((t.rxStart + (p - got)) % tcpRxBuf) = _
  rw [hrx, ringStore_at hfit (by omega)]
  by_cases hin : got + t.rxLen + off ≤ p ∧ p < got + t.rxLen + off + data.length
  · have hj : p - got - (t.rxLen + off) < data.length := by omega
    have hplace : got + t.rxLen + off + (p - got - (t.rxLen + off)) = p := by omega
    have hbyte := hdata _ hj
    rw [hplace] at hbyte
    rw [if_pos (by omega), ← hbyte, getD_eq_getElem?_getD, getD_eq_getElem?_getD,
      getElem?_eq_getElem hj]
    rfl
  · have hold := h.resolve_right hin
    split
    · rw [getD_eq_getElem?_getD, getElem?_eq_none (by omega)]
      exact hold
    · exact hold

section

variable (h : Received stream irs got t.toRcvSide)

include h

/-- The bytes are in the ring and the FIN is noted; nothing is counted yet. -/
theorem Received.put (hf : t.peerFin = false) {off : Nat} {stop : UInt32}
    (hfit : t.rxLen + off + data.length ≤ tcpRxBuf)
    (hdata : ∀ j < data.length, data.getD j 0 = stream.getD (got + t.rxLen + off + j) 0)
    (hfin : fin = true → stop = serial irs stream.length ∧ stream.length ≤ got + tcpRxBuf) :
    let u := noteFin (putRx t off data) fin stop
    Received stream irs got u.toRcvSide ∧
      ∀ p, got + t.rxLen + off ≤ p → p < got + t.rxLen + off + data.length →
        Right stream got u.toRcvSide p := by
  intro u
  have hu : u.rx = (putRx t off data).rx ∧ u.rxStart = t.rxStart ∧ u.rxLen = t.rxLen ∧
      u.rcvNxt = t.rcvNxt ∧ u.ooo = t.ooo ∧ u.peerFin = t.peerFin := by
    simp only [u, noteFin]
    split <;> exact ⟨rfl, rfl, rfl, rfl, rfl, rfl⟩
  obtain ⟨hrx, hstart, hlen, hnxt, hooo, hpf⟩ := hu
  have hright : ∀ p, got ≤ p → p < got + tcpRxBuf → (Right stream got t.toRcvSide p ∨
      (got + t.rxLen + off ≤ p ∧ p < got + t.rxLen + off + data.length)) →
      Right stream got u.toRcvSide p := by
    intro p hp hp' hor
    have hput := putRx_right hfit hdata hp hp' hor
    rw [Right]
    rw [hrx, hstart]
    exact hput
  refine ⟨⟨?_, ?_, ?_, ?_, ?_, ?_, ?_, ?_⟩, ?_⟩
  · rw [hstart]
    exact h.start
  · rw [hlen]
    exact h.fits
  · rw [hlen]
    exact h.within
  · rw [hnxt, hlen, hpf]
    exact h.nxt
  · rw [hlen]
    intro p hp hp'
    exact hright p hp (by omega) (.inl (h.bytes p hp hp'))
  · rw [hlen, hooo]
    refine h.held.mono (Nat.le_refl _) ?_
    intro p hp hp' hold
    exact hright p (by omega) (by omega) (.inl hold)
  · simp only [u, noteFin]
    split
    · next hfin' => exact fun _ => hfin hfin'
    · exact h.fin
  · rw [hpf, hf]
    intro hno
    cases hno
  · intro p hp hp'
    exact hright p (by omega) (by omega) (.inr ⟨hp, hp'⟩)

theorem Received.ahead {s take : Nat}
    (hs : got + t.rxLen < s) (hfit : s + take ≤ got + tcpRxBuf) (hlen : s + take ≤ stream.length)
    (hP : ∀ p, s ≤ p → p < s + take → Right stream got t.toRcvSide p) :
    Received stream irs got (takeAhead t (serial irs s) take).toRcvSide := by
  rw [takeAhead]
  split
  · refine { h with held := ?_ }
    rw [serial_add_ofNat]
    have hbuf : tcpRxBuf = 262144 := rfl
    exact h.held.add (by omega) hs (by omega) (by omega) hP
  · exact h

/-- The next bytes are there, and with them those of the ranges they reach. -/
theorem Received.next (hf : t.peerFin = false) (take : Nat) (hfit : t.rxLen + take ≤ tcpRxBuf)
    (hlen : got + t.rxLen + take ≤ stream.length)
    (hP : ∀ p, got + t.rxLen ≤ p → p < got + t.rxLen + take → Right stream got t.toRcvSide p) :
    Received stream irs got (takeNext t take).toRcvSide ∧ (takeNext t take).peerFin = false ∧
      t.rxLen + take ≤ (takeNext t take).rxLen := by
  have hbuf : tcpRxBuf = 262144 := rfl
  let u : Tcb := { t with rxLen := t.rxLen + take, rcvNxt := t.rcvNxt + UInt32.ofNat take }
  have hn : u.rcvNxt = serial irs (got + u.rxLen) := by
    show t.rcvNxt + UInt32.ofNat take = serial irs (got + (t.rxLen + take))
    rw [h.nxt_of_open hf, serial_add_ofNat, Nat.add_assoc]
  have hPu : ∀ p, got ≤ p → p < got + u.rxLen → Right stream got t.toRcvSide p := by
    intro p hp hp'
    have hp' : p < got + (t.rxLen + take) := hp'
    rcases Nat.lt_or_ge p (got + t.rxLen) with hlt | hge
    · exact h.bytes p hp hlt
    · exact hP p hge (by omega)
  obtain ⟨len, ooo, heq, hge, hle, hP', hheld⟩ := Held.settle
    (Nat.le_add_right got t.rxLen) (by omega) hn
    (show got + (t.rxLen + take) ≤ min (got + tcpRxBuf) stream.length by omega) hPu h.held
  have hnext : takeNext t take = { u with rxLen := len, rcvNxt := serial irs (got + len), ooo := ooo } :=
    heq
  rw [hnext]
  refine ⟨⟨h.start, ?_, ?_, ?_, hP', hheld, h.fin, ?_⟩, hf, hge⟩
  · show len ≤ tcpRxBuf
    omega
  · show got + len ≤ stream.length
    omega
  · show serial irs (got + len) = serial irs (got + len + if t.peerFin then 1 else 0)
    rw [hf]
    rfl
  · intro hno
    rw [show t.peerFin = true from hno] at hf
    cases hf

/-- The FIN is taken once all bytes before it are there. -/
theorem Received.takeFin (hf : t.peerFin = false) (now : Nat) :
    Received stream irs got (Tcp.takeFin t now).toRcvSide ∧
      (Tcp.takeFin t now).rxLen = t.rxLen := by
  have hbuf : tcpRxBuf = 262144 := rfl
  have hin := h.within
  have hnxt := h.nxt_of_open hf
  simp only [Tcp.takeFin]
  split
  · rename_i hcond
    rw [Bool.and_eq_true, beq_iff_eq] at hcond
    obtain ⟨hseq, hle⟩ := h.fin hcond.1
    have hsame : serial irs (got + t.rxLen) = serial irs stream.length := by
      rw [← hseq, ← hnxt]
      exact hcond.2.symm
    have hall : got + t.rxLen = stream.length := serial_inj hsame (by omega) (by omega)
    have hdone : Received stream irs got
        { t.toRcvSide with rcvNxt := t.rcvNxt + 1, peerFin := true } := by
      refine { h with nxt := ?_, done := fun _ => hall }
      show t.rcvNxt + 1 = serial irs (got + t.rxLen + 1)
      rw [hnxt, serial_add_one]
    split <;> exact ⟨hdone, rfl⟩
  · exact ⟨h, rfl⟩

/-- The bytes from place `s` of the stream on, where `s` is not before the next place. -/
theorem Received.takeData (hf : t.peerFin = false) {s : Nat} (now : Nat)
    (hs : got + t.rxLen ≤ s) (hfar : s < got + t.rxLen + 2 ^ 32)
    (hdata : ∀ j < data.length, data.getD j 0 = stream.getD (s + j) 0)
    (hlen : s + data.length ≤ stream.length)
    (hfin : fin = true → s + data.length = stream.length) :
    Received stream irs got (Tcp.takeData t (serial irs s) data fin now).toRcvSide ∧
      (s = got + t.rxLen → t.rxLen + min data.length (tcpRxBuf - t.rxLen)
        ≤ (Tcp.takeData t (serial irs s) data fin now).rxLen) := by
  have hfits := h.fits
  have hoff : (serial irs s - t.rcvNxt).toNat = s - (got + t.rxLen) := by
    rw [h.nxt_of_open hf, toNat_serial_sub hs (by omega)]
  simp only [Tcp.takeData, hoff]
  by_cases hout : s - (got + t.rxLen) ≠ 0 ∧ s - (got + t.rxLen) ≥ tcpRxBuf - t.rxLen
  · rw [if_pos hout]
    exact ⟨h, fun he => absurd (by omega) hout.1⟩
  rw [if_neg hout]
  -- What there is room for.
  have htake : takeSize t (s - (got + t.rxLen)) data.length
      = min data.length (tcpRxBuf - t.rxLen - (s - (got + t.rxLen))) := by
    simp only [takeSize]
    split <;> omega
  generalize takeSize t (s - (got + t.rxLen)) data.length = take at htake
  have hl : (data.take take).length = take := by
    rw [length_take]
    omega
  have hplace : got + t.rxLen + (s - (got + t.rxLen)) = s := by omega
  have hdata' : ∀ j < (data.take take).length, (data.take take).getD j 0
      = stream.getD (got + t.rxLen + (s - (got + t.rxLen)) + j) 0 := by
    intro j hj
    rw [hplace, ← hdata j (by omega), getD_eq_getElem?_getD, getD_eq_getElem?_getD,
      getElem?_take_of_lt (by omega)]
  have hnoted : (fin && take == data.length) = true →
      serial irs s + UInt32.ofNat take = serial irs stream.length ∧
        stream.length ≤ got + tcpRxBuf := by
    intro hand
    rw [Bool.and_eq_true, beq_iff_eq] at hand
    have hend := hfin hand.1
    rw [serial_add_ofNat, hand.2, hend]
    exact ⟨rfl, by omega⟩
  obtain ⟨hput, hright⟩ := h.put hf (by omega) hdata' hnoted
  rw [hl, hplace] at hright
  generalize hu : noteFin (putRx t (s - (got + t.rxLen)) (data.take take))
    (fin && take == data.length) (serial irs s + UInt32.ofNat take) = u at hput hright
  have hsame : u.rxLen = t.rxLen ∧ u.peerFin = t.peerFin := by
    rw [← hu, noteFin]
    split <;> exact ⟨rfl, rfl⟩
  have hpf : u.peerFin = false := by rw [hsame.2, hf]
  by_cases hzero : s - (got + t.rxLen) = 0
  · rw [if_neg (by simpa using hzero)]
    have hs0 : s = got + t.rxLen := by omega
    obtain ⟨hnext, hpf', hge⟩ := hput.next hpf take (by omega) (by omega)
      (by rw [hsame.1, ← hs0]; exact hright)
    obtain ⟨hdone, hsamelen⟩ := hnext.takeFin hpf' now
    exact ⟨hdone, fun _ => by omega⟩
  · rw [if_pos hzero]
    have hahead := hput.ahead (by omega) (by omega) (by omega) hright
    have hpf' : (takeAhead u (serial irs s) take).peerFin = false := by
      rw [takeAhead]
      split <;> exact hpf
    exact ⟨(hahead.takeFin hpf' now).1, fun he => absurd (by omega) hzero⟩

end

/-- Once the FIN was taken nothing is. -/
theorem tcpGotData_of_fin {seq : UInt32}
    (hf : t.peerFin = true) : tcpGotData t seq data fin now = t := by
  simp only [tcpGotData, hf, if_true, ite_self]

/-- A segment whose first byte is at place `k` of the stream, unless it is so far away that
its number could be that of a place in the window. -/
theorem Received.gotData (h : Received stream irs got t.toRcvSide) {k : Nat}
    (hold : got + t.rxLen + tcpRxBuf ≤ k + 2 ^ 32)
    (hfar : k + data.length < got + t.rxLen + 2 ^ 32) (hsize : data.length < 2 ^ 16)
    (hdata : ∀ j < data.length, data.getD j 0 = stream.getD (k + j) 0)
    (hlen : k + data.length ≤ stream.length)
    (hfin : fin = true → k + data.length = stream.length) :
    Received stream irs got (tcpGotData t (serial irs k) data fin now).toRcvSide ∧
      (k ≤ got + t.rxLen → min (k + data.length) (got + tcpRxBuf)
        ≤ got + (tcpGotData t (serial irs k) data fin now).rxLen) := by
  have hbuf : tcpRxBuf = 262144 := rfl
  by_cases hf : t.peerFin = true
  · rw [tcpGotData_of_fin hf]
    have hall := h.done hf
    exact ⟨h, fun _ => by omega⟩
  have hf : t.peerFin = false := by simpa using hf
  have hnxt := h.nxt_of_open hf
  have hnew : ∀ {seq : UInt32} {l : List UInt8}, (if t.peerFin = true then t else
      Tcp.takeData t seq l fin now) = Tcp.takeData t seq l fin now := by
    intro seq l
    rw [hf]
    rfl
  simp only [tcpGotData, hnew]
  rcases Nat.lt_or_ge k (got + t.rxLen) with hlt | hge
  · have hback : (t.rcvNxt - serial irs k).toNat = got + t.rxLen - k := by
      rw [hnxt, toNat_serial_sub (by omega) (by omega)]
    have hdiff : (serial irs k - t.rcvNxt).toNat = 2 ^ 32 - (got + t.rxLen - k) := by
      rw [hnxt, toNat_serial_sub_of_lt hlt (by omega)]
      omega
    by_cases hhalf : got + t.rxLen - k ≤ 2 ^ 31
    · have hbefore : seqLt (serial irs k) t.rcvNxt = true := by
        rw [seqLt, serialLt_iff]
        omega
      rw [if_pos hbefore, hback]
      split
      · exact ⟨h, fun _ => by omega⟩
      -- The part that was there already is cut off.
      have hcut : ∀ j < (data.drop (got + t.rxLen - k)).length,
          (data.drop (got + t.rxLen - k)).getD j 0 = stream.getD (got + t.rxLen + j) 0 := by
        intro j hj
        rw [length_drop] at hj
        have hbyte := hdata (got + t.rxLen - k + j) (by omega)
        rw [show k + (got + t.rxLen - k + j) = got + t.rxLen + j by omega] at hbyte
        rw [← hbyte, getD_eq_getElem?_getD, getD_eq_getElem?_getD, getElem?_drop]
      have hl : (data.drop (got + t.rxLen - k)).length = data.length - (got + t.rxLen - k) :=
        length_drop
      obtain ⟨hrec, hprog⟩ := h.takeData hf now (Nat.le_refl _) (by omega) hcut
        (by omega) (fun hfin' => by have := hfin hfin'; omega)
      rw [← hnxt] at hrec hprog
      exact ⟨hrec, fun _ => by omega⟩
    · -- Half a turn behind and more: it looks as if it were ahead, but past the window.
      have hbefore : ¬seqLt (serial irs k) t.rcvNxt = true := by
        rw [seqLt, serialLt_iff]
        omega
      rw [if_neg hbefore]
      have hsame : Tcp.takeData t (serial irs k) data fin now = t := by
        simp only [Tcp.takeData]
        rw [if_pos ⟨by omega, by omega⟩]
      rw [hsame]
      exact ⟨h, fun _ => by omega⟩
  · have hdiff : (serial irs k - t.rcvNxt).toNat = k - (got + t.rxLen) := by
      rw [hnxt, toNat_serial_sub hge (by omega)]
    by_cases hhalf : 2 ^ 31 ≤ k - (got + t.rxLen)
    · -- Half a turn ahead and more: it looks as if it were behind.
      have hbefore : seqLt (serial irs k) t.rcvNxt = true := by
        rw [seqLt, serialLt_iff, hdiff]
        exact hhalf
      have hback : (t.rcvNxt - serial irs k).toNat = 2 ^ 32 - (k - (got + t.rxLen)) := by
        rw [hnxt, toNat_serial_sub_of_lt (by omega) (by omega)]
        omega
      rw [if_pos hbefore, if_pos (by omega)]
      exact ⟨h, fun _ => by omega⟩
    · have hbefore : ¬seqLt (serial irs k) t.rcvNxt = true := by
        rw [seqLt, serialLt_iff, hdiff]
        exact hhalf
      rw [if_neg hbefore]
      obtain ⟨hrec, hprog⟩ := h.takeData hf now hge (by omega) hdata hlen hfin
      refine ⟨hrec, fun hle => ?_⟩
      omega

/-- The reader takes the first `n` bytes. -/
theorem Received.read {t : RcvSide} (h : Received stream irs got t) (hn : n ≤ t.rxLen) :
    Received stream irs (got + n)
      { t with rxStart := (t.rxStart + n) % tcpRxBuf, rxLen := t.rxLen - n } := by
  have hfits := h.fits
  have hin := h.within
  have hplace : got + n + (t.rxLen - n) = got + t.rxLen := by omega
  have hright : ∀ p, got + n ≤ p → Right stream got t p → Right stream (got + n)
      { t with rxStart := (t.rxStart + n) % tcpRxBuf, rxLen := t.rxLen - n } p := by
    intro p hp hold
    show t.rx (((t.rxStart + n) % tcpRxBuf + (p - (got + n))) % tcpRxBuf) = _
    rw [Nat.mod_add_mod, show t.rxStart + n + (p - (got + n)) = t.rxStart + (p - got) by omega]
    exact hold
  refine ⟨Nat.mod_lt _ (by decide), ?_, ?_, ?_, ?_, ?_, ?_, ?_⟩
  · show t.rxLen - n ≤ tcpRxBuf
    omega
  · show got + n + (t.rxLen - n) ≤ stream.length
    omega
  · show t.rcvNxt = serial irs (got + n + (t.rxLen - n) + _)
    rw [hplace]
    exact h.nxt
  · intro p hp hp'
    have hp' : p < got + n + (t.rxLen - n) := hp'
    exact hright p hp (h.bytes p (by omega) (by omega))
  · show Held irs _ _ (got + n + (t.rxLen - n)) t.ooo
    rw [hplace]
    refine h.held.mono (by omega) ?_
    intro p hp _ hold
    exact hright p (by omega) hold
  · intro hseen
    obtain ⟨hseq, hle⟩ := h.fin hseen
    exact ⟨hseq, by omega⟩
  · intro hdone
    show got + n + (t.rxLen - n) = stream.length
    rw [hplace]
    exact h.done hdone

/-- What it gets. -/
theorem Received.ringList {t : RcvSide} (h : Received stream irs got t) (hn : n ≤ t.rxLen) :
    Lib.ringList tcpRxBuf t.rx t.rxStart n = (stream.drop got).take n := by
  have hin := h.within
  refine ext_getElem (by rw [length_ringList, length_take, length_drop]; omega) ?_
  intro j hj hj'
  rw [length_ringList] at hj
  have hbyte := h.bytes (got + j) (by omega) (by omega)
  rw [Right, Nat.add_sub_cancel_left, getD_eq_getElem?_getD,
    getElem?_eq_getElem (by omega)] at hbyte
  simp only [Lib.ringList, getElem_map, getElem_range, getElem_take, getElem_drop]
  exact hbyte

end Received

/-! ## The edge of the window -/

/-- The edge the peer was told is between the next place and the end of the ring. -/
def Advised (irs : UInt32) (got : Nat) (t : Tcb) : Prop :=
  t.peerFin = false →
    ∃ edge, t.rcvAdv = serial irs edge ∧ got + t.rxLen ≤ edge ∧ edge ≤ got + tcpRxBuf

theorem tcpRcvWindow_le (t : Tcb) : tcpRcvWindow t <<< t.rcvShift ≤ tcpRxBuf - t.rxLen := by
  have hroom : ((tcpRxBuf - t.rxLen) >>> t.rcvShift) <<< t.rcvShift ≤ tcpRxBuf - t.rxLen := by
    rw [Nat.shiftLeft_eq, Nat.shiftRight_eq_div_pow]
    exact Nat.div_mul_le_self _ _
  refine Nat.le_trans ?_ hroom
  rw [Nat.shiftLeft_eq, Nat.shiftLeft_eq]
  refine Nat.mul_le_mul_right _ ?_
  simp only [tcpRcvWindow]
  split <;> omega

/-- An edge told anew is one. -/
theorem Advised.of_edge {stream : List UInt8}
    (h : Received stream irs got t.toRcvSide) (hadv : t.rcvAdv = advEdge t) :
    Advised irs got t := by
  intro hf
  have hle := tcpRcvWindow_le t
  have hfits := h.fits
  rw [hadv, advEdge, h.nxt_of_open hf, serial_add_ofNat]
  generalize tcpRcvWindow t <<< t.rcvShift = window at hle
  exact ⟨got + t.rxLen + window, rfl, by omega, by omega⟩

theorem Advised.told {stream : List UInt8} {t' : Tcb}
    (h : Advised irs got t) (hrec : Received stream irs got t.toRcvSide)
    (hr : t'.toRcvSide = t.toRcvSide) (htold : Told t t') : Advised irs got t' := by
  rcases htold with hadv | hadv
  · intro hf
    rw [hr] at hf ⊢
    rw [hadv]
    exact h hf
  · have hrec' : Received stream irs got t'.toRcvSide := by
      rw [hr]
      exact hrec
    exact .of_edge hrec' (by rw [hadv, advEdge_congr hr])

/-! ## The connection while it is read from -/

/-- What a state means for the reader. -/
inductive Phase where
  | handshake | open | late
deriving DecidableEq, Repr

/-- Bytes are taken while it is open; afterwards there are none left to take. -/
def State.phase : State → Phase
  | .listen | .synSent | .synRcvd => .handshake
  | .established | .finWait1 | .finWait2 => .open
  | .closing | .timeWait | .closeWait | .lastAck | .closed => .late

/-- A connection past its handshake, whose reader was given the bytes `got`, and that
nothing but the peer's FIN has ended. -/
structure Reading (stream : List UInt8) (irs : UInt32) (got : List UInt8) (t : Tcb) : Prop where
  rcv : Received stream irs got.length t.toRcvSide
  front : got = stream.take got.length
  phase : (t.state.phase = .open ∧ t.peerFin = false) ∨ (t.state.phase = .late ∧ t.peerFin = true)
  was : t.wasConnected = true
  error : t.error = none
  shut : t.rdShut = false
  attached : t.detached = false

theorem phase_open {s : State} (h : s.phase = .open) :
    s = .established ∨ s = .finWait1 ∨ s = .finWait2 := by
  revert h
  cases s <;> decide

theorem canTake_iff : tcpCanTakeData t = true ↔ t.state.phase = .open := by
  simp only [tcpCanTakeData]
  cases t.state <;> decide

/-- The receive side is left alone, up to the edge that is told. -/
structure Beside (t t' : Tcb) : Prop where
  rcv : t'.toRcvSide = t.toRcvSide
  told : Told t t'
  phase : t'.state.phase = t.state.phase
  error : t'.error = t.error
  detached : t'.detached = t.detached
  was : t'.wasConnected = t.wasConnected

namespace Beside

variable {t t' t'' : Tcb} {w : Work}

theorem refl (t : Tcb) : Beside t t := ⟨rfl, .inl rfl, rfl, rfl, rfl, rfl⟩

theorem trans (h : Beside t t') (h' : Beside t' t'') : Beside t t'' :=
  ⟨h'.rcv.trans h.rcv, h.told.trans h.rcv h'.told, h'.phase.trans h.phase,
    h'.error.trans h.error, h'.detached.trans h.detached, h'.was.trans h.was⟩

theorem of_inner (h : Inner t t') : Beside t t' :=
  ⟨h.rcv, .inl h.adv, by rw [h.state], h.error, h.detached, h.was⟩

theorem of_pushed (h : Pushed t t') : Beside t t' := by
  refine ⟨h.rcv, h.told, ?_, h.error, h.detached, h.was⟩
  rcases h.state with hs | ⟨hs, hs'⟩ | ⟨hs, hs'⟩
  · rw [hs]
  · rw [hs, hs']; rfl
  · rw [hs, hs']; rfl

theorem of_acked (h : Acked t t') : Beside t t' := by
  refine ⟨h.rcv, .inl h.adv, ?_, h.error, h.detached, h.was⟩
  rcases h.state with hs | ⟨hs, hs'⟩ | ⟨hs, hs'⟩ | ⟨hs, hs'⟩
  · rw [hs]
  · rw [hs, hs']; rfl
  · rw [hs, hs']; rfl
  · rw [hs, hs']; rfl

/-- A connection nobody is waiting for data on any more may close. -/
theorem setClosed (h : t.state.phase = .late) : Beside t (tcpSetClosed t none) :=
  ⟨rfl, .inl rfl, h.symm, tcpSetClosed_error, rfl, rfl⟩

theorem push (h : Beside t w.t) : Beside t (tcpPush w now).t :=
  h.trans (of_pushed (Pushed.refl w.t).push)

theorem tcpSetClosed_some (t : Tcb) (e : Errno) : (tcpSetClosed t (some e)).error ≠ none := by
  simp only [tcpSetClosed]
  split
  · simp
  · next h => exact h

theorem timeout (hs : w.t.state.phase ≠ .handshake)
    (he : (tcpTimeout w now).2.t.error = none) : Beside w.t (tcpTimeout w now).2.t := by
  have hsyn : ∀ {u : Tcb}, u.state = w.t.state → isSyn u = false := by
    intro u hu
    rw [isSyn, hu]
    revert hs
    cases w.t.state <;> decide
  have hrcvd : w.t.state ≠ .synRcvd := fun h => hs (by rw [h]; rfl)
  have hsent : w.t.state ≠ .synSent := fun h => hs (by rw [h]; rfl)
  revert he
  simp only [tcpTimeout]
  by_cases hidle : (!isSyn w.t && w.t.sndNxt - w.t.sndUna == 0 && !wantsProbe w.t) = true
  · rw [if_pos hidle]
    exact fun _ => of_inner ((Inner.refl w.t).set _ _ _)
  rw [if_neg hidle]
  split
  · -- It gives up, and says so.
    rw [giveUp, if_neg hrcvd, if_neg hsent]
    exact fun he => absurd he (tcpSetClosed_some _ _)
  intro _
  rw [tryAgain]
  split
  · next hyes => cases (hsyn rfl).symm.trans hyes
  split
  · exact ⟨rfl, .inr rfl, rfl, rfl, rfl, rfl⟩
  · exact of_inner ((Inner.refl w.t).set _ _ _)

theorem keepalive (he : (tcpKeepalive w now).t.error = none) :
    Beside w.t (tcpKeepalive w now).t := by
  revert he
  simp only [tcpKeepalive]
  split
  · exact fun _ => refl w.t
  split
  · exact fun _ => refl w.t
  split
  · exact fun _ => refl w.t
  split
  · exact fun he => absurd he (tcpSetClosed_some _ _)
  · exact fun _ => ⟨rfl, .inr rfl, rfl, rfl, rfl, rfl⟩

end Beside

namespace Reading

variable {stream got : List UInt8} {irs : UInt32} {t t' : Tcb}

theorem beside (h : Reading stream irs got t) (hb : Beside t t') : Reading stream irs got t' := by
  have hpf : t'.peerFin = t.peerFin := by rw [hb.rcv]
  refine ⟨by rw [hb.rcv]; exact h.rcv, h.front, ?_, hb.was.trans h.was, hb.error.trans h.error,
    by rw [hb.rcv]; exact h.shut, hb.detached.trans h.attached⟩
  rw [hpf, hb.phase]
  exact h.phase

/-- The FIN closes the side it comes in on, and only then. -/
theorem takeFin_phase {u : Tcb} (now : Nat) (hs : u.state.phase = .open) (hf : u.peerFin = false) :
    let t := takeFin u now
    ((t.state.phase = .open ∧ t.peerFin = false) ∨ (t.state.phase = .late ∧ t.peerFin = true)) ∧
      t.rdShut = u.rdShut := by
  simp only [takeFin]
  split
  · rcases phase_open hs with hst | hst | hst <;> rw [hst] <;> exact ⟨.inr ⟨rfl, rfl⟩, rfl⟩
  · exact ⟨.inl ⟨hs, hf⟩, rfl⟩

theorem gotData (h : Reading stream irs got t) {seq : UInt32} (hopen : t.state.phase = .open)
    (hrec : Received stream irs got.length (tcpGotData t seq data fin now).toRcvSide) :
    Reading stream irs got (tcpGotData t seq data fin now) := by
  have hf : t.peerFin = false := by
    rcases h.phase with hp | hp
    · exact hp.2
    · rw [hopen] at hp
      cases hp.1
  have hfed : Fed t (tcpGotData t seq data fin now) := .gotData
  rcases tcpGotData_cases t seq data fin now with heq | ⟨u, hu, heq⟩
  · rw [heq]
    exact h
  have hstate : u.state = t.state := by rw [hu.eq]
  have hphase := takeFin_phase now (hstate ▸ hopen) (hu.fin.trans hf)
  rw [← heq] at hphase
  exact ⟨hrec, h.front, hphase.1, hfed.was.trans h.was, hfed.error.trans h.error,
    hphase.2.trans (hu.shut.trans h.shut), hfed.detached.trans h.attached⟩

end Reading

/-! ## Segments of the stream -/

/-- A segment with the bytes of the stream from place `k` on, and the FIN only at its end. -/
structure Carries (stream : List UInt8) (irs : UInt32) (k : Nat) (h : Seg) : Prop where
  seq : h.seq = serial irs k
  size : h.body.length < 2 ^ 16
  bytes : ∀ j < h.body.length, h.body.getD j 0 = stream.getD (k + j) 0
  within : k + h.body.length ≤ stream.length
  fin : h.flags.fin = true → k + h.body.length = stream.length

/-- `len` bytes at place `k` are not so far from the next place that their numbers come
round to the window. -/
def Near (next k len : Nat) : Prop := next + tcpRxBuf ≤ k + 2 ^ 32 ∧ k + len < next + 2 ^ 32

/-- The segment acknowledges something that was never sent. -/
def bogusAck (t : Tcb) (h : Seg) : Bool := h.flags.ack && seqLt t.sndNxt h.ack

/-- Of a segment of the stream that has the next byte, everything the ring has room for is
readable in `t'`. -/
def Takes (stream : List UInt8) (irs : UInt32) (got : Nat) (h : Seg) (t t' : Tcb) : Prop :=
  ∀ k, Carries stream irs k h → Near (got + t.rxLen) k h.body.length → k ≤ got + t.rxLen →
    min (k + h.body.length) (got + tcpRxBuf) ≤ got + t'.rxLen

section Segment

variable {stream got : List UInt8} {irs : UInt32} {w : Work} {h : Seg} (now : Nat)

/-- What the connection takes of a segment. -/
theorem Reading.takeSegment (hr : Reading stream irs got t) (ha : Advised irs got.length t)
    (hseg : h.carries = true → ∃ k, Carries stream irs k h ∧
      Near (got.length + t.rxLen) k h.body.length) :
    let t' := Tcp.takeSegment t h now
    Reading stream irs got t' ∧
      (t'.state = .closed ∨ h.carries = false → Advised irs got.length t') ∧
      Takes stream irs got.length h t t' := by
  have hb : Beside t (if h.flags.ack then tcpGotAck t h.seq h.ack h.window (!h.carries) now else t) := by
    split
    · exact .of_acked (.gotAck t)
    · exact .refl t
  simp only [Tcp.takeSegment]
  generalize (if h.flags.ack then tcpGotAck t h.seq h.ack h.window (!h.carries) now else t) = u
    at hb
  generalize hresult : (if (h.carries && tcpCanTakeData u) = true then
    tcpGotData u h.seq h.body h.flags.fin now else u) = t'
  have hru := hr.beside hb
  have hau := ha.told hr.rcv hb.rcv hb.told
  have hlen : u.rxLen = t.rxLen := by rw [hb.rcv]
  by_cases hc : (h.carries && tcpCanTakeData u) = true
  · have ht' : t' = tcpGotData u h.seq h.body h.flags.fin now := by rw [← hresult, if_pos hc]
    rw [Bool.and_eq_true] at hc
    have hopen := canTake_iff.mp hc.2
    -- The segment at a place where its bytes are those of the stream.
    have hat : ∀ k, Carries stream irs k h → Near (got.length + t.rxLen) k h.body.length →
        Received stream irs got.length t'.toRcvSide ∧ (k ≤ got.length + u.rxLen →
          min (k + h.body.length) (got.length + tcpRxBuf) ≤ got.length + t'.rxLen) := by
      intro k hk hnear
      rw [← hlen] at hnear
      rw [ht', hk.seq]
      exact hru.rcv.gotData hnear.1 hnear.2 hk.size hk.bytes hk.within hk.fin
    obtain ⟨k, hk, hnear⟩ := hseg hc.1
    have hrec := (hat k hk hnear).1
    rw [ht'] at hrec
    refine ⟨by rw [ht']; exact hru.gotData hopen hrec, ?_, ?_⟩
    · rintro (hclosed | hno)
      · -- Taking data never closes a connection that is open.
        have hfed : Fed u t' := by
          rw [ht']
          exact .gotData
        rcases hfed.state with hs | ⟨-, hs⟩ | ⟨-, hs⟩ | ⟨-, hs⟩
        · rw [← hs, hclosed] at hopen
          cases hopen
        · cases hs.symm.trans hclosed
        · cases hs.symm.trans hclosed
        · cases hs.symm.trans hclosed
      · rw [hno] at hc
        cases hc.1
    · intro k' hk' hnear' hle
      exact (hat k' hk' hnear').2 (by rw [hlen]; exact hle)
  · have ht' : t' = u := by rw [← hresult, if_neg hc]
    rw [ht']
    refine ⟨hru, fun _ => hau, ?_⟩
    intro k hk _ hle
    cases hcarry : h.carries with
    | false =>
      have hempty : h.body = [] := by
        rw [Seg.carries, Bool.or_eq_false_iff] at hcarry
        simpa using hcarry.1
      rw [hempty]
      simp only [length_nil]
      omega
    | true =>
      -- It is past its end: there is nothing left to take.
      have hlate : u.state.phase = .late ∧ u.peerFin = true := by
        rcases hru.phase with hp | hp
        · rw [hcarry, canTake_iff.mpr hp.1] at hc
          exact absurd rfl hc
        · exact hp
      have hall := hru.rcv.done hlate.2
      have hin := hk.within
      omega

/-- The answer to a segment that carries something tells the edge anew. -/
theorem Reading.answer (hr : Reading stream irs got w.t)
    (ha : w.t.state = .closed ∨ h.carries = false → Advised irs got.length w.t) :
    let t' := (answerSegment w h now).t
    Reading stream irs got t' ∧ Advised irs got.length t' ∧ t'.rxLen = w.t.rxLen := by
  simp only [answerSegment]
  split
  · have hpush : Beside w.t (tcpPush w now).t := .push (.refl w.t)
    have hrp := hr.beside hpush
    split
    · have hack : Quiet (tcpPush w now).t (tcpSendAck (tcpPush w now)).t := (Quiet.refl _).sendAck
      have hra := hrp.beside (.of_pushed hack.pushed)
      exact ⟨hra, .of_edge hra.rcv (advEdge_congr hack.rcv).symm, by rw [hack.rcv, hpush.rcv]⟩
    rename_i hno
    have hcarry : h.carries = false := by
      cases hc : h.carries with
      | false => rfl
      | true => simp [hc] at hno
    exact ⟨hrp, (ha (.inr hcarry)).told hr.rcv hpush.rcv hpush.told, by rw [hpush.rcv]⟩
  · rename_i hclosed
    have hclosed : w.t.state = .closed := by simpa using hclosed
    exact ⟨hr, ha (.inl hclosed), rfl⟩

/-- `t'` reads on after a segment without RST, and took it unless its ack was bogus. -/
abbrev Heeds (stream got : List UInt8) (irs : UInt32) (h : Seg) (t t' : Tcb) : Prop :=
  Reading stream irs got t' ∧ Advised irs got.length t' ∧
    (bogusAck t h = false → Takes stream irs got.length h t t')

theorem Reading.arrives (hr : Reading stream irs got w.t) (ha : Advised irs got.length w.t)
    (hseg : h.carries = true → ∃ k, Carries stream irs k h ∧
      Near (got.length + w.t.rxLen) k h.body.length) :
    Heeds stream got irs h w.t (tcpArrives w h now).t := by
  have hclock : Beside w.t (heard w.t now) := .of_inner ((Inner.refl w.t).set _ _ _)
  have hr0 := hr.beside hclock
  have ha0 := ha.told hr.rcv hclock.rcv hclock.told
  simp only [tcpArrives]
  split
  · rename_i hbogus
    have hb : Beside w.t (tcpSendCtl { w with t := heard w.t now }
        { ack := true } w.t.sndNxt).t := ⟨rfl, .inr rfl, rfl, rfl, rfl, rfl⟩
    refine ⟨hr.beside hb, ha.told hr.rcv hb.rcv hb.told, ?_⟩
    intro hno
    cases hno.symm.trans hbogus
  · split
    · rename_i hdet
      simp only [hr0.attached] at hdet
      cases hdet
    · obtain ⟨hr1, ha1, hprog⟩ := hr0.takeSegment now ha0 hseg
      generalize Tcp.takeSegment _ h now = u at hr1 ha1 hprog
      obtain ⟨hr2, ha2, hlen⟩ := Reading.answer (w := { t := u, out := w.out }) now hr1 ha1
      refine ⟨hr2, ha2, ?_⟩
      intro _ k hk hnear hle
      rw [hlen]
      exact hprog k hk hnear hle

/-- Any segment without RST. -/
theorem Reading.input (rings : Option Rings) (hr : Reading stream irs got w.t)
    (ha : Advised irs got.length w.t) (hrst : h.flags.rst = false)
    (hseg : h.carries = true → ∃ k, Carries stream irs k h ∧
      Near (got.length + w.t.rxLen) k h.body.length) :
    Heeds stream got irs h w.t (tcpInput w h rings now).t := by
  -- Past the end every place of the stream is readable already.
  have hlate : w.t.state.phase = .late → ∀ {t' : Tcb}, Beside w.t t' →
      Heeds stream got irs h w.t t' := by
    intro hl t' hb
    refine ⟨hr.beside hb, ha.told hr.rcv hb.rcv hb.told, ?_⟩
    intro _ k hk _ _
    have hpf : w.t.peerFin = true := by
      rcases hr.phase with hp | hp
      · rw [hl] at hp
        cases hp.1
      · exact hp.2
    have hall := hr.rcv.done hpf
    have hin := hk.within
    have hlen : t'.rxLen = w.t.rxLen := by rw [hb.rcv]
    omega
  have hstate : w.t.state.phase ≠ .handshake := by
    rcases hr.phase with hp | hp <;> rw [hp.1] <;> decide
  have hopen : Heeds stream got irs h w.t (tcpOpenInput w h now).t := by
    rw [tcpOpenInput]
    split
    · rename_i hwait
      have hl : w.t.state.phase = .late := by rw [hwait.1]; rfl
      exact hlate hl (.setClosed hl)
    · rw [hrst]
      exact hr.arrives now ha hseg
  simp only [tcpInput]
  split
  · next hs => exact hlate (by rw [hs]; rfl) (.refl _)
  · next hs => exact absurd (by rw [hs]; rfl) hstate
  · next hs => exact absurd (by rw [hs]; rfl) hstate
  · next hs => exact absurd (by rw [hs]; rfl) hstate
  · exact hopen

end Segment

/-! ## Reading -/

/-- The bytes a call hands to the reader for good. -/
def received (t : Tcb) (c : Call) : List UInt8 :=
  match c.act with
  | .recv len false =>
    match (tcpRecv (c.begin t) len false).1 with
    | .ok bytes => bytes
    | .error _ => []
  | _ => []

section Recv

variable {stream got : List UInt8} {irs : UInt32} {w : Work}

/-- The reader takes the first `n` bytes. -/
theorem Reading.take (hr : Reading stream irs got t) (ha : Advised irs got.length t)
    (hn : n ≤ t.rxLen) :
    recvBytes t n = (stream.drop got.length).take n ∧
    Reading stream irs (got ++ recvBytes t n) (recvTake t n) ∧
    Advised irs (got ++ recvBytes t n).length (recvTake t n) := by
  have hfits := hr.rcv.fits
  have hin := hr.rcv.within
  have hbytes : recvBytes t n = (stream.drop got.length).take n := by
    rw [← hr.rcv.ringList hn]
    exact slice_append_slice hr.rcv.start (by omega)
  have hl : (got ++ recvBytes t n).length = got.length + n := by
    rw [hbytes, length_append, length_take, length_drop]
    omega
  refine ⟨hbytes, ⟨?_, ?_, hr.phase, hr.was, hr.error, hr.shut, hr.attached⟩, ?_⟩
  · rw [hl]
    exact hr.rcv.read hn
  · rw [hl, hbytes, take_add, ← hr.front]
  · intro hf
    obtain ⟨edge, he, hlo, hhi⟩ := ha hf
    rw [hl]
    refine ⟨edge, he, ?_, by omega⟩
    show got.length + n + (t.rxLen - n) ≤ edge
    omega

theorem Beside.tellWindow : Beside w.t (Tcp.tellWindow w).t := by
  simp only [Tcp.tellWindow]
  split
  · exact .of_pushed (Pushed.refl w.t).emit
  · exact .refl w.t

/-- `tcp_recv` gives the next bytes of the stream, and says that it has ended only when
the reader has all of it. -/
theorem Reading.recv (len : Nat) (hr : Reading stream irs got w.t)
    (ha : Advised irs got.length w.t) :
    (∀ bytes, (tcpRecv w len false).1 = .ok bytes →
      Reading stream irs (got ++ bytes) (tcpRecv w len false).2.t ∧
      Advised irs (got ++ bytes).length (tcpRecv w len false).2.t) ∧
    (∀ e, (tcpRecv w len false).1 = .error e → (tcpRecv w len false).2 = w) ∧
    (tcpRecv w len true).2 = w ∧
    ∀ peek, (tcpRecv w len peek).1 = .ok [] → 0 < len → got = stream := by
  by_cases hlen : w.t.rxLen ≠ 0
  · have hn : (if len < w.t.rxLen then len else w.t.rxLen) ≤ w.t.rxLen := by
      split <;> omega
    obtain ⟨hbytes, hrt, hat⟩ := hr.take ha hn
    have hin := hr.rcv.within
    simp only [tcpRecv, if_pos hlen]
    refine ⟨?_, fun e he => (by cases he), rfl, ?_⟩
    · intro bytes hok
      cases hok
      have htell := Beside.tellWindow
        (w := { t := recvTake w.t (if len < w.t.rxLen then len else w.t.rxLen), out := w.out })
      exact ⟨hrt.beside htell, hat.told hrt.rcv htell.rcv htell.told⟩
    · intro peek hok hpos
      have hnil : recvBytes w.t (if len < w.t.rxLen then len else w.t.rxLen) = [] := by
        injection hok
      have hzero := congrArg length (hbytes.symm.trans hnil)
      rw [length_take, length_drop, length_nil] at hzero
      split at hzero <;> omega
  · have hzero : w.t.rxLen = 0 := by omega
    cases hf : w.t.peerFin with
    | true =>
      have hall : got = stream := by
        have hdone := hr.rcv.done hf
        rw [hzero, Nat.add_zero] at hdone
        rw [hr.front, hdone, take_length]
      simp only [tcpRecv, if_neg hlen, hf, Bool.true_or, if_true]
      refine ⟨?_, fun e he => (by cases he), trivial, fun _ _ _ => hall⟩
      intro bytes hok
      cases hok
      rw [append_nil]
      exact ⟨hr, ha⟩
    | false =>
      -- Nothing has ended the stream, so there is more to wait for.
      have hopen : w.t.state.phase = .open := by
        rcases hr.phase with hp | hp
        · exact hp.1
        · rw [hf] at hp
          cases hp.2
      have hstate : ¬(w.t.state = .closed ∨ w.t.state = .listen) := by
        rintro (hs | hs) <;> rw [hs] at hopen <;> cases hopen
      have hwait : ∀ peek, tcpRecv w len peek = (.error .eagain, w) := by
        intro peek
        simp only [tcpRecv, if_neg hlen, hf, hr.shut, Bool.or_self, Bool.false_eq_true, if_false,
          hr.error, if_neg hstate]
      simp only [hwait]
      exact ⟨fun _ hok => (by cases hok), fun _ _ => trivial, trivial, fun _ hok => (by cases hok)⟩

end Recv

/-! ## Everything else -/

/-- The calls that neither bring a segment nor read, nor end the connection from this
side: a tick may find that the peer is gone, and then it leaves an error. -/
def minor (t : Tcb) (c : Call) : Prop :=
  match c.act with
  | .segment .. | .recv .. | .detach .. | .shutdown true .. => False
  | .tick .. => (exec t c).2.t.error = none
  | _ => True

namespace Beside

variable {w : Work} {now : Nat}

theorem tick (hs : w.t.state.phase ≠ .handshake) (hd : w.t.detached = false)
    (he : (tcpTick w now).2.t.error = none) : Beside w.t (tcpTick w now).2.t := by
  simp only [tcpTick] at he ⊢
  -- An error that was left on the way is still there at the end.
  have hlinger : ∀ {u : Work}, (tickLinger u now).t.error = u.t.error := by
    intro u
    rw [tickLinger]
    split
    · exact tcpSetClosed_error
    · rfl
  have hwait : ∀ {u : Work}, (tickWait u now).t.error = u.t.error := by
    intro u
    rw [tickWait]
    split
    · exact tcpSetClosed_error
    · rfl
  rw [hlinger, hwait] at he
  have hkeep := keepalive he
  have hpush : Beside (tickTimer w now).2.t (tcpPush (tickTimer w now).2 now).t := .push (.refl _)
  have htimer : Beside w.t (tickTimer w now).2.t := by
    have he : (tickTimer w now).2.t.error = none := by
      rw [← hpush.error, ← hkeep.error]
      exact he
    revert he
    rw [tickTimer]
    split
    · exact timeout hs
    · exact fun _ => .refl w.t
  have hsofar := htimer.trans (hpush.trans hkeep)
  generalize tcpKeepalive (tcpPush (tickTimer w now).2 now) now = u at hsofar
  have hwaited : Beside u.t (tickWait u now).t := by
    rw [tickWait]
    split
    · next hw => exact .setClosed (by rw [hw.1]; rfl)
    · exact .refl u.t
  have hattached : (tickWait u now).t.detached = false := by
    rw [hwaited.detached, hsofar.detached, hd]
  have hstays : tickLinger (tickWait u now) now = tickWait u now := by
    rw [tickLinger, if_neg]
    rw [hattached]
    exact fun h => Bool.false_ne_true h.1
  rw [hstays]
  exact hsofar.trans hwaited

/-- A connection that was connected once is not connected again. -/
theorem send {buf : List UInt8} : Beside w.t (tcpSend w buf now).2.t := by
  simp only [tcpSend]
  split
  · exact .refl w.t
  split
  · exact .refl w.t
  split
  · exact .refl w.t
  · exact .push (.of_inner ((Inner.refl w.t).set _ _ _))

theorem shutdown {wr : Bool} : Beside w.t (tcpShutdown w false wr now).2.t := by
  simp only [tcpShutdown, shutWrite]
  split
  · exact .refl w.t
  split
  · exact .push (.of_inner ((Inner.refl w.t).set _ _ _))
  · exact .refl w.t

end Beside

/-- They leave the receive side alone. -/
theorem Beside.minor (hs : t.state.phase ≠ .handshake)
    (hwas : t.wasConnected = true) (he : t.error = none) (hd : t.detached = false)
    (hm : Tcp.minor t c) : (exec t c).1 = false ∧ Beside t (exec t c).2.t := by
  have hsent : t.state ≠ .synSent := fun h => hs (by rw [h]; rfl)
  obtain ⟨act, bufs⟩ := c
  cases act with
  | segment h rings now | recv len peek | detach abort now => exact hm.elim
  | connect route localIp localPort remoteIp remotePort iss now =>
    refine ⟨rfl, ?_⟩
    simp only [exec]
    rw [tcpConnect_refused hwas]
    exact .refl t
  | send buf now => exact ⟨rfl, Beside.send (w := Call.begin ⟨.send buf now, bufs⟩ t)⟩
  | tick now queued =>
    have htick : Beside t (tcpTick (Call.begin ⟨.tick now queued, bufs⟩ t) now).2.t := .tick hs hd hm
    refine ⟨?_, htick⟩
    simp only [exec, tickFrees]
    rw [htick.detached, hd]
    rfl
  | shutdown rd wr now =>
    cases rd with
    | true => exact hm.elim
    | false =>
      exact ⟨rfl, Beside.shutdown (w := Call.begin ⟨.shutdown false wr now, bufs⟩ t)⟩
  | unreachable code seq =>
    refine ⟨rfl, ?_⟩
    simp only [exec, tcpUnreachable]
    rw [if_neg fun h => hsent h.1]
    exact .refl t
  | takeError => exact ⟨rfl, rfl, .inl rfl, rfl, he.symm, rfl, rfl⟩
  | setKeepalive on now => exact ⟨rfl, .of_inner ((Inner.refl t).set _ _ _)⟩
  | setopt name val =>
    refine ⟨rfl, ?_⟩
    simp only [exec, tcpSetopt]
    split
    · exact .refl t
    · cases name <;> exact .of_inner ((Inner.refl t).set _ _ _)

/-! ## Runs -/

/-- A connection and the bytes its reader was given. -/
structure Session where
  tcb : Option Tcb
  got : List UInt8

variable {s : Session}

/-- A call, and what it received. -/
def Session.step (s : Session) (c : Call) : Session :=
  { tcb := Tcp.step s.tcb c
    got := s.got ++ s.tcb.elim [] fun t => received t c }

/-- The call brings a segment of the stream, or reads, or does something else that does
not end the connection. -/
def FromPeer (stream : List UInt8) (irs : UInt32) (s : Session) (c : Call) : Prop :=
  match s.tcb with
  | none => True
  | some t =>
    match c.act with
    | .segment h _ _ => h.flags.rst = false ∧ (h.carries = true →
        ∃ k, Carries stream irs k h ∧ Near (s.got.length + t.rxLen) k h.body.length)
    | .recv _ _ => True
    | _ => minor t c

/-- The receive side of a connection whose handshake is done: the peer's first byte has the
number `irs`. -/
structure Fresh (irs : UInt32) (t : Tcb) : Prop where
  phase : t.state.phase = .open
  nxt : t.rcvNxt = irs
  start : t.rxStart < tcpRxBuf
  empty : t.rxLen = 0
  ooo : t.ooo = []
  noFin : t.finSeen = false ∧ t.peerFin = false
  told : (t.rcvAdv - t.rcvNxt).toNat ≤ tcpRxBuf
  was : t.wasConnected = true
  error : t.error = none
  shut : t.rdShut = false
  attached : t.detached = false

/-- What every session of the run has. -/
def Session.Ok (stream : List UInt8) (irs : UInt32) (s : Session) : Prop :=
  ∃ t, s.tcb = some t ∧ Reading stream irs s.got t ∧ Advised irs s.got.length t

section Run

variable {stream : List UInt8} {irs : UInt32}

theorem Fresh.ok (h : Fresh irs t) : Session.Ok stream irs ⟨some t, []⟩ := by
  have hrec : Received stream irs 0 t.toRcvSide := by
    refine ⟨h.start, by rw [h.empty]; decide, by rw [h.empty]; exact Nat.zero_le _, ?_, ?_, ?_, ?_, ?_⟩
    · rw [h.empty, h.noFin.2, h.nxt]
      exact serial_zero.symm
    · rw [h.empty]
      omega
    · rw [h.ooo]
      trivial
    · rw [h.noFin.1]
      intro hno
      cases hno
    · rw [h.noFin.2]
      intro hno
      cases hno
  refine ⟨t, rfl, ⟨hrec, rfl, .inl ⟨h.phase, h.noFin.2⟩, h.was, h.error, h.shut, h.attached⟩, ?_⟩
  intro _
  refine ⟨(t.rcvAdv - t.rcvNxt).toNat, ?_, ?_, ?_⟩
  · rw [serial, UInt32.ofNat_toNat, h.nxt]
    rw [UInt32.add_comm, UInt32.sub_add_cancel]
  · rw [h.empty]
    exact Nat.zero_le _
  · have := h.told
    omega

theorem Session.Ok.step (h : s.Ok stream irs)
    (hc : FromPeer stream irs s c) : (s.step c).Ok stream irs := by
  obtain ⟨t, ht, hr, ha⟩ := h
  have hphase : t.state.phase ≠ .handshake := by
    rcases hr.phase with hp | hp <;> rw [hp.1] <;> decide
  -- A call that leaves the receive side alone and hands nothing over.
  have hminor : minor t c → (s.step c).Ok stream irs := by
    intro hm
    obtain ⟨hfree, hb⟩ := Beside.minor hphase hr.was hr.error hr.attached hm
    have hnone : received t c = [] := by
      rw [received]
      split
      · rename_i hact
        rw [minor, hact] at hm
        exact hm.elim
      · rfl
    refine ⟨(exec t c).2.t, ?_, ?_, ?_⟩
    · simp only [Session.step, ht, Tcp.step, hfree]
      rfl
    · simp only [Session.step, ht, Option.elim_some, hnone, append_nil]
      exact hr.beside hb
    · simp only [Session.step, ht, Option.elim_some, hnone, append_nil]
      exact ha.told hr.rcv hb.rcv hb.told
  rw [FromPeer, ht] at hc
  obtain ⟨act, bufs⟩ := c
  cases act with
  | segment h rings now =>
    obtain ⟨hr', ha', -⟩ := Reading.input (w := Call.begin ⟨.segment h rings now, bufs⟩ t)
      now rings hr ha hc.1 hc.2
    refine ⟨_, by rw [Session.step, ht]; rfl, ?_, ?_⟩
    · simp only [Session.step, ht, Option.elim_some, received, append_nil]
      exact hr'
    · simp only [Session.step, ht, Option.elim_some, received, append_nil]
      exact ha'
  | recv len peek =>
    obtain ⟨hok, herr, hpeek, -⟩ := Reading.recv (w := Call.begin ⟨.recv len peek, bufs⟩ t)
      len hr ha
    have hstep : (s.step ⟨.recv len peek, bufs⟩).tcb
        = some (tcpRecv (Call.begin ⟨.recv len peek, bufs⟩ t) len peek).2.t := by
      rw [Session.step, ht]
      rfl
    have hgot : (s.step ⟨.recv len peek, bufs⟩).got
        = s.got ++ received t ⟨.recv len peek, bufs⟩ := by
      rw [Session.step, ht]
      rfl
    rw [Session.Ok, hstep, hgot]
    cases peek with
    | true =>
      rw [hpeek, received, append_nil]
      exact ⟨t, rfl, hr, ha⟩
    | false =>
      simp only [received]
      cases hres : (tcpRecv (Call.begin ⟨.recv len false, bufs⟩ t) len false).1 with
      | ok bytes => exact ⟨_, rfl, hok bytes hres⟩
      | error e =>
        rw [herr e hres]
        simp only [append_nil]
        exact ⟨t, rfl, hr, ha⟩
  | _ => exact hminor hc

theorem Session.Ok.run {calls : List Call} (h : s.Ok stream irs)
    (hc : Meets Session.step (FromPeer stream irs) s calls) :
    (Lib.run Session.step s calls).Ok stream irs :=
  run_inv (fun _ _ => Session.Ok.step) h hc

/-- The bytes the reader is given are a prefix of the peer's stream, `rcv_nxt` counts them
and those that wait to be read, the end of the stream is told when it has come, and no
byte is turned away that the peer was told there is room for. -/
theorem received_is_prefix {t₀ : Tcb} (h₀ : Fresh irs t₀) {calls : List Call}
    (hc : Meets Session.step (FromPeer stream irs) ⟨some t₀, []⟩ calls) :
    let s := Lib.run Session.step ⟨some t₀, []⟩ calls
    ∃ t, s.tcb = some t ∧ s.got <+: stream ∧
      t.rcvNxt = irs + UInt32.ofNat (s.got.length + t.rxLen + if t.peerFin then 1 else 0) ∧
      (∀ out len peek, 0 < len → (tcpRecv ⟨t, out⟩ len peek).1 = .ok [] → s.got = stream) ∧
      ∀ out h rings now k p, h.flags.rst = false → bogusAck t h = false →
        Carries stream irs k h → Near (s.got.length + t.rxLen) k h.body.length →
        k ≤ s.got.length + t.rxLen → s.got.length + t.rxLen ≤ p → p < k + h.body.length →
        p - (s.got.length + t.rxLen) < (t.rcvAdv - t.rcvNxt).toNat →
        p < s.got.length + (tcpInput ⟨t, out⟩ h rings now).t.rxLen := by
  intro s
  have hok : s.Ok stream irs := h₀.ok.run hc
  obtain ⟨t, ht, hr, ha⟩ := hok
  refine ⟨t, ht, ?_, hr.rcv.nxt, ?_, ?_⟩
  · rw [hr.front]
    exact take_prefix _ _
  · intro out len peek hpos hend
    exact (Reading.recv len hr ha).2.2.2 peek hend hpos
  · intro out h rings now k p hrst hack hk hnear hle hlo hhi hwin
    have htakes := (Reading.input (w := ⟨t, out⟩) now rings hr ha hrst
      fun _ => ⟨k, hk, hnear⟩).2.2 hack k hk hnear hle
    have hin := hk.within
    -- The place is not past the end, so the FIN was not taken yet.
    have hf : t.peerFin = false := by
      cases hf : t.peerFin with
      | false => rfl
      | true =>
        have hall := hr.rcv.done hf
        omega
    obtain ⟨edge, hadv, hge, hedge⟩ := ha hf
    have hbuf : tcpRxBuf = 262144 := rfl
    rw [hadv, hr.rcv.nxt_of_open hf, toNat_serial_sub hge (by omega)] at hwin
    omega

/-- A segment from port 80 to port 4000. -/
def segmentOf (seq : UInt32) (flags : Flags) (body : List UInt8) : Seg :=
  { srcPort := 80, dstPort := 4000, seq := seq, ack := 8, flags := flags, window := 1000,
    opts := [], body := body }

/-- A connection to this machine, once the SYN ACK has come: the peer's first byte has the
number `2 ^ 32 - 2`. -/
def shaken : Tcb :=
  let out : Out := { packets := [], bufs := fun _ => true, asked := 0 }
  let w := (tcpConnect ⟨tcpAlloc, out⟩ (some ⟨0, 0, false⟩) 0 4000 0x0100007F 80 7 1).2
  (tcpInput w (segmentOf 0xFFFFFFFD { syn := true, ack := true } []) none 2).t

theorem shaken_fresh : Fresh 0xFFFFFFFE shaken := by
  refine ⟨rfl, rfl, by decide, rfl, rfl, ⟨rfl, rfl⟩, by decide, rfl, rfl, rfl, rfl⟩

/-- The second half of the stream comes first, across the turn of the numbers. -/
theorem received_is_prefix_reordered : let calls : List Call :=
      [⟨.segment (segmentOf 0 { ack := true, fin := true } [3, 4, 5]) none 3, fun _ => true⟩,
        ⟨.segment (segmentOf 0xFFFFFFFE { ack := true } [1, 2]) none 4, fun _ => true⟩,
        ⟨.recv 9 false, fun _ => true⟩]
    let s := Lib.run Session.step ⟨some shaken, []⟩ calls
    s.got <+: [1, 2, 3, 4, 5] ∧ s.got.length = 5 := by
  intro calls s
  have hc : Meets Session.step (FromPeer [1, 2, 3, 4, 5] 0xFFFFFFFE) ⟨some shaken, []⟩ calls := by
    refine ⟨⟨rfl, fun _ => ⟨2, ⟨rfl, by decide, by decide, by decide, fun _ => rfl⟩, ?_⟩⟩,
      ⟨rfl, fun _ => ⟨0, ⟨rfl, by decide, by decide, by decide, ?_⟩, ?_⟩⟩, trivial, trivial⟩
    · exact ⟨by decide, by decide⟩
    · exact fun h => (by cases h)
    · exact ⟨by decide, by decide⟩
  obtain ⟨t, -, hpre, -⟩ := received_is_prefix shaken_fresh hc
  exact ⟨hpre, by decide⟩

end Run

/-! ## A whole turn of the numbers

A segment that comes in when the next place is `2 ^ 32` past it has the number of the
next place, and is taken for it: the connection cannot tell the stream from one that goes
on with those bytes. -/

section Turn

variable {stream data : List UInt8} {irs : UInt32}

/-- A segment and a call that reads as much as it brings. -/
def handOver (seq : UInt32) (data : List UInt8) : List Call :=
  [⟨.segment (segmentOf seq {} data) none 0, fun _ => true⟩,
    ⟨.recv data.length false, fun _ => true⟩]

theorem tcpRecv_some {w : Work} {len : Nat} (hpos : 0 < len) (h : len ≤ w.t.rxLen) :
    (tcpRecv w len false).1 = .ok (recvBytes w.t len) := by
  have hn : (if len < w.t.rxLen then len else w.t.rxLen) = len := by
    split <;> omega
  rw [tcpRecv, if_pos (by omega)]
  simp only [hn]

/-- The reader was given the first `n` bytes of the stream. -/
def Session.Has (stream : List UInt8) (irs : UInt32) (n : Nat) (s : Session) : Prop :=
  s.Ok stream irs ∧ s.got.length = n

/-- All of a segment with the next bytes is handed over. -/
theorem Session.Has.handOver (h : s.Has stream irs n) (hpos : data ≠ [])
    (hseg : Carries stream irs n (segmentOf (serial irs n) {} data)) :
    (Lib.run Session.step s (Tcp.handOver (serial irs n) data)).Has stream irs
      (n + data.length) := by
  obtain ⟨tcb, got⟩ := s
  obtain ⟨⟨t, ht, hr, ha⟩, rfl⟩ := h
  obtain rfl : tcb = some t := ht
  dsimp only at *
  have hsize : data.length < 2 ^ 16 := hseg.size
  have hlen : 0 < data.length := length_pos_iff.mpr hpos
  have hbuf : tcpRxBuf = 262144 := rfl
  have hfits := hr.rcv.fits
  have hnear : Near (got.length + t.rxLen) got.length data.length := ⟨by omega, by omega⟩
  obtain ⟨hr', ha', htakes⟩ := Reading.input (w := ⟨t, ⟨[], fun _ => true, 0, 0⟩⟩) 0 none hr ha rfl
    fun _ => ⟨_, hseg, hnear⟩
  have hroom : min (got.length + data.length) (got.length + tcpRxBuf) ≤ got.length + _ :=
    htakes rfl _ hseg hnear (Nat.le_add_right _ _)
  have hstep : Session.step ⟨some t, got⟩
      ⟨.segment (segmentOf (serial irs got.length) {} data) none 0, fun _ => true⟩
        = ⟨some _, got ++ []⟩ := rfl
  rw [append_nil] at hstep
  dsimp only [exec, Call.begin, Act.queued] at hstep
  generalize (tcpInput _ (segmentOf (serial irs got.length) {} data) none 0).t = u
    at hr' ha' hroom hstep
  have hin := hr'.rcv.within
  have hbytes := (hr'.take ha' (n := data.length) (by omega)).1
  have hgot : received u ⟨.recv data.length false, fun _ => true⟩ = recvBytes u data.length := by
    simp only [received]
    rw [tcpRecv_some hlen (show data.length ≤ u.rxLen by omega)]
    rfl
  have hok : Session.Ok stream irs ⟨some u, got⟩ := ⟨u, rfl, hr', ha'⟩
  rw [Tcp.handOver, run_cons, run_cons, run_nil, hstep]
  refine ⟨hok.step trivial, ?_⟩
  simp only [Session.step, Option.elim_some, hgot, hbytes, length_append, length_take, length_drop]
  omega

/-- `m` segments of `2 ^ 15` zeros, each of them read. -/
def zeroRounds (irs : UInt32) (m : Nat) : List Call :=
  (range m).flatMap fun j => handOver (serial irs (j * 2 ^ 15)) (replicate (2 ^ 15) 0)

/-- As many zeros, and a one. -/
def zerosOne (m : Nat) : List UInt8 := replicate (m * 2 ^ 15) 0 ++ [1]

theorem carries_zeros {k len : Nat} {tail : List UInt8} (hlen : len < 2 ^ 16) (hk : k + len ≤ n) :
    Carries (replicate n 0 ++ tail) irs k (segmentOf (serial irs k) {} (replicate len 0)) := by
  have hbody : (replicate len (0 : UInt8)).length = len := length_replicate
  have hzeros : (replicate n (0 : UInt8)).length = n := length_replicate
  refine ⟨rfl, hbody.trans_lt hlen, ?_, ?_, fun hf => (by cases hf)⟩
  · intro j hj
    have hj : j < len := hbody ▸ hj
    rw [getD_eq_getElem?_getD, getD_eq_getElem?_getD,
      getElem?_append_left (by omega), getElem?_replicate_of_lt (by omega)]
    show (replicate len 0)[j]?.getD 0 = _
    rw [getElem?_replicate_of_lt hj]
  · rw [length_append]
    show k + (replicate len 0).length ≤ _
    omega

theorem Session.Has.zeroRounds
    (h : s.Has (replicate n 0 ++ data) irs 0) {m : Nat} (hm : m * 2 ^ 15 ≤ n) :
    (Lib.run Session.step s (Tcp.zeroRounds irs m)).Has (replicate n 0 ++ data) irs
      (m * 2 ^ 15) := by
  induction m with
  | zero =>
    exact h
  | succ m ih =>
    rw [Nat.succ_mul] at hm ⊢
    have hlen : (replicate (2 ^ 15) (0 : UInt8)).length = 2 ^ 15 := length_replicate
    have hnext := (ih (Nat.le_of_add_right_le hm)).handOver
      (ne_nil_of_length_pos (by rw [hlen]; decide)) (carries_zeros (by omega) hm)
    rw [hlen] at hnext
    rw [Tcp.zeroRounds, range_succ, flatMap_append, run_append]
    exact hnext

/-- Every segment is one of the peer's stream. -/
theorem mem_zeroRounds {m : Nat} (hc : c ∈ zeroRounds irs m) :
    (∃ k len, len < 2 ^ 16 ∧ k + len ≤ m * 2 ^ 15 ∧
      c.act = .segment (segmentOf (serial irs k) {} (replicate len 0)) none 0) ∨
    ∃ len, c.act = .recv len false := by
  obtain ⟨j, hj, hc⟩ := mem_flatMap.mp hc
  have hj := mem_range.mp hj
  rcases mem_pair.mp hc with rfl | rfl
  · exact .inl ⟨j * 2 ^ 15, 2 ^ 15, by omega, by omega, rfl⟩
  · exact .inr ⟨_, rfl⟩

/-- The peer sends `2 ^ 32` zeros, a one, and its first byte once more: the reader is given
that byte in place of the one. -/
theorem received_mistakes_old_segment :
    let calls := zeroRounds 0xFFFFFFFE (2 ^ 17) ++ handOver (serial 0xFFFFFFFE 0) [0]
    Fresh 0xFFFFFFFE shaken ∧
      (∀ c ∈ calls, (∃ k h, c.act = .segment h none 0 ∧ h.flags.rst = false ∧
        Carries (zerosOne (2 ^ 17)) 0xFFFFFFFE k h) ∨ ∃ len, c.act = .recv len false) ∧
      ¬ (Lib.run Session.step ⟨some shaken, []⟩ calls).got <+: zerosOne (2 ^ 17) := by
  refine ⟨shaken_fresh, ?_, ?_⟩
  · intro c hc
    rcases mem_append.mp hc with hc | hc
    · rcases mem_zeroRounds hc with ⟨k, len, hlen, hk, hact⟩ | ⟨len, hact⟩
      · exact .inl ⟨k, _, hact, rfl, carries_zeros hlen hk⟩
      · exact .inr ⟨len, hact⟩
    · rcases mem_pair.mp hc with rfl | rfl
      · exact .inl ⟨0, _, rfl, rfl, carries_zeros (show 1 < 2 ^ 16 by omega) (by omega)⟩
      · exact .inr ⟨_, rfl⟩
  · -- with the byte that comes again in place of the one it is a run of another stream
    have hhas : Session.Has (replicate (2 ^ 17 * 2 ^ 15 + 1) 0 ++ []) 0xFFFFFFFE 0
      ⟨some shaken, []⟩ := ⟨shaken_fresh.ok, rfl⟩
    obtain ⟨⟨t, -, hr, -⟩, hlen⟩ := (hhas.zeroRounds (Nat.le_succ _)).handOver
      (show replicate 1 0 ≠ [] by decide) (carries_zeros (by omega) (Nat.le_refl _))
    rw [← run_append] at hr hlen
    have hfront := hr.front
    rw [hlen, append_nil, length_replicate, take_replicate, Nat.min_self] at hfront
    intro hpre
    have hone : _ = zerosOne (2 ^ 17) := hpre.eq_of_length (hlen.trans (by
      rw [zerosOne, length_append, length_replicate, length_replicate, length_singleton]))
    have hsame := hfront.symm.trans hone
    rw [zerosOne, replicate_succ', append_cancel_left_eq] at hsame
    revert hsame
    decide

end Turn

end BleedKernel.Tcp
