import BleedKernel.Model.UnixSend

/-!
# A blocking send that does not block

`send_stream` gives a packet no room when it does not fit behind what is queued. It then
waits for `POLLOUT`, which `unix_poll_mask` reports as long as the queue is not full: the
wait is over before it began, and the loop goes round until the peer reads. A stream has
room exactly when `POLLOUT` is reported.
-/

namespace BleedKernel.Unix

/-- A socket that is one end of a connection. -/
structure Sock.Linked (u : Sock) : Prop where
  type : u.type ≠ .dgram
  connected : u.connected = true
  listening : u.listening = false

/-- `send_stream` comes to its loop: a packet that is too long is refused before. -/
def Accepted (u : Sock) (total : Nat) : Prop := u.type = .seqpacket → total ≤ unixDgramMax

/-- `send_stream` finds no room, and would wait. -/
def Waits (u v : Sock) (total sent : Nat) (dontwait : Bool) : Prop :=
  Accepted u total ∧ u.wrShut = false ∧ sendRoom (decide (u.type = .seqpacket)) total v.rxBytes = 0 ∧ sent = 0 ∧
    (u.nonblock || dontwait) = false

/-- A packet that fits neither behind what is queued nor waits for a full queue. -/
def Stuck (u v : Sock) (total : Nat) : Prop :=
  u.type = .seqpacket ∧ 0 < v.rxBytes ∧ v.rxBytes < unixRxMax ∧ unixRxMax < v.rxBytes + total

variable {u v : Sock} {total sent : Nat} {dontwait : Bool}

theorem unixPollMask_linked (h : u.Linked) : unixPollMask ⟨u, some v⟩ =
    ⟨u.rx || u.rdEof, !u.wrShut && decide (v.rxBytes < unixRxMax), false⟩ := by
  simp [unixPollMask, h.listening, h.type, h.connected]

theorem sendRoom_eq_zero {packet : Bool} {queued : Nat} : sendRoom packet total queued = 0 ↔
    unixRxMax ≤ queued ∨ packet = true ∧ 0 < queued ∧ unixRxMax < queued + total := by
  cases packet with
  | false =>
    simp only [sendRoom, Bool.false_and]
    rw [if_neg Bool.false_ne_true]
    split <;> simp <;> omega
  | true =>
    simp only [sendRoom, Bool.true_and, Bool.and_eq_true, decide_eq_true_eq]
    split <;> split <;> simp <;> omega

/-- While it would wait, `POLLOUT` is reported exactly when a packet is stuck. -/
theorem Waits.pollout_iff (h : u.Linked) (hw : Waits u v total sent dontwait) :
    (unixPollMask ⟨u, some v⟩).pollout = true ↔ Stuck u v total := by
  obtain ⟨-, hshut, hroom, -, -⟩ := hw
  rw [sendRoom_eq_zero, decide_eq_true_eq] at hroom
  rw [unixPollMask_linked h, hshut]
  simp only [Bool.not_false, Bool.true_and, decide_eq_true_eq]
  constructor
  · intro hlt
    rcases hroom with hfull | ⟨ht, hpos, hover⟩
    · omega
    · exact ⟨ht, hpos, hlt, hover⟩
  · exact fun hs => hs.2.2.1

/-- A turn that neither sends nor waits nor returns is one that would wait with `POLLOUT`
reported. -/
theorem sendTurn_spun_iff (h : u.Linked) (hsize : Accepted u total) :
    (∃ e, (sendTurn ⟨u, some v⟩ total sent dontwait e).1 = .spun) ↔
      Waits u v total sent dontwait ∧ Stuck u v total := by
  constructor
  · rintro ⟨e, he⟩
    simp only [sendTurn, h.connected, Bool.not_true, Bool.false_eq_true, if_false] at he
    split at he
    · cases he
    rename_i hshut
    split at he
    · rename_i hroom
      split at he
      · cases he
      rename_i hsent
      split at he
      · cases he
      rename_i hblock
      have hw : Waits u v total sent dontwait :=
        ⟨hsize, by simpa using hshut, hroom, by simpa using hsent, by simpa using hblock⟩
      refine ⟨hw, (hw.pollout_iff h).mp ?_⟩
      split at he
      · cases he
      rename_i ht
      split at he
      · subst he
        simp only [unixBlock] at ht
        split at ht
        · cases ht
        split at ht
        · cases ht
        split at ht
        · rename_i hp
          rw [unixPollMask_linked h] at hp ⊢
          simpa using hp
        · split at ht <;> cases ht
      · cases he
    · split at he
      · cases he
      split at he
      · cases he
      generalize (if decide (u.type = .seqpacket) = true then total else _) = n at he
      split at he <;> cases he
  · rintro ⟨hw, hs⟩
    have hpoll := (hw.pollout_iff h).mpr hs
    obtain ⟨-, hshut, hroom, rfl, hblock⟩ := hw
    have htotal : 0 < total := by
      obtain ⟨-, -, h1, h2⟩ := hs
      omega
    refine ⟨⟨false, false, false, true, true⟩, ?_⟩
    simp only [sendTurn, h.connected, hshut, hroom, hblock, unixBlock, hpoll]
    simp [htotal]

/-- Whenever `send_stream` finds no room and would wait, `POLLOUT` is not reported, and
no turn of its loop spins: both exactly when it is not a packet that is kept waiting by a
queue that is not full. -/
theorem send_never_spins_iff (h : u.Linked) (total sent : Nat) (dontwait : Bool) :
    ((Waits u v total sent dontwait → (unixPollMask ⟨u, some v⟩).pollout = false) ↔
      ¬(Waits u v total sent dontwait ∧ Stuck u v total)) ∧
    ((∀ e, Accepted u total → (sendTurn ⟨u, some v⟩ total sent dontwait e).1 ≠ .spun) ↔
      ¬(Waits u v total sent dontwait ∧ Stuck u v total)) := by
  constructor
  · rw [not_and]
    refine forall_congr' fun hw => ?_
    rw [← hw.pollout_iff h, Bool.not_eq_true]
  · by_cases hsize : Accepted u total
    · simp only [← sendTurn_spun_iff h hsize, not_exists, hsize, forall_const, ne_eq]
    · exact iff_of_true (fun e ha => absurd ha hsize) fun hw => hsize hw.1.1

/-- One end of a seqpacket connection, with nothing in its queue. -/
def seqpacketEnd : Sock where
  type := .seqpacket
  nonblock := false
  listening := false
  connected := true
  rdEof := false
  wrShut := false
  rx := false
  rxBytes := 0
  pending := false
  sndtimeo := false

theorem send_never_spins_iff_full : let v := { seqpacketEnd with rx := true, rxBytes := unixRxMax }
    Waits seqpacketEnd v 1 0 false ∧ (unixPollMask ⟨seqpacketEnd, some v⟩).pollout = false := by
  intro v
  have hw : Waits seqpacketEnd v 1 0 false := ⟨fun _ => by decide, rfl, by decide, rfl, rfl⟩
  refine ⟨hw, (send_never_spins_iff ⟨by decide, rfl, rfl⟩ 1 0 false).1.mpr ?_ hw⟩
  rintro ⟨-, -, -, hlt, -⟩
  exact Nat.lt_irrefl _ hlt

/-- A packet of 100 KiB behind 200 KiB: as long as the peer does not read, the task goes
round the loop and never waits. -/
theorem seqpacket_send_spins :
    let p : Pair := ⟨seqpacketEnd, some { seqpacketEnd with rx := true, rxBytes := 200 * 1024 }⟩
    let calm : Env := ⟨false, false, false, true, true⟩
    sendTurn p (100 * 1024) 0 false calm = (.spun, p) ∧
      ∀ fuel, sendStream p (100 * 1024) false (fun _ p => p) (fun _ => calm) fuel = (none, p) := by
  intro p calm
  have hturn : sendTurn p (100 * 1024) 0 false calm = (.spun, p) := by decide
  have hloop : ∀ fuel k, sendLoop (100 * 1024) false (fun _ p => p) (fun _ => calm) fuel k 0 p
      = (none, p) := by
    intro fuel
    induction fuel with
    | zero => exact fun _ => rfl
    | succ fuel ih =>
      intro k
      exact ih (k + 1)
  refine ⟨hturn, fun fuel => ?_⟩
  exact hloop fuel 0

end BleedKernel.Unix
