import BleedKernel.Model.Devices

/-!
# Reads of a device that has nothing to give

`vfs_read` asks `poll` whether to sleep when `read` has given it nothing. The two look
at the same rings, but `poll` does not know how much room the reader has, nor whose
terminal it is, and a device without a wait queue is not asked at all.
-/

namespace BleedKernel.Devices

open BleedKernel.Lib List

variable {d : Dev} {con : Console} {r : Reader} {t : Tty} {count len fuel size : Nat}

/-! ## The copy loops -/

theorem length_le_eventCopy {st : List UInt8 × Events size} :
    st.1.length ≤ (eventCopy len fuel st).1.length := by
  induction fuel generalizing st with
  | zero => exact Nat.le_refl _
  | succ fuel ih =>
    rw [eventCopy]
    split
    · refine Nat.le_trans ?_ ih
      simp
    · exact Nat.le_refl _

/-- Less room than an event takes: nothing is copied. -/
theorem eventCopy_of_lt {q : Events size} (h : len < size) :
    eventCopy len fuel ([], q) = ([], q) := by
  cases fuel with
  | zero => rfl
  | succ fuel =>
    rw [eventCopy, if_neg]
    omega

theorem eventCopy_ne_nil (fuel : Nat) {q : Events size} (hs : 0 < size) (h : size ≤ len)
    (hq : q.tail ≠ q.head) :
    (eventCopy len (fuel + 1) ([], q)).1 ≠ [] := by
  rw [eventCopy, if_pos ⟨by simpa using h, hq⟩]
  refine ne_nil_of_length_pos (Nat.lt_of_lt_of_le ?_ length_le_eventCopy)
  simpa using hs

theorem length_le_ttyCopy {n : Nat} {st : List Typed × Tty} :
    st.1.length ≤ (ttyCopy len n fuel st).1.length := by
  induction fuel generalizing st with
  | zero => exact Nat.le_refl _
  | succ fuel ih =>
    simp only [ttyCopy]
    split
    · split
      · simp
      · refine Nat.le_trans ?_ ih
        simp
    · exact Nat.le_refl _

theorem ttyCopy_ne_nil (n fuel : Nat) (h : 1 ≤ len) (ht : t.inTail ≠ t.inHead) :
    (ttyCopy len n (fuel + 1) ([], t)).1 ≠ [] := by
  simp only [ttyCopy]
  rw [if_pos ⟨h, ht⟩]
  split
  · simp
  · refine ne_nil_of_length_pos (Nat.lt_of_lt_of_le ?_ length_le_ttyCopy)
    simp

theorem ttyPollIn_eq_false (h : t.inHead = t.inTail) : ttyPollIn t = false := by
  have hline : t.hasLine = false := by
    simp [Tty.hasLine, Tty.pending, Pos.to, h]
  simp [ttyPollIn, hline, h]

/-- `tty_read` gives something when `tty_poll` says so, and otherwise nothing. -/
theorem ttyRead_of_pollIn (h : 1 ≤ len) (ht : ttyPollIn t = true) :
    ∃ b bs, (ttyRead t false len).1 = .ok (b :: bs) := by
  have hne : t.inHead ≠ t.inTail := by
    intro he
    rw [ttyPollIn_eq_false he] at ht
    cases ht
  have hgo : ¬t.dry := by
    cases hc : t.canonical with
    | true => simpa [Tty.dry, ttyPollIn, hc] using ht
    | false => simp [Tty.dry, hc, hne]
  rw [ttyRead, if_neg (by decide), if_neg (fun h => hne h.2), if_neg hgo]
  obtain ⟨b, bs, hb⟩ := exists_cons_of_ne_nil (ttyCopy_ne_nil _ 1023 h (Ne.symm hne))
  exact ⟨b, bs, congrArg Except.ok hb⟩

theorem ttyRead_of_not_pollIn (len : Nat) (ht : ttyPollIn t = false) : ttyRead t false len
      = (if t.nonblock ∧ t.inHead = t.inTail then .error .eagain else .ok [], t) := by
  rw [ttyRead, if_neg (by decide)]
  by_cases hn : t.nonblock ∧ t.inHead = t.inTail
  · rw [if_pos hn, if_pos hn]
  rw [if_neg hn, if_neg hn]
  cases hc : t.canonical with
  | true => simp [Tty.dry, hc, show t.hasLine = false by simpa [ttyPollIn, hc] using ht]
  | false =>
    -- raw, with nothing typed: the loop does not start
    have he : t.inHead = t.inTail := by simpa [ttyPollIn, hc] using ht
    have hcopy (n : Nat) : ttyCopy len n ttyBufferSz ([], t) = ([], t) := by
      rw [show ttyBufferSz = 1023 + 1 from rfl, ttyCopy, if_neg]
      exact fun h => h.2 he.symm
    simp [hcopy]

/-! ## The loop -/

section

variable (hr : r.interrupt = false)

include hr

theorem vfsReadTurn_of_ret {x : Except Errno (List UInt8)}
    (h : (d.read con r count).1 = x) (hx : x ≠ .ok []) : vfsReadTurn d con r count = .ret x := by
  rw [vfsReadTurn, if_neg (by simp [hr])]
  generalize d.read con r count = y at h
  obtain ⟨_, _⟩ := y
  subst h
  split
  · next he => cases he; rfl
  · next he => cases he; rfl
  · next he => cases he; exact absurd rfl hx

theorem vfsReadTurn_of_none {s : Bool} {p : Option Bool}
    (h : d.read con r count = (.ok [], d, s)) (hp : d.pollIn con r = p) :
    vfsReadTurn d con r count = if p = some false then .sleep else .again := by
  rw [vfsReadTurn, if_neg (by simp [hr]), h]
  simp only [hp]

/-- A turn on a terminal. -/
theorem ttyTurn (t : Tty) (con : Console) (h : 1 ≤ count) :
    (ttyPollIn t = true ∧ ∃ b bs, vfsReadTurn (.tty t) con r count = .ret (.ok (b :: bs))) ∨
    (ttyPollIn t = false ∧ vfsReadTurn (.tty t) con r count
      = if t.nonblock ∧ t.inHead = t.inTail then .ret (.error .eagain) else .sleep) := by
  cases hp : ttyPollIn t with
  | true =>
    obtain ⟨b, bs, hb⟩ := ttyRead_of_pollIn h hp
    refine .inl ⟨rfl, b.byte, bs.map (·.byte), vfsReadTurn_of_ret hr ?_ nofun⟩
    simp only [Dev.read, hr, hb]
    rfl
  | false =>
    have hread := ttyRead_of_not_pollIn count hp
    refine .inr ⟨rfl, ?_⟩
    split
    · rename_i hn
      refine vfsReadTurn_of_ret hr ?_ nofun
      simp only [Dev.read, hr, hread, if_pos hn]
      rfl
    · rename_i hn
      have hp : (Dev.tty t).pollIn con r = some false := congrArg some hp
      refine vfsReadTurn_of_none (s := false) hr ?_ hp
      simp only [Dev.read, hr, hread, if_neg hn]
      rfl

/-- A turn on a device that has events for the reader. -/
theorem eventTurn {q : Events size} (hs : 0 < size)
    (hne : q.head ≠ q.tail) (hp : d.pollIn con r = some true)
    (hd : count < size → (d.read con r count).2.1 = d)
    (hread : (d.read con r count).1 = .ok (eventCopy count 128 ([], q)).1) :
    if count < size then vfsReadTurn d con r count = .again
    else ∃ b bs, vfsReadTurn d con r count = .ret (.ok (b :: bs)) := by
  split
  · rename_i hl
    rw [eventCopy_of_lt hl] at hread
    exact vfsReadTurn_of_none hr (Prod.ext hread (Prod.ext (hd hl) rfl)) hp
  · rename_i hl
    obtain ⟨b, bs, hb⟩ := exists_cons_of_ne_nil
      (eventCopy_ne_nil 127 hs (Nat.le_of_not_lt hl) (Ne.symm hne))
    exact ⟨b, bs, vfsReadTurn_of_ret hr (hread.trans (congrArg Except.ok hb)) nofun⟩

/-- A turn on the keyboard. -/
theorem kbdTurn (k : Kbd) (con : Console) (count : Nat) :
    if con.background r = false ∧ con.elsewhere r then
      vfsReadTurn (.kbd k) con r count = .ret (.error .eagain)
    else if con.background r ∨ k.events.head = k.events.tail then vfsReadTurn (.kbd k) con r count
      = if k.nonblock then .ret (.error .eagain) else .sleep
    else if count < 4 then vfsReadTurn (.kbd k) con r count = .again
    else ∃ b bs, vfsReadTurn (.kbd k) con r count = .ret (.ok (b :: bs)) := by
  have hgo : kbdRead k con r count = if con.background r then _ else _ := if_neg (by simp [hr])
  have hnothing (hp : kbdPollIn k con r = false) {s : Bool}
      (h : kbdRead k con r count = (if k.nonblock then .error .eagain else .ok [], k, s)) :
      vfsReadTurn (.kbd k) con r count = if k.nonblock then .ret (.error .eagain) else .sleep := by
    split
    · rename_i hn
      refine vfsReadTurn_of_ret hr ?_ nofun
      simp only [Dev.read, h, if_pos hn]
    · rename_i hn
      have hp : (Dev.kbd k).pollIn con r = some false := congrArg some hp
      refine vfsReadTurn_of_none (s := s) hr ?_ hp
      simp only [Dev.read, h, if_neg hn]
  by_cases hb : con.background r
  · rw [if_neg (by simp [hb]), if_pos (.inl hb)]
    exact hnothing (by simp [kbdPollIn, hb]) (hgo.trans (if_pos hb))
  rw [if_neg hb] at hgo
  by_cases he : con.elsewhere r
  · rw [if_pos ⟨by simpa using hb, he⟩]
    refine vfsReadTurn_of_ret hr ?_ nofun
    simp only [Dev.read, hgo, if_pos he]
  rw [if_neg (fun h => he h.2)]
  rw [if_neg he] at hgo
  by_cases hq : k.events.head = k.events.tail
  · rw [if_pos (.inr hq)]
    exact hnothing (by simp [kbdPollIn, hq]) (hgo.trans (if_pos hq))
  rw [if_neg (by simp [hb, hq])]
  rw [if_neg hq] at hgo
  refine eventTurn hr (by decide) hq ?_ (fun hl => ?_) ?_
  · simpa [Dev.pollIn, kbdPollIn, hq] using hb
  · simp only [Dev.read, hgo, eventCopy_of_lt hl]
  · simp only [Dev.read, hgo]

/-- `vfs_read` on a mouse or a touch screen. -/
theorem pointer_again_iff (mk : Events size → Dev) {q : Events size} (hs : 0 < size)
    (hp : (mk q).pollIn con r = some (decide (q.head ≠ q.tail)))
    (hread : (mk q).read con r count = ((eventRead q count).1, mk (eventRead q count).2, false)) :
    vfsReadTurn (mk q) con r count = .again ↔ q.head ≠ q.tail ∧ count < size := by
  by_cases hq : q.head = q.tail
  · have he : eventRead q count = (.error .eagain, q) := if_pos hq
    rw [vfsReadTurn_of_ret hr (congrArg Prod.fst hread) (by simp [he])]
    simp [hq]
  have he : eventRead q count = (.ok _, _) := if_neg hq
  rw [he] at hread
  have hturn := eventTurn hr hs hq (hp.trans (by simp [hq])) (fun hl => ?_)
    (congrArg Prod.fst hread)
  · split at hturn
    · next hl => simp [hturn, hq, hl]
    · rename_i hl
      obtain ⟨b, bs, hb⟩ := hturn
      simp [hb, hl]
  · rw [hread, eventCopy_of_lt hl]

/-- What makes `vfs_read` go round: a device that has no wait queue and gives nothing, or
events that do not fit the reader's buffer. -/
def Dev.spins (con : Console) (r : Reader) (count : Nat) : Dev → Prop
  | .tty _ | .zero => False
  | .null => True
  | .kbd k => con.background r = false ∧ con.elsewhere r = false ∧
      k.events.head ≠ k.events.tail ∧ count < 4
  | .mouse q => q.head ≠ q.tail ∧ count < 6
  | .touch q => q.head ≠ q.tail ∧ count < 8

theorem Dev.read_of_spins (h : d.spins con r count) : (d.read con r count).2.1 = d := by
  cases d with
  | tty | zero => exact h.elim
  | null => rfl
  | kbd k => simp [Dev.read, kbdRead, hr, h.1, h.2.1, h.2.2.1, eventCopy_of_lt h.2.2.2]
  | mouse | touch => simp [Dev.read, eventRead, h.1, eventCopy_of_lt h.2]

end

/-- `vfs_read` goes round exactly when the device spins, and the device is then as it was;
in every other turn it returns or sleeps. -/
theorem vfsRead_again_iff (h : 1 ≤ count) :
    (vfsReadTurn d con r count = .again ↔ r.interrupt = false ∧ d.spins con r count) ∧
      (vfsReadTurn d con r count = .again → (d.read con r count).2.1 = d) := by
  suffices hiff : vfsReadTurn d con r count = .again ↔ r.interrupt = false ∧ d.spins con r count from
    ⟨hiff, fun ha => Dev.read_of_spins (hiff.mp ha).1 (hiff.mp ha).2⟩
  cases hr : r.interrupt with
  | true => simp [vfsReadTurn, hr]
  | false =>
    rw [eq_self, true_and]
    cases d with
    | tty t =>
      rcases ttyTurn hr t con h with ⟨-, b, bs, ht⟩ | ⟨-, ht⟩
      · simp [ht, Dev.spins]
      · rw [ht]
        split <;> simp [Dev.spins]
    | kbd k =>
      have hk := kbdTurn hr k con count
      simp only [Dev.spins]
      split at hk
      · next hn => simp [hk, hn]
      split at hk
      · rename_i hn
        rw [hk]
        rcases hn with hn | hn <;> split <;> simp [hn]
      next hb hq =>
      have hb' : con.background r = false ∧ con.elsewhere r = false := by
        simp only [not_and, not_or, Bool.not_eq_true] at hb hq
        exact ⟨hq.1, hb hq.1⟩
      split at hk
      · next hl => simpa [hk, hb', hl] using hq
      · rename_i hl
        obtain ⟨b, bs, hk⟩ := hk
        simp [hk, hl]
    | mouse q => exact pointer_again_iff hr .mouse (by decide) rfl rfl
    | touch q => exact pointer_again_iff hr .touch (by decide) rfl rfl
    | null => simp [vfsReadTurn, hr, Dev.read, Dev.pollIn, Dev.spins]
    | zero =>
      obtain ⟨n, rfl⟩ := Nat.exists_eq_add_of_le' h
      simp [vfsReadTurn, hr, Dev.read, Dev.spins, replicate_succ]

/-- A terminal on which nothing was typed: its read gives nothing, and the call sleeps. -/
theorem vfsRead_again_iff_tty : let d : Dev := .tty {}
    (d.read {} { tgid := 1 } 6).1 = .ok [] ∧ vfsReadTurn d {} { tgid := 1 } 6 = .sleep ∧
      vfsReadTurn d {} { tgid := 1 } 6 ≠ .again :=
  ⟨rfl, rfl, fun h => ((vfsRead_again_iff (by decide)).1.mp h).2⟩

/-- The null device gives nothing, and nobody is asked before it is read again. -/
theorem null_spins : vfsReadTurn .null {} { tgid := 1 } 1 = .again := rfl

/-! ## Without waiting -/

/-- `TTY_NONBLOCK` is set. -/
def Dev.nonblock : Dev → Prop
  | .tty t => t.nonblock
  | .kbd k => k.nonblock
  | _ => False

/-- The call returns without having slept, and `POLLIN` is reported exactly when it gives
something. -/
def Prompt (d : Dev) (con : Console) (r : Reader) (count : Nat) : Prop :=
  (d.read con r count).2.2 = false ∧ ∃ x, vfsReadTurn d con r count = .ret x ∧
    (d.pollIn con r = some true ↔ ∃ b bs, x = .ok (b :: bs))

/-- A terminal has no half line, and a keyboard's events are for the reader and fit the
buffer. -/
def Dev.fits (con : Console) (r : Reader) (count : Nat) : Dev → Prop
  | .tty t => t.canonical → t.inHead ≠ t.inTail → t.hasLine
  | .kbd k => con.background r = false ∧
      (k.events.head ≠ k.events.tail → con.elsewhere r = false ∧ 4 ≤ count)
  | _ => True

theorem prompt_ret_iff {x : Except Errno (List UInt8)} (h : vfsReadTurn d con r count = .ret x) :
    Prompt d con r count ↔ (d.read con r count).2.2 = false ∧
      (d.pollIn con r = some true ↔ ∃ b bs, x = .ok (b :: bs)) := by
  simp [Prompt, h]

theorem not_prompt (h : ∀ x, vfsReadTurn d con r count ≠ .ret x) : ¬Prompt d con r count :=
  fun hp => hp.2.elim fun x hx => h x hx.1

/-- With `TTY_NONBLOCK`, and no signal to interrupt the reader. -/
theorem prompt_iff_fits (hd : d.nonblock) (hr : r.interrupt = false) (h : 1 ≤ count) :
    Prompt d con r count ↔ d.fits con r count := by
  cases d with
  | tty t =>
    have hn : t.nonblock = true := hd
    rcases ttyTurn hr t con h with ⟨hp, b, bs, ht⟩ | ⟨hp, ht⟩
    · rw [prompt_ret_iff ht]
      have hfit : t.canonical → t.hasLine := fun hc => by simpa [ttyPollIn, hc] using hp
      simpa [Dev.read, Dev.pollIn, hp, Dev.fits] using fun hc _ => hfit hc
    · by_cases he : t.inHead = t.inTail
      · rw [if_pos ⟨hn, he⟩] at ht
        rw [prompt_ret_iff ht]
        simp [Dev.read, Dev.pollIn, hp, Dev.fits, he]
      · rw [if_neg (fun h => he h.2)] at ht
        refine iff_of_false (not_prompt (by simp [ht])) fun hfit => ?_
        cases hc : t.canonical with
        | true => simp [ttyPollIn, hc, hfit hc he] at hp
        | false => simp [ttyPollIn, hc, he] at hp
  | kbd k =>
    have hn : k.nonblock = true := hd
    have hk := kbdTurn hr k con count
    have hslept : ((Dev.kbd k).read con r count).2.2 = con.background r := by
      simp only [Dev.read, kbdRead, hr]
      cases con.background r with
      | true => rfl
      | false =>
        simp only [Bool.false_eq_true, if_false]
        split
        · rfl
        · split <;> rfl
    have hpoll : (Dev.kbd k).pollIn con r = some true
        ↔ con.background r = false ∧ k.events.head ≠ k.events.tail := by
      simp [Dev.pollIn, kbdPollIn]
    simp only [Dev.fits]
    split at hk
    · next he => simp [prompt_ret_iff hk, hslept, hpoll, he]
    split at hk
    · rename_i hb
      rw [prompt_ret_iff hk, hslept, hpoll]
      rcases hb with hb | hb <;> simp [hb]
    next he hb =>
    have hb : con.background r = false ∧ con.elsewhere r = false ∧ k.events.head ≠ k.events.tail := by
      simp only [not_and, not_or, Bool.not_eq_true] at he hb
      exact ⟨hb.1, he hb.1, hb.2⟩
    split at hk
    · refine iff_of_false (not_prompt (by simp [hk])) fun hfit => ?_
      omega
    · rename_i hl
      obtain ⟨b, bs, hk⟩ := hk
      rw [prompt_ret_iff hk, hslept, hpoll]
      simp [hb, Nat.le_of_not_lt hl]
  | mouse | touch | null | zero => exact hd.elim

/-- With `TTY_NONBLOCK`. A signal that waits makes the call return at once with nothing, so
there must be nothing to report either. -/
theorem nonblock_prompt_iff (hd : d.nonblock) (h : 1 ≤ count) : Prompt d con r count ↔
    if r.interrupt then d.pollIn con r ≠ some true else d.fits con r count := by
  cases hr : r.interrupt with
  | false => exact prompt_iff_fits hd hr h
  | true =>
    have hturn : vfsReadTurn d con r count = .ret (.error .eintr) := by simp [vfsReadTurn, hr]
    have hread : (d.read con r count).2.2 = false := by
      cases d with
      | kbd k => simp [Dev.read, kbdRead, hr]
      | _ => rfl
    simp [prompt_ret_iff hturn, hread]

/-- A canonical terminal on which a line was typed, and one more byte after it. -/
theorem nonblock_prompt_iff_line :
    let d : Dev := .tty { nonblock := true, inHead := ⟨3, by decide⟩
                          inbuffer := fun i => ⟨if i = 1 then 10 else 97, i⟩ }
    d.nonblock ∧ vfsReadTurn d {} { tgid := 1 } 8 = .ret (.ok [97, 10]) ∧
      Prompt d {} { tgid := 1 } 8 := by
  intro d
  have hd : d.nonblock := rfl
  exact ⟨hd, rfl, (nonblock_prompt_iff hd (by decide)).mpr fun _ _ => rfl⟩

/-- A canonical terminal with half a line: the read goes to sleep. -/
theorem half_line_sleeps :
    vfsReadTurn (.tty { nonblock := true, inbuffer := fun _ => ⟨97, 0⟩, inHead := ⟨1, by decide⟩ })
      {} { tgid := 1 } 1 = .sleep := rfl

end BleedKernel.Devices
