import BleedKernel.Lib.Run
import BleedKernel.Proofs.DeviceReads

/-!
# What was typed and what is read

Every key gets a number, and the ring keeps it with the byte. What readers were given,
followed by what is pending, is then a list of numbers that only goes up: input goes on
at its end, a read moves the border, and erase and `^C` cut from the end as long as
`line_start` is a place between `in_tail` and `in_head`. It is not always: only the
canonical mode moves it.
-/

namespace BleedKernel.Devices

open BleedKernel.Lib List

/-- `line_start` is between `in_tail` and `in_head`. -/
def Tty.Between (t : Tty) : Prop := Pos.to t.inTail t.lineStart ≤ Pos.to t.inTail t.inHead

/-- A key that removes something finds `line_start` between the ends of what is pending,
and Enter finds room and does not erase. -/
def Tidy (t : Tty) (c : UInt8) : Prop :=
  (t.erases c → t.Between) ∧
    (t.canonical → t.cooked c = 10 → ¬t.erases c ∧ t.inHead.next ≠ t.inTail)

instance {t : Tty} {c : UInt8} : Decidable (Tidy t c) :=
  have : Decidable t.Between := inferInstanceAs (Decidable (_ ≤ _))
  inferInstanceAs (Decidable (_ ∧ _))

/-- The keys come when they lose nothing that is pending. -/
def Kept (s : Term) : Act → Prop
  | .key detached ctrl c => detached = false → c ≠ 0 →
      if ctrl ∧ (c = 99 ∨ c = 67) then s.tty.termios.isig → s.tty.Between else Tidy s.tty c
  | .input c => Tidy s.tty c
  | _ => True

/-- Every byte given and every byte pending is the byte of its key, and they are in the
order they were typed in, each once. -/
structure Sound (s : Term) : Prop where
  typed : ∀ x ∈ s.given ++ s.tty.pending, s.typed[x.serial]? = some x.byte
  order : (s.given ++ s.tty.pending).Pairwise fun x y => x.serial < y.serial

/-! ## Places in the ring -/

section places

variable {p q : Pos}

theorem Pos.to_lt : Pos.to p q < ttyBufferSz := Nat.mod_lt _ (by decide)

theorem Pos.add_to : (p + Pos.to p q) % ttyBufferSz = q := by
  simp only [Pos.to, ttyBufferSz] at *
  omega

theorem Pos.to_eq_zero : Pos.to p q = 0 ↔ p = q := by
  constructor
  · intro h
    have := Pos.add_to (p := p) (q := q)
    rw [h, Nat.add_zero, Nat.mod_eq_of_lt p.isLt] at this
    exact Fin.ext this
  · rintro rfl
    simp [Pos.to]

theorem Pos.to_next (h : q.next ≠ p) : Pos.to p q.next = Pos.to p q + 1 := by
  have hne : (q + 1) % ttyBufferSz ≠ p := fun he => h (Fin.ext he)
  simp only [Pos.to, Pos.next, ttyBufferSz] at *
  omega

theorem Pos.to_prev (h : p ≠ q) : Pos.to p q.prev + 1 = Pos.to p q := by
  have hne : p.val ≠ q := fun he => h (Fin.ext he)
  simp only [Pos.to, Pos.prev, ttyBufferSz] at *
  omega

theorem Pos.next_to (h : p ≠ q) : Pos.to p.next q + 1 = Pos.to p q := by
  have hne : p.val ≠ q := fun he => h (Fin.ext he)
  simp only [Pos.to, Pos.next, ttyBufferSz] at *
  omega

end places

/-! ## What is pending -/

variable {s s' : Term} {t : Tty} {c : UInt8} {n len fuel : Nat}

theorem pending_put {x : Typed} {l : Pos} (h : t.inHead.next ≠ t.inTail) :
    Tty.pending { t with inbuffer := store t.inbuffer t.inHead [x], inHead := t.inHead.next
                         lineStart := l } = t.pending ++ [x] := by
  have hto := Pos.to_next h
  have hlt := Pos.to_lt (p := t.inTail) (q := t.inHead.next)
  have hput : ringList _ (store t.inbuffer _ [x]) _ _ = _ :=
    ringList_store (n := Pos.to t.inTail t.inHead)
    t.inTail.isLt (by simp only [length_singleton]; omega)
    (by rw [Pos.add_to]; exact t.inHead.isLt)
  rw [Pos.add_to] at hput
  simpa only [Tty.pending, hto, length_singleton] using hput

theorem pending_cut {q : Pos} (h : Pos.to t.inTail q ≤ Pos.to t.inTail t.inHead) :
    Tty.pending { t with inHead := q } <+: t.pending := by
  simp only [Tty.pending]
  rw [ringList_split h]
  exact prefix_append ..

theorem pending_take (h : t.inTail ≠ t.inHead) :
    t.pending = t.inbuffer t.inTail :: Tty.pending { t with inTail := t.inTail.next } := by
  have hto := Pos.next_to h
  simp only [Tty.pending]
  rw [← hto, ringList_split (Nat.le_add_left 1 _)]
  simp [ringList, Pos.next, Nat.mod_eq_of_lt t.inTail.isLt]

/-- The copy loop moves the border between what is given and what is pending. -/
theorem ttyCopy_append {m : Nat} {st : List Typed × Tty} :
    (ttyCopy len m fuel st).1 ++ (ttyCopy len m fuel st).2.pending = st.1 ++ st.2.pending := by
  induction fuel generalizing st with
  | zero => rfl
  | succ fuel ih =>
    obtain ⟨out, t⟩ := st
    simp only [ttyCopy]
    split
    · rename_i h
      have hone : (out ++ [t.inbuffer t.inTail]) ++ Tty.pending { t with inTail := t.inTail.next }
          = out ++ t.pending := by
        rw [pending_take h.2, append_assoc]
        rfl
      split
      · exact hone
      · exact ih.trans hone
    · rfl

theorem ttyRead_ok {out : List Typed} {t' : Tty} (h : ttyRead t false len = (.ok out, t')) :
    out ++ t'.pending = t.pending := by
  rw [ttyRead, if_neg (by decide)] at h
  split at h
  · cases h
  split at h
  · cases h
    rfl
  · cases h
    exact ttyCopy_append

theorem ttyRead_error {e : Errno} {t' : Tty} (h : ttyRead t false len = (.error e, t')) :
    t' = t := by
  rw [ttyRead, if_neg (by decide)] at h
  split at h
  · cases h
    rfl
  · split at h <;> cases h

/-! ## What every step keeps -/

theorem Sound.of_prefix (i : Sound s) (h : s'.given ++ s'.tty.pending <+: s.given ++ s.tty.pending)
    (ht : s.typed <+: s'.typed) : Sound s' where
  typed x hx := by
    have hx := i.typed x (h.subset hx)
    obtain ⟨rest, hrest⟩ := ht
    rw [← hrest, List.getElem?_append_left (List.getElem?_eq_some_iff.mp hx).1]
    exact hx
  order := i.order.sublist h.sublist

theorem Sound.lt (i : Sound s) {x : Typed} (hx : x ∈ s.given ++ s.tty.pending) :
    x.serial < s.typed.length := (List.getElem?_eq_some_iff.mp (i.typed x hx)).1

/-- A key is handed over. -/
theorem Sound.input (i : Sound s) (h : Tidy s.tty c) :
    Sound (s.type c (ttyProcessInput s.tty c)) := by
  have hkeep : Sound { s with typed := s.typed ++ [s.tty.cooked c] } :=
    i.of_prefix prefix_rfl (prefix_append ..)
  simp only [Term.type, ttyProcessInput]
  split
  · rename_i he
    split
    · rename_i hl
      refine hkeep.of_prefix ((prefix_append_right_inj _).mpr (pending_cut ?_)) prefix_rfl
      have hb : Pos.to _ _ ≤ _ := h.1 he
      by_cases hne : s.tty.inTail = s.tty.inHead
      · -- nothing is pending, so the line starts at the head
        rw [Pos.to_eq_zero.mpr hne, Nat.le_zero, Pos.to_eq_zero] at hb
        exact absurd (hne.symm.trans hb) hl
      · have := Pos.to_prev hne
        omega
    · exact hkeep
  split
  · exact hkeep
  next hroom =>
  have hput := pending_put (x := ⟨s.tty.cooked c, s.typed.length⟩)
    (l := if s.tty.canonical ∧ s.tty.cooked c = 10 then s.tty.inHead.next else s.tty.lineStart) hroom
  refine ⟨?_, ?_⟩
  · intro x hx
    simp only [hput, ← append_assoc] at hx
    rcases mem_append.mp hx with hx | hx
    · exact hkeep.typed x hx
    · obtain rfl := mem_singleton.mp hx
      simp
  · simp only [hput, ← append_assoc]
    refine pairwise_append.mpr ⟨i.order, pairwise_singleton _ _, fun x hx y hy => ?_⟩
    obtain rfl := mem_singleton.mp hy
    exact i.lt hx

theorem Sound.step (i : Sound s) {a : Act} (h : Kept s a) : Sound (step s a) := by
  cases a with
  | key detached ctrl c =>
    have hkeep : Sound (s.type c fun _ => s.tty) := i.of_prefix prefix_rfl (prefix_append ..)
    simp only [Devices.step, Term.type, ttyInputListener]
    split
    · exact hkeep
    next hgo =>
    have h := h (by simpa using fun hd => hgo (.inl hd)) fun hc => hgo (.inr hc)
    split at h
    · rename_i hctrl
      rw [if_pos hctrl]
      split
      · rename_i hsig
        refine hkeep.of_prefix ((prefix_append_right_inj _).mpr ?_) prefix_rfl
        exact pending_cut (h hsig)
      · exact hkeep
    · rename_i hctrl
      rw [if_neg hctrl]
      exact i.input h
  | input c => exact i.input h
  | read len =>
    simp only [Devices.step]
    split
    · rename_i tty hr
      refine i.of_prefix ⟨[], ?_⟩ prefix_rfl
      rw [append_nil, append_assoc, ttyRead_ok hr]
    · rename_i hr
      rw [ttyRead_error hr]
      exact i
  | tcsets termios flush =>
    simp only [Devices.step]
    split
    · refine i.of_prefix ((prefix_append_right_inj _).mpr ?_) prefix_rfl
      simp [Tty.pending, Pos.to_eq_zero.mpr]
    · exact ⟨i.typed, i.order⟩
  | setFlags | fionbio | tcgets | getFlags => exact ⟨i.typed, i.order⟩

/-- From boot, as long as keys find `line_start` in its place and Enter finds room: readers
are given what was typed, in order and each byte once, and a line that Enter ends can be
read. -/
theorem tty_input_sound {acts : List Act} (h : Meets step Kept {} acts) :
    Sound (run step {} acts) ∧ ∀ c, let t := (run step {} acts).tty
      t.canonical → t.cooked c = 10 → Tidy t c → ∀ n len, 1 ≤ len →
        ∃ b bs, (ttyRead (ttyProcessInput t c n) false len).1 = .ok (b :: bs) := by
  refine ⟨run_inv (fun s a i => i.step) ⟨nofun, .nil⟩ h, ?_⟩
  intro c t hcan hc ht n len hlen
  obtain ⟨hno, hroom⟩ := ht.2 hcan hc
  refine ttyRead_of_pollIn hlen ?_
  have hput := pending_put (x := ⟨t.cooked c, n⟩)
    (l := if t.canonical ∧ t.cooked c = 10 then t.inHead.next else t.lineStart) hroom
  rw [ttyProcessInput, if_neg hno, if_neg hroom, ttyPollIn, if_pos hcan, Tty.hasLine, hput]
  simp [hc]

/-- A line is typed and read. -/
theorem tty_input_sound_line : Meets step Kept {} [.input 97, .input 13, .read 8] ∧
      Sound (run step {} [.input 97, .input 13, .read 8]) :=
  have h : Meets step Kept {} [.input 97, .input 13, .read 8] :=
    ⟨show Tidy _ 97 by decide, show Tidy _ 13 by decide, trivial, trivial⟩
  ⟨h, (tty_input_sound h).1⟩

/-- Raw, a key is typed and read, and `^C` puts `in_head` back before it: the next read
gives a byte that nobody typed. -/
theorem interrupt_gives_untyped :
    let s := run step {} [.setFlags false false, .input 97, .read 1, .key false true 99, .read 1]
    s.given = [⟨97, 0⟩, ⟨0, 0⟩] ∧ ¬Sound s := by
  have hgiven : (run step {} [.setFlags false false, .input 97, .read 1, .key false true 99,
      .read 1]).given = [⟨97, 0⟩, ⟨0, 0⟩] := by decide
  refine ⟨hgiven, fun h => ?_⟩
  have horder := h.order.sublist (sublist_append_left ..)
  revert horder
  decide

end BleedKernel.Devices
