import BleedKernel.Lib.Run
import BleedKernel.Model.Pipe

/-!
# A pipe is a queue of bytes

The two copy loops cut a transfer at the end of the buffer and go on from its
start. A turn of either moves as much as there is to move, so a loop is over
after one turn, and what it moved is the front of the ring or becomes its back.
The rest is bookkeeping over the calls: a byte that went in is one the call that
put it in will report, and a byte that came out is in the buffer of the call that
got it.
-/

namespace BleedKernel.Pipes

open BleedKernel.Lib List

variable {s : PipeState} {copied size : Nat} {out src : List UInt8}

/-! ## The ring -/

/-- The positions agree with the count. -/
structure RingOk (s : PipeState) : Prop where
  count : s.count ≤ pipeBufferSize
  readPos : s.readPos < pipeBufferSize
  writePos : s.writePos < pipeBufferSize
  pos : s.writePos = (s.readPos + s.count) % pipeBufferSize

/-- What is in the pipe, in the order it will be read. -/
def PipeState.contents (s : PipeState) : List UInt8 :=
  ringList pipeBufferSize s.buffer s.readPos s.count

/-- `n` bytes are taken off the front. -/
structure Popped (n : Nat) (s s' : PipeState) : Prop where
  readPos : s'.readPos = (s.readPos + n) % pipeBufferSize
  count : s'.count = s.count - n
  buffer : s'.buffer = s.buffer
  writePos : s'.writePos = s.writePos

theorem Popped.ok {n : Nat} {s' : PipeState} (h : Popped n s s') (hs : RingOk s)
    (hn : n ≤ s.count) : RingOk s' := by
  obtain ⟨hc, hr, hw, hp⟩ := hs
  refine ⟨by rw [h.count]; omega, ?_, by rw [h.writePos]; exact hw, ?_⟩
  · rw [h.readPos]
    exact Nat.mod_lt _ (by decide)
  · rw [h.writePos, h.readPos, h.count, hp, Nat.mod_add_mod, Nat.add_assoc, Nat.add_sub_cancel' hn]

theorem Popped.contents {n : Nat} {s' : PipeState} (h : Popped n s s') (hn : n ≤ s.count) :
    s.contents = ringList pipeBufferSize s.buffer s.readPos n ++ s'.contents := by
  unfold PipeState.contents
  rw [h.buffer, h.readPos, h.count]
  exact ringList_split hn

/-- A turn of the read loop takes what there is, or what there is room for. -/
theorem readTurn_spec (size : Nat) (out : List UInt8) (hs : RingOk s) :
    Popped (min (size - out.length) s.count) s (readTurn size (s, out)).1 ∧
      (readTurn size (s, out)).2 = out ++ ringList pipeBufferSize s.buffer s.readPos
        (min (size - out.length) s.count) := by
  obtain ⟨hc, hr, -, -⟩ := hs
  unfold readTurn
  dsimp only
  generalize hb : min (size - out.length) s.count = bytes
  rcases Nat.le_total bytes (pipeBufferSize - s.readPos) with hfit | hwrap
  · -- the transfer ends before the buffer does
    rw [Nat.min_eq_left hfit, Nat.sub_self, if_neg (Nat.lt_irrefl 0)]
    exact ⟨⟨rfl, rfl, rfl, rfl⟩, by
      rw [slice_eq_ringList (N := pipeBufferSize) (by omega)]⟩
  rw [Nat.min_eq_right hwrap]
  have hzero : (s.readPos + (pipeBufferSize - s.readPos)) % pipeBufferSize = 0 := by
    rw [Nat.add_sub_cancel' (Nat.le_of_lt hr), Nat.mod_self]
  have hfirst : slice s.buffer s.readPos (pipeBufferSize - s.readPos)
      = ringList pipeBufferSize s.buffer s.readPos (pipeBufferSize - s.readPos) :=
    slice_eq_ringList (by omega)
  have hsplit : ringList pipeBufferSize s.buffer s.readPos bytes = _ := ringList_split hwrap
  have hpos : (s.readPos + bytes) % pipeBufferSize = bytes - (pipeBufferSize - s.readPos) := by
    rw [Nat.mod_eq_sub_mod (by omega), Nat.mod_eq_of_lt (by omega)]
    omega
  split
  · refine ⟨⟨?_, ?_, rfl, rfl⟩, ?_⟩
    · show (s.readPos + (pipeBufferSize - s.readPos)) % pipeBufferSize + _ = _
      rw [hzero, hpos, Nat.zero_add]
    · show s.count - (pipeBufferSize - s.readPos) - _ = _
      omega
    · rw [hsplit, hfirst, append_assoc, slice_eq_ringList (N := pipeBufferSize) (by omega)]
  · have heq : bytes = pipeBufferSize - s.readPos := by omega
    rw [heq]
    exact ⟨⟨rfl, rfl, rfl, rfl⟩, by rw [hfirst]⟩

/-- What the read loop as a whole does: it takes bytes off the front until the
buffer is full or the pipe is empty. -/
structure ReadDone (size : Nat) (s : PipeState) (out : List UInt8)
    (st : PipeState × List UInt8) : Prop where
  ok : RingOk st.1
  got : ∃ got, st.2 = out ++ got ∧ s.contents = got ++ st.1.contents
  full : st.2.length ≤ max size out.length
  ended : ¬ (st.2.length < size ∧ st.1.count > 0)

theorem readLoop_spec {fuel : Nat} (hs : RingOk s) (hf : size - out.length ≤ fuel) :
    ReadDone size s out (readLoop size fuel (s, out)) := by
  induction fuel generalizing s out with
  | zero => exact ⟨hs, ⟨[], by simp [readLoop]⟩, Nat.le_max_right _ _, by simp [readLoop]; omega⟩
  | succ fuel ih =>
    rw [readLoop]
    split
    · rename_i hmore
      dsimp only at hmore
      obtain ⟨hpop, hout⟩ := readTurn_spec size out hs
      generalize readTurn size (s, out) = st at hpop hout
      obtain ⟨s1, out1⟩ := st
      dsimp only at hpop hout
      have hlen : out1.length = out.length + min (size - out.length) s.count := by
        rw [hout, length_append, length_ringList]
      have hf1 : size - out1.length ≤ fuel := by omega
      obtain ⟨hok, ⟨got, h1, h2⟩, h3, h4⟩ := ih (hpop.ok hs (Nat.min_le_right _ _)) hf1
      refine ⟨hok, ⟨_, by rw [h1, hout, append_assoc], ?_⟩, by omega, h4⟩
      rw [hpop.contents (Nat.min_le_right _ _), h2, append_assoc]
    · next hstop => exact ⟨hs, ⟨[], by simp⟩, Nat.le_max_right _ _, hstop⟩

/-- `l` is put at the back. -/
structure Pushed (l : List UInt8) (s s' : PipeState) : Prop where
  ok : RingOk s'
  count : s'.count = s.count + l.length
  contents : s'.contents = s.contents ++ l

/-- A straight run behind the last byte. -/
theorem Pushed.run {l : List UInt8} (hs : RingOk s) (hfit : s.count + l.length ≤ pipeBufferSize)
    (hend : s.writePos + l.length ≤ pipeBufferSize) :
    Pushed l s { s with buffer := store s.buffer s.writePos l,
                        writePos := (s.writePos + l.length) % pipeBufferSize,
                        count := s.count + l.length } := by
  obtain ⟨hc, hr, hw, hp⟩ := hs
  refine ⟨⟨hfit, hr, Nat.mod_lt _ (by decide), ?_⟩, rfl, ?_⟩
  · show (s.writePos + l.length) % pipeBufferSize
      = (s.readPos + (s.count + l.length)) % pipeBufferSize
    rw [hp, Nat.mod_add_mod, Nat.add_assoc]
  · show ringList pipeBufferSize (store s.buffer s.writePos l) s.readPos (s.count + l.length) = _
    rw [hp] at hend ⊢
    exact ringList_store hr hfit hend

theorem take_append_drop_take (l : List UInt8) (a b c : Nat) :
    (l.drop a).take b ++ (l.drop (a + b)).take c = (l.drop a).take (b + c) := by
  rw [take_add, drop_drop]

/-- A turn of the write loop puts in what is left, or what there is room for. -/
theorem writeTurn_spec (hs : RingOk s) (hle : copied ≤ src.length) :
    Pushed ((src.drop copied).take (min (src.length - copied) (pipeBufferSize - s.count))) s
        (writeTurn src (s, copied)).1 ∧
      (writeTurn src (s, copied)).2
        = copied + min (src.length - copied) (pipeBufferSize - s.count) := by
  have hc := hs.count
  have hw := hs.writePos
  unfold writeTurn
  dsimp only
  generalize hb : min (src.length - copied) (pipeBufferSize - s.count) = bytes
  have hlen : ∀ n m, copied + n + m ≤ copied + bytes →
      ((src.drop (copied + n)).take m).length = m := fun n m h => by
    rw [length_take, length_drop]
    omega
  rcases Nat.le_total bytes (pipeBufferSize - s.writePos) with hfit | hwrap
  · -- the transfer ends before the buffer does
    have h0 : ((src.drop copied).take bytes).length = bytes := hlen 0 bytes (by omega)
    rw [Nat.min_eq_left hfit, Nat.sub_self]
    refine ⟨?_, rfl⟩
    have := Pushed.run (l := (src.drop copied).take bytes) hs (by omega) (by omega)
    rwa [h0] at this
  rw [Nat.min_eq_right hwrap]
  generalize hf : pipeBufferSize - s.writePos = first at hwrap
  have h0 : ((src.drop copied).take first).length = first := hlen 0 first (by omega)
  have hone := Pushed.run (l := (src.drop copied).take first) hs (by omega) (by omega)
  rw [h0] at hone
  split
  · rename_i hrem
    -- the second part starts at the start of the buffer
    generalize hs1 : ({ s with
      buffer := store s.buffer s.writePos ((src.drop copied).take first),
      writePos := (s.writePos + first) % pipeBufferSize,
      count := s.count + first }) = s1 at hone
    have h1 : ((src.drop (copied + first)).take (bytes - first)).length = bytes - first :=
      hlen first (bytes - first) (by omega)
    have hzero : s1.writePos = 0 := by
      rw [← hs1]
      show (s.writePos + first) % pipeBufferSize = 0
      rw [← hf, Nat.add_sub_cancel' (Nat.le_of_lt hw), Nat.mod_self]
    have hcount := hone.count
    have htwo := Pushed.run (l := (src.drop (copied + first)).take (bytes - first))
      hone.ok (by omega) (by omega)
    rw [h1, Nat.mod_eq_of_lt (by omega)] at htwo
    have hboth : Pushed ((src.drop copied).take bytes) s { s1 with
        buffer := store s1.buffer s1.writePos ((src.drop (copied + first)).take (bytes - first)),
        writePos := s1.writePos + (bytes - first),
        count := s1.count + (bytes - first) } := by
      refine ⟨htwo.ok, ?_, ?_⟩
      · show s1.count + (bytes - first) = s.count + ((src.drop copied).take bytes).length
        rw [show ((src.drop copied).take bytes).length = bytes from
          hlen 0 bytes (by omega)]
        omega
      · rw [htwo.contents, hone.contents, append_assoc, take_append_drop_take,
          Nat.add_sub_cancel' hwrap]
    subst hs1
    exact ⟨hboth, by omega⟩
  · obtain rfl : bytes = first := by omega
    exact ⟨hone, rfl⟩

/-- What the write loop as a whole does: it puts bytes in until all are in or the
pipe is full. -/
structure WriteDone (src : List UInt8) (s : PipeState) (copied : Nat)
    (st : PipeState × Nat) : Prop where
  pushed : Pushed ((src.drop copied).take (st.2 - copied)) s st.1
  more : copied ≤ st.2
  within : st.2 ≤ src.length
  ended : ¬ (st.2 < src.length ∧ st.1.count < pipeBufferSize)

theorem Pushed.nil (hs : RingOk s) : Pushed [] s s := ⟨hs, rfl, (append_nil _).symm⟩

theorem writeLoop_spec {fuel : Nat}
    (hs : RingOk s) (hle : copied ≤ src.length) (hf : src.length - copied ≤ fuel) :
    WriteDone src s copied (writeLoop src fuel (s, copied)) := by
  induction fuel generalizing s copied with
  | zero =>
    refine ⟨?_, Nat.le_refl _, hle, by simp [writeLoop]; omega⟩
    show Pushed ((src.drop copied).take (copied - copied)) s s
    rw [Nat.sub_self]
    exact .nil hs
  | succ fuel ih =>
    rw [writeLoop]
    split
    · rename_i hmore
      dsimp only at hmore
      obtain ⟨hpush, hcop⟩ := writeTurn_spec hs hle
      generalize writeTurn src (s, copied) = st at hpush hcop
      obtain ⟨s1, copied1⟩ := st
      dsimp only at hcop
      have hle1 : copied1 ≤ src.length := by omega
      obtain ⟨hp, h1, h2, h3⟩ := ih hpush.ok hle1 (by omega)
      generalize writeLoop src fuel (s1, copied1) = r at hp h1 h2 h3
      refine ⟨⟨hp.ok, ?_, ?_⟩, by omega, h2, h3⟩
      · rw [hp.count, hpush.count]
        simp only [length_take, length_drop]
        omega
      · rw [hp.contents, hpush.contents, append_assoc, hcop, take_append_drop_take]
        congr 2
        omega
    · rename_i hstop
      refine ⟨?_, Nat.le_refl _, hle, hstop⟩
      show Pushed ((src.drop copied).take (copied - copied)) s s
      rw [Nat.sub_self]
      exact .nil hs

/-! ## The calls -/

/-- The bytes of one call among those of all. -/
def bytesOf (id : Nat) (l : List (Nat × UInt8)) : List UInt8 :=
  (l.filter fun x => x.1 = id).map (·.2)

@[simp] theorem bytesOf_append (id : Nat) (l l' : List (Nat × UInt8)) :
    bytesOf id (l ++ l') = bytesOf id l ++ bytesOf id l' := by
  simp [bytesOf]

theorem bytesOf_tag (id : Nat) (l : List UInt8) : bytesOf id (l.map fun b => (id, b)) = l := by
  induction l with
  | nil => rfl
  | cons b l ih => simpa [bytesOf] using ih

theorem bytesOf_tag_other {id j : Nat} (h : j ≠ id) (l : List UInt8) :
    bytesOf j (l.map fun b => (id, b)) = [] := by simp [bytesOf, h.symm]

/-- A call that comes back says how many bytes it moved; an error means none. -/
def Reports (r : Except Errno Nat) (n : Nat) : Prop :=
  match r with
  | .ok k => k = n
  | .error _ => n = 0

theorem reports_shortWrite (copied : Nat) (e : Errno) : Reports (shortWrite copied e) copied := by
  unfold shortWrite
  split
  · rfl
  · next h => exact not_not.mp h

/-- What a call has moved is what went through the pipe in its name, and what it
reports when it is back. A read is back as soon as it has anything. -/
def CallOk (p : Pipe) (id : Nat) : Call → Prop
  | .read size out phase =>
    bytesOf id p.handed = out ∧ bytesOf id p.written = [] ∧ out.length ≤ size ∧
      (phase = .entering → out = []) ∧ ∀ r, phase = .returned r → Reports r out.length
  | .write src copied phase =>
    bytesOf id p.written = src.take copied ∧ bytesOf id p.handed = [] ∧
      copied ≤ src.length ∧ ∀ r, phase = .returned r → Reports r copied

/-- The pipe is a queue: its positions are in range and agree with its count, what
came out of it and what is in it is what went in, byte for byte, and every byte
is accounted for by the call that moved it. -/
structure Fifo (p : Pipe) : Prop where
  ring : RingOk p.state
  order : p.handed.map (·.2) ++ p.state.contents = p.written.map (·.2)
  calls : ∀ id c, p.call id = some c → CallOk p id c
  known : ∀ id, p.call id = none → bytesOf id p.written = [] ∧ bytesOf id p.handed = []

/-- What every step keeps: numbers are not given twice. -/
structure PipeOk (p : Pipe) : Prop extends Fifo p where
  fresh : ∀ id, p.next ≤ id → p.call id = none

namespace PipeOk

variable {p p' : Pipe} {id : Nat} {c : Call}

section

variable (h : PipeOk p)

include h

/-- One call moves bytes of its own. -/
theorem move (hid : (p.call id).isSome)
    (hcall : p'.call = Function.update p.call id (some c)) (hnext : p'.next = p.next)
    (hring : RingOk p'.state)
    (horder : p'.handed.map (·.2) ++ p'.state.contents = p'.written.map (·.2))
    (hw : ∀ j, j ≠ id → bytesOf j p'.written = bytesOf j p.written)
    (hg : ∀ j, j ≠ id → bytesOf j p'.handed = bytesOf j p.handed)
    (hc : CallOk p' id c) : PipeOk p' := by
  refine ⟨⟨hring, horder, fun j c' hj => ?_, fun j hj => ?_⟩, fun j hle => ?_⟩
  · rw [hcall] at hj
    by_cases hji : j = id
    · subst hji
      rw [Function.update_self] at hj
      cases hj
      exact hc
    · rw [Function.update_of_ne hji] at hj
      have hok := h.calls j c' hj
      cases c' <;> simpa only [CallOk, hw j hji, hg j hji] using hok
  · have hji : j ≠ id := fun e => by
      rw [hcall, e, Function.update_self] at hj
      cases hj
    rw [hcall, Function.update_of_ne hji] at hj
    rw [hw j hji, hg j hji]
    exact h.known j hj
  · have hji : j ≠ id := fun e => by
      rw [hnext, e] at hle
      rw [h.fresh id hle] at hid
      cases hid
    rw [hcall, Function.update_of_ne hji]
    exact h.fresh j (hnext ▸ hle)

/-- A call goes on without touching the pipe. -/
theorem setCall (hid : (p.call id).isSome) (hc : CallOk p id c) : PipeOk (p.setCall id c) :=
  h.move hid rfl rfl h.ring h.order (fun _ _ => rfl) (fun _ _ => rfl) (by cases c <;> exact hc)

/-- A new call has moved nothing. -/
theorem newCall (hc : CallOk p p.next c) :
    PipeOk { p.setCall p.next c with next := p.next + 1 } := by
  refine ⟨⟨h.ring, h.order, fun j c' hj => ?_, fun j hj => ?_⟩, fun j hle => ?_⟩
  · change Function.update p.call p.next (some c) j = some c' at hj
    by_cases hjn : j = p.next
    · subst hjn
      rw [Function.update_self] at hj
      cases hj
      cases c <;> exact hc
    · rw [Function.update_of_ne hjn] at hj
      have hok := h.calls j c' hj
      cases c' <;> exact hok
  · change Function.update p.call p.next (some c) j = none at hj
    have hjn : j ≠ p.next := fun e => by
      rw [e, Function.update_self] at hj
      cases hj
    rw [Function.update_of_ne hjn] at hj
    exact h.known j hj
  · change Function.update p.call p.next (some c) j = none
    change p.next + 1 ≤ j at hle
    rw [Function.update_of_ne (by omega)]
    exact h.fresh j (by omega)

/-- Flags and ends come and go around the ring. -/
theorem setState {freed : Bool} (hring : RingOk s)
    (hcont : s.contents = p.state.contents) : PipeOk { p with state := s, freed } :=
  ⟨⟨hring, by rw [hcont]; exact h.order, fun j c' hj => by
    have hok := h.calls j c' hj
    cases c' <;> exact hok, h.known⟩, h.fresh⟩

theorem readLocked (hcall : p.call id = some (.read size out .entering)) :
    PipeOk (readLocked p id size out) := by
  obtain ⟨hout, hw, hlen, hempty, -⟩ := h.calls id _ hcall
  have hnil := hempty rfl
  subst hnil
  have hdone : ReadDone size p.state [] (readLoop size size (p.state, [])) :=
    readLoop_spec h.ring (Nat.sub_le _ _)
  obtain ⟨hok, ⟨got, hgot, hcont⟩, hfull, -⟩ := hdone
  unfold Pipes.readLocked
  generalize readLoop size size (p.state, []) = st at hok hgot hcont hfull
  obtain ⟨s1, out1⟩ := st
  subst hgot
  refine h.move (by rw [hcall]; rfl) rfl rfl hok ?_ (fun _ _ => rfl) (fun j hj => ?_) ?_
  · have horder := h.order
    rw [hcont] at horder
    show (p.handed ++ _).map (·.2) ++ s1.contents = p.written.map (·.2)
    simpa [Function.comp_def] using horder
  · show bytesOf j (p.handed ++ _) = _
    rw [bytesOf_append, bytesOf_tag_other hj, append_nil]
  · refine ⟨?_, hw, by simpa using hfull, nofun, nofun⟩
    show bytesOf id (p.handed ++ _) = out1
    rw [bytesOf_append, bytesOf_tag, hout]
    rfl

theorem readUnlocked {writers : Int} {nonblock interrupted : Bool}
    (hcall : p.call id = some (.read size out (.unlocked writers nonblock))) :
    PipeOk (readUnlocked p id size out writers nonblock interrupted) := by
  obtain ⟨hout, hw, hlen, -, -⟩ := h.calls id _ hcall
  refine h.setCall (by rw [hcall]; rfl) ⟨hout, hw, hlen, fun hp => ?_, fun r hr => ?_⟩
  · split at hp
    · cases hp
    · next hz => exact length_eq_zero_iff.mp (by omega)
  · split at hr
    · cases hr; rfl
    · have h0 : out.length = 0 := by omega
      rw [h0]
      split at hr
      · cases hr; rfl
      split at hr
      · cases hr; rfl
      split at hr
      · cases hr; rfl
      · cases hr

theorem writeLocked (hcall : p.call id = some (.write src copied .entering)) :
    PipeOk (writeLocked p id src copied) := by
  obtain ⟨hw, hg, hle, -⟩ := h.calls id _ hcall
  unfold Pipes.writeLocked
  split
  · refine h.setCall (by rw [hcall]; rfl) ⟨hw, hg, hle, fun r hr => ?_⟩
    cases hr
    exact reports_shortWrite copied .epipe
  have hdone : WriteDone src p.state copied (writeLoop src src.length (p.state, copied)) :=
    writeLoop_spec h.ring hle (Nat.sub_le _ _)
  obtain ⟨hpush, hmore, hwithin, -⟩ := hdone
  generalize writeLoop src src.length (p.state, copied) = st at hpush hmore hwithin
  obtain ⟨s1, copied1⟩ := st
  refine h.move (by rw [hcall]; rfl) rfl rfl hpush.ok ?_ (fun j hj => ?_) (fun _ _ => rfl) ?_
  · show p.handed.map (·.2) ++ s1.contents = (p.written ++ _).map (·.2)
    rw [hpush.contents, ← append_assoc, h.order]
    simp [Function.comp_def]
  · show bytesOf j (p.written ++ _) = _
    rw [bytesOf_append, bytesOf_tag_other hj, append_nil]
  · refine ⟨?_, hg, hwithin, nofun⟩
    show bytesOf id (p.written ++ _) = src.take copied1
    rw [bytesOf_append, bytesOf_tag, hw, ← take_add, Nat.add_sub_cancel' hmore]

theorem writeUnlocked {full interrupted : Bool} (hcall : p.call id = some (.write src copied (.unlocked full))) :
    PipeOk (writeUnlocked p id src copied full interrupted) := by
  obtain ⟨hw, hg, hle, -⟩ := h.calls id _ hcall
  refine h.setCall (by rw [hcall]; rfl) ⟨hw, hg, hle, fun r hr => ?_⟩
  split at hr
  · cases hr; rfl
  split at hr
  · cases hr
  split at hr
  · cases hr; exact reports_shortWrite copied .eagain
  split at hr
  · cases hr; exact reports_shortWrite copied .eintr
  · cases hr

/-- What one step keeps. -/
theorem step (act : Act) : PipeOk (step p act) := by
  unfold Pipes.step
  split
  · exact h
  cases act with
  | read size =>
    obtain ⟨hw, hg⟩ := h.known p.next (h.fresh _ (Nat.le_refl _))
    refine h.newCall ⟨hg, hw, Nat.zero_le _, fun _ => rfl, fun r hr => ?_⟩
    split at hr
    · cases hr; rfl
    · cases hr
  | write src =>
    obtain ⟨hw, hg⟩ := h.known p.next (h.fresh _ (Nat.le_refl _))
    refine h.newCall ⟨hw, hg, Nat.zero_le _, fun r hr => ?_⟩
    split at hr
    · cases hr; rfl
    · cases hr
  | goOn id interrupted =>
    show PipeOk (goOn p id interrupted)
    unfold goOn
    split
    · next hcall => exact h.readLocked hcall
    · next hcall => exact h.readUnlocked hcall
    · next hcall => exact h.writeLocked hcall
    · next hcall => exact h.writeUnlocked hcall
    · exact h
  | setFlag writeEnd on | release writeEnd =>
    cases writeEnd <;> exact h.setState ⟨h.ring.count, h.ring.readPos, h.ring.writePos,
      h.ring.pos⟩ rfl

end

theorem create : PipeOk pipeCreateFilePair :=
  ⟨⟨⟨Nat.zero_le _, by decide, by decide, rfl⟩, rfl, nofun, fun _ _ => ⟨rfl, rfl⟩⟩, fun _ _ => rfl⟩

end PipeOk

/-- Whatever the calls on a pipe are, whichever way their locked sections fall
between each other and whenever the ends are closed: the pipe is a queue. -/
theorem pipe_is_fifo (acts : List Act) : Fifo (run step pipeCreateFilePair acts) :=
  (run_inv (fun _ act h _ => h.step act) PipeOk.create (Meets.of_all fun _ _ => trivial)).toFifo

end BleedKernel.Pipes
