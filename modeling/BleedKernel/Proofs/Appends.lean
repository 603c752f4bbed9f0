import BleedKernel.Lib.Slots
import BleedKernel.Model.FileWrite

/-!
# Where an append lands

The offset of a description is put to the end of the file when it is opened and
nowhere else. A call of `sys_write` therefore appends as long as its description is
at the end when the call is made, and as long as nobody else writes before it is
through.
-/

namespace BleedKernel.Regular

open BleedKernel.Lib List

/-- What an append put in the file. -/
def Call.appended (c : Call) : Nat := if c.append then c.total else 0

/-- What all appends put in it. -/
def Sys.appended (s : Sys) : Nat := (s.calls.map Call.appended).sum

/-- A call keeps to the end of the file: a description that appends is there when a
call on it is made, no call writes or moves the offset of an append that is under
way in another, and writes that are no appends extend the file. -/
def AtEnd (s : Sys) : Act → Prop
  | .openAt .. | .reopenFd .. => True
  | .lseek file _ => ∀ c ∈ s.calls, c.append → c.ended = false → c.file ≠ file
  | .write file _ _ => ∀ f ∈ s.files[file]?, f.append → f.offset = s.bytes.length
  | .turn k _ => (∀ c ∈ s.calls.eraseIdx k, c.append → c.ended) ∧
      ∀ c ∈ s.calls[k]?, c.append = false → ∀ f ∈ s.files[c.file]?, s.bytes.length ≤ f.offset
  | .pwrite offset _ => (∀ c ∈ s.calls, c.append → c.ended) ∧ s.bytes.length ≤ offset

instance (s : Sys) (a : Act) : Decidable (AtEnd s a) := by
  cases a <;> simp only [AtEnd] <;> infer_instance

/-- What the appends put is where the file ended when they were made, and the file
is as long as what was put in it. -/
structure Placed (s : Sys) : Prop where
  placed : ∀ c ∈ s.calls, c.append → c.before ++ c.data.take c.total <+: s.bytes
  size : s.bytes.length = s.appended + s.others

/-- Beyond `Placed`: the file ends with what an append under way has put in it, and
its description is there. -/
structure Inv (s : Sys) : Prop extends Placed s where
  running : ∀ c ∈ s.calls, c.append → c.ended = false → s.bytes = c.before ++ c.data.take c.total ∧
      ∃ f, s.files[c.file]? = some f ∧ f.offset = s.bytes.length

variable {s : Sys} {bytes src : List UInt8} {offset k : Nat} {c c' : Call} {f : File}

theorem writeAt_end : writeAt bytes bytes.length src = bytes ++ src := by
  simp [writeAt]

theorem prefix_writeAt (h : bytes.length ≤ offset) : bytes <+: writeAt bytes offset src := by
  rw [writeAt, take_of_length_le h, append_assoc, append_assoc]
  exact prefix_append ..

/-- A write that is no append, at or past the end, while no append is under way. -/
theorem Inv.extend (i : Inv s) {files : List File} {calls : List Call}
    (hcalls : ∀ c ∈ calls, c.append → c ∈ s.calls ∧ c.ended)
    (hsum : (calls.map Call.appended).sum = s.appended) (hoff : s.bytes.length ≤ offset) :
    Inv ⟨writeAt s.bytes offset src, files, calls,
      s.others + ((writeAt s.bytes offset src).length - s.bytes.length)⟩ := by
  have hpre : s.bytes <+: writeAt s.bytes offset src := prefix_writeAt hoff
  have hlen := hpre.length_le
  have hsize := i.size
  refine ⟨⟨fun c hc ha => (i.placed c (hcalls c hc ha).1 ha).trans hpre, ?_⟩, ?_⟩
  · show (writeAt s.bytes offset src).length = (calls.map Call.appended).sum + (s.others + _)
    omega
  · intro c hc ha hend
    simp [(hcalls c hc ha).2] at hend

/-- A call ends, having put nothing more. -/
theorem Inv.stop (i : Inv s) (hk : s.calls[k]? = some c) :
    Inv { s with calls := s.calls.set k { c with ended := true } } := by
  refine ⟨⟨?_, ?_⟩, ?_⟩
  · intro x hx ha
    rcases mem_or_eq_of_mem_set hx with h | rfl
    · exact i.placed x h ha
    · exact i.placed c (mem_of_getElem? hk) ha
  · have hsum : _ + c.appended = _ + c.appended :=
      sum_set (b := { c with ended := true }) Call.appended hk
    rw [Nat.add_right_cancel_iff] at hsum
    exact i.size.trans (congrArg (· + s.others) hsum.symm)
  · intro x hx ha hend
    rcases mem_or_eq_of_mem_set hx with h | rfl
    · exact i.running x h ha hend
    · cases hend

/-- A turn of an append, with no other append under way. -/
theorem Inv.put (i : Inv s) (hk : s.calls[k]? = some c) (hf : s.files[c.file]? = some f)
    (ha : c.append = true) (hrun : c.ended = false)
    (hidle : ∀ c ∈ s.calls.eraseIdx k, c.append → c.ended) {n : Nat}
    (hn : n ≤ c.data.length - c.total) {kbuf ended : Bool} :
    Inv { s with
      bytes := writeAt s.bytes f.offset ((c.data.drop c.total).take n)
      files := s.files.set c.file { f with offset := f.offset + n }
      calls := s.calls.set k { c with total := c.total + n, kbuf, ended } } := by
  obtain ⟨hbytes, f', hf', hoff⟩ := i.running c (mem_of_getElem? hk) ha hrun
  obtain rfl : f = f' := by simpa [hf] using hf'
  have hlen : ((c.data.drop c.total).take n).length = n := by
    rw [length_take, length_drop]
    omega
  have hput : s.bytes ++ (c.data.drop c.total).take n = c.before ++ c.data.take (c.total + n) := by
    rw [take_add, ← append_assoc, ← hbytes]
  rw [hoff, writeAt_end]
  refine ⟨⟨?_, ?_⟩, ?_⟩
  · intro x hx hxa
    rcases eq_or_mem_of_mem_set hx with rfl | h
    · exact hput ▸ prefix_rfl
    · exact (i.placed x (mem_of_mem_eraseIdx h) hxa).trans (prefix_append ..)
  · have hsum := sum_set (b := { c with total := c.total + n, kbuf, ended }) Call.appended hk
    have hsize := i.size
    have hold : c.appended = c.total := if_pos ha
    have hnew : Call.appended { c with total := c.total + n, kbuf, ended } = c.total + n := if_pos ha
    simp only [Sys.appended] at hsize
    simp only [Sys.appended, List.length_append]
    omega
  · intro x hx hxa hend
    rcases eq_or_mem_of_mem_set hx with rfl | h
    · refine ⟨hput, _, List.getElem?_set_self (List.getElem?_eq_some_iff.mp hf).1, ?_⟩
      rw [List.length_append, hlen]
    · simp [hidle x h hxa] at hend

theorem Call.batch_le {page : Bool} : c.batch page ≤ c.data.length - c.total := by
  simp only [Call.batch]
  split <;> omega

theorem Inv.turn (i : Inv s) {luck : Luck} (h : AtEnd s (.turn k luck)) :
    Inv (writeTurn s k luck) := by
  simp only [writeTurn]
  split
  · exact i
  next c hk =>
  split
  · exact i
  next f hf =>
  split
  · exact i
  next hrun =>
  split
  · exact i.stop hk
  split
  · exact i.stop hk
  next n _ =>
  have hn : min n (c.batch luck.page) ≤ c.data.length - c.total :=
    Nat.le_trans (Nat.min_le_right ..) Call.batch_le
  by_cases ha : c.append = true
  · rw [if_pos ha]
    exact i.put hk hf ha (by simpa using hrun) h.1 hn
  · rw [if_neg ha]
    have hnone {x : Call} (hx : x.append = c.append) : x.appended = 0 := if_neg (hx ▸ ha)
    refine i.extend ?_ ?_ (h.2 c hk (by simpa using ha) f hf)
    · intro x hx hxa
      rcases eq_or_mem_of_mem_set hx with rfl | hx
      · exact absurd hxa ha
      · exact ⟨mem_of_mem_eraseIdx hx, h.1 x hx hxa⟩
    · refine Nat.add_right_cancel (Eq.trans (sum_set Call.appended hk) ?_)
      exact congrArg (s.appended + ·) (Eq.trans (hnone (by rfl)) (hnone (by rfl)).symm)

theorem Inv.step (i : Inv s) {a : Act} (h : AtEnd s a) : Inv (step s a) := by
  have hopen (f : File) : Inv { s with files := s.files ++ [f] } := by
    refine ⟨⟨i.placed, i.size⟩, fun c hc ha hend => ?_⟩
    obtain ⟨hbytes, f', hf, hoff⟩ := i.running c hc ha hend
    refine ⟨hbytes, f', ?_, hoff⟩
    rw [List.getElem?_append_left (List.getElem?_eq_some_iff.mp hf).1]
    exact hf
  cases a with
  | openAt | reopenFd => exact hopen _
  | lseek file offset =>
    refine ⟨⟨i.placed, i.size⟩, fun c hc ha hend => ?_⟩
    obtain ⟨hbytes, f, hf, hoff⟩ := i.running c hc ha hend
    refine ⟨hbytes, f, ?_, hoff⟩
    show (s.files.modify file _)[c.file]? = some f
    rw [getElem?_modify, hf]
    simp only [if_neg (h c hc ha hend).symm, Option.map_eq_map, Option.map_some]
  | write file userBuf data =>
    simp only [Regular.step, sysWrite]
    split
    · exact i
    next f hf =>
    split
    · exact i
    refine ⟨⟨?_, ?_⟩, ?_⟩
    · intro c hc ha
      rcases mem_append.mp hc with hc | hc
      · exact i.placed c hc ha
      · obtain rfl := mem_singleton.mp hc
        simp
    · simpa [Sys.appended, Call.appended] using i.size
    · intro c hc ha hend
      rcases mem_append.mp hc with hc | hc
      · exact i.running c hc ha hend
      · obtain rfl := mem_singleton.mp hc
        exact ⟨by simp, f, hf, h f hf ha⟩
  | turn k luck => exact i.turn h
  | pwrite offset data => exact i.extend (fun c hc ha => ⟨hc, h.1 c hc ha⟩) rfl h.2

/-- From a file nobody has open, in every run in which appends keep to the end: every
append has put its bytes where the file ended when it was made, they and what was
there before are still there, and the size is the sum of what was put. -/
theorem appends_placed {bytes : List UInt8} {acts : List Act}
    (h : Meets step AtEnd { bytes, others := bytes.length } acts) :
    Placed (run step { bytes, others := bytes.length } acts) := by
  refine (run_inv (I := Inv) (fun s a i => i.step) ⟨⟨?_, ?_⟩, ?_⟩ h).toPlaced
  · intro c hc
    cases hc
  · simp [Sys.appended]
  · intro c hc
    cases hc

/-- Two descriptions of an empty file, one append after the other. -/
def turns : List Act :=
  [.openAt .wronly true, .write 0 4096 [1, 2], .turn 0 { written := some 2 },
    .openAt .wronly true, .write 1 4096 [3], .turn 1 { written := some 1 }]

theorem appends_placed_turns : Meets step AtEnd {} turns ∧ Placed (run step {} turns) :=
  have h : Meets step AtEnd {} turns := by decide
  ⟨h, appends_placed h⟩

/-- Both descriptions were opened first: the second append lands on the first. -/
theorem append_overwrites : let s := run step {} [.openAt .wronly true, .openAt .wronly true,
      .write 0 4096 [1, 2], .turn 0 { written := some 2 },
      .write 1 4096 [3], .turn 1 { written := some 1 }]
    s.bytes = [3, 2] ∧ s.appended = 3 ∧ ¬Placed s := by
  refine ⟨by decide, by decide, fun h => ?_⟩
  have := h.size
  revert this
  decide

end BleedKernel.Regular
