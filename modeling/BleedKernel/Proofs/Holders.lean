import BleedKernel.Proofs.Mapping
import BleedKernel.Proofs.Vmas

/-!
# Who holds a frame

The ledger of the memory speaks of frames that are in hand and of slots that
hold references, and does not say whose. Here they get their owners: the slots
are those of the memfds and of the shared memory objects, the frames in hand
are those of the messages in the queues.

`Held` is the ledger with its slots filled in. Every function below the system
calls keeps it, with the same frames in hand before and after.
-/

namespace BleedKernel.Mm

open BleedKernel.Lib List Function

variable {f : Frame} {addr index pid size : Nat} {b : Backing} {a : UserAlloc}

variable {s : Sys} {id : Nat} {m : Memfd}

/-! ## Slots and queues -/

/-- The slots of a memfd that hold `f`. -/
def memfdSlots (f : Frame) (o : Option Memfd) : Nat :=
  match o with
  | some m => m.pages.count (some f)
  | none => 0

/-- The slots of a shared memory object that hold `f`. -/
def shmSlots (f : Frame) (o : Option ShmObject) : Nat :=
  match o with
  | some obj => obj.frames.count f
  | none => 0

@[simp] theorem memfdSlots_some (f : Frame) (m : Memfd) :
    memfdSlots f (some m) = m.pages.count (some f) := rfl

@[simp] theorem memfdSlots_none (f : Frame) : memfdSlots f none = 0 := rfl

@[simp] theorem shmSlots_some (f : Frame) (obj : ShmObject) :
    shmSlots f (some obj) = obj.frames.count f := rfl

@[simp] theorem shmSlots_none (f : Frame) : shmSlots f none = 0 := rfl

/-- All slots that hold `f`. -/
def slots (s : Sys) (f : Frame) : Nat :=
  tally (Finset.range s.nextMemfd) s.memfd (memfdSlots f)
    + tally (Finset.range s.shmNextId) s.shm (shmSlots f)

/-- How often `f` is in the messages of a queue. -/
def inQueue (f : Frame) (q : List IpcMessage) : Nat :=
  (q.map fun msg => msg.physPages.count f).sum

/-- How often `f` is in a message that waits. -/
def queued (s : Sys) (f : Frame) : Nat :=
  tally (Finset.range s.nextPid) s.queue (inQueue f)

/-- The ledger of the system, some way into a call: `own` are the frames in hand,
`m0` is the memory the call started from, and no count has gone up by more than
`k` since. -/
structure Held (pool slack lost own : Frame → Nat) (m0 : Memory) (k : Nat) (s : Sys) : Prop where
  mem : MemOk pool slack lost own (slots s) s.mm
  grows : Grows k m0 s.mm
  memfds : ∀ id, s.nextMemfd ≤ id → s.memfd id = none
  shms : ∀ id, s.shmNextId ≤ id → s.shm id = none

theorem slots_setMemfd {o : Option Memfd} (h : id < s.nextMemfd) (f : Frame) :
    slots (s.setMemfd id o) f + memfdSlots f (s.memfd id) = slots s f + memfdSlots f o := by
  have := tally_update (F := s.memfd) (g := memfdSlots f) (b := o) (Finset.mem_range.mpr h)
  unfold slots Sys.setMemfd
  dsimp only
  omega

/-- A memfd with empty slots comes in at the end. -/
theorem slots_addMemfd (hm : m.pages = []) :
    slots { s with memfd := update s.memfd s.nextMemfd (some m),
                   nextMemfd := s.nextMemfd + 1 } = slots s := by
  funext f
  unfold slots
  rw [tally_push, memfdSlots_some, hm]
  rfl

/-- A shared memory object comes in at the end. -/
theorem slots_addShm (obj : ShmObject) (f : Frame) :
    slots { s with shm := update s.shm s.shmNextId (some obj),
                   shmNextId := s.shmNextId + 1 } f = slots s f + obj.frames.count f := by
  unfold slots
  dsimp only
  rw [tally_push, shmSlots_some]
  omega

theorem slots_setShm {o : Option ShmObject} (h : id < s.shmNextId) (f : Frame) :
    slots (s.setShm id o) f + shmSlots f (s.shm id) = slots s f + shmSlots f o := by
  have := tally_update (F := s.shm) (g := shmSlots f) (b := o) (Finset.mem_range.mpr h)
  unfold slots Sys.setShm
  dsimp only
  omega

theorem memfdSlots_le (h : id < s.nextMemfd) (f : Frame) : memfdSlots f (s.memfd id) ≤ slots s f :=
  (le_tally (Finset.mem_range.mpr h)).trans (Nat.le_add_right _ _)

theorem shmSlots_le (h : id < s.shmNextId) (f : Frame) : shmSlots f (s.shm id) ≤ slots s f :=
  (le_tally (Finset.mem_range.mpr h)).trans (Nat.le_add_left _ _)

/-! ## Letting go of a reference -/

section framePut

variable {pool slack lost own slots : Frame → Nat} {m : Memory}

theorem MemOk.framePut (h : MemOk pool (bump slack f) lost own slots m) :
    MemOk pool slack lost own slots (framePut m (some f)) := by
  have hu := h.unref
  unfold Mm.framePut
  dsimp only
  split
  · next hz => rw [if_pos hz] at hu; exact hu.freeOne
  · next hz => rw [if_neg hz] at hu; exact hu

theorem Grows.framePut {o : Option Frame} : Grows 0 m (framePut m o) := by
  unfold Mm.framePut
  split
  · exact rfl'
  dsimp only
  split
  · exact cowUnrefPage.trans free
  · exact cowUnrefPage

/-- A list of references nobody holds any more. -/
theorem MemOk.framePuts {l : List (Option Frame)}
    (h : MemOk pool (fun f => slack f + l.count (some f)) lost own slots m) :
    MemOk pool slack lost own slots (l.foldl Mm.framePut m) := by
  induction l generalizing m with
  | nil => exact h
  | cons o l ih =>
    refine ih ?_
    cases o with
    | none =>
      exact h
    | some g =>
      have he : (fun f => slack f + (some g :: l).count (some f))
          = bump (fun f => slack f + l.count (some f)) g := by
        funext f
        by_cases hf : f = g
        · subst hf; rw [bump_self, count_cons_self]; rfl
        · rw [bump_of_ne hf, count_cons_of_ne (by simpa using Ne.symm hf)]
      rw [he] at h
      exact h.framePut

theorem Grows.framePuts {l : List (Option Frame)} : Grows 0 m (l.foldl Mm.framePut m) :=
  foldl_inv (fun _ _ _ h => h.trans .framePut) rfl'

theorem shmDropFrames_eq (m : Memory) (frames : List Frame) :
    shmDropFrames m frames = (frames.map some).foldl Mm.framePut m := by
  unfold shmDropFrames
  rw [foldl_map]

theorem count_map_some (l : List Frame) (f : Frame) : (l.map some).count (some f) = l.count f :=
  count_map_of_injective l some (Option.some_injective _) f

end framePut

/-- The counts have room for `n` more references to anything. -/
def Room (m0 : Memory) (n : Nat) : Prop := ∀ f, m0.refs f + n < 2 ^ 32

theorem Room.mono {m0 : Memory} {n n' : Nat} (h : Room m0 n)
    (hn : n' ≤ n) : Room m0 n' := fun f => by
  have := h f; omega

namespace Held

variable {pool slack slack' lost lost' own own' : Frame → Nat} {m0 : Memory}
  {k : Nat} {s s' : Sys} {id : Nat}

/-- The array has been made long enough when the loop is over. -/
theorem le_growCap (want fuel cap : Nat) (hcap : 0 < cap) (hfuel : want ≤ cap + fuel) :
    want ≤ growCap want fuel cap := by
  induction fuel generalizing cap with
  | zero => exact hfuel
  | succ fuel ih =>
    rw [growCap]
    split
    · exact ih (cap * 2) (by omega) (by omega)
    · next h => omega

/-- Putting a frame into an empty slot. -/
theorem count_set_none {pages : List (Option Frame)} {p : Frame}
    (h : pages[index]? = some none) (f : Frame) :
    (pages.set index (some p)).count (some f) = pages.count (some f) + (decide (f = p)).toNat := by
  obtain ⟨hlt, he⟩ := List.getElem?_eq_some_iff.mp h
  rw [List.count_set hlt, he]
  by_cases hf : f = p
  · subst hf; simp
  · have : ¬ p = f := fun e => hf e.symm
    simp [hf, this]

/-- The slot `memfd_page` is about to fill is empty. -/
theorem empty_slot {pages : List (Option Frame)} {n : Nat}
    (hne : ∀ f, pages[index]? = some (some f) → False)
    (hlen : index + 1 ≤ (pages ++ replicate n none).length) :
    (pages ++ replicate n none)[index]? = some none := by
  rw [getElem?_append]
  split
  · rename_i hlt
    obtain ⟨x, hx⟩ : ∃ x, pages[index]? = some x := ⟨_, getElem?_eq_getElem hlt⟩
    cases x with
    | none => exact hx
    | some f => exact (hne f hx).elim
  · rw [length_append, length_replicate] at hlen
    rw [getElem?_replicate, if_pos (by omega)]

variable (h : Held pool slack lost own m0 k s)

include h

theorem memfd_lt (hm : s.memfd id = some m) : id < s.nextMemfd := by
  by_contra hge
  rw [h.memfds id (Nat.le_of_not_lt hge)] at hm
  cases hm

theorem shm_lt {obj : ShmObject} (hm : s.shm id = some obj) : id < s.shmNextId := by
  by_contra hge
  rw [h.shms id (Nat.le_of_not_lt hge)] at hm
  cases hm

/-- What the ledger does not read does not matter to it. -/
theorem of_eq (hmm : s'.mm = s.mm)
    (hmf : s'.memfd = s.memfd) (hn : s'.nextMemfd = s.nextMemfd) (hs : s'.shm = s.shm)
    (hns : s'.shmNextId = s.shmNextId) : Held pool slack lost own m0 k s' := by
  have hsl : slots s' = slots s := by
    unfold slots; rw [hmf, hn, hs, hns]
  exact ⟨by rw [hsl, hmm]; exact h.mem, by rw [hmm]; exact h.grows,
    by rw [hn, hmf]; exact h.memfds, by rw [hns, hs]; exact h.shms⟩

/-- A change of the memory alone. -/
theorem mm {mm : Memory} (hm : MemOk pool slack' lost' own' (slots s) mm)
    {j : Nat} (hg : Grows j s.mm mm) :
    Held pool slack' lost' own' m0 (k + j) { s with mm } :=
  ⟨hm, h.grows.trans hg, h.memfds, h.shms⟩

theorem kmalloc : Held pool slack lost own m0 k s.kmalloc.2 := by
  unfold Sys.kmalloc
  split <;> exact h.of_eq rfl rfl rfl rfl rfl

theorem setAllocs (pid : Nat) {l : List UserAlloc} :
    Held pool slack lost own m0 k (s.setAllocs pid l) :=
  h.of_eq rfl rfl rfl rfl rfl

theorem setQueue {q : List IpcMessage} : Held pool slack lost own m0 k (s.setQueue pid q) :=
  h.of_eq rfl rfl rfl rfl rfl

theorem setBytes {b : Nat → UInt8} :
    Held pool slack lost own m0 k { s with mm := s.mm.setBytes f b } :=
  h.mm h.mem.setBytes .setBytes

/-! ## Memfds -/

/-- A memfd is stored and the slots that came and went are made up for in
`slack`. -/
theorem setMemfd (id : Nat) (slack' : Frame → Nat) {o : Option Memfd} (hid : id < s.nextMemfd)
    (hsum : ∀ f, memfdSlots f o + slack' f = memfdSlots f (s.memfd id) + slack f)
    (hcow : ∀ f, memfdSlots f o ≤ memfdSlots f (s.memfd id) ∨ ptes s.mm (cowW f) = 0) :
    Held pool slack' lost own m0 k (s.setMemfd id o) := by
  refine ⟨h.mem.setSlots (fun f => ?_) (fun f => ?_), h.grows, fun j hj => ?_, h.shms⟩
  · have := slots_setMemfd (o := o) hid f
    have := hsum f
    omega
  · have := slots_setMemfd (o := o) hid f
    rcases hcow f with hle | hz
    · exact .inl (by omega)
    · exact .inr hz
  · change update s.memfd id o j = none
    rw [update_of_ne (by change s.nextMemfd ≤ j at hj; omega)]
    exact h.memfds j hj

/-- A memfd with other fields and the same slots. -/
theorem setMemfd_same {m' : Memfd} (hm : s.memfd id = some m)
      (hp : ∀ f, m'.pages.count (some f) = m.pages.count (some f)) :
    Held pool slack lost own m0 k (s.setMemfd id (some m')) := by
  refine h.setMemfd _ _ (h.memfd_lt hm) (fun f => ?_) (fun f => .inl ?_)
  · rw [hm, memfdSlots_some, memfdSlots_some, hp]
  · rw [hm, memfdSlots_some, memfdSlots_some, hp]

/-- The slots `grow_slots` adds are empty. -/
theorem growSlots {want : Nat} (hm : s.memfd id = some m) :
    Held pool slack lost own m0 k (growSlots s id m want).2 ∧
      (Mm.growSlots s id m want).2.mm = s.mm ∧
      ((Mm.growSlots s id m want).1 = true → ∃ m' k,
        (Mm.growSlots s id m want).2.memfd id = some m' ∧
        m'.pages = m.pages ++ replicate k none ∧ want ≤ m'.pages.length) := by
  have hk := h.kmalloc
  have hkm : s.kmalloc.2.memfd = s.memfd ∧ s.kmalloc.2.mm = s.mm := by
    unfold Sys.kmalloc; split <;> exact ⟨rfl, rfl⟩
  unfold Mm.growSlots
  split
  · next hle => exact ⟨h, rfl, fun _ => ⟨m, 0, hm, by simp, hle⟩⟩
  have hcap := le_growCap want want (if m.pages.length ≠ 0 then m.pages.length else 16)
    (by split <;> omega) (by omega)
  generalize growCap want want (if m.pages.length ≠ 0 then m.pages.length else 16) = cap at hcap
  split
  · next he => rw [he] at hk hkm; exact ⟨hk, hkm.2, fun hf => by cases hf⟩
  rename_i he
  rw [he] at hk hkm
  refine ⟨hk.setMemfd_same (by rw [hkm.1]; exact hm) fun f => ?_, hkm.2,
    fun _ => ⟨_, cap - m.pages.length, update_self _ _ _, rfl, ?_⟩⟩
  · rw [count_append, count_replicate]; simp
  · rw [length_append, length_replicate]; omega

/-- A new page of a memfd. -/
theorem newPage {p : Frame} {mm : Memory} (hm : s.memfd id = some m)
    (hempty : m.pages[index]? = some none) (ha : pmmAllocPages s.mm = (some p, mm)) :
    Held pool slack lost own m0 (k + 1)
      ({ s with mm := cowRefPage (mm.setBytes p fun _ => 0) p }.setMemfd id
        (some { m with pages := m.pages.set index (some p) })) := by
  obtain ⟨h1, -, hk⟩ := ((h.mem.alloc ha).setBytes).refFresh
  have hg := (Grows.alloc (m := s.mm)).trans ((Grows.setBytes (f := p)
    (b := fun _ => 0)).trans (Grows.cowRefPage (f := p)))
  rw [ha] at hg
  have h2 := h.mm h1 hg
  refine setMemfd h2 _ _ (h.memfd_lt hm) (fun f => ?_) (fun f => ?_)
  · change memfdSlots f (some _) + slack f = memfdSlots f (s.memfd id) + bump slack p f
    rw [hm, memfdSlots_some, memfdSlots_some, count_set_none hempty, bump]
    omega
  · by_cases hf : f = p
    · subst hf; exact .inr hk
    · left
      change memfdSlots f (some _) ≤ memfdSlots f (s.memfd id)
      rw [hm, memfdSlots_some, count_set_none hempty, decide_eq_false hf]
      exact Nat.le_refl _

theorem mono {j : Nat} (hkj : k ≤ j) : Held pool slack lost own m0 j s :=
  ⟨h.mem, h.grows.mono hkj, h.memfds, h.shms⟩

/-- The frame of a page of a memfd sits in one of its slots. -/
theorem memfdPage (id : Nat) (index : Nat) (create : Bool) :
    Held pool slack lost own m0 (k + 1) (memfdPage s id index create).2 ∧
      (∀ f, (Mm.memfdPage s id index create).1 = some f →
        0 < slots (Mm.memfdPage s id index create).2 f) ∧
      ∀ c i, (Mm.memfdPage s id index create).2.mm.pteAt c i = s.mm.pteAt c i := by
  have hsame := h.mono (Nat.le_succ k)
  unfold Mm.memfdPage
  split
  · exact ⟨hsame, fun _ hf => (by cases hf), fun _ _ => rfl⟩
  rename_i hm
  split
  · exact ⟨hsame, fun _ hf => (by cases hf), fun _ _ => rfl⟩
  split
  · rename_i f hf
    refine ⟨hsame, fun g hg => ?_, fun _ _ => rfl⟩
    cases hg
    have hpos := count_pos_iff.mpr (mem_of_getElem? hf)
    have hle := memfdSlots_le (h.memfd_lt hm) f
    rw [hm] at hle
    exact Nat.lt_of_lt_of_le hpos hle
  rename_i hne
  split
  · exact ⟨hsame, fun _ hf => (by cases hf), fun _ _ => rfl⟩
  obtain ⟨hg, hmm, hg'⟩ := h.growSlots hm
  split
  · rename_i he
    rw [he] at hg hmm
    exact ⟨hg.mono (Nat.le_succ k), fun _ hf => (by cases hf), fun _ _ => by rw [hmm]⟩
  rename_i s1 he
  rw [he] at hg hg' hmm
  obtain ⟨m1, n, hm1, hpages, hlen⟩ := hg' rfl
  have hempty : m1.pages[index]? = some none := by
    rw [hpages] at hlen ⊢
    exact empty_slot hne hlen
  have hq := Quiet.alloc s1.mm
  split
  · rename_i ha
    rw [ha] at hq
    refine ⟨(hg.mm (hg.mem.allocNone ha) (.of_quiet hq)).mono
      (Nat.le_succ k), fun _ hf => (by cases hf), fun c i => ?_⟩
    rw [← hmm]; exact hq.pte c i
  rename_i p mm ha
  rw [ha] at hq
  have hnew := hg.newPage hm1 hempty ha
  dsimp only
  rw [hm1]
  refine ⟨hnew, fun f hf => ?_, fun c i => ?_⟩
  · cases hf
    have hle := memfdSlots_le (hnew.memfd_lt (update_self _ _ _)) p
    refine Nat.lt_of_lt_of_le ?_ hle
    change 0 < memfdSlots p (update s1.memfd id _ id)
    rw [update_self, memfdSlots_some, count_set_none hempty, decide_eq_true rfl]
    exact Nat.succ_pos _
  · rw [← hmm]
    refine Eq.trans ?_ (hq.pte c i)
    exact Memory.pteAt_congr (cowRefPage_rest (mm.setBytes p fun _ => 0) p).2.1 c i

/-- The slots of the memfd go, all of them or the ones past its end. -/
theorem cutTo (hm : s.memfd id = some m) : Held pool slack lost own m0 k (cutTo s id m size) := by
  unfold Mm.cutTo
  dsimp only
  generalize (size + pageSize - 1) / pageSize = keep
  have hcount : ∀ f : Frame, (m.pages.take keep ++ replicate
      (m.pages.length - keep) none).count (some f) + (m.pages.drop keep).count (some f)
      = m.pages.count (some f) := fun f => by
    have := congrArg (count (some f)) (take_append_drop keep m.pages)
    rw [count_append] at this
    rw [count_append, count_replicate, ← this]
    simp
  generalize m.pages.take keep ++ replicate (m.pages.length - keep) none = pages at hcount
  have h1 := h.setMemfd id (fun f => slack f + (m.pages.drop keep).count (some f))
    (h.memfd_lt hm) (o := some { m with pages })
    (fun f => by
      rw [hm, memfdSlots_some, memfdSlots_some]
      have := hcount f
      dsimp only
      omega)
    (fun f => .inl (by
      rw [hm, memfdSlots_some, memfdSlots_some]
      have := hcount f
      dsimp only
      omega))
  have h3 : Held pool slack lost own m0 k ({ s with
      mm := (m.pages.drop keep).foldl framePut s.mm }.setMemfd id
        (some { m with pages })) := h1.mm h1.mem.framePuts Grows.framePuts
  -- clearing the tail of the last page is no business of the ledger
  split
  · split
    · exact h3.setBytes
    · exact h3
  · exact h3

theorem memfdResize : Held pool slack lost own m0 k (memfdResize s id size).2 := by
  unfold Mm.memfdResize
  split
  · exact h
  rename_i m hm
  split
  · exact h
  split
  · exact h
  dsimp only
  have h1 : Held pool slack lost own m0 k (if size < m.size then Mm.cutTo s id m size else s) := by
    split
    · exact h.cutTo hm
    · exact h
  split
  · exact h1
  · next hm1 => exact h1.setMemfd_same hm1 fun _ => rfl

theorem memfdWrite {data : Nat → UInt8} {offset : Nat} :
    ∃ j, Held pool slack lost own m0 j (memfdWrite s id data size offset).2 := by
  unfold Mm.memfdWrite
  split
  · exact ⟨k, h⟩
  rename_i m hm
  split
  · exact ⟨k, h⟩
  split
  · exact ⟨k, h⟩
  dsimp only
  have h1 : Held pool slack lost own m0 k (if offset + size > m.size
      then Mm.memfdResize s id (offset + size) else (.ok (), s)).2 := by
    split
    · exact h.memfdResize
    · exact h
  generalize (if offset + size > m.size
    then Mm.memfdResize s id (offset + size) else (.ok (), s)) = r at h1
  split
  · exact ⟨k, h1⟩
  refine forEach_inv (P := fun t => ∃ j, Held pool slack lost own m0 j t)
    (fun page _ t ⟨j, ht⟩ => ⟨j + 1, ?_⟩) ⟨k, h1⟩
  have hp := (ht.memfdPage id page true).1
  split
  · next he => rw [he] at hp; exact hp
  · next he => rw [he] at hp; exact hp.setBytes

theorem memfdDrop : Held pool slack lost own m0 k (memfdDrop s id) := by
  unfold Mm.memfdDrop
  split
  · exact h
  rename_i m hm
  have h1 := h.setMemfd id (fun f => slack f + m.pages.count (some f)) (o := none) (h.memfd_lt hm)
    (fun f => by rw [hm, memfdSlots_some, memfdSlots_none]; omega)
    (fun f => .inl (Nat.zero_le _))
  exact h1.mm h1.mem.framePuts Grows.framePuts

theorem memfdAddSeals {bits : Nat} : Held pool slack lost own m0 k (memfdAddSeals s id bits).2 := by
  unfold Mm.memfdAddSeals
  split
  · exact h
  · exact h
  · rename_i hm _
    split
    · exact h
    split
    · exact h
    · exact h.setMemfd_same hm fun _ => rfl

theorem memfdTrackWriter (id : Nat) (delta : Int) :
    Held pool slack lost own m0 k (memfdTrackWriter s id delta).2 := by
  unfold Mm.memfdTrackWriter
  split
  · exact h
  rename_i hm
  split
  · exact h
  · exact h.setMemfd_same hm fun _ => rfl

theorem vfsHold : Held pool slack lost own m0 k (vfsHold s b) := by
  unfold Mm.vfsHold
  split
  · split
    · exact h
    · next hm => exact h.setMemfd_same hm fun _ => rfl
  · exact h

theorem vfsDrop : Held pool slack lost own m0 k (vfsDrop s b) := by
  unfold Mm.vfsDrop
  split
  · split
    · exact h
    · rename_i hm
      split
      · exact h
      split
      · exact h.memfdDrop
      · exact h.setMemfd_same hm fun _ => rfl
  · exact h

theorem memfdClose : Held pool slack lost own m0 k (memfdClose s id) := by
  unfold Mm.memfdClose
  split
  · exact h
  rename_i hm
  split
  · refine vfsDrop ?_
    exact h.setMemfd_same hm fun _ => rfl
  · exact h

/-- A new memfd has no slots. -/
theorem memfdCreate {allowSealing : Bool} :
    Held pool slack lost own m0 k (memfdCreate s allowSealing).2 := by
  have hk := h.kmalloc
  unfold Mm.memfdCreate
  split
  · next he => rw [he] at hk; exact hk
  rename_i he
  rw [he] at hk
  refine ⟨?_, hk.grows, fun j hj => ?_, hk.shms⟩
  · rw [slots_addMemfd rfl]; exact hk.mem
  · dsimp only at hj ⊢
    rw [update_of_ne (by omega)]
    exact hk.memfds j (Nat.le_of_succ_le hj)

/-! ## Nodes and their files -/

theorem userAllocFree : Held pool slack lost own m0 k (userAllocFree s a) := by
  unfold Mm.userAllocFree
  split
  · exact h
  split
  · exact (h.memfdTrackWriter _ _).vfsDrop
  · exact h.vfsDrop

theorem userAllocCopy : Held pool slack lost own m0 k (userAllocCopy s a) := by
  unfold Mm.userAllocCopy
  split
  · exact h
  split
  · exact h.vfsHold.memfdTrackWriter _ _
  · exact h.vfsHold

/-! ## Unmapping -/

theorem vmmUnmapFreePages {cr3 : Cr3} {virt pages : Nat} : Held pool slack lost own m0 k
      { s with mm := vmmUnmapFreePages s.mm cr3 virt pages } :=
  h.mm h.mem.vmmUnmapFreePages Grows.vmmUnmapFreePages

theorem unmapAlloc : Held pool slack lost own m0 k (unmapAlloc pid s a) :=
  h.vmmUnmapFreePages.userAllocFree

theorem foldl_unmapAlloc (pid : Nat) {l : List UserAlloc} :
    Held pool slack lost own m0 k (l.foldl (Mm.unmapAlloc pid) s) :=
  foldl_inv (fun _ _ _ ht => ht.unmapAlloc) h

/-- The steps of a call that edits alloc lists. -/
theorem edits {ok : Prop} {t : Sys}
    (hd : Edits (fun _ _ => False) ok s t) : Held pool slack lost own m0 k t := by
  induction hd with
  | refl => exact h
  | tail _ he ih =>
    cases he with
    | kmalloc => exact ih.kmalloc
    | copy a => exact ih.userAllocCopy
    | free a => exact ih.userAllocFree
    | unmap cr3 virt pages => exact ih.vmmUnmapFreePages
    | allocs _ => exact ih.setAllocs _
    | other h => exact h.elim

theorem taskVmaDiscard {len : Nat} :
    Held pool slack lost own m0 k (taskVmaDiscard s pid addr len) := by
  refine foldl_inv (fun a _ t ht => ?_) h
  unfold discardAlloc
  split
  · exact ht
  · exact ht.vmmUnmapFreePages

/-! ## Filling pages in -/

theorem faultInShared {page : Nat} (hpage : page < 2 ^ 47) (hroom : Room m0 (k + 2))
    (h0 : s.mm.pte (s.pageMap pid) page = {}) :
    Held pool slack lost own m0 (k + 2) (faultInShared s pid a page).2 := by
  unfold Mm.faultInShared
  split
  · exact h.mono (by omega)
  rename_i id _
  obtain ⟨h1, hslot, hpte⟩ := h.memfdPage id ((a.offset + (page - a.vaddr)) / pageSize) true
  have hsame := memfdPage_same s id ((a.offset + (page - a.vaddr)) / pageSize) true
  split
  · next he => rw [he] at h1; exact h1.mono (by omega)
  rename_i f s1 he
  rw [he] at h1 hslot hpte hsame
  have hsl := hslot f rfl
  have hpm : s1.pageMap pid = s.pageMap pid := hsame.pageMap pid
  obtain ⟨hpos, hk⟩ := h1.mem.slot_counted hsl
  have href := h1.mem.ref (by have := h1.grows.refs f; have := hroom f; omega) hpos
  have h0' : (cowRefPage s1.mm f).pte (s1.pageMap pid) page = {} := by
    unfold Memory.pte
    rw [Memory.pteAt_congr (cowRefPage_rest s1.mm f).2.1, hpm]
    exact (hpte _ _).trans h0
  dsimp only
  have hm := href.mapOver (s1.pageMap pid) page (pageIdx_lt hpage)
    { protPte a.prot with shared := true }
    (.ofShared rfl (protPte_flags _).1 (protPte_flags _).2.1 rfl (Ledger.ptes_cowRefPage.trans hk))
  have hg : Grows 1 s1.mm (pagingMapPageInvl (cowRefPage s1.mm f)
      (s1.pageMap pid) f page { protPte a.prot with shared := true }) :=
    Grows.cowRefPage.trans (.pagingMapPageInvl _ _ _)
  rcases hm with ⟨-, hnone, hok⟩ | ⟨⟨p, hsome⟩, slack', lost', hok, hcl⟩
  · rw [hnone]
    -- the memfd still has its own reference
    have hu := hok.unref
    rw [if_neg (by
      have hc := hok.ledger.count f
      rw [bump_self] at hc
      rw [cowUnrefPage_fst]; omega)] at hu
    exact h1.mm hu (hg.trans .cowUnrefPage)
  · rw [hsome]
    obtain ⟨rfl, rfl⟩ := hcl (by rw [h0'])
    exact h1.mm hok hg

theorem inodeRead {pos : Nat} : Held pool slack lost own m0 k (inodeRead s b f pos).2 ∧
      ∀ c i, (Mm.inodeRead s b f pos).2.mm.pteAt c i = s.mm.pteAt c i := by
  unfold Mm.inodeRead
  split
  · split
    · exact ⟨h, fun _ _ => rfl⟩
    · exact ⟨h.setBytes, fun _ _ => rfl⟩
  · split
    · exact ⟨h, fun _ _ => rfl⟩
    · exact ⟨h.of_eq rfl rfl rfl rfl rfl, fun _ _ => rfl⟩
    · exact ⟨h.setBytes.of_eq rfl rfl rfl rfl rfl, fun _ _ => rfl⟩

theorem readIn (page : Nat) : Held pool slack lost own m0 k (readIn s a f page).2 ∧
      ∀ c i, (Mm.readIn s a f page).2.mm.pteAt c i = s.mm.pteAt c i := by
  unfold Mm.readIn
  split
  · exact ⟨h, fun _ _ => rfl⟩
  · exact h.inodeRead

theorem faultInPrivate {page : Nat} (hpage : page < 2 ^ 47)
    (h0 : s.mm.pte (s.pageMap pid) page = {}) :
    Held pool slack lost own m0 k (faultInPrivate s pid a page).2 := by
  have hq := Quiet.allocEmpty s.mm
  unfold Mm.faultInPrivate
  split
  · rename_i ha
    rw [ha] at hq
    exact h.mm (h.mem.allocEmptyNone ha) (.of_quiet hq)
  rename_i f mm ha
  rw [ha] at hq
  have h1 : Held pool slack lost (bump own f) m0 k { s with mm } :=
    h.mm (h.mem.allocEmpty ha) (.of_quiet hq)
  obtain ⟨h2, hpte⟩ := h1.readIn page
  have hsame := readIn_same { s with mm } a f page
  split
  · rename_i he
    rw [he] at h2
    exact h2.mm h2.mem.freeOne .free
  rename_i s1 he
  rw [he] at h2 hpte hsame
  have hpm : s1.pageMap pid = s.pageMap pid := hsame.pageMap pid
  have h0' : s1.mm.pte (s1.pageMap pid) page = {} := by
    rw [hpm]
    exact ((hpte _ _).trans (hq.pte _ _)).trans h0
  have hm := h2.mem.mapPriv (s1.pageMap pid) page (protPte a.prot)
    (pageIdx_lt hpage) h0' (protPte_flags _).1
    (protPte_flags _).2.1 (protPte_flags _).2.2
  have hg := Grows.pagingMapPageInvl (s1.pageMap pid) page (protPte a.prot) (m := s1.mm) (f := f)
  dsimp only
  split
  · next hn => rw [hn] at hm; exact h2.mm hm.freeOne (hg.trans .free)
  · next hn => rw [hn] at hm; exact h2.mm hm hg

theorem taskFaultIn (pid addr : Nat) (write exec : Bool) (hl : AllocsOk (s.allocs pid))
    (hroom : Room m0 (k + 2)) :
    Held pool slack lost own m0 (k + 2) (taskFaultIn s pid addr write exec).2 := by
  have hsame := h.mono (show k ≤ k + 2 by omega)
  unfold Mm.taskFaultIn
  split
  · exact hsame
  rename_i ha
  have hpage : pageAlignDown addr < 2 ^ 47 := by
    have := hl.find_lt ha
    unfold pageAlignDown pageSize
    omega
  split
  · exact hsame
  split
  · exact hsame
  split
  · exact hsame
  split
  · exact hsame
  rename_i hg
  have h0 := h.mem.pte_eq_zero hg
  split
  · exact h.faultInShared hpage hroom h0
  · exact (h.faultInPrivate hpage h0).mono (by omega)

end Held

end BleedKernel.Mm
