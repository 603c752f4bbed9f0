import BleedKernel.Proofs.Steps

/-!
# Who owns a frame, over whole runs

The ledger read back. Over a run whose calls leave the counts room, and in which
there is a table of counts when the first one is wanted, no frame is free while
anything refers to it, and a page that is neither copy-on-write nor shared has
its frame to itself. Over a run whose calls also find their ranges clear and
their page tables, the counts are exact and a frame without holders is free.

The table is not always there: `cow_init` asks `kmalloc` for it when the first
reference is taken, and when `kmalloc` has nothing the reference is not taken.
-/

namespace BleedKernel.Mm

open BleedKernel.Lib List

/-! ## The start -/

/-- The frames the allocator starts with, as a count. -/
def poolOf (pool : Frame → Bool) : Frame → Nat := fun f => (pool f).toNat

theorem Linked.empty_spaces {m : Memory} (h : m.spaces = []) : Linked m := by
  have htab : ∀ c key, (m.tableAt c key).isSome = true → False := fun c key ht => by
    unfold Memory.tableAt Memory.space at ht
    rw [h] at ht
    cases ht
  refine ⟨fun c l k ht => (htab _ _ ht).elim, fun c k ht => (htab _ _ ht).elim,
    fun c k ht => (htab _ _ ht).elim, fun c l k _ ht => (htab _ _ ht).elim,
    fun c hs => ?_, fun c i => absurd ?_⟩
  · unfold Memory.space at hs
    rw [h] at hs
    cases hs
  · unfold Memory.pteAt Memory.space
    rw [h]
    rfl

theorem SysOk.boot {pool : Frame → Bool} {answers : List (Option Frame)}
    {rest kmallocs : List Bool} {fileReads : List (Option (Nat → UInt8))}
    {bytes : Frame → Nat → UInt8} {usableMem : Nat} :
    SysOk (poolOf pool) (fun _ => 0) (fun _ => 0)
      (Sys.boot pool answers (true :: rest) kmallocs fileReads bytes usableMem) := by
  generalize hs : Sys.boot pool answers (true :: rest) kmallocs fileReads bytes usableMem = s
  have hsp : s.mm.spaces = [] := by rw [← hs]; rfl
  have hpte : ∀ w, ptes s.mm w = 0 := fun w => by
    unfold ptes; rw [hsp]; exact tally_eq_zero fun x hx => by simp at hx
  have htab : ∀ f, tables s.mm f = 0 := fun f => by
    unfold tables; rw [hsp]; exact tally_eq_zero fun x hx => by simp at hx
  have hslots : ∀ f, slots s f = 0 := fun f => by
    rw [← hs]
    exact Nat.add_eq_zero_iff.mpr ⟨tally_eq_zero fun x _ => rfl, tally_eq_zero fun x _ => rfl⟩
  have hqueued : ∀ f, queued s f = 0 := fun f => by
    rw [← hs]; exact tally_eq_zero fun x _ => rfl
  have hrefs : ∀ f, s.mm.refs f = 0 := fun f => by rw [← hs]; rfl
  have hfree : ∀ f, s.mm.free f = pool f := fun f => by rw [← hs]; rfl
  have hproc : ∀ pid, s.proc pid = none := fun pid => by rw [← hs]; rfl
  exact {
    listed := hs ▸ Listed.boot
    pids := fun pid _ => hproc pid
    maps := fun pid p hp => by rw [hproc] at hp; cases hp
    distinct := fun pid q p p' hp => by rw [hproc] at hp; cases hp
    mem :=
      { ledger :=
          { pool_le := fun f => by unfold poolOf; cases pool f <;> decide
            place := fun f => by
              rw [hfree, htab, hpte, hqueued, hrefs]; rfl
            kind := fun f => .inl (hpte _)
            count := fun f => by rw [hrefs, hpte, hpte, hslots] }
        linked := .empty_spaces hsp
        wf := fun c i => by
          have : s.mm.pteAt c i = {} := by
            unfold Memory.pteAt Memory.space; rw [hsp]; rfl
          rw [this]; exact Pte.wf_zero
        table := .inr ⟨rest, by rw [← hs]; rfl⟩ }
    memfds := fun id _ => by rw [← hs]; rfl
    shms := fun id _ => by rw [← hs]; rfl }

/-! ## Nothing in use is free -/

/-- The entry has its frame to itself: it is neither copy-on-write nor shared, and
the frame is not a device's. -/
def Pte.Alone (p : Pte) : Prop :=
  p.present = true ∧ p.nofree = false ∧ p.cow = false ∧ p.shared = false

/-- No frame is free while a page, a memfd or a shared memory object refers to
it, and only one page refers to a frame that is not copy-on-write or shared. -/
structure FramesOwned (s : Sys) : Prop where
  mapped : ∀ cr3 i, (s.mm.pteAt cr3 i).present = true → (s.mm.pteAt cr3 i).nofree = false →
    s.mm.free (s.mm.pteAt cr3 i).phys = false
  memfd : ∀ id m f, s.memfd id = some m → some f ∈ m.pages → s.mm.free f = false
  shm : ∀ id obj f, s.shm id = some obj → f ∈ obj.frames → s.mm.free f = false
  alone : ∀ cr3 i, (s.mm.pteAt cr3 i).Alone →
    (∀ cr3' i', (s.mm.pteAt cr3' i').present = true → (s.mm.pteAt cr3' i').nofree = false →
      (s.mm.pteAt cr3' i').phys = (s.mm.pteAt cr3 i).phys → cr3' = cr3 ∧ i' = i) ∧
    (∀ id m, s.memfd id = some m → some (s.mm.pteAt cr3 i).phys ∉ m.pages) ∧
    ∀ id obj, s.shm id = some obj → (s.mm.pteAt cr3 i).phys ∉ obj.frames

section owned

variable {pool slack lost : Frame → Nat} {s : Sys}

section

variable (h : SysOk pool slack lost s)

include h

theorem SysOk.memfd_slot {id : Nat} {m : Memfd} {f : Frame}
    (hm : s.memfd id = some m) (hf : some f ∈ m.pages) : 0 < slots s f := by
  have hid : id < s.nextMemfd := by
    by_contra hge
    rw [h.memfds id (Nat.le_of_not_lt hge)] at hm
    cases hm
  have hle := le_tally (F := s.memfd) (g := memfdSlots f) (Finset.mem_range.mpr hid)
  rw [hm] at hle
  have hpos : 0 < memfdSlots f (some m) := count_pos_iff.mpr hf
  unfold slots
  omega

theorem SysOk.shm_slot {id : Nat} {obj : ShmObject} {f : Frame}
    (hm : s.shm id = some obj) (hf : f ∈ obj.frames) : 0 < slots s f := by
  have hid : id < s.shmNextId := by
    by_contra hge
    rw [h.shms id (Nat.le_of_not_lt hge)] at hm
    cases hm
  have hle := le_tally (F := s.shm) (g := shmSlots f) (Finset.mem_range.mpr hid)
  rw [hm] at hle
  have hpos : 0 < shmSlots f (some obj) := count_pos_iff.mpr hf
  unfold slots
  omega

/-- A page that refers to a frame is a private one or it is counted. -/
theorem SysOk.page_counted {cr3 : Cr3} {i : Nat}
    (hp : (s.mm.pteAt cr3 i).present = true) (hn : (s.mm.pteAt cr3 i).nofree = false) :
    ((s.mm.pteAt cr3 i).Alone ∧ 0 < ptes s.mm (privW (s.mm.pteAt cr3 i).phys)) ∨
      (¬ (s.mm.pteAt cr3 i).Alone ∧ 0 < s.mm.refs (s.mm.pteAt cr3 i).phys) := by
  have hs : (s.mm.space cr3).isSome := Memory.space_of_pteAt fun e => by
    rw [e] at hp; cases hp
  have hi : i < pageSlots := h.mem.slot_lt (h.mem.table_of_present hp)
  have hcount := h.mem.ledger.count (s.mm.pteAt cr3 i).phys
  generalize hpte : s.mm.pteAt cr3 i = p at hp hn hcount
  have hpriv := le_ptes (privW p.phys) hs hi
  have hcow := le_ptes (cowW p.phys) hs hi
  have hshared := le_ptes (sharedW p.phys) hs hi
  rw [hpte] at hpriv hcow hshared
  cases hsh : p.shared with
  | true =>
    have hw := (weights_shared hp hn hsh p.phys).2.2
    rw [decide_eq_true rfl] at hw
    refine .inr ⟨fun ha => absurd ha.2.2.2 (by rw [hsh]; decide), ?_⟩
    rw [hw, Bool.toNat_true] at hshared
    omega
  | false =>
    cases hc : p.cow with
    | true =>
      have hw := (weights_cow hp hn hc hsh p.phys).2.1
      rw [decide_eq_true rfl] at hw
      refine .inr ⟨fun ha => absurd ha.2.2.1 (by rw [hc]; decide), ?_⟩
      rw [hw, Bool.toNat_true] at hcow
      omega
    | false =>
      have hw := (weights_priv hp hn hc hsh p.phys).1
      rw [decide_eq_true rfl] at hw
      refine .inl ⟨⟨hp, hn, hc, hsh⟩, ?_⟩
      rw [hw, Bool.toNat_true] at hpriv
      omega

/-- Two private pages of one frame would be two places for it. -/
theorem SysOk.alone_unique {cr3 cr3' : Cr3} {i i' : Nat}
    (ha : (s.mm.pteAt cr3 i).Alone) (ha' : (s.mm.pteAt cr3' i').Alone)
    (hphys : (s.mm.pteAt cr3' i').phys = (s.mm.pteAt cr3 i).phys) : cr3' = cr3 ∧ i' = i := by
  by_contra hne
  have hin : ∀ {c j}, (s.mm.pteAt c j).Alone → (c, j) ∈
      Finset.range s.mm.spaces.length ×ˢ Finset.range pageSlots ∧
        privW (s.mm.pteAt c j).phys (s.mm.pteAt c j) = 1 := fun {c j} ha => by
    have hs : (s.mm.space c).isSome := Memory.space_of_pteAt fun e => by
      rw [e] at ha; cases ha.1
    refine ⟨by simp only [Finset.mem_product, Finset.mem_range]
               exact ⟨Memory.space_lt hs, h.mem.slot_lt (h.mem.table_of_present ha.1)⟩,
      ?_⟩
    rw [(weights_priv ha.1 ha.2.1 ha.2.2.1 ha.2.2.2 _).1, decide_eq_true rfl]
    rfl
  have htwo := add_le_tally (F := fun x : Nat × Nat => s.mm.pteAt x.1 x.2)
    (g := privW (s.mm.pteAt cr3 i).phys) (hin ha').1 (hin ha).1
    (fun he => hne ⟨congrArg Prod.fst he, congrArg Prod.snd he⟩)
  rw [(hin ha).2, ← hphys, (hin ha').2, hphys] at htwo
  have hplace := h.mem.ledger.place (s.mm.pteAt cr3 i).phys
  have hle := h.mem.ledger.pool_le (s.mm.pteAt cr3 i).phys
  unfold ptes at hplace
  omega

theorem SysOk.framesOwned : FramesOwned s := by
  have hfree : ∀ f, 0 < ptes s.mm (privW f) ∨ 0 < s.mm.refs f → s.mm.free f = false :=
    fun f hf => by
      have hplace := h.mem.ledger.place f
      have hle := h.mem.ledger.pool_le f
      cases hb : s.mm.free f with
      | false => rfl
      | true => rw [hb, Bool.toNat_true] at hplace; omega
  have hslot : ∀ f, 0 < slots s f → 0 < s.mm.refs f := fun f hf => by
    have := h.mem.ledger.count f; omega
  -- a frame with a private page has no place left for a counted holder
  have halone : ∀ cr3 i, (s.mm.pteAt cr3 i).Alone → s.mm.refs (s.mm.pteAt cr3 i).phys = 0 :=
    fun cr3 i ha => by
      rcases h.page_counted ha.1 ha.2.1 with ⟨-, hpos⟩ | ⟨hna, -⟩
      · have hplace := h.mem.ledger.place (s.mm.pteAt cr3 i).phys
        have hle := h.mem.ledger.pool_le (s.mm.pteAt cr3 i).phys
        omega
      · exact absurd ha hna
  refine ⟨fun cr3 i hp hn => ?_, fun id m f hm hf => ?_, fun id obj f hm hf => ?_,
    fun cr3 i ha => ⟨fun cr3' i' hp hn hphys => ?_, fun id m hm hf => ?_, fun id obj hm hf => ?_⟩⟩
  · rcases h.page_counted hp hn with ⟨-, hpos⟩ | ⟨-, hpos⟩
    · exact hfree _ (.inl hpos)
    · exact hfree _ (.inr hpos)
  · exact hfree f (.inr (hslot f (h.memfd_slot hm hf)))
  · exact hfree f (.inr (hslot f (h.shm_slot hm hf)))
  · rcases h.page_counted hp hn with ⟨ha', -⟩ | ⟨-, hpos⟩
    · exact h.alone_unique ha ha' hphys
    · have := halone cr3 i ha
      rw [hphys] at hpos
      omega
  · have := hslot _ (h.memfd_slot hm hf)
    have := halone cr3 i ha
    omega
  · have := hslot _ (h.shm_slot hm hf)
    have := halone cr3 i ha
    omega

end

end owned

/-- The invariant of runs whose calls have room: in order, up to what was dropped. -/
theorem SysOk.run {pool : Frame → Nat} {s : Sys} {ops : List Op}
    (h : ∃ slack lost, SysOk pool slack lost s)
    (hroom : Meets Mm.step (fun s op => op.room s) s ops) :
    ∃ slack lost, SysOk pool slack lost (run Mm.step s ops) :=
  run_inv (I := fun s => ∃ slack lost, SysOk pool slack lost s)
    (fun _ _ ⟨_, _, h⟩ hr => (h.step hr).imp fun _ ⟨lost, h', _⟩ => ⟨lost, h'⟩) h hroom

/-- Over any run that starts with a table of counts to be had and never runs the
counts over, no frame is free while something refers to it, and a page that is
neither copy-on-write nor shared is the only one of its frame. -/
theorem frames_stay_owned (pool : Frame → Bool) (answers : List (Option Frame))
    (rest kmallocs : List Bool) (fileReads : List (Option (Nat → UInt8)))
    (bytes : Frame → Nat → UInt8) (usableMem : Nat) (ops : List Op)
    (hroom : Meets step (fun s op => op.room s)
      (Sys.boot pool answers (true :: rest) kmallocs fileReads bytes usableMem) ops) :
    FramesOwned (run step
      (Sys.boot pool answers (true :: rest) kmallocs fileReads bytes usableMem) ops) := by
  obtain ⟨slack, lost, h⟩ := SysOk.run ⟨_, _, SysOk.boot⟩ hroom
  exact h.framesOwned

/-- A process maps a page, writes to it and forks; the child unmaps the page. -/
def forkCalls : List Op :=
  [.spawn, .mmap 1 0 pageSize 3 34 none 0, .pageFault 1 userMmapBase 6, .fork 1,
    .munmap 2 userMmapBase pageSize]

/-- Answers of an allocator that hands out its frames in order. -/
def inOrder (n : Nat) : List (Option Frame) := (range n).map fun f => some (f + 1)

theorem room_of_not_ready {s : Sys} (h : s.mm.cowReady = false) :
    RefRoom s.mm.refs ∧ ∀ n, n < 2 ^ 32 → Room s.mm n := by
  have hz : ∀ f, s.mm.refs f = 0 := fun f => by unfold Memory.refs; rw [h]; rfl
  exact ⟨fun f => by rw [hz]; decide, fun n hn f => by rw [hz]; omega⟩

set_option maxRecDepth 100000 in
theorem frames_stay_owned_fork : FramesOwned (run step
      (Sys.small (inOrder 9) [true] (replicate 9 true)) forkCalls) ∧
    ((run step (Sys.small (inOrder 9) [true] (replicate 9 true)) forkCalls).mm.pte 0
      userMmapBase).phys = 2 ∧
    (run step (Sys.small (inOrder 9) [true] (replicate 9 true)) forkCalls).mm.free 2
      = false := by
  refine ⟨frames_stay_owned _ _ [] _ _ _ _ forkCalls ⟨trivial, nofun, ?_, ?_, trivial,
    trivial⟩, by decide +kernel, by decide +kernel⟩
  · exact (room_of_not_ready (by decide +kernel)).2 4 (by decide)
  · exact (room_of_not_ready (by decide +kernel)).1

set_option maxRecDepth 100000 in
/-- When `kmalloc` has nothing for `cow_init`, the same calls free the parent's
page while the parent still maps it. -/
theorem frames_not_owned_without_counts : ¬ FramesOwned (run step
      (Sys.small (inOrder 9) [] (replicate 9 true)) forkCalls) := by
  intro h
  have hfree := h.mapped 0 (pageIdx userMmapBase) (by decide +kernel) (by decide +kernel)
  exact absurd hfree (by decide +kernel)

/-! ## The counts are exact -/

/-- The pages that are counted as holders of `f`. -/
def countedPages (m : Memory) (f : Frame) : Nat :=
  ptes m fun p => (p.present && (p.cow || p.shared) && decide (p.phys = f)).toNat

/-- Every count is the number of holders. -/
def CountsExact (s : Sys) : Prop := ∀ f, s.mm.refs f = countedPages s.mm f + slots s f

/-- A frame of the pool without holders, that is no private page, no page table
and in no message, is free. -/
def FramesBack (pool : Frame → Bool) (s : Sys) : Prop :=
  ∀ f, pool f = true → countedPages s.mm f = 0 → slots s f = 0 →
    ptes s.mm (privW f) = 0 → tables s.mm f = 0 → queued s f = 0 → s.mm.free f = true

theorem MemOk.countedPages_eq {pool slack lost own slots : Frame → Nat} {m : Memory}
    (h : MemOk pool slack lost own slots m) (f : Frame) :
    countedPages m f = ptes m (cowW f) + ptes m (sharedW f) := by
  unfold countedPages ptes
  rw [← tally_add]
  refine tally_congr fun x _ => ?_
  have hwf := h.wf x.1 x.2
  generalize m.pteAt x.1 x.2 = p at hwf
  unfold cowW sharedW Pte.holds
  cases hn : p.nofree with
  | false => cases p.present <;> cases p.cow <;> cases p.shared <;> simp
  | true =>
    have hs := hwf.device hn
    have hc : p.cow = false := by
      by_contra hc
      have := (hwf.cow (by simpa using hc)).2.2
      rw [hn] at this
      cases this
    rw [hs, hc]
    simp

theorem SysOk.countsExact {pool lost : Frame → Nat} {s : Sys}
    (h : SysOk pool (fun _ => 0) lost s) : CountsExact s := fun f => by
  have := h.mem.ledger.count f
  rw [h.mem.countedPages_eq]
  omega

theorem SysOk.framesBack {pool : Frame → Bool} {s : Sys}
    (h : SysOk (poolOf pool) (fun _ => 0) (fun _ => 0) s) : FramesBack pool s :=
  fun f hf hc hs hp ht hq => by
    have hplace := h.mem.ledger.place f
    rw [h.countsExact f, hc, hs, hp, ht, hq] at hplace
    unfold poolOf at hplace
    rw [hf] at hplace
    cases hb : s.mm.free f with
    | true => rfl
    | false => rw [hb] at hplace; cases hplace

/-- What a call needs for its references to be counted right. -/
def Op.counts (s : Sys) (op : Op) : Prop := op.room s ∧ op.clear s ∧ op.shmTables s

/-- Over any run in which no call runs the counts over, maps over a page that is
there or maps a shared memory object without its page tables, every count is the
number of pages, memfd slots and shared memory slots that hold the frame. If the
messages found their page tables too, a frame nothing holds is free. -/
theorem counts_stay_exact (pool : Frame → Bool) (answers : List (Option Frame))
    (rest kmallocs : List Bool) (fileReads : List (Option (Nat → UInt8)))
    (bytes : Frame → Nat → UInt8) (usableMem : Nat) (ops : List Op)
    (hops : Meets step (fun s op => op.counts s)
      (Sys.boot pool answers (true :: rest) kmallocs fileReads bytes usableMem) ops) :
    CountsExact (run step
      (Sys.boot pool answers (true :: rest) kmallocs fileReads bytes usableMem) ops) ∧
    (Meets step (fun s op => op.recvTables s)
        (Sys.boot pool answers (true :: rest) kmallocs fileReads bytes usableMem) ops →
      FramesBack pool (run step (Sys.boot pool answers
          (true :: rest) kmallocs fileReads bytes usableMem) ops)) := by
  constructor
  · obtain ⟨lost, h⟩ := run_inv (I := fun s => ∃ lost, SysOk (poolOf pool) (fun _ => 0) lost s)
      (fun s op ⟨lost, h⟩ hc => by
        obtain ⟨slack', lost', h', hleak, -⟩ := h.step hc.1
        exact ⟨lost', hleak ⟨hc.2.1, hc.2.2⟩ ▸ h'⟩)
      ⟨_, SysOk.boot⟩ hops
    exact h.countsExact
  · intro hrecv
    have h := run_inv (fun s op h ⟨hc, hr⟩ => by
        obtain ⟨slack', lost', h', hleak, hloss⟩ := h.step hc.1
        rw [hleak ⟨hc.2.1, hc.2.2⟩, hloss ⟨hc.2.1, hr⟩] at h'
        exact h')
      SysOk.boot (hops.and hrecv)
    exact h.framesBack

/-- A shared memory object of one page is made and mapped. -/
def shmCalls : List Op := [.spawn, .shmCreate 1 1, .shmMap 1 1 0]

/-- It is destroyed and unmapped again. -/
def shmCallsBack : List Op :=
  shmCalls ++ [.shmDestroy 1 1, .munmap 1 userMmapBase pageSize]

/-- Where the object is mapped in these runs: first in the mmap window. -/
theorem shmCalls_object : ∀ obj, (run step (Sys.small (inOrder 9) [true] (replicate 9 true))
      [.spawn, .shmCreate 1 1]).shm 1 = some obj → obj.frames = [2] := fun obj hobj => by
  have hframes : ((run step (Sys.small (inOrder 9) [true] (replicate 9 true))
      [.spawn, .shmCreate 1 1]).shm 1).map (·.frames) = some [2] := by decide +kernel
  rw [hobj] at hframes
  exact Option.some.inj hframes

set_option maxRecDepth 100000 in
theorem counts_stay_exact_shm :
    CountsExact (run step (Sys.small (inOrder 9) [true] (replicate 9 true))
      shmCallsBack) ∧
    FramesBack (fun f => decide (0 < f) && decide (f < 64))
      (run step (Sys.small (inOrder 9) [true] (replicate 9 true)) shmCallsBack) ∧
    (run step (Sys.small (inOrder 9) [true] (replicate 9 true)) shmCallsBack).mm.free 2
      = true := by
  have hexact := counts_stay_exact (fun f => decide (0 < f) && decide (f < 64)) (inOrder 9)
    [] (replicate 9 true) [] (fun _ _ => 0) (2 ^ 30) shmCallsBack
    ⟨⟨trivial, trivial, trivial⟩, ⟨trivial, trivial, trivial⟩,
      ⟨fun obj hobj f => ?_, fun obj hobj base hb i _ _ => rfl, fun obj hobj base hb => ?_⟩,
      ⟨trivial, trivial, trivial⟩, ⟨trivial, trivial, trivial⟩, trivial⟩
  · exact ⟨hexact.1, hexact.2 ⟨trivial, trivial, trivial, trivial, trivial, trivial⟩,
      by decide +kernel⟩
  · rw [shmCalls_object obj hobj]
    change Function.update (fun _ => 0) 2 1 f + 5 < 2 ^ 32
    rw [Function.update_apply]
    split <;> decide
  · rw [shmCalls_object obj hobj] at hb ⊢
    have hbase : (taskMmapReserve (run step (Sys.small (inOrder 9) [true]
        (replicate 9 true)) [.spawn, .shmCreate 1 1]) 1 1).1 = some userMmapBase := by
      decide +kernel
    obtain rfl : userMmapBase = base := Option.mem_unique hbase hb
    have htables : tablesFor (run step (Sys.small (inOrder 9) [true]
        (replicate 9 true)) [.spawn, .shmCreate 1 1]).mm 0 userMmapBase 1 = true := by
      decide +kernel
    exact htables

set_option maxRecDepth 100000 in
/-- When the page table for the mapping cannot be had, the reference taken for it
stays: two are counted, and only the object holds the frame. -/
theorem counts_not_exact_without_tables : ¬ CountsExact (run step
      (Sys.small [some 1, some 2, none] [true] (replicate 9 true)) shmCalls) := by
  intro h
  have hcount := h 2
  have hlen : (run step (Sys.small [some 1, some 2, none] [true]
      (replicate 9 true)) shmCalls).mm.spaces.length = 1 := by decide +kernel
  have hpte : ∀ i, (run step (Sys.small [some 1, some 2, none] [true]
      (replicate 9 true)) shmCalls).mm.pteAt 0 i = {} := fun _ => rfl
  have hslots : slots (run step (Sys.small [some 1, some 2, none] [true]
      (replicate 9 true)) shmCalls) 2 = 1 := by decide +kernel
  have hrefs : (run step (Sys.small [some 1, some 2, none] [true]
      (replicate 9 true)) shmCalls).mm.refs 2 = 2 := by decide +kernel
  generalize run step (Sys.small [some 1, some 2, none] [true] (replicate 9 true))
    shmCalls = s at hcount hlen hpte hslots hrefs
  have hpages : countedPages s.mm 2 = 0 := by
    refine tally_eq_zero fun x hx => ?_
    simp only [Finset.mem_product, Finset.mem_range, hlen, Nat.lt_one_iff] at hx
    have hx0 : s.mm.pteAt x.1 x.2 = {} := by rw [hx.1, hpte]
    simp [hx0]
  omega

end BleedKernel.Mm
