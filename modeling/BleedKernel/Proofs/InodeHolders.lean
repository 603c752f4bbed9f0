import BleedKernel.Proofs.PathWalk
import BleedKernel.Model.Namespace

/-!
# Who holds the inodes of the whole tree

Besides the inodes below it, an inode is held by open files, by working
directories, by the device list, by the directories of tempfs and by the mount
table: `Sys.refs`. `Good s ext` says that those are all its refs but for `ext`,
the refs a call that is under way has in hand, and that every inode of a mounted
file system but its root hangs below an inode of the same file system.

Every call is described by what it does to `ext`. A call starts and ends with
none, but for the one it hands back.
-/

namespace BleedKernel.Dentry

open Lib List

variable {g h : Heap Obj} {f : File} {e : DirEnt} {i pos start : Nat} {place : Place}

variable {s s' : Sys} {ext ext' : Nat → Nat} {h' : Heap Obj} {n m p dir : Nat} {x y : INode Obj}
  {name path : Name}

variable {es : List DirEnt}

/-- The refs a directory of tempfs holds on `n`. -/
def File.pins (f : File) (n : Nat) : Nat := f.entries.countP fun e => decide (e.node = some n)

/-- The refs a mount holds on `n`. -/
def Mount.refs (m : Mount) (n : Nat) : Nat :=
  (if m.mountpoint = some n then 1 else 0) + (if m.fsRoot = some n then 1 else 0)
    + (if m.devOwned = true ∧ m.dev = some n then 1 else 0)

/-- The refs that entries of tempfs have on `n`. -/
def Sys.treeRefs (s : Sys) (n : Nat) : Nat :=
  tally (Finset.range s.nextFile) s.files fun f => f.pins n

/-- The refs that mounts have on `n`. -/
def Sys.mountRefs (s : Sys) (n : Nat) : Nat := (s.mounts.map fun m => m.refs n).sum

/-- The refs on `n` of everybody but the inodes below it. -/
def Sys.refs (s : Sys) (n : Nat) : Nat :=
  s.held.count n + s.cwd.count n + (s.devices.map (·.2)).count n + s.treeRefs n + s.mountRefs n

/-- The inode is the root of a mounted file system. -/
def Sys.IsRoot (s : Sys) (n : Nat) : Prop := ∃ m ∈ s.mounts, m.fsRoot = some n

/-! ## The invariant -/

/-- What the file systems hold fits the inodes. -/
structure Filed (s : Sys) (h : Heap Obj) : Prop where
  entry : ∀ i e, e ∈ (s.files i).entries → e.file < s.nextFile
  empty : ∀ i, s.nextFile ≤ i → (s.files i).entries = []
  own : ∀ i e c, e ∈ (s.files i).entries → e.node = some c → (s.files i).driver.fs = .tempfs
  known : ∀ i e c, e ∈ (s.files i).entries → e.node = some c →
    ∃ x, h.node c = some x ∧ x.attached = true

/-- Every inode of a mounted file system but its root hangs below an inode of the same
file system. -/
structure Placed (s : Sys) (h : Heap Obj) : Prop where
  file : ∀ n x, h.node n = some x → x.obj.file < s.nextFile
  vol : ∀ n x, h.node n = some x → x.obj.vol < s.vols
  home : ∀ n x, h.node n = some x → x.obj.vol ≠ 0 → ¬s.IsRoot n → ∃ p, x.parent = some p
  same : ∀ n x p y, h.node n = some x → x.parent = some p → h.node p = some y → ¬s.IsRoot n →
    x.obj.vol = y.obj.vol

/-- The mount table and the inodes know the same mounts. A slot without a root is
blank, but for whether a mount that is under way has claimed it. -/
structure Tabled (s : Sys) (h : Heap Obj) : Prop where
  blank : ∀ m ∈ s.mounts, m.fsRoot = none → m = { active := m.active }
  full : ∀ m ∈ s.mounts, ∀ r, m.fsRoot = some r → m.active = true ∧ r ≠ vfsRoot ∧
    (∃ mp, m.mountpoint = some mp) ∧ ∃ d, m.dev = some d
  root : ∀ m ∈ s.mounts, ∀ r, m.fsRoot = some r → ∃ x, h.node r = some x ∧ x.obj.vol ≠ 0
  apart : ∀ (i j : Nat) m m' r r' x x', s.mounts[i]? = some m → s.mounts[j]? = some m' →
    m.fsRoot = some r → m'.fsRoot = some r' → h.node r = some x → h.node r' = some x' →
    x.obj.vol = x'.obj.vol → i = j
  mounted : ∀ n x r, h.node n = some x → x.mounted = some r →
    ∃ m ∈ s.mounts, m.mountpoint = some n ∧ m.fsRoot = some r
  device : ∀ nm d, (nm, d) ∈ s.devices → ∃ x, h.node d = some x ∧ x.type = .device
  vols : 0 < s.vols

/-- All three speak of the heap they are given, not of the one in the state. -/
theorem Filed.reheap (F : Filed s h) : Filed { s with heap := g } h :=
  ⟨F.entry, F.empty, F.own, F.known⟩

theorem Placed.reheap (P : Placed s h) : Placed { s with heap := g } h :=
  ⟨P.file, P.vol, P.home, P.same⟩

theorem Tabled.reheap (T : Tabled s h) : Tabled { s with heap := g } h :=
  ⟨T.blank, T.full, T.root, T.apart, T.mounted, T.device, T.vols⟩

/-- Inodes go, those that stay hang where they hung, and a root is one for as long as
it is there. -/
theorem Placed.of_nodes (P : Placed s h) (hold : ∀ n z, h'.node n = some z →
      ∃ w, h.node n = some w ∧ z.obj = w.obj ∧ z.parent = w.parent)
    (hn : s.nextFile ≤ s'.nextFile) (hv : s.vols ≤ s'.vols)
    (hr : ∀ n, s.IsRoot n → s'.IsRoot n ∨ h'.node n = none) : Placed s' h' := by
  have hroot : ∀ n z, h'.node n = some z → ¬s'.IsRoot n → ¬s.IsRoot n := by
    intro n z hz hno hyes
    rcases hr n hyes with hyes | hnone
    · exact hno hyes
    · rw [hnone] at hz
      exact nomatch hz
  refine ⟨?_, ?_, ?_, ?_⟩
  · intro n z hz
    obtain ⟨w, hw, ho, -⟩ := hold n z hz
    rw [ho]
    exact Nat.lt_of_lt_of_le (P.file n w hw) hn
  · intro n z hz
    obtain ⟨w, hw, ho, -⟩ := hold n z hz
    rw [ho]
    exact Nat.lt_of_lt_of_le (P.vol n w hw) hv
  · intro n z hz hvol hno
    obtain ⟨w, hw, ho, hp⟩ := hold n z hz
    rw [ho] at hvol
    rw [hp]
    exact P.home n w hw hvol (hroot n z hz hno)
  · intro n z q u hz hq hu hno
    obtain ⟨w, hw, ho, hp⟩ := hold n z hz
    obtain ⟨v, hv, ho', -⟩ := hold q u hu
    rw [ho, ho']
    exact P.same n w q v hw (hp ▸ hq) hv (hroot n z hz hno)

/-- More objects, more volumes and more roots. -/
theorem Placed.mono (P : Placed s h) (hn : s.nextFile ≤ s'.nextFile)
    (hv : s.vols ≤ s'.vols) (hr : ∀ n, s.IsRoot n → s'.IsRoot n) : Placed s' h :=
  P.of_nodes (fun _ z hz => ⟨z, hz, rfl, rfl⟩) hn hv fun n h => .inl (hr n h)

theorem Tabled.congr (T : Tabled s h) (hm : s'.mounts = s.mounts)
    (hd : s'.devices = s.devices) (hv : s'.vols = s.vols) : Tabled s' h := by
  obtain ⟨b, f, r, a, mt, d, v⟩ := T
  rw [← hm] at b f r a mt
  rw [← hd] at d
  rw [← hv] at v
  exact ⟨b, f, r, a, mt, d, v⟩

/-- Every ref has its holder, with `ext` in the hands of calls, and the parts of the state agree. -/
structure Good (s : Sys) (ext : Nat → Nat) : Prop where
  acc : Accounted s.heap (s.refs + ext)
  filed : Filed s s.heap
  placed : Placed s s.heap
  tabled : Tabled s s.heap

/-- The refs in hand, apart from the others. -/
theorem Good.acc_hand {e : Nat → Nat} (G : Good s (ext + e)) :
    Accounted s.heap (s.refs + ext + e) := by
  rw [add_assoc]
  exact G.acc

theorem Good.live (G : Good s ext) (hn : 0 < s.refs n + ext n) : s.heap.Live n :=
  G.acc.live_of_pos hn

theorem Good.live_held (G : Good s ext) (hn : n ∈ s.held) : s.heap.Live n := by
  refine G.live ?_
  have := count_pos_iff.mpr hn
  rw [Sys.refs]
  omega

theorem Good.live_cwd (G : Good s ext) (hn : n ∈ s.cwd) : s.heap.Live n := by
  refine G.live ?_
  have := count_pos_iff.mpr hn
  rw [Sys.refs]
  omega

theorem Good.live_ext (G : Good s (ext + one n)) : s.heap.Live n := by
  refine G.live ?_
  rw [Pi.add_apply, one_self]
  omega

theorem getD_mem_or {l : List Nat} {k d : Nat} : l.getD k d ∈ l ∨ l.getD k d = d := by
  rw [getD_eq_getElem?_getD]
  cases hk : l[k]? with
  | none => exact .inr rfl
  | some a => exact .inl (mem_of_getElem? hk)

theorem Good.live_start (G : Good s ext) (base : Base) (path : Name) :
    s.heap.Live (s.start base path) := by
  simp only [Sys.start]
  split
  · exact G.acc.root
  cases base with
  | cwd t =>
    rcases getD_mem_or with hm | hr
    · exact G.live_cwd hm
    · have hroot := G.acc.root
      rwa [← hr] at hroot
  | fd k =>
    rcases getD_mem_or with hm | hr
    · exact G.live_held hm
    · have hroot := G.acc.root
      rwa [← hr] at hroot

/-! ## Refs of the trees -/

theorem File.find_mem (he : f.find name = some e) : e ∈ f.entries := mem_of_find?_eq_some he

theorem Filed.lt (F : Filed s h) (he : e ∈ (s.files i).entries) : i < s.nextFile := by
  by_contra hlt
  rw [F.empty i (Nat.le_of_not_lt hlt)] at he
  exact nomatch he

theorem treeRefs_pos (F : Filed s h)
    (he : e ∈ (s.files i).entries) (hn : e.node = some n) : 0 < s.treeRefs n := by
  have hin : i ∈ Finset.range s.nextFile := Finset.mem_range.mpr (F.lt he)
  have hle := le_tally (F := s.files) (g := fun f => f.pins n) hin
  have hpos : 0 < (s.files i).pins n := countP_pos_iff.mpr ⟨e, he, decide_eq_true hn⟩
  exact Nat.lt_of_lt_of_le hpos hle

@[simp] theorem setEntries_driver {j : Nat} :
    ((s.setEntries i es).files j).driver = (s.files j).driver := by
  simp only [Sys.setEntries, Sys.setFile, Function.update_apply]
  split
  · next hj => rw [hj]
  · rfl

theorem mem_setEntries {j : Nat} : e ∈ ((s.setEntries i es).files j).entries ↔
      (j = i ∧ e ∈ es) ∨ (j ≠ i ∧ e ∈ (s.files j).entries) := by
  simp only [Sys.setEntries, Sys.setFile, Function.update_apply]
  split
  · next hj => simp [hj]
  · next hj => simp [hj]

/-- The entries of one directory are written. -/
theorem treeRefs_setEntries (es : List DirEnt) (hi : i < s.nextFile) (n : Nat) :
    (s.setEntries i es).treeRefs n + (s.files i).pins n
      = s.treeRefs n + es.countP fun e => decide (e.node = some n) :=
  tally_update (Finset.mem_range.mpr hi)

theorem countP_insertAt {q : DirEnt → Bool} :
    (insertAt pos e es).countP q = es.countP q + if q e then 1 else 0 := by
  rw [insertAt, countP_append, countP_cons, ← Nat.add_assoc, ← countP_append, take_append_drop]

theorem mem_insertAt {e' : DirEnt} : e' ∈ insertAt pos e es ↔ e' = e ∨ e' ∈ es := by
  rw [insertAt, mem_append, mem_cons, or_left_comm, ← mem_append, take_append_drop]

theorem mem_with {e' : DirEnt} (he : e' ∈ f.with place e) : e' = e ∨ e' ∈ f.entries := by
  rw [File.with] at he
  split at he
  · exact mem_insertAt.mp he
  · exact .inr he

theorem visible_tempfs {d : Driver} (hd : d.fs = .tempfs) (stored : Stored) :
    d.naming.visible stored = true := by
  rw [Driver.naming, hd]
  rfl

/-- Only tempfs holds refs, and there every name is one. -/
theorem pins_with (ht : ∀ c, e.node = some c → f.driver.fs = .tempfs) (n : Nat) :
    (f.with place e).countP (fun e => decide (e.node = some n))
      = f.pins n + if e.node = some n then 1 else 0 := by
  rw [File.with]
  split
  · rw [countP_insertAt]
    simp [File.pins]
  rename_i hv
  have hnone : e.node = none := by
    cases he : e.node with
    | none => rfl
    | some c => exact absurd (by simp [visible_tempfs (ht c he), ht c he]) hv
  simp [hnone, File.pins]

/-! ## Keeping the invariant -/

theorem Filed.frame (F : Filed s h) (Fr : Frame h h')
    (hlive : ∀ n, 0 < s.treeRefs n → h'.Live n) : Filed s h' :=
  { F with
    known := by
      intro i e c he hc
      obtain ⟨z, hz, ha⟩ := F.known i e c he hc
      obtain ⟨z', hz'⟩ := hlive c (treeRefs_pos F he hc)
      refine ⟨z', hz', ?_⟩
      rw [Fr.same c z z' hz hz']
      exact ha }

theorem mountRefs_pos {m : Mount} (hm : m ∈ s.mounts) (hn : 0 < m.refs n) : 0 < s.mountRefs n := by
  have hle := single_le_sum (l := s.mounts.map fun m => m.refs n) (fun _ _ => Nat.zero_le _)
    (m.refs n) (mem_map.mpr ⟨m, hm, rfl⟩)
  exact Nat.lt_of_lt_of_le hn hle

theorem refs_fsRoot {m : Mount} (hr : m.fsRoot = some n) : 0 < m.refs n := by
  rw [Mount.refs, if_pos hr]
  omega

theorem Tabled.frame (T : Tabled s h) (Fr : Frame h h')
    (hlive : ∀ n, 0 < s.refs n → h'.Live n) : Tabled s h' :=
  { T with
    root := by
      intro m hm r hr
      obtain ⟨z, hz, hv⟩ := T.root m hm r hr
      obtain ⟨z', hz'⟩ := hlive r (by
        have := mountRefs_pos hm (refs_fsRoot hr)
        rw [Sys.refs]
        omega)
      refine ⟨z', hz', ?_⟩
      rw [Fr.same r z z' hz hz']
      exact hv
    apart := by
      intro i j m m' r r' z' w' hi hj hr hr' hz' hw' hv
      obtain ⟨z, hz, -⟩ := T.root m (mem_of_getElem? hi) r hr
      obtain ⟨w, hw, -⟩ := T.root m' (mem_of_getElem? hj) r' hr'
      rw [Fr.same r z z' hz hz', Fr.same r' w w' hw hw'] at hv
      exact T.apart i j m m' r r' z w hi hj hr hr' hz hw hv
    mounted := by
      intro n z' r hz' hr
      cases hz : h.node n with
      | none =>
        have := (Fr.new n z' hz' hz).2
        rw [hr] at this
        exact nomatch this
      | some z =>
        rw [Fr.same n z z' hz hz'] at hr
        exact T.mounted n z r hz hr
    device := by
      intro nm d hd
      obtain ⟨z, hz, ht⟩ := T.device nm d hd
      obtain ⟨z', hz'⟩ := hlive d (by
        have : 0 < (s.devices.map (·.2)).count d :=
          count_pos_iff.mpr (mem_map.mpr ⟨(nm, d), hd, rfl⟩)
        rw [Sys.refs]
        omega)
      refine ⟨z', hz', ?_⟩
      rw [Fr.same d z z' hz hz']
      exact ht }

/-- A new inode, that of a file below its directory or that of a root. -/
theorem Placed.grow {b : Option Nat} (P : Placed s h) (S : Sound h)
    (hfile : x.obj.file < s.nextFile) (hvol : x.obj.vol < s.vols)
    (hhome : x.obj.vol ≠ 0 → ¬s.IsRoot h.next → ∃ p, x.parent = some p)
    (hsame : ∀ p y, x.parent = some p → h.node p = some y → ¬s.IsRoot h.next →
      x.obj.vol = y.obj.vol) :
    Placed s (h.grow x b) := by
  refine ⟨?_, ?_, ?_, ?_⟩
  · intro n z hz
    rcases grow_some hz with ⟨rfl, rfl⟩ | ⟨-, hz⟩
    · exact hfile
    · exact P.file n z hz
  · intro n z hz
    rcases grow_some hz with ⟨rfl, rfl⟩ | ⟨-, hz⟩
    · exact hvol
    · exact P.vol n z hz
  · intro n z hz
    rcases grow_some hz with ⟨rfl, rfl⟩ | ⟨-, hz⟩
    · exact hhome
    · exact P.home n z hz
  · intro n z q w hz hq hw hr
    rcases grow_some hz with ⟨rfl, rfl⟩ | ⟨-, hz⟩
    · rcases grow_some hw with ⟨rfl, rfl⟩ | ⟨-, hw⟩
      · rfl
      · exact hsame q w hq hw hr
    · -- what an older inode hangs below is older still
      have hlt := (S.tied n z q hz hq).2.1
      have hn := S.bound n z hz
      rw [grow_node, Function.update_of_ne (by omega)] at hw
      exact P.same n z q w hz hq hw hr

/-- An inode is built for an entry that has none. -/
theorem world_fresh {o : Obj} {type : Kind} {lookup : Bool} {obj : Obj} {nm : Name}
    (hl : s.world.lookup o name = .fresh type lookup obj nm) :
    ∃ e, (s.files o.file).find name = some e ∧ e.node = none ∧ obj = ⟨o.vol, e.file⟩ ∧
      nm = (s.files o.file).driver.naming.spelling e.name name := by
  simp only [Sys.world] at hl
  cases hf : (s.files o.file).find name with
  | none => simp [hf] at hl
  | some e =>
    simp only [hf] at hl
    cases hn : e.node with
    | some c => simp [hn] at hl
    | none =>
      simp only [hn] at hl
      obtain ⟨-, -, rfl, rfl⟩ := hl
      exact ⟨e, rfl, hn, rfl, rfl⟩

theorem Placed.move (P : Placed s h) (F : Filed s g) (m : Move s.world h h') : Placed s h' := by
  cases m with
  | reshare k hx =>
    refine P.of_nodes ?_ (Nat.le_refl _) (Nat.le_refl _) fun _ => .inl
    intro m w hw
    rcases set_some hw with ⟨rfl, rfl⟩ | ⟨-, hw⟩
    · exact ⟨_, hx, rfl, rfl⟩
    · exact ⟨w, hw, rfl, rfl⟩
  | free S hx =>
    exact P.of_nodes (fun m w hw => ⟨w, (free_some hx hw).2, rfl, rfl⟩) (Nat.le_refl _)
      (Nat.le_refl _) fun _ => .inl
  | skip => exact ⟨P.file, P.vol, P.home, P.same⟩
  | grow S hd hl hkey hmiss =>
    rename_i dir d comp nm key type lookup obj
    obtain ⟨e, hf, -, rfl, -⟩ := world_fresh hl
    refine P.grow S (F.entry _ _ (File.find_mem hf)) (P.vol dir d hd) (fun _ _ => ⟨dir, rfl⟩) ?_
    intro q w hq hw _
    obtain rfl := Option.some.inj hq
    obtain rfl := Option.mem_unique hd hw
    rfl

theorem Placed.moves (P : Placed s h) (F : Filed s g) (M : Moves s.world h h') : Placed s h' := by
  induction M with
  | refl => exact P
  | tail _ m ih => exact ih.move F m

/-- Counts move, inodes come and go, and who holds what is said by `ext`. -/
theorem Good.moves (G : Good s ext) (M : Moves s.world s.heap h')
    (A : Accounted h' (s.refs + ext')) : Good { s with heap := h' } ext' where
  acc := A
  filed := by
    refine (G.filed.frame (M.frame G.acc.toSound) fun n hn => A.live_of_pos ?_).reheap
    rw [Pi.add_apply, Sys.refs]
    omega
  placed := (G.placed.moves G.filed M).reheap
  tabled := by
    refine (G.tabled.frame (M.frame G.acc.toSound) fun n hn => A.live_of_pos ?_).reheap
    rw [Pi.add_apply]
    omega

/-- Refs change hands. -/
theorem Good.pass (G : Good s ext) (held cwd : List Nat)
    (he : ∀ n, n ≠ vfsRoot → held.count n + cwd.count n + ext' n
      = s.held.count n + s.cwd.count n + ext n) :
    Good { s with held := held, cwd := cwd } ext' where
  acc := by
    refine G.acc.congr fun n hn => ?_
    have := he n hn
    simp only [Pi.add_apply, Sys.refs, Sys.treeRefs, Sys.mountRefs]
    omega
  filed := ⟨G.filed.entry, G.filed.empty, G.filed.own, G.filed.known⟩
  placed := ⟨G.placed.file, G.placed.vol, G.placed.home, G.placed.same⟩
  tabled := ⟨G.tabled.blank, G.tabled.full, G.tabled.root, G.tabled.apart, G.tabled.mounted,
    G.tabled.device, G.tabled.vols⟩

/-- What no inode or directory depends on is written. -/
theorem Good.aside (G : Good s ext) (freed : List Nat) (stranded : List (INode Obj)) :
    Good { s with freed := freed, stranded := stranded } ext where
  acc := G.acc
  filed := ⟨G.filed.entry, G.filed.empty, G.filed.own, G.filed.known⟩
  placed := ⟨G.placed.file, G.placed.vol, G.placed.home, G.placed.same⟩
  tabled := ⟨G.tabled.blank, G.tabled.full, G.tabled.root, G.tabled.apart, G.tabled.mounted,
    G.tabled.device, G.tabled.vols⟩

theorem Good.drop (G : Good s (ext + one n)) : Good (s.drop n) ext := by
  have A := G.acc_hand
  exact G.moves A.drop_moves A.drop

theorem Good.hold (G : Good s ext) (hn : s.heap.Live n) :
    Good { s with heap := vfsHold s.heap n } (ext + one n) := by
  have A := G.acc.hold hn
  rw [add_assoc] at A
  exact G.moves .hold A

theorem one_eq_count : one n m = [n].count m := by
  by_cases h : m = n
  · subst h
    simp
  · rw [one_of_ne h]
    simp [Ne.symm h]

/-- The ref in hand goes to the list of refs that are held. -/
theorem Good.hand (G : Good s (ext + one n)) : Good { s with held := n :: s.held } ext := by
  refine G.pass (n :: s.held) s.cwd fun m _ => ?_
  rw [Pi.add_apply, one_eq_count, count_cons, count_singleton]
  omega

/-! ## Lookups -/

theorem Good.ready (G : Good s ext) : Ready s.world s.heap (s.refs + ext) where
  toAccounted := G.acc
  known := by
    intro o nm c hc
    simp only [Sys.world] at hc
    cases hf : (s.files o.file).find nm with
    | none => simp [hf] at hc
    | some e =>
      simp only [hf] at hc
      cases hn : e.node with
      | none => simp [hn] at hc
      | some c' =>
        simp only [hn, Found.known.injEq] at hc
        subst hc
        exact G.filed.known _ e _ (File.find_mem hf) hn
  device := by
    intro nm d hd
    simp only [Sys.world, Option.map_eq_some_iff] at hd
    obtain ⟨e, he, rfl⟩ := hd
    obtain ⟨x, hx, -⟩ := G.tabled.device e.1 e.2 (mem_of_find?_eq_some he)
    exact ⟨x, hx⟩
  mounted := by
    intro n x r hx hr
    obtain ⟨m, hm, -, hroot⟩ := G.tabled.mounted n x r hx hr
    obtain ⟨z, hz, -⟩ := G.tabled.root m hm r hroot
    exact ⟨z, hz⟩

/-- What a call leaves as it is that looks around, and makes new objects at most. -/
structure Grows (s s' : Sys) : Prop where
  frame : Frame s.heap s'.heap
  mounts : s'.mounts = s.mounts
  held : s'.held = s.held
  cwd : s'.cwd = s.cwd
  devices : s'.devices = s.devices
  tree : ∀ n, n < s.heap.next → s'.treeRefs n = s.treeRefs n

theorem Grows.refl : Grows s s := ⟨.refl, rfl, rfl, rfl, rfl, fun _ _ => rfl⟩

theorem Grows.trans {s'' : Sys} (S : Sound s.heap) (g : Grows s s') (g' : Grows s' s'') :
    Grows s s'' where
  frame := g.frame.trans S g'.frame
  mounts := g'.mounts.trans g.mounts
  held := g'.held.trans g.held
  cwd := g'.cwd.trans g.cwd
  devices := g'.devices.trans g.devices
  tree := fun n hn =>
    (g'.tree n (Nat.lt_of_lt_of_le hn g.frame.next_le)).trans (g.tree n hn)

theorem Grows.of_frame (F : Frame s.heap h') : Grows s { s with heap := h' } :=
  ⟨F, rfl, rfl, rfl, rfl, fun _ _ => rfl⟩

/-- A call that hands back a ref when it succeeds, and none when it does not. -/
structure Gives (s : Sys) (ext : Nat → Nat) (r : Except Errno Nat × Sys) : Prop where
  grows : Grows s r.2
  ok : ∀ n, r.1 = .ok n → Good r.2 (ext + one n)
  error : ∀ e, r.1 = .error e → Good r.2 ext

theorem Gives.of_walk (G : Good s ext) {followLast : Bool} (hs : s.heap.Live start) :
    Gives s ext ((vfsWalk s.world followLast (some start) path s.heap).1,
      { s with heap := (vfsWalk s.world followLast (some start) path s.heap).2 }) := by
  have O : Outcome s.world s.heap (s.refs + ext) (vfsWalk s.world followLast (some start) path s.heap) :=
    walkFrom_ok G.ready hs
  refine ⟨.of_frame (O.moves.frame G.acc.toSound), fun n hn => ?_, fun e he => ?_⟩
  · have A := O.ok n hn
    rw [add_assoc] at A
    exact G.moves O.moves A
  · exact G.moves O.moves (O.error e he)

theorem Good.lookup (G : Good s ext) (path : Name) (hs : s.heap.Live start) :
    Gives s ext (s.lookup start path) := Gives.of_walk G hs

theorem Good.lookupNofollow (G : Good s ext) (path : Name) (hs : s.heap.Live start) :
    Gives s ext (s.lookupNofollow start path) := Gives.of_walk G hs

end BleedKernel.Dentry
