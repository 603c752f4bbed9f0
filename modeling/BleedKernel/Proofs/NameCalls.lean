import BleedKernel.Proofs.NameRules

/-!
# The calls on names keep every ref accounted for

One lemma per call: what it hands back is a ref, it leaves `Good` with the refs in
hand it started with, and what is kept on the terms of the call is kept. A call that
makes an object gives the tree a ref of its own where the file system is tempfs; one
that removes a name takes it back; a new inode holds the directory it was made in.
-/

namespace BleedKernel.Dentry

open Lib List Function Option

variable {base : Base} {t : Nat} {fit : Fit} {new old : Name}

variable {i k : Nat} {e : DirEnt} {es : List DirEnt}

variable {s s' : Sys} {ext ext' : Nat → Nat} {h' : Heap Obj} {n dir : Nat} {d : INode Obj}
  {name path : Name} {T : Terms}

/-! ## Making an object -/

section Make

variable {o : Obj} {stored : Stored} {kind : Kind} {target : Name} {p : Place}

/-- The entry of the new object. -/
def Sys.newEntry (s : Sys) (o : Obj) (stored : Stored) : DirEnt :=
  { name := stored, file := s.nextFile
    node := if (s.files o.file).driver.fs = .tempfs then some s.heap.next else none }

/-- The inode of the new object. -/
def Sys.newNode (s : Sys) (dir : Nat) (o : Obj) (kind : Kind) : INode Obj :=
  { shared := if (s.files o.file).driver.fs = .tempfs then 2 else 1
    type := kind
    lookup := decide (kind = .directory)
    obj := ⟨o.vol, s.nextFile⟩
    parent := if (s.files o.file).driver.fs = .tempfs then none else some dir }

/-- The new object with its inode in the directory. -/
def Sys.made (s : Sys) (dir : Nat) (o : Obj) (name : Name) (stored : Stored) (kind : Kind)
    (target : Name) (p : Place) : Sys :=
  let s' := (s.make dir o stored kind target p).2
  { s' with heap := vfsAttach s'.world s'.heap s.heap.next dir name }

theorem make_files (ho : o.file < s.nextFile) : (s.make dir o stored kind target p).2.files
      = update (s.setEntries o.file ((s.files o.file).with p (s.newEntry o stored))).files
          s.nextFile
          { driver := (s.files o.file).driver, kind := kind, target := target
            entries := (s.files o.file).driver.dots kind p s.nextFile o.file } := by
  have hne : o.file ≠ s.nextFile := Nat.ne_of_lt ho
  simp only [Sys.make, Sys.setEntries, Sys.setFile, decide_eq_true_eq, update_of_ne hne]
  rw [update_comm (Ne.symm hne)]
  rfl

/-- The entries a directory starts with hold no refs, and are for itself and the one above. -/
theorem mem_dots {d : Driver} {self up : Nat} (he : e ∈ d.dots kind p self up) :
    e.node = none ∧ (e.file = self ∨ e.file = up) := by
  have hpair : ∀ {a b : DirEnt}, e ∈ [a, b] → a.node = none → b.node = none → a.file = self →
      b.file = up → e.node = none ∧ (e.file = self ∨ e.file = up) := by
    intro a b he ha hb hself hup
    rcases mem_pair.mp he with rfl | rfl
    · exact ⟨ha, .inl hself⟩
    · exact ⟨hb, .inr hup⟩
  rw [Driver.dots.eq_def] at he
  split at he
  · split at he
    · exact hpair he rfl rfl rfl rfl
    · exact nomatch he
  · exact hpair he rfl rfl rfl rfl
  · exact hpair he rfl rfl rfl rfl
  · exact nomatch he

theorem make_heap :
    (s.make dir o stored kind target p).2.heap = s.heap.add (s.newNode dir o kind) := by
  simp only [Sys.make, decide_eq_true_eq]
  rfl

theorem make_treeRefs (ho : o.file < s.nextFile) (n : Nat) :
    (s.make dir o stored kind target p).2.treeRefs n
      = s.treeRefs n + if (s.newEntry o stored).node = some n then 1 else 0 := by
  have hset := treeRefs_setEntries ((s.files o.file).with p (s.newEntry o stored)) ho n
  rw [pins_with (by
    intro c hc
    simp only [Sys.newEntry] at hc
    split at hc
    · next ht => exact ht
    · exact nomatch hc)] at hset
  have hnext : (s.make dir o stored kind target p).2.nextFile = s.nextFile + 1 := rfl
  have hnil : ({ driver := (s.files o.file).driver, kind := kind, target := target
                 entries := (s.files o.file).driver.dots kind p s.nextFile o.file } : File).pins n
      = 0 := by
    refine countP_eq_zero.mpr fun e he => ?_
    rw [(mem_dots he).1]
    simp
  rw [Sys.treeRefs, hnext, make_files ho, tally_push]
  have hsame : tally (Finset.range s.nextFile)
      (s.setEntries o.file ((s.files o.file).with p (s.newEntry o stored))).files
      (fun f => f.pins n)
      = (s.setEntries o.file ((s.files o.file).with p (s.newEntry o stored))).treeRefs n := rfl
  omega

theorem make_mem (ho : o.file < s.nextFile)
    (he : e ∈ ((s.make dir o stored kind target p).2.files i).entries) :
    (i = s.nextFile ∧ e.node = none ∧ (e.file = s.nextFile ∨ e.file = o.file)) ∨
    ((s.make dir o stored kind target p).2.files i).driver = (s.files i).driver ∧
    ((i = o.file ∧ e = s.newEntry o stored) ∨ e ∈ (s.files i).entries) := by
  rw [make_files ho] at he ⊢
  by_cases hi : i = s.nextFile
  · subst hi
    rw [update_self] at he
    exact .inl ⟨rfl, mem_dots he⟩
  rw [update_of_ne hi] at he ⊢
  refine .inr ⟨setEntries_driver, ?_⟩
  rcases mem_setEntries.mp he with ⟨rfl, hw⟩ | ⟨-, hw⟩
  · exact (mem_with hw).imp_left fun he => ⟨rfl, he⟩
  · exact .inr hw

/-- The new inode is in the entry, where there is one. -/
theorem newEntry_node (hc : (s.newEntry o stored).node = some n) :
    n = s.heap.next ∧ (s.files o.file).driver.fs = .tempfs := by
  simp only [Sys.newEntry] at hc
  split at hc
  · next ht => exact ⟨(some.inj hc).symm, ht⟩
  · exact nomatch hc

/-- The refs of the tree: one more on the new inode, where there is a tree. -/
theorem make_refs (ho : o.file < s.nextFile) (n : Nat) :
    (s.make dir o stored kind target p).2.refs n
      = s.refs n + if (s.newEntry o stored).node = some n then 1 else 0 := by
  have hsame : (s.make dir o stored kind target p).2.mountRefs n = s.mountRefs n := rfl
  rw [Sys.refs, make_treeRefs ho n, Sys.refs]
  show s.held.count n + s.cwd.count n + (s.devices.map (·.2)).count n + _ + _ = _
  omega

/-- The directories with the new entry, in a heap with the new inode if that is in it. -/
theorem Filed.make {h : Heap Obj} (F : Filed s h) (ho : o.file < s.nextFile)
    (hnew : (s.files o.file).driver.fs = .tempfs →
      ∃ x, h.node s.heap.next = some x ∧ x.attached = true) :
    Filed (s.make dir o stored kind target p).2 h := by
  refine ⟨?_, ?_, ?_, ?_⟩
  · intro i e he
    show e.file < s.nextFile + 1
    rcases make_mem ho he with ⟨-, -, hf⟩ | ⟨-, ⟨-, rfl⟩ | he⟩
    · omega
    · exact Nat.lt_succ_self _
    · exact Nat.lt_succ_of_lt (F.entry i e he)
  · intro i hi
    have hi : s.nextFile + 1 ≤ i := hi
    by_contra hne
    obtain ⟨e, he⟩ := exists_mem_of_ne_nil _ hne
    rcases make_mem ho he with ⟨rfl, -⟩ | ⟨-, ⟨rfl, -⟩ | he⟩
    · omega
    · omega
    · have := F.lt he
      omega
  · intro i e c he hc
    rcases make_mem ho he with ⟨-, hn, -⟩ | ⟨hdrv, he⟩
    · rw [hc] at hn
      exact nomatch hn
    rw [hdrv]
    rcases he with ⟨rfl, rfl⟩ | he
    · exact (newEntry_node hc).2
    · exact F.own i e c he hc
  · intro i e c he hc
    rcases make_mem ho he with ⟨-, hn, -⟩ | ⟨-, ⟨-, rfl⟩ | he⟩
    · rw [hc] at hn
      exact nomatch hn
    · obtain ⟨rfl, ht⟩ := newEntry_node hc
      exact hnew ht
    · exact F.known i e c he hc

end Make

theorem Sound.next_ne_root {h : Heap Obj} (S : Sound h) : h.next ≠ vfsRoot := by
  have := S.live_lt S.root
  omega

/-- The ref that comes back is the only one in hand that was not there before. -/
theorem Good.make (G : Good s ext) (hd : s.heap.node dir = some d) (name : Name)
    (stored : Stored) (kind : Kind) (target : Name) (p : Place) :
    Gives s ext (.ok s.heap.next, s.made dir d.obj name stored kind target p) := by
  have hfile := G.placed.file dir d hd
  have hlt := G.acc.bound dir d hd
  have hroot := G.acc.next_ne_root
  have B : Built (s.newNode dir d.obj kind) := ⟨rfl, rfl⟩
  rw [Sys.made]
  generalize hs' : (s.make dir d.obj stored kind target p).2 = s'
  have hheap : s'.heap = s.heap.add (s.newNode dir d.obj kind) := by
    rw [← hs']
    exact make_heap
  rw [hheap, vfsAttach_add B hlt]
  generalize hb : (if name.length < nameSize then
    some (s'.world.hash (some dir) (cName name)) else none) = b
  generalize hz : ({ s.newNode dir d.obj kind with
    name := cName name, parent := some dir, attached := true }) = z
  have hmounts : s'.mounts = s.mounts := by rw [← hs']; rfl
  have hheld : s'.held = s.held := by rw [← hs']; rfl
  have hcwd : s'.cwd = s.cwd := by rw [← hs']; rfl
  have hdev : s'.devices = s.devices := by rw [← hs']; rfl
  have hvols : s'.vols = s.vols := by rw [← hs']; rfl
  have hnf : s'.nextFile = s.nextFile + 1 := by rw [← hs']; rfl
  have hrefs : ∀ n, s'.refs n
      = s.refs n + if (s.newEntry d.obj stored).node = some n then 1 else 0 := by
    intro n
    rw [← hs']
    exact make_refs hfile n
  have A := G.acc.hold ⟨d, hd⟩
  have hzup : z.up = some dir := by rw [← hz]; rfl
  have F : Frame s.heap ((vfsHold s.heap dir).grow z b) :=
    Frame.hold.trans G.acc.toSound (.grow A.toSound (by rw [← hz]; rfl))
  have hnode : ((vfsHold s.heap dir).grow z b).node s.heap.next = some { z with hashed := b } := by
    rw [grow_node, hold_next, update_self]
  have hentry : ∀ n, n ≠ s.heap.next → (s.newEntry d.obj stored).node ≠ some n :=
    fun n hn he => hn (newEntry_node he).1
  have A' : Accounted ((vfsHold s.heap dir).grow z b) (s'.refs + (ext + one s.heap.next)) := by
    have Az : Accounted (vfsHold s.heap dir) (s.refs + ext + z.up.elim 0 one) := by
      rw [hzup]
      exact A
    refine Az.grow ?_ ?_ ?_ ?_
    · rw [← hz]
      simp only [Sys.newNode]
      split <;> omega
    · intro p _
      rw [← hz]
    · intro m hm
      rw [hold_next] at hm
      simp only [Pi.add_apply, hrefs, if_neg (hentry m hm), one_of_ne hm]
      omega
    · have hc := G.acc.count s.heap.next hroot
      rw [count_of_none G.acc.node_next, Pi.add_apply] at hc
      rw [hold_next, ← hz]
      simp only [Pi.add_apply, hrefs, one_self, Sys.newNode, Sys.newEntry]
      split
      · simp only [if_true]
        omega
      · simp only [reduceCtorEq, if_false]
        omega
  refine ⟨⟨F, hmounts, hheld, hcwd, hdev, fun n hn => ?_⟩, fun n hn => ?_, nofun⟩
  · have htr : s'.treeRefs n = _ :=
      (congrArg (Sys.treeRefs · n) hs').symm.trans (make_treeRefs hfile n)
    rw [if_neg (hentry n (Nat.ne_of_lt hn))] at htr
    exact htr
  · obtain rfl := Except.ok.inj hn
    refine ⟨A', ?_, ?_, ?_⟩
    · have Fd := G.filed.frame F fun n hn => A'.live_of_pos (by
        simp only [Pi.add_apply, hrefs]
        rw [Sys.refs]
        omega)
      rw [← hs']
      exact (Fd.make hfile fun _ => ⟨_, hnode, by rw [← hz]⟩).reheap
    · have P : Placed s' (vfsHold s.heap dir) :=
        (G.placed.moves G.filed .hold).mono (by omega) (Nat.le_of_eq hvols.symm)
          (fun n hr => by rw [Sys.IsRoot, hmounts]; exact hr)
      refine (P.grow A.toSound ?_ ?_ ?_ ?_).reheap
      · rw [hnf, ← hz]
        exact Nat.lt_succ_self _
      · rw [hvols, ← hz]
        exact G.placed.vol dir d hd
      · intro _ _
        exact ⟨dir, by rw [← hz]⟩
      · intro q w hq hw _
        rw [← hz] at hq ⊢
        obtain rfl := some.inj hq
        -- the directory has one ref more
        obtain ⟨d', hd', hobj⟩ := hold_node_obj hd
        obtain rfl := mem_unique hd' hw
        rw [hobj]
        rfl
    · exact ((G.tabled.frame F fun n hn => A'.live_of_pos (by
        simp only [Pi.add_apply, hrefs]
        omega)).congr hmounts hdev hvols).reheap

/-! ## Writing a directory -/

/-- The entries of a directory are written. What refs they hold now that they did not
are taken from those in hand, and the other way round. -/
theorem Good.setEntries (G : Good s ext) (hi : i < s.nextFile)
    (hfile : ∀ e ∈ es, e.file < s.nextFile)
    (hnode : ∀ e ∈ es, ∀ c, e.node = some c → ∃ e' ∈ (s.files i).entries, e'.node = some c)
    (hcount : ∀ n, es.countP (fun e => decide (e.node = some n)) + ext' n
      = (s.files i).pins n + ext n) :
    Good (s.setEntries i es) ext' := by
  refine ⟨?_, ⟨?_, ?_, ?_, ?_⟩, ⟨G.placed.file, G.placed.vol, G.placed.home, G.placed.same⟩,
    G.tabled.congr rfl rfl rfl⟩
  · refine G.acc.congr fun n _ => ?_
    have hset := treeRefs_setEntries es hi n
    have := hcount n
    have hm : (s.setEntries i es).mountRefs n = s.mountRefs n := rfl
    simp only [Pi.add_apply, Sys.refs]
    show s.held.count n + s.cwd.count n + (s.devices.map (·.2)).count n + _ + _ + _ = _
    omega
  · intro j e he
    rcases mem_setEntries.mp he with ⟨-, he⟩ | ⟨-, he⟩
    · exact hfile e he
    · exact G.filed.entry j e he
  · intro j hj
    have hj : s.nextFile ≤ j := hj
    by_contra hne
    obtain ⟨e, he⟩ := exists_mem_of_ne_nil _ hne
    rcases mem_setEntries.mp he with ⟨rfl, -⟩ | ⟨-, he⟩
    · omega
    · have := G.filed.lt he
      omega
  · intro j e c he hc
    rw [setEntries_driver]
    rcases mem_setEntries.mp he with ⟨rfl, hes⟩ | ⟨-, he⟩
    · obtain ⟨e', he', hc'⟩ := hnode e hes c hc
      exact G.filed.own j e' c he' hc'
    · exact G.filed.own j e c he hc
  · intro j e c he hc
    rcases mem_setEntries.mp he with ⟨rfl, hes⟩ | ⟨-, he⟩
    · obtain ⟨e', he', hc'⟩ := hnode e hes c hc
      exact G.filed.known j e' c he' hc'
    · exact G.filed.known j e c he hc

theorem erase_perm (hi : es[i]? = some e) : e :: es.eraseIdx i ~ es := by
  obtain ⟨hlt, rfl⟩ := List.getElem?_eq_some_iff.mp hi
  exact getElem_cons_eraseIdx_perm hlt

/-- Whatever the order, the entry is gone and the others are there. -/
theorem without_perm {f : File} (hi : f.entries[i]? = some e) :
    f.without i ~ f.entries.eraseIdx i := by
  rw [File.without]
  split
  · obtain ⟨hlt, -⟩ := List.getElem?_eq_some_iff.mp hi
    cases hl : f.entries.getLast? with
    | none =>
      rw [getLast?_eq_none_iff] at hl
      rw [hl] at hlt
      exact absurd hlt (Nat.not_lt_zero _)
    | some a =>
      obtain ⟨l, hes⟩ := getLast?_eq_some_iff.mp hl
      rw [hes] at hlt ⊢
      dsimp only
      rw [length_append, length_singleton] at hlt
      by_cases hil : i < l.length
      · rw [set_append_left i a hil, dropLast_concat, eraseIdx_append_of_lt_length hil]
        exact (set_perm_cons_eraseIdx hil a).trans (perm_append_singleton a _).symm
      · have hil : i = l.length := by omega
        subst hil
        rw [eraseIdx_append_of_length_le (Nat.le_refl _)]
        simp
  · exact .refl _

theorem countP_erase {q : DirEnt → Bool} (hi : es[i]? = some e) :
    (es.eraseIdx i).countP q + (if q e then 1 else 0) = es.countP q := by
  rw [← (erase_perm hi).countP_eq, countP_cons]

/-- The directory without one of its entries, whose ref is in hand. -/
theorem Good.erase (G : Good s ext)
    (hk : (s.files i).entries[k]? = some e) (hes : es ~ (s.files i).entries.eraseIdx k) :
    Good (s.setEntries i es) (ext + e.node.elim 0 one) := by
  have hmem : e ∈ (s.files i).entries := mem_of_getElem? hk
  have hsub : ∀ e' ∈ es, e' ∈ (s.files i).entries := fun e' he' =>
    mem_of_mem_eraseIdx (hes.mem_iff.mp he')
  refine G.setEntries (G.filed.lt hmem) (fun e' he' => G.filed.entry i e' (hsub e' he'))
    (fun e' he' c hc => ⟨e', hsub e' he', hc⟩) fun n => ?_
  rw [hes.countP_eq, File.pins, ← countP_erase hk, Pi.add_apply]
  cases hn : e.node with
  | none => simp
  | some c =>
    simp only [elim_some, some.injEq, decide_eq_true_eq, one]
    by_cases hc : c = n
    · simp [hc]
      omega
    · rw [if_neg (fun h => hc h.symm), if_neg hc]
      omega

/-- Names and the cache are written. -/
theorem Good.alike (G : Good s ext) (L : Alike s.heap h') (A : Accounted h' (s.refs + ext)) :
    Good { s with heap := h' } ext where
  acc := A
  filed := by
    refine Filed.reheap { G.filed with known := ?_ }
    intro i e c he hc
    obtain ⟨z, hz, ha⟩ := G.filed.known i e c he hc
    obtain ⟨z', hz', hcore⟩ := L.symm.of_node hz
    obtain ⟨-, -, -, -, -, hatt, -⟩ := core_eq hcore
    exact ⟨z', hz', hatt.symm.trans ha⟩
  placed := by
    refine (G.placed.of_nodes ?_ (Nat.le_refl _) (Nat.le_refl _) fun _ => .inl).reheap
    intro n z' hz'
    obtain ⟨z, hz, hc⟩ := L.of_node hz'
    obtain ⟨-, -, ho, hp, -⟩ := core_eq hc
    exact ⟨z, hz, ho, hp⟩
  tabled := by
    have hnode := fun {n z} (hz : s.heap.node n = some z) => L.symm.of_node hz
    refine Tabled.reheap { G.tabled with root := ?_, apart := ?_, mounted := ?_, device := ?_ }
    · intro m hm r hr
      obtain ⟨z, hz, hv⟩ := G.tabled.root m hm r hr
      obtain ⟨z', hz', hc⟩ := hnode hz
      exact ⟨z', hz', by rw [← (core_eq hc).2.2.1]; exact hv⟩
    · intro i j m m' r r' z' w' hi hj hr hr' hz' hw' hv
      obtain ⟨z, hz, hc⟩ := L.of_node hz'
      obtain ⟨w, hw, hc'⟩ := L.of_node hw'
      rw [(core_eq hc).2.2.1, (core_eq hc').2.2.1] at hv
      exact G.tabled.apart i j m m' r r' z w hi hj hr hr' hz hw hv
    · intro n z' r hz' hr
      obtain ⟨z, hz, hc⟩ := L.of_node hz'
      obtain ⟨-, -, -, -, hm, -⟩ := core_eq hc
      exact G.tabled.mounted n z r hz (hm ▸ hr)
    · intro nm d hd
      obtain ⟨z, hz, ht⟩ := G.tabled.device nm d hd
      obtain ⟨z', hz', hc⟩ := hnode hz
      exact ⟨z', hz', by rw [← (core_eq hc).2.1]; exact ht⟩

/-! ## `vfs_create`, `vfs_open` and `vfs_mkdir` -/

theorem Gives.of_error {e : Errno} (G : Good s ext) : Gives s ext (.error e, s) :=
  ⟨.refl, nofun, fun _ _ => G⟩

/-- An entry without an inode, as a create that fails after its entry is written leaves it,
and a link on ext2 that finds no room for its target. -/
theorem Good.leave_entry (G : Good s ext) (hd : s.heap.node dir = some d)
    (hfs : (s.files d.obj.file).driver.fs ≠ .tempfs) (stored : Stored) (kind : Kind)
    (target : Name) (p : Place) :
    Good { (s.make dir d.obj stored kind target p).2 with heap := s.heap } ext := by
  have hfile := G.placed.file dir d hd
  have F : Filed (s.make dir d.obj stored kind target p).2 s.heap :=
    G.filed.make hfile fun ht => absurd ht hfs
  have hrefs : ∀ n, (s.make dir d.obj stored kind target p).2.refs n = s.refs n := by
    intro n
    rw [make_refs hfile n, if_neg fun hc => hfs (newEntry_node hc).2, Nat.add_zero]
  generalize hs' : (s.make dir d.obj stored kind target p).2 = s' at F hrefs
  have hmounts : s'.mounts = s.mounts := by rw [← hs']; rfl
  have hnf : s'.nextFile = s.nextFile + 1 := by rw [← hs']; rfl
  have hvols : s'.vols = s.vols := by rw [← hs']; rfl
  have hdev : s'.devices = s.devices := by rw [← hs']; rfl
  refine ⟨?_, F.reheap, ?_, ?_⟩
  · refine G.acc.congr fun n _ => ?_
    rw [Pi.add_apply, Pi.add_apply, ← hrefs n]
    rfl
  · have P : Placed s' s.heap := G.placed.mono (by omega) (Nat.le_of_eq hvols.symm)
      (fun n hr => by rw [Sys.IsRoot, hmounts]; exact hr)
    exact P.reheap
  · exact (G.tabled.congr hmounts hdev hvols).reheap

/-- A create that fails after its entry is written leaves refs and tables alone. -/
theorem Good.makeBare (G : Good s ext) (hd : s.heap.node dir = some d) (stored : Stored)
    (kind : Kind) (target : Name) (p : Place) :
    Good (s.makeBare dir d.obj stored kind target p) ext ∧
      Grows s (s.makeBare dir d.obj stored kind target p) := by
  rw [Sys.makeBare]
  split
  · exact ⟨G, .refl⟩
  rename_i hfs
  refine ⟨(G.leave_entry hd hfs stored kind target p).aside _ _, .refl, rfl, rfl, rfl, rfl, ?_⟩
  intro n _
  have htree : (s.make dir d.obj stored kind target p).2.treeRefs n = _ :=
    make_treeRefs (G.placed.file dir d hd) n
  rw [if_neg fun hc => hfs (newEntry_node hc).2] at htree
  exact htree

/-- An object is made, or its entry is left without an inode, or nothing changed. -/
theorem createIn_cases (s : Sys) (dir : Nat) (name : Name) (kind : Kind) (room : Room) :
    (∃ e, createIn s dir name kind room = (.error e, s)) ∨
    ∃ d stored kind' p, s.heap.node dir = some d ∧
      (s.files d.obj.file).driver.naming.store name = .ok stored ∧ room.seen = p.seen ∧
      ((∃ e, createIn s dir name kind room
          = (.error e, s.makeBare dir d.obj stored kind' [] p)) ∨
        createIn s dir name kind room
          = (.ok s.heap.next, s.made dir d.obj name stored kind' [] p)) := by
  simp only [createIn]
  cases hd : s.heap.node dir with
  | none => exact .inl ⟨_, rfl⟩
  | some d =>
    dsimp only
    split
    · exact .inl ⟨_, rfl⟩
    cases createKind (s.files d.obj.file).driver.fs kind with
    | error e => exact .inl ⟨e, rfl⟩
    | ok kind =>
      cases hs : (s.files d.obj.file).driver.naming.store name with
      | error e => exact .inl ⟨e, rfl⟩
      | ok stored =>
        cases room with
        | fault e => exact .inl ⟨e, rfl⟩
        | bare p e => exact .inr ⟨d, stored, kind, p, rfl, hs, rfl, .inl ⟨_, rfl⟩⟩
        | made p => exact .inr ⟨d, stored, kind, p, rfl, hs, rfl, .inr rfl⟩

theorem createIn_gives (dir : Nat) (name : Name) (G : Good s ext) (kind : Kind) (room : Room) :
    Gives s ext (createIn s dir name kind room) := by
  rcases createIn_cases s dir name kind room with ⟨e, he⟩ |
    ⟨d, stored, kind', p, hd, -, -, ⟨e, he⟩ | he⟩
  · rw [he]
    exact .of_error G
  · rw [he]
    obtain ⟨G', g⟩ := G.makeBare hd stored kind' [] p
    exact ⟨g, nofun, fun _ _ => G'⟩
  · rw [he]
    exact G.make hd name stored kind' [] p

theorem vfsCreate_gives {start : Nat} (G : Good s ext) (hs : s.heap.Live start) (kind : Kind)
    (room : Room) (ok : T.Creates s start path room.seen) :
    GivesOn T s ext (vfsCreate s start path kind room) := by
  rw [vfsCreate]
  cases hp : pathSplit path with
  | none => exact .of_error G
  | some pn =>
    obtain ⟨parent, name⟩ := pn
    have L : GivesOn T s ext (s.lookup start parent) := .lookup parent G hs
    have ok := ok parent name
    dsimp only
    generalize s.lookup start parent = r at L ok
    obtain ⟨e | dir, s₁⟩ := r
    · exact L
    have G₁ : Good s₁ (ext + one dir) := L.ok dir rfl
    have C : GivesOn T s₁ (ext + one dir) (createIn s₁ dir name kind room) :=
      ⟨createIn_gives dir name G₁ kind room, fun K h => K.create kind room G₁ h (ok dir hp rfl)⟩
    exact L.trans_drop G.acc.toSound C

theorem openInode_leaves (l : Leaves T s (ext + one n) s') (fl : Flags) (fault : Option Errno) :
    Leaves T s ext (openInode s' n fl fault).2 := by
  simp only [openInode]
  split
  · exact l.drop
  cases fault with
  | some e => exact l.drop
  | none => exact l.hand

theorem vfsOpen_leaves {fl : Flags} (G : Good s ext) (room : Room)
    (fault : Option Errno) (ok : T.Ok s (.open base path fl room fault)) :
    Leaves T s ext (vfsOpen s base path fl room fault).2 := by
  rw [vfsOpen]
  simp only [Terms.Ok] at ok
  split
  · exact .refl G
  have hs := G.live_start base path
  have L : GivesOn T s ext (if fl.nofollow then s.lookupNofollow (s.start base path) path
      else s.lookup (s.start base path) path) := by
    split
    · exact .lookupNofollow _ G hs
    · exact .lookup _ G hs
  generalize (if fl.nofollow then s.lookupNofollow (s.start base path) path
      else s.lookup (s.start base path) path) = r at L ok
  obtain ⟨e | n, s₁⟩ := r
  · have l : Leaves T s ext s₁ := L.leaves_error rfl
    dsimp only
    split
    · exact l
    rename_i hcreat
    have ok := ok (by simpa using hcreat) e rfl
    rw [← L.start_eq] at ok
    have C := vfsCreate_gives l.good (l.good.live_start base path) .file room ok
    generalize vfsCreate s₁ (s₁.start base path) path .file room = r at C
    obtain ⟨e | n, s₂⟩ := r
    · exact l.trans (C.leaves_error rfl)
    · exact openInode_leaves (l.trans (C.leaves_ok rfl)) fl fault
  · have l : Leaves T s (ext + one n) s₁ := L.leaves_ok rfl
    dsimp only
    split
    · exact l.drop
    split
    · exact l.drop
    · exact openInode_leaves l fl fault

theorem vfsMkdir_leaves (G : Good s ext) (room : Room)
    (ok : T.Ok s (.mkdir t path room)) : Leaves T s ext (vfsMkdir s t path room).2 := by
  rw [vfsMkdir]
  simp only [Terms.Ok] at ok
  have L : GivesOn T s ext (s.lookup (s.start (.cwd t) path) path) :=
    .lookup path G (G.live_start (.cwd t) path)
  generalize s.lookup (s.start (.cwd t) path) path = r at L ok
  obtain ⟨e | n, s₁⟩ := r
  · have l : Leaves T s ext s₁ := L.leaves_error rfl
    have ok := ok e rfl
    rw [← L.start_eq] at ok
    have C := vfsCreate_gives l.good (l.good.live_start (.cwd t) path) .directory room ok
    dsimp only
    generalize vfsCreate s₁ (s₁.start (.cwd t) path) path .directory room = r at C
    obtain ⟨e | n, s₂⟩ := r
    · exact l.trans (C.leaves_error rfl)
    · exact (l.trans (C.leaves_ok rfl)).drop
  · exact (L.leaves_ok rfl).drop

/-! ## `vfs_symlink_at` -/

/-- A link is made, or its entry is left without an inode, or nothing changed. The inode of a
link whose target finds no room on ext2 is stranded. -/
theorem symlinkIn_cases (s : Sys) (dir : Nat) (target name : Name) (room : LinkRoom) :
    (symlinkIn s dir target name room).2 = s ∨
    ∃ d stored p target', s.heap.node dir = some d ∧
      (s.files d.obj.file).driver.naming.store name = .ok stored ∧
      (s.files d.obj.file).driver.fs ≠ .exfat ∧
      ((symlinkIn s dir target name room).2 = s.makeBare dir d.obj stored .symlink target' p ∨
        ((s.files d.obj.file).driver.fs ≠ .tempfs ∧ (∃ p' written, room = .short p' written) ∧
          ∃ stranded, (symlinkIn s dir target name room).2 =
            { (s.make dir d.obj stored .symlink target' p).2 with
              heap := s.heap, stranded := stranded }) ∨
        (symlinkIn s dir target name room).2 =
          (s.made dir d.obj name stored .symlink target' p).drop s.heap.next) := by
  simp only [symlinkIn]
  cases hd : s.heap.node dir with
  | none => exact .inl rfl
  | some d =>
    dsimp only
    split
    · exact .inl rfl
    rename_i hfat
    have hex : (s.files d.obj.file).driver.fs ≠ .exfat := fun h => hfat (.inr (.inl h))
    split
    · exact .inl rfl
    cases hs : (s.files d.obj.file).driver.naming.store name with
    | error e => exact .inl rfl
    | ok stored =>
      cases room with
      | short p written =>
        dsimp only
        split
        · next hfs => exact .inr ⟨d, stored, p, _, rfl, hs, hex,
            .inr (.inl ⟨by rw [hfs]; decide, ⟨p, written, rfl⟩, _, rfl⟩)⟩
        · exact .inl rfl
      | of room =>
        cases room with
        | fault e => exact .inl rfl
        | bare p e => exact .inr ⟨d, stored, p, _, rfl, hs, hex, .inl rfl⟩
        | made p => exact .inr ⟨d, stored, p, _, rfl, hs, hex, .inr (.inr rfl)⟩

theorem symlinkIn_leaves (G : Good s ext) (target : Name) (room : LinkRoom) (hl : T.link room)
    (ok : s.At dir fun f => T.free f name true) :
    Leaves T s ext (symlinkIn s dir target name room).2 := by
  suffices h : Good (symlinkIn s dir target name room).2 ext ∧
      (symlinkIn s dir target name room).2.tables = s.tables from
    ⟨h.1, h.2, fun K hi => K.symlink target room G hi hl ok⟩
  rcases symlinkIn_cases s dir target name room with he |
    ⟨d, stored, p, target', hd, -, -, he | ⟨hfs, -, stranded, he⟩ | he⟩
  · rw [he]
    exact ⟨G, rfl⟩
  · rw [he]
    obtain ⟨G', g⟩ := G.makeBare hd stored .symlink target' p
    exact ⟨G', g.tables⟩
  · rw [he]
    exact ⟨(G.leave_entry hd hfs stored .symlink _ p).aside _ _, rfl⟩
  · rw [he]
    have C := G.make hd name stored .symlink target' p
    exact ⟨(C.ok _ rfl).drop, C.grows.tables⟩

theorem vfsSymlink_leaves {target : Name} (G : Good s ext) (room : LinkRoom)
    (ok : T.Ok s (.symlink base target path room)) :
    Leaves T s ext (vfsSymlink s base target path room).2 := by
  rw [vfsSymlink]
  simp only [Terms.Ok] at ok
  split
  · exact .refl G
  split
  · exact .refl G
  have L : GivesOn T s ext (s.lookupNofollow (s.start base path) path) :=
    .lookupNofollow path G (G.live_start base path)
  generalize s.lookupNofollow (s.start base path) path = r at L ok
  obtain ⟨e | n, s₁⟩ := r
  · have l : Leaves T s ext s₁ := L.leaves_error rfl
    obtain ⟨hlink, ok⟩ := ok
    have ok := ok e rfl
    rw [← L.start_eq] at ok
    cases hp : pathSplit path with
    | none => exact l
    | some pn =>
      obtain ⟨parent, name⟩ := pn
      have L' : GivesOn T s₁ ext (s₁.lookup (s₁.start base path) parent) :=
        .lookup parent l.good (l.good.live_start base path)
      have ok := ok parent name
      dsimp only
      generalize s₁.lookup (s₁.start base path) parent = r at L' ok
      obtain ⟨e | dir, s₂⟩ := r
      · exact l.trans (L'.leaves_error rfl)
      · have l' := l.trans (L'.leaves_ok rfl)
        dsimp only
        split
        · exact l'.drop
        · exact (l'.trans (symlinkIn_leaves l'.good target room hlink (ok dir hp rfl))).drop
  · exact (L.leaves_ok rfl).drop

/-! ## `vfs_unlink_from` -/

theorem Good.forget (G : Good s ext) (dir : Nat) (name : Name) : Good (forget s dir name) ext := by
  rw [Dentry.forget]
  split
  · exact G
  · exact G.alike .uncache G.acc.uncache

theorem forget_tables : (forget s dir name).tables = s.tables := by
  rw [forget]
  split <;> rfl

theorem forget_alike (s : Sys) (dir : Nat) (name : Name) :
    Alike s.heap (forget s dir name).heap ∧ (forget s dir name).files = s.files := by
  rw [forget]
  split
  · exact ⟨.refl, rfl⟩
  · exact ⟨.uncache, rfl⟩

/-- The entry is gone, and with it the ref of the tree. -/
def Sys.unlinking (s : Sys) (i k : Nat) (e : DirEnt) : Sys :=
  match e.node with
  | none => { s.setEntries i ((s.files i).without k) with freed := e.file :: s.freed }
  | some c => { s.setEntries i ((s.files i).without k) with heap := vfsDrop s.heap c }

/-- The name is that of the entry `e` at `k`, which can be removed. -/
def Sys.Removes (s : Sys) (i : Nat) (name : Name) (fault : Option Errno) (k : Nat) (e : DirEnt) :
    Prop :=
  fault = none ∧ (s.files i).index name = some k ∧ (s.files i).entries[k]? = some e ∧
    (s.files e.file).full = false

theorem unlink_cases (s : Sys) (o : Obj) (name : Name) (fault : Option Errno) :
    ((∃ e, s.unlink o name fault = (.error e, s)) ∧ ∀ k e, ¬s.Removes o.file name fault k e) ∨
    ∃ k e, s.Removes o.file name fault k e ∧
      s.unlink o name fault = (.ok (), s.unlinking o.file k e) := by
  simp only [Sys.unlink, Sys.Removes]
  cases fault with
  | some e => exact .inl ⟨⟨e, rfl⟩, fun _ _ h => nomatch h.1⟩
  | none =>
    cases hi : (s.files o.file).index name with
    | none => exact .inl ⟨⟨_, rfl⟩, fun _ _ h => nomatch h.2.1⟩
    | some k =>
      dsimp only
      cases hk : (s.files o.file).entries[k]? with
      | none =>
        refine .inl ⟨⟨_, rfl⟩, ?_⟩
        rintro k' e ⟨-, hk', he, -⟩
        rw [← some.inj hk', hk] at he
        exact nomatch he
      | some e =>
        dsimp only
        split
        · next hfull =>
            refine .inl ⟨⟨_, rfl⟩, ?_⟩
            rintro k' e' ⟨-, hk', he, hno⟩
            rw [← some.inj hk', hk] at he
            rw [← some.inj he, hfull] at hno
            exact nomatch hno
        · next hfull => exact .inr ⟨k, e, ⟨rfl, rfl, hk, by simpa using hfull⟩, rfl⟩

theorem Good.unlinking (G : Good s ext)
    (hk : (s.files i).entries[k]? = some e) : Good (s.unlinking i k e) ext := by
  have G' := G.erase hk (without_perm hk)
  rw [Sys.unlinking]
  cases hn : e.node with
  | none =>
    rw [hn] at G'
    exact G'.aside _ _
  | some c =>
    rw [hn] at G'
    exact G'.drop

theorem unlinking_tables : (s.unlinking i k e).tables = s.tables := by
  rw [Sys.unlinking]
  split <;> rfl

/-- How a name is removed: not at all, or the directory is without its entry, and the
cache without what was under the name. -/
theorem unlinkIn_cases (s : Sys) (dir : Nat) (name : Name) (fault : Option Errno) :
    ((∃ e, unlinkIn s dir name fault = (.error e, s)) ∧ ∀ x k e, s.heap.node dir = some x →
      s.writes x = true → ¬s.Removes x.obj.file name fault k e) ∨
    ∃ x k e, s.heap.node dir = some x ∧ s.Removes x.obj.file name fault k e ∧
      unlinkIn s dir name fault = (.ok (), forget (s.unlinking x.obj.file k e) dir name) := by
  rw [unlinkIn]
  cases hd : s.heap.node dir with
  | none => exact .inl ⟨⟨_, rfl⟩, fun _ _ _ hx => nomatch hx⟩
  | some x =>
    dsimp only
    split
    · next hw =>
        refine .inl ⟨⟨_, rfl⟩, ?_⟩
        rintro y k e hy hw'
        rw [← some.inj hy, hw] at hw'
        exact nomatch hw'
    rcases unlink_cases s x.obj name fault with ⟨⟨e, he⟩, hno⟩ | ⟨k, e, hrem, he⟩
    · rw [he]
      refine .inl ⟨⟨e, rfl⟩, ?_⟩
      rintro y k e hy -
      rw [← some.inj hy]
      exact hno k e
    · rw [he]
      exact .inr ⟨x, k, e, rfl, hrem, rfl⟩

theorem unlinkIn_leaves (G : Good s ext) (dir : Nat) (name : Name) (fault : Option Errno) :
    Leaves T s ext (unlinkIn s dir name fault).2 := by
  suffices h : Good (unlinkIn s dir name fault).2 ext ∧
      (unlinkIn s dir name fault).2.tables = s.tables from
    ⟨h.1, h.2, fun K hi => K.unlink fault hi⟩
  rcases unlinkIn_cases s dir name fault with ⟨⟨e, he⟩, -⟩ | ⟨x, k, e, -, ⟨-, -, hk, -⟩, he⟩
  · rw [he]
    exact ⟨G, rfl⟩
  · rw [he]
    exact ⟨(G.unlinking hk).forget dir name, forget_tables.trans unlinking_tables⟩

theorem vfsUnlink_leaves (G : Good s ext) (fault : Option Errno) :
    Leaves T s ext (vfsUnlink s base path fault).2 := by
  rw [vfsUnlink]
  cases pathSplit path with
  | none => exact .refl G
  | some pn =>
    obtain ⟨parent, name⟩ := pn
    have L : GivesOn T s ext (s.lookup (s.start base path) parent) :=
      .lookup parent G (G.live_start base path)
    dsimp only
    generalize s.lookup (s.start base path) parent = r at L
    obtain ⟨e | dir, s₁⟩ := r
    · exact L.leaves_error rfl
    · have l : Leaves T s (ext + one dir) s₁ := L.leaves_ok rfl
      exact (l.trans (unlinkIn_leaves l.good dir name fault)).drop

/-- The object behind an inode stays what it is. -/
def SameObj (s s' : Sys) (dir : Nat) : Prop :=
  ∀ x x', s.heap.node dir = some x → s'.heap.node dir = some x' → x'.obj = x.obj

theorem SameObj.refl : SameObj s s dir := by
  intro x x' hx hx'
  rw [hx] at hx'
  rw [some.inj hx']

theorem unlinking_files {i k : Nat} {e : DirEnt} :
    (s.unlinking i k e).files = (s.setEntries i ((s.files i).without k)).files := by
  rw [Sys.unlinking]
  split <;> rfl

theorem Good.unlinking_obj {i k : Nat} {e : DirEnt} (G : Good s ext) (dir : Nat)
    (hk : (s.files i).entries[k]? = some e) : SameObj s (s.unlinking i k e) dir := by
  have G' := G.erase hk (without_perm hk)
  rw [Sys.unlinking]
  cases hn : e.node with
  | none => exact .refl
  | some c =>
    rw [hn] at G'
    intro x x' hx hx'
    rw [G'.drop_grows.frame.same dir x x' hx hx']

/-- A name that is removed leaves the directory with other entries. -/
theorem unlinkIn_files (G : Good s ext) (dir : Nat) (name : Name) (fault : Option Errno) :
    SameObj s (unlinkIn s dir name fault).2 dir ∧
      ∃ i es, (unlinkIn s dir name fault).2.files = (s.setEntries i es).files := by
  rcases unlinkIn_cases s dir name fault with ⟨⟨e, he⟩, -⟩ | ⟨x, k, e, -, ⟨-, -, hk, -⟩, he⟩
  · rw [he]
    exact ⟨.refl, 0, (s.files 0).entries, by simp [Sys.setEntries, Sys.setFile]⟩
  rw [he]
  obtain ⟨hl, hf⟩ := forget_alike (s.unlinking x.obj.file k e) dir name
  refine ⟨?_, x.obj.file, (s.files x.obj.file).without k, by rw [hf, unlinking_files]⟩
  intro y y' hy hy'
  obtain ⟨z, hz, hc⟩ := hl.of_node hy'
  rw [(core_eq hc).2.2.1]
  exact G.unlinking_obj dir hk y z hy hz

theorem Sys.At.unlinkIn {P : File → Prop} (a : s.At dir P) (G : Good s (ext + one dir))
    (hP : ∀ f es, P f → P { f with entries := es }) (fault : Option Errno) :
    (unlinkIn s dir name fault).2.At dir P := by
  intro x' hx'
  obtain ⟨x, hx⟩ := G.live_ext
  obtain ⟨hobj, i, es, hf⟩ := unlinkIn_files G dir name fault
  rw [hobj x x' hx hx', hf]
  simp only [Sys.setEntries, Sys.setFile]
  by_cases hi : x.obj.file = i
  · rw [← hi, update_self]
    exact hP _ es (a x hx)
  · rw [update_of_ne hi]
    exact a x hx

/-! ## `vfs_rename` -/

theorem insertAt_perm {pos : Nat} : insertAt pos e es ~ e :: es := by
  have : es.take pos ++ e :: es.drop pos ~ e :: (es.take pos ++ es.drop pos) := perm_middle
  rwa [take_append_drop] at this

section Renamed

variable {f : File} {stored : Stored}

/-- The new name does not fit, and ext2 has taken the old one away when it finds no place. -/
def File.DropsAt (f : File) (e : DirEnt) (stored : Stored) (fit : Fit) : Prop :=
  f.driver.fs = .ext2 ∧ fit.fault = none ∧ f.outgrows e stored fit = true ∧
    ∃ err, fit.added = .error err

/-- The new name does not fit, and ext4 cannot take the old one away once it is at `pos`. -/
def File.DoublesAt (f : File) (e : DirEnt) (stored : Stored) (fit : Fit) (pos : Nat) : Prop :=
  f.driver.fs = .ext4 ∧ fit.fault = none ∧ f.outgrows e stored fit = true ∧
    fit.added = .ok pos ∧ ∃ err, fit.left = some err

theorem outgrows_ext (ho : f.outgrows e stored fit = true) :
    f.driver.fs = .ext2 ∨ f.driver.fs = .ext4 := by
  rw [File.outgrows, Bool.and_eq_true, Bool.or_eq_true] at ho
  exact ho.1.imp of_decide_eq_true of_decide_eq_true

/-- What becomes of the entries: nothing, ext2 has lost the entry, ext4 has it under both names,
or the entry is there under its new name, in whatever place. FAT32 may write what is no name. -/
theorem renamed_cases (hk : f.entries[k]? = some e) (stored : Stored) (fit : Fit) :
    (¬f.DropsAt e stored fit ∧ (∀ pos, ¬f.DoublesAt e stored fit pos) ∧ f.driver.fs ≠ .tempfs ∧
      ∃ err, f.renamed k e stored fit = (some err, f.entries)) ∨
    (f.DropsAt e stored fit ∧ ∃ err, f.renamed k e stored fit = (some err, f.entries.eraseIdx k)) ∨
    (∃ pos, f.DoublesAt e stored fit pos ∧ ∃ err,
      f.renamed k e stored fit = (some err, insertAt pos { e with name := stored } f.entries)) ∨
    ∃ es, f.renamed k e stored fit = (none, es) ∧ (f.driver.fs ≠ .tempfs → fit.fault = none) ∧
      (es ~ { e with name := stored } :: f.entries.eraseIdx k ∨
        f.driver.naming.visible stored = false ∧ es = f.entries.eraseIdx k) := by
  obtain ⟨hlt, -⟩ := List.getElem?_eq_some_iff.mp hk
  rw [File.renamed]
  split
  · next err hfs hfault =>
      have hne : fit.fault ≠ none := by rw [hfault]; exact nofun
      exact .inl ⟨fun h => hne h.2.1, fun _ h => hne h.2.1, of_decide_eq_true hfs, err, rfl⟩
  rename_i hno
  have hnone : f.driver.fs ≠ .tempfs → fit.fault = none := by
    intro htemp
    cases hf : fit.fault with
    | none => rfl
    | some err => exact absurd hf (hno err (decide_eq_true htemp))
  split
  · next ho =>
    have hext := outgrows_ext ho
    have htemp : f.driver.fs ≠ .tempfs := by rcases hext with h | h <;> rw [h] <;> decide
    have hfault := hnone htemp
    rw [File.relocate]
    split
    · next h2 =>
      cases hadd : fit.added with
      | error err => exact .inr (.inl ⟨⟨h2, hfault, ho, err, hadd⟩, err, rfl⟩)
      | ok pos => exact .inr (.inr (.inr ⟨_, rfl, hnone, .inl insertAt_perm⟩))
    · next h2 =>
      have h4 := hext.resolve_left h2
      cases hadd : fit.added with
      | error err =>
        exact .inl ⟨fun h => h2 h.1, fun _ h => (nomatch hadd.symm.trans h.2.2.2.1), htemp, err, rfl⟩
      | ok pos =>
        cases hleft : fit.left with
        | some err => exact .inr (.inr (.inl ⟨pos, ⟨h4, hfault, ho, hadd, err, hleft⟩, err, rfl⟩))
        | none => exact .inr (.inr (.inr ⟨_, rfl, hnone, .inl insertAt_perm⟩))
  · split
    · exact .inr (.inr (.inr ⟨_, rfl, hnone, .inl (set_perm_cons_eraseIdx hlt _)⟩))
    · next hv => exact .inr (.inr (.inr ⟨_, rfl, hnone, .inr ⟨by simpa using hv, rfl⟩⟩))

end Renamed

/-- The entries of a directory are written again, with the refs they had. -/
theorem Good.reentry (G : Good s ext) (hi : i < s.nextFile)
    (hsub : ∀ e ∈ es, ∃ e₀ ∈ (s.files i).entries, e.file = e₀.file ∧ e.node = e₀.node)
    (hcount : ∀ n, es.countP (fun e => decide (e.node = some n)) = (s.files i).pins n) :
    Good (s.setEntries i es) ext := by
  refine G.setEntries hi ?_ ?_ fun n => by rw [hcount n]
  · intro e he
    obtain ⟨e₀, he₀, hf, -⟩ := hsub e he
    rw [hf]
    exact G.filed.entry i e₀ he₀
  · intro e he c hc
    obtain ⟨e₀, he₀, -, hn⟩ := hsub e he
    exact ⟨e₀, he₀, hn ▸ hc⟩

/-- Only tempfs has inodes in its directories. -/
theorem Good.node_none (G : Good s ext) (he : e ∈ (s.files i).entries)
    (hfs : (s.files i).driver.fs ≠ .tempfs) : e.node = none := by
  cases hn : e.node with
  | none => rfl
  | some c => exact absurd (G.filed.own i e c he hn) hfs

theorem Good.renamed (G : Good s ext) (stored : Stored) (fit : Fit)
    (hk : (s.files i).entries[k]? = some e) :
    Good (s.setEntries i ((s.files i).renamed k e stored fit).2) ext := by
  have hmem : e ∈ (s.files i).entries := mem_of_getElem? hk
  have hlt := G.filed.lt hmem
  have hgone : (s.files i).driver.fs ≠ .tempfs →
      Good (s.setEntries i ((s.files i).entries.eraseIdx k)) ext := by
    intro hfs
    have G' := G.erase hk (.refl _)
    rw [G.node_none hmem hfs] at G'
    exact G'
  rcases renamed_cases hk stored fit with ⟨-, -, -, err, he⟩ | ⟨hdrop, err, he⟩ |
    ⟨pos, hdouble, err, he⟩ | ⟨es, he, -, hp | ⟨hv, rfl⟩⟩
  · rw [he]
    exact G.reentry hlt (fun e he => ⟨e, he, rfl, rfl⟩) fun n => rfl
  · rw [he]
    exact hgone (by rw [hdrop.1]; decide)
  · rw [he]
    have hnone := G.node_none hmem (by rw [hdouble.1]; decide)
    refine G.reentry hlt (fun a ha => ?_) fun n => ?_
    · rcases mem_insertAt.mp ha with rfl | ha
      · exact ⟨e, hmem, rfl, rfl⟩
      · exact ⟨a, ha, rfl, rfl⟩
    · rw [countP_insertAt, hnone]
      rfl
  · rw [he]
    refine G.reentry hlt (fun a ha => ?_) fun n => ?_
    · rcases mem_cons.mp (hp.mem_iff.mp ha) with rfl | ha
      · exact ⟨e, hmem, rfl, rfl⟩
      · exact ⟨a, mem_of_mem_eraseIdx ha, rfl, rfl⟩
    · rw [hp.countP_eq, countP_cons, File.pins, ← countP_erase hk]
  · rw [he]
    refine hgone fun hfs => ?_
    rw [visible_tempfs hfs] at hv
    cases hv

/-- The driver has found the old entry, and gives it its new name; where the tree has the inode,
that has it too. -/
def Sys.renaming (s : Sys) (i k : Nat) (e : DirEnt) (stored : Stored) (new : Name) (fit : Fit) :
    Except Errno Unit × Sys :=
  let r := (s.files i).renamed k e stored fit
  match r.1, e.node with
  | some err, _ => (.error err.errno, s.setEntries i r.2)
  | none, none => (.ok (), s.setEntries i r.2)
  | none, some c =>
    (.ok (), { s.setEntries i r.2 with
      heap := s.heap.modify c fun x => { x with name := cName new } })

theorem store_error {d : Driver} {e : Errno} (hs : d.naming.store name = .error e) :
    e ≠ .eexist := by
  rintro rfl
  simp only [Driver.naming] at hs
  cases hfs : d.fs with
  | iso9660 rockRidge => simp [hfs, isoNaming] at hs
  | _ =>
    simp only [hfs, plainNaming, extNaming, fat32Naming, exfatNaming] at hs
    split at hs <;> simp at hs

/-- A rename stops before the old entry is written, and then nothing has changed, or goes on
with it. That the new name is taken, only tempfs says. -/
theorem rename_cases (s : Sys) (o : Obj) (old new : Name) (fit : Fit) :
    (∃ err, s.rename o old new fit = (.error err, s) ∧
      (err = .eexist → (s.files o.file).driver.fs = .tempfs ∧ (s.files o.file).find new ≠ none ∧
        ∃ stored, (s.files o.file).driver.naming.store new = .ok stored) ∧
      ((∃ err', (s.files o.file).driver.naming.store new = .error err') ∨
        (s.files o.file).index old = none ∨ (s.files o.file).driver.fs = .exfat ∨
        (s.files o.file).driver.fs = .tempfs ∧ (s.files o.file).find new ≠ none)) ∨
    ∃ stored k e, (s.files o.file).driver.naming.store new = .ok stored ∧
      ((s.files o.file).driver.fs = .tempfs → (s.files o.file).find new = none) ∧
      (s.files o.file).index old = some k ∧ (s.files o.file).entries[k]? = some e ∧
      s.rename o old new fit = s.renaming o.file k e stored new fit := by
  simp only [Sys.rename]
  cases hs : (s.files o.file).driver.naming.store new with
  | error e => exact .inl ⟨e, rfl, fun he => absurd he (store_error hs), .inl ⟨e, rfl⟩⟩
  | ok stored =>
    dsimp only
    split
    · next ht =>
        have hne := isSome_iff_ne_none.mp ht.2
        exact .inl ⟨_, rfl, fun _ => ⟨ht.1, hne, stored, rfl⟩, .inr (.inr (.inr ⟨ht.1, hne⟩))⟩
    rename_i ht
    have hfree : (s.files o.file).driver.fs = .tempfs → (s.files o.file).find new = none := by
      intro hfs
      by_contra hne
      exact ht ⟨hfs, isSome_iff_ne_none.mpr hne⟩
    cases hi : (s.files o.file).index old with
    | none => exact .inl ⟨_, rfl, nofun, .inr (.inl rfl)⟩
    | some k =>
      dsimp only
      cases hk : (s.files o.file).entries[k]? with
      | none =>
        obtain ⟨hlt, -⟩ := findIdx?_eq_some_iff_getElem.mp hi
        rw [getElem?_eq_getElem hlt] at hk
        exact nomatch hk
      | some e =>
        dsimp only
        split
        · next hex => exact .inl ⟨_, rfl, nofun, .inr (.inr (.inl hex.1))⟩
        · exact .inr ⟨stored, k, e, rfl, hfree, rfl, hk, rfl⟩

theorem renaming_error {stored : Stored} {err : Errno}
    (hr : (s.renaming i k e stored new fit).1 = .error err) : err ≠ .eexist := by
  rw [Sys.renaming] at hr
  cases hf : ((s.files i).renamed k e stored fit).1 with
  | some fault =>
    rw [hf] at hr
    rw [← Except.error.inj hr]
    cases fault <;> decide
  | none =>
    rw [hf] at hr
    cases hn : e.node <;> rw [hn] at hr <;> cases hr

theorem Good.rename (G : Good s ext) (o : Obj) (old new : Name) (fit : Fit) :
    Good (s.rename o old new fit).2 ext ∧ (s.rename o old new fit).2.tables = s.tables := by
  rcases rename_cases s o old new fit with ⟨e, he, -⟩ | ⟨stored, k, e, -, -, -, hk, he⟩
  · rw [he]
    exact ⟨G, rfl⟩
  · rw [he]
    have G' := G.renamed stored fit hk
    rw [Sys.renaming]
    split
    · exact ⟨G', rfl⟩
    · exact ⟨G', rfl⟩
    · exact ⟨G'.alike .rename G'.acc.rename, rfl⟩

theorem Good.renameEntry (dir : Nat) (G : Good s ext) (old new : Name) (fit : Fit) :
    Good (renameEntry s dir old new fit).2 ext ∧
      (renameEntry s dir old new fit).2.tables = s.tables := by
  rw [Dentry.renameEntry]
  cases s.heap.node dir with
  | none => exact ⟨G, rfl⟩
  | some d =>
    dsimp only
    obtain ⟨G', ht⟩ := (G.forget dir old).rename d.obj old new fit
    rw [forget_tables] at ht
    generalize (Dentry.forget s dir old).rename d.obj old new fit = r at G' ht
    obtain ⟨e | u, s₁⟩ := r
    · dsimp only
      split
      · exact ⟨G', ht⟩
      · exact ⟨G'.alike .encache G'.acc.encache, ht⟩
    · dsimp only
      split
      · exact ⟨G', ht⟩
      split
      · exact ⟨G'.alike (Alike.rename.trans .encache) G'.acc.rename.encache, ht⟩
      · exact ⟨G', ht⟩

theorem renameEntry_leaves (G : Good s ext) (ok : s.At dir fun f => T.moved f old new fit) :
    Leaves T s ext (renameEntry s dir old new fit).2 :=
  ⟨(G.renameEntry dir old new fit).1, (G.renameEntry dir old new fit).2, fun K h => K.rename h ok⟩

/-- The cache and the names in inodes are all that `vfs_rename_entry` writes besides. -/
theorem renameEntry_rest {x : INode Obj} (old new : Name) (fit : Fit)
    (hd : s.heap.node dir = some x) :
    (renameEntry s dir old new fit).1 = ((forget s dir old).rename x.obj old new fit).1 ∧
    ∃ h, (renameEntry s dir old new fit).2
      = { ((forget s dir old).rename x.obj old new fit).2 with heap := h } := by
  simp only [renameEntry, hd]
  cases (forget s dir old).rename x.obj old new fit with
  | mk res s₁ =>
    cases res with
    | error e =>
      refine ⟨rfl, ?_⟩
      dsimp only
      split
      · exact ⟨_, rfl⟩
      · exact ⟨_, rfl⟩
    | ok u =>
      refine ⟨rfl, ?_⟩
      dsimp only
      split
      · exact ⟨_, rfl⟩
      split
      · exact ⟨_, rfl⟩
      · exact ⟨_, rfl⟩

/-- A rename that fails has taken the inode from the cache and put it back. -/
def Sys.touched (s : Sys) (dir : Nat) (old : Name) : Sys :=
  match dcacheFind s.world s.heap dir old with
  | none => s
  | some m => { s with heap := dcacheInsert s.world (dcacheRemove s.heap m) m }

theorem touched_alike (s : Sys) (dir : Nat) (old : Name) :
    Alike s.heap (s.touched dir old).heap ∧ (s.touched dir old).files = s.files := by
  rw [Sys.touched]
  split
  · exact ⟨.refl, rfl⟩
  · exact ⟨Alike.uncache.trans .encache, rfl⟩

/-- A rename that finds the new name taken did nothing, and only tempfs looks. -/
theorem renameEntry_eexist (hr : renameEntry s dir old new fit = (.error .eexist, s')) :
    s' = s.touched dir old ∧ s.At dir fun f => f.driver.fs = .tempfs ∧ f.find new ≠ none ∧
      ∃ stored, f.driver.naming.store new = .ok stored := by
  cases hd : s.heap.node dir with
  | none => simp [renameEntry, hd] at hr
  | some x =>
    have hres := (renameEntry_rest old new fit hd).1
    rw [hr] at hres
    simp only [renameEntry, hd] at hr
    obtain ⟨hl, hf⟩ := forget_alike s dir old
    rcases rename_cases (forget s dir old) x.obj old new fit with ⟨e, he, htaken, -⟩ |
      ⟨stored, k, e, -, -, -, -, he⟩
    · simp only [he] at hr
      obtain ⟨he, rfl⟩ := Prod.mk.inj hr
      have htaken := htaken (Except.error.inj he)
      rw [hf] at htaken
      refine ⟨?_, ?_⟩
      · rw [Sys.touched, forget]
        cases dcacheFind s.world s.heap dir old <;> rfl
      · intro y hy
        obtain rfl := mem_unique hd hy
        exact htaken
    · rw [he] at hres
      exact absurd rfl (renaming_error hres.symm)

/-- Only inodes come and go. -/
structure Walks (s s' : Sys) : Prop where
  moves : Moves s.world s.heap s'.heap
  rest : s' = { s with heap := s'.heap }

theorem Walks.trans {s'' : Sys} (w : Walks s s') (w' : Walks s' s'') : Walks s s'' := by
  have hworld : s'.world = s.world := by rw [w.rest]; rfl
  refine ⟨w.moves.trans ?_, ?_⟩
  · rw [← hworld]
    exact w'.moves
  · rw [w'.rest, w.rest]

theorem Good.walks_lookupNofollow (G : Good s ext) (path : Name) {start : Nat}
    (hs : s.heap.Live start) :
    Walks s (s.lookupNofollow start path).2 := ⟨(walkFrom_ok G.ready hs).moves, rfl⟩

theorem Good.walks_drop (G : Good s (ext + one n)) : Walks s (s.drop n) := by
  have A := G.acc_hand
  exact ⟨A.drop_moves, rfl⟩

/-- The two paths lead to these inodes, and then the state is `s'`. -/
def Sys.Leads (s : Sys) (t : Nat) (old new : Name) (src dst : Nat) (s' : Sys) : Prop :=
  ∃ s₁, s.lookupNofollow (s.start (.cwd t) old) old = (.ok src, s₁) ∧
    s₁.lookupNofollow (s₁.start (.cwd t) new) new = (.ok dst, s')

/-- They lead to two inodes, and neither is a directory. -/
def Sys.Replaces (s : Sys) (t : Nat) (old new : Name) : Prop :=
  ∃ src dst s', s.Leads t old new src dst s' ∧ src ≠ dst ∧
    s'.type src ≠ some .directory ∧ s'.type dst ≠ some .directory

/-- `vfs_rename_over` looks around, and then removes the name that is taken, or leaves
it. -/
theorem renameOver_cases (G : Good s ext) (t dir : Nat) (old new newName : Name)
    (fault : Option Errno) :
    ∃ s₁, Walks s s₁ ∧ Good s₁ ext ∧
      ((¬s.Replaces t old new ∧ (renameOver s t dir old new newName fault).1 ≠ .ok true ∧
        ((renameOver s t dir old new newName fault).1 = .ok false →
          ∃ n s', s.Leads t old new n n s') ∧
        (renameOver s t dir old new newName fault).2 = s₁) ∨
      s.Replaces t old new ∧ renameOver s t dir old new newName fault =
        ((unlinkIn s₁ dir newName fault).1.map fun _ => true, (unlinkIn s₁ dir newName fault).2)) := by
  rw [renameOver]
  have hs := G.live_start (.cwd t) old
  have L := G.lookupNofollow old hs
  have w := G.walks_lookupNofollow old hs
  cases hr : s.lookupNofollow (s.start (.cwd t) old) old with
  | mk res s₁ =>
    rw [hr] at L w
    cases res with
    | error e =>
      refine ⟨s₁, w, L.error e rfl, .inl ⟨?_, nofun, nofun, rfl⟩⟩
      rintro ⟨src, dst, s', ⟨s₂, h, -⟩, -⟩
      rw [hr] at h
      exact nomatch (Prod.mk.inj h).1
    | ok src =>
      have G₁ : Good s₁ (ext + one src) := L.ok src rfl
      have hs₁ := G₁.live_start (.cwd t) new
      have L' := G₁.lookupNofollow new hs₁
      have w' := w.trans (G₁.walks_lookupNofollow new hs₁)
      dsimp only
      cases hr' : s₁.lookupNofollow (s₁.start (.cwd t) new) new with
      | mk res s₂ =>
        rw [hr'] at L' w'
        have hlead : ∀ {src' dst' s'}, s.Leads t old new src' dst' s' →
            src' = src ∧ res = .ok dst' ∧ s' = s₂ := by
          rintro src' dst' s' ⟨s₁', h, h'⟩
          rw [hr] at h
          obtain ⟨hsrc, rfl⟩ := Prod.mk.inj h
          rw [hr'] at h'
          obtain ⟨hdst, rfl⟩ := Prod.mk.inj h'
          exact ⟨(Except.ok.inj hsrc).symm, hdst, rfl⟩
        cases res with
        | error e =>
          have G₂ : Good s₂ (ext + one src) := L'.error e rfl
          refine ⟨s₂.drop src, w'.trans G₂.walks_drop, G₂.drop, .inl ⟨?_, nofun, nofun, rfl⟩⟩
          rintro ⟨src', dst, s', h, -⟩
          exact nomatch (hlead h).2.1
        | ok dst =>
          have G₂ : Good s₂ (ext + one src + one dst) := L'.ok dst rfl
          rw [add_right_comm] at G₂
          refine ⟨(s₂.drop src).drop dst, (w'.trans G₂.walks_drop).trans G₂.drop.walks_drop,
            G₂.drop.drop, ?_⟩
          have hrep : s.Replaces t old new ↔ src ≠ dst ∧
              s₂.type src ≠ some .directory ∧ s₂.type dst ≠ some .directory := by
            constructor
            · rintro ⟨src', dst', s', h, hne⟩
              obtain ⟨rfl, hdst, rfl⟩ := hlead h
              rwa [Except.ok.inj hdst]
            · exact fun h => ⟨src, dst, s₂, ⟨s₁, hr, hr'⟩, h⟩
          dsimp only
          rw [hrep]
          by_cases heq : src = dst
          · subst heq
            rw [if_pos rfl]
            exact .inl ⟨fun h => h.1 rfl, nofun, fun _ => ⟨src, s₂, s₁, hr, hr'⟩, rfl⟩
          rw [if_neg heq]
          by_cases hdst : s₂.type dst = some .directory
          · rw [if_pos hdst]
            exact .inl ⟨fun h => h.2.2 hdst, nofun, nofun, rfl⟩
          rw [if_neg hdst]
          by_cases hsrc : s₂.type src = some .directory
          · rw [if_pos hsrc]
            exact .inl ⟨fun h => h.2.1 hsrc, nofun, nofun, rfl⟩
          rw [if_neg hsrc]
          refine .inr ⟨⟨heq, hsrc, hdst⟩, ?_⟩
          dsimp only
          cases unlinkIn ((s₂.drop src).drop dst) dir newName fault with
          | mk res s₃ => cases res <;> rfl

theorem Walks.leaves (w : Walks s s') (G : Good s' ext) : Leaves T s ext s' := by
  refine ⟨G, by rw [w.rest]; rfl, fun K h => ?_⟩
  rw [w.rest]
  exact K.same h rfl rfl

/-- The name that was taken is gone, or nothing happened to the directory. -/
theorem renameOver_leaves (t : Nat) (old new newName : Name) {P : File → Prop}
    (G : Good s (ext + one dir)) (fault : Option Errno) (a : s.At dir P)
    (hP : ∀ f es, P f → P { f with entries := es }) :
    Leaves T s (ext + one dir) (renameOver s t dir old new newName fault).2 ∧
      (renameOver s t dir old new newName fault).2.At dir P := by
  obtain ⟨s₁, w, G₁, hr⟩ := renameOver_cases G t dir old new newName fault
  have F := w.moves.frame G.acc.toSound
  have hf : s₁.files = s.files := by rw [w.rest]
  have a₁ := a.frame F G.live_ext hf
  rcases hr with ⟨-, -, -, hr⟩ | ⟨-, hr⟩
  · rw [hr]
    exact ⟨w.leaves G₁, a₁⟩
  · rw [hr]
    exact ⟨(w.leaves G₁).trans (unlinkIn_leaves G₁ dir newName fault),
      a₁.unlinkIn G₁ hP fault⟩

theorem renameIn_leaves {oldName newName : Name} (A : T.Again)
    (G : Good s (ext + one dir)) (fault : Option Errno)
    (ok : s.At dir fun f => T.moved f oldName newName fit) :
    Leaves T s (ext + one dir) (renameIn s t dir old new oldName newName fit fault).2 := by
  rw [renameIn]
  have l : Leaves T s (ext + one dir) (renameEntry s dir oldName newName fit).2 :=
    renameEntry_leaves G ok
  cases hr : renameEntry s dir oldName newName fit with
  | mk res s₁ =>
    rw [hr] at l
    cases res with
    | ok u => exact l
    | error e =>
      cases e with
      | eexist =>
        obtain ⟨rfl, ht⟩ := renameEntry_eexist hr
        obtain ⟨hl, hf⟩ := touched_alike s dir oldName
        dsimp only
        have ok₁ := ok.alike hl hf
        have ht₁ := ht.alike hl hf
        obtain ⟨l', a⟩ := renameOver_leaves t old new newName
          (P := fun f => f.driver.fs = .tempfs ∧ T.moved f oldName newName fit)
          l.good fault (fun x hx => ⟨(ht₁ x hx).1, ok₁ x hx⟩)
          (fun f es hP => ⟨hP.1, A es hP.1 hP.2⟩)
        generalize renameOver (s.touched dir oldName) t dir old new newName fault = r at l' a
        obtain ⟨e | b, s₂⟩ := r
        · exact l.trans l'
        · cases b with
          | false => exact l.trans l'
          | true =>
            exact (l.trans l').trans (renameEntry_leaves l'.good fun x hx => (a x hx).2)
      | _ => exact l

theorem vfsRename_leaves (A : T.Again) (G : Good s ext)
    (fault : Option Errno) (ok : T.Ok s (.rename t old new fit fault)) :
    Leaves T s ext (vfsRename s t old new fit fault).2 := by
  rw [vfsRename]
  cases ho : pathSplit old with
  | none => exact .refl G
  | some po =>
    obtain ⟨oldParent, oldName⟩ := po
    cases hn : pathSplit new with
    | none => exact .refl G
    | some pn =>
      obtain ⟨newParent, newName⟩ := pn
      dsimp only
      have L : GivesOn T s ext (s.lookup (s.start (.cwd t) old) oldParent) :=
        .lookup oldParent G (G.live_start (.cwd t) old)
      generalize hr : s.lookup (s.start (.cwd t) old) oldParent = r at L
      obtain ⟨e | dir, s₁⟩ := r
      · exact L.leaves_error rfl
      have l : Leaves T s (ext + one dir) s₁ := L.leaves_ok rfl
      have L' : GivesOn T s₁ (ext + one dir) (s₁.lookup (s₁.start (.cwd t) new) newParent) :=
        .lookup newParent l.good (l.good.live_start (.cwd t) new)
      dsimp only
      generalize hr' : s₁.lookup (s₁.start (.cwd t) new) newParent = r at L'
      obtain ⟨e | dir', s₂⟩ := r
      · exact (l.trans (L'.leaves_error rfl)).drop
      have l' : Leaves T s (ext + one dir' + one dir) s₂ := by
        rw [add_right_comm]
        exact l.trans (L'.leaves_ok rfl)
      dsimp only
      split
      · exact l'.drop.drop
      rename_i hdir
      split
      · exact l'.drop.drop
      obtain rfl := not_not.mp hdir
      exact (l'.trans (renameIn_leaves A l'.good fault (ok dir oldName newName s₂
        ⟨oldParent, newParent, s₁, ho, hn, hr, hr'⟩))).drop.drop

/-! ## The rest -/

theorem count_eraseIdx {l : List Nat} {a : Nat} (hk : l[k]? = some a) (n : Nat) :
    (l.eraseIdx k).count n + one a n = l.count n := by
  obtain ⟨hlt, rfl⟩ := List.getElem?_eq_some_iff.mp hk
  rw [← (getElem_cons_eraseIdx_perm hlt).count_eq, one_eq_count, count_singleton]
  exact (count_cons ..).symm

theorem count_set {l : List Nat} {a b : Nat} (hk : l[k]? = some a) (n : Nat) :
    (l.set k b).count n + one a n = l.count n + one b n := by
  obtain ⟨hlt, -⟩ := List.getElem?_eq_some_iff.mp hk
  rw [(set_perm_cons_eraseIdx hlt b).count_eq, ← count_eraseIdx hk n, count_cons,
    one_eq_count (n := b), count_singleton]
  omega

/-- The ref of the old directory is in hand once the new one is in its place. -/
theorem Good.rechdir {old : Nat} (G : Good s (ext + one n)) (ht : s.cwd[t]? = some old) :
    Good { s with cwd := s.cwd.set t n } (ext + one old) := by
  refine G.pass s.held (s.cwd.set t n) fun m _ => ?_
  have := count_set (b := n) ht m
  simp only [Pi.add_apply]
  omega

/-- A ref that was held is in hand. -/
theorem Good.unhold (G : Good s ext) (hk : s.held[k]? = some n) :
    Good { s with held := s.held.eraseIdx k } (ext + one n) := by
  refine G.pass (s.held.eraseIdx k) s.cwd fun m _ => ?_
  have := count_eraseIdx hk m
  simp only [Pi.add_apply]
  omega

theorem vfsChdir_leaves (G : Good s ext) (t : Nat) : Leaves T s ext (vfsChdir s t path).2 := by
  rw [vfsChdir]
  have L : GivesOn T s ext (s.lookup (s.start (.cwd t) path) path) :=
    .lookup path G (G.live_start (.cwd t) path)
  generalize s.lookup (s.start (.cwd t) path) path = r at L
  obtain ⟨e | n, s₁⟩ := r
  · exact L.leaves_error rfl
  have l : Leaves T s (ext + one n) s₁ := L.leaves_ok rfl
  dsimp only
  split
  · exact l.drop
  cases ht : s₁.cwd[t]? with
  | none => exact l.drop
  | some old =>
    have G' := l.good.rechdir ht
    exact ⟨G'.drop, l.tables, fun K h => K.same (l.kept K h) rfl rfl⟩

theorem closeHeld_leaves (G : Good s ext) (k : Nat) : Leaves T s ext (closeHeld s k) := by
  rw [closeHeld]
  cases hk : s.held[k]? with
  | none => exact .refl G
  | some n =>
    exact ⟨(G.unhold hk).drop, rfl, fun K h => K.same h rfl rfl⟩

theorem reopenHeld_leaves (G : Good s ext) (k : Nat) : Leaves T s ext (reopenHeld s k) := by
  rw [reopenHeld]
  cases hk : s.held[k]? with
  | none => exact .refl G
  | some n =>
    exact ⟨(G.hold (G.live_held (mem_of_getElem? hk))).hand, rfl,
      fun K h => K.same h rfl rfl⟩

end BleedKernel.Dentry
