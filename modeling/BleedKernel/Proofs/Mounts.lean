import BleedKernel.Lib.Run
import BleedKernel.Proofs.NameCalls

/-!
# A file system comes off only when nothing inside it is in use

`vfs_umount` looks at one number, the count of the root. Every inode of a mounted
file system hangs below another one of it, all the way up to the root, and each holds
the one it hangs below; so while anything inside is alive something is attached to
the root, and the root has a ref besides that of the mount table.

A mount that fails gives back the directory and the slot. One that succeeds adds its
own refs to the table, and `vfs_umount` takes away just these.
-/

namespace BleedKernel.Dentry

open Lib List Option

variable {l : List Mount} {m₁ : Mount} {a : Bool} {h : Heap Obj} {f : INode Obj → INode Obj}
  {k r : Nat}

variable {s s' : Sys} {ext ext' : Nat → Nat} {h' : Heap Obj} {i n mp dev : Nat} {x y d : INode Obj}
  {name path : Name} {m m' : Mount} {T : Terms}

/-! ## Slots of the table -/

theorem getElem?_set_slot {j : Nat}
    (hj : (l.set i m₁)[j]? = some m) : (j = i ∧ m = m₁) ∨ (j ≠ i ∧ l[j]? = some m) := by
  by_cases hji : j = i
  · subst hji
    rw [getElem?_set_self'] at hj
    obtain ⟨a, -, rfl⟩ := map_eq_some_iff.mp hj
    exact .inl ⟨rfl, rfl⟩
  · rw [getElem?_set_ne (Ne.symm hji)] at hj
    exact .inr ⟨hji, hj⟩

theorem mem_set_slot (hm : m ∈ l.set i m₁) : m = m₁ ∨ ∃ j, j ≠ i ∧ l[j]? = some m := by
  obtain ⟨j, hj⟩ := mem_iff_getElem?.mp hm
  rcases getElem?_set_slot hj with ⟨-, rfl⟩ | ⟨hne, hj⟩
  · exact .inl rfl
  · exact .inr ⟨j, hne, hj⟩

theorem mem_set_of_ne {j : Nat} (hj : l[j]? = some m) (hne : j ≠ i) : m ∈ l.set i m₁ := by
  refine mem_iff_getElem?.mpr ⟨j, ?_⟩
  rw [getElem?_set_ne (Ne.symm hne)]
  exact hj

theorem refs_blank : Mount.refs { active := a } n = 0 := rfl

/-- Nothing is under way: a slot that is taken has a mount in it. And a device that the
table does not own is one of the device list. -/
structure Settled (s : Sys) : Prop where
  idle : ∀ m ∈ s.mounts, m.fsRoot = none → m.active = false
  owned : ∀ m ∈ s.mounts, ∀ d, m.dev = some d → m.devOwned = false → ∃ nm, (nm, d) ∈ s.devices

theorem Settled.congr (T : Settled s) (hm : s'.mounts = s.mounts) (hd : s'.devices = s.devices) :
    Settled s' :=
  ⟨by rw [hm]; exact T.idle, by rw [hm, hd]; exact T.owned⟩

/-- A slot that is not taken is blank. -/
theorem Good.slot (G : Good s ext) (hm : m ∈ s.mounts) (ha : m.active = false) : m = {} := by
  cases hr : m.fsRoot with
  | none =>
    have := G.tabled.blank m hm hr
    rw [ha] at this
    exact this
  | some r =>
    have := (G.tabled.full m hm r hr).1
    rw [ha] at this
    exact nomatch this

/-- What the table needs of one slot. -/
structure Slot (m : Mount) (h : Heap Obj) : Prop where
  blank : m.fsRoot = none → m = { active := m.active }
  full : ∀ r, m.fsRoot = some r → m.active = true ∧ r ≠ vfsRoot ∧
    (∃ mp, m.mountpoint = some mp) ∧ ∃ d, m.dev = some d
  root : ∀ r, m.fsRoot = some r → ∃ x, h.node r = some x ∧ x.obj.vol ≠ 0

/-- One slot of the table changes. The other roots are still there, and the new one is of
another volume. -/
theorem Tabled.set (T : Tabled s h) {v : Nat} (hv : 0 < v) (hslot : Slot m₁ h')
    (hroot : ∀ j m r w, j ≠ i → s.mounts[j]? = some m → m.fsRoot = some r → h.node r = some w →
      ∃ z, h'.node r = some z ∧ z.obj.vol = w.obj.vol)
    (hapart : ∀ j m r r' z w, j ≠ i → s.mounts[j]? = some m → m₁.fsRoot = some r →
      m.fsRoot = some r' → h'.node r = some z → h.node r' = some w → z.obj.vol ≠ w.obj.vol)
    (hmounted : ∀ n z r, h'.node n = some z → z.mounted = some r →
      ∃ m ∈ s.mounts.set i m₁, m.mountpoint = some n ∧ m.fsRoot = some r)
    (hdevice : ∀ nm d, (nm, d) ∈ s.devices → ∃ x, h'.node d = some x ∧ x.type = .device) :
    Tabled { s with heap := h', vols := v, mounts := s.mounts.set i m₁ } h' := by
  -- the volume of a root that was there is what it was
  have hvol : ∀ j m r z, j ≠ i → s.mounts[j]? = some m → m.fsRoot = some r → h'.node r = some z →
      ∃ w, h.node r = some w ∧ z.obj.vol = w.obj.vol := by
    intro j m r z hne hj hr hz
    obtain ⟨w, hw, -⟩ := T.root m (mem_of_getElem? hj) r hr
    obtain ⟨z', hz', hv⟩ := hroot j m r w hne hj hr hw
    obtain rfl := mem_unique hz hz'
    exact ⟨w, hw, hv⟩
  refine ⟨?_, ?_, ?_, ?_, hmounted, hdevice, hv⟩
  · intro m hm hr
    rcases mem_set_slot hm with rfl | ⟨j, -, hj⟩
    · exact hslot.blank hr
    · exact T.blank m (mem_of_getElem? hj) hr
  · intro m hm r hr
    rcases mem_set_slot hm with rfl | ⟨j, -, hj⟩
    · exact hslot.full r hr
    · exact T.full m (mem_of_getElem? hj) r hr
  · intro m hm r hr
    rcases mem_set_slot hm with rfl | ⟨j, hne, hj⟩
    · exact hslot.root r hr
    · obtain ⟨w, hw, hv⟩ := T.root m (mem_of_getElem? hj) r hr
      obtain ⟨z, hz, heq⟩ := hroot j m r w hne hj hr hw
      exact ⟨z, hz, by rw [heq]; exact hv⟩
  · intro j k m m' r r' z z' hj hk hr hr' hz hz' hv
    rcases getElem?_set_slot hj with ⟨hji, rfl⟩ | ⟨hnj, hj'⟩
    · rcases getElem?_set_slot hk with ⟨hki, -⟩ | ⟨hnk, hk'⟩
      · exact hji.trans hki.symm
      · obtain ⟨w', hw', heq'⟩ := hvol k m' r' z' hnk hk' hr' hz'
        exact absurd (hv.trans heq') (hapart k m' r r' z w' hnk hk' hr hr' hz hw')
    · obtain ⟨w, hw, heq⟩ := hvol j m r z hnj hj' hr hz
      rcases getElem?_set_slot hk with ⟨-, rfl⟩ | ⟨hnk, hk'⟩
      · exact absurd (hv.symm.trans heq) (hapart j m r' r z' w hnj hj' hr' hr hz' hw)
      · obtain ⟨w', hw', heq'⟩ := hvol k m' r' z' hnk hk' hr' hz'
        rw [heq, heq'] at hv
        exact T.apart j k m m' r r' w w' hj' hk' hr hr' hw hw' hv

/-- A slot with a root in it is not a blank one, and stays where it is when that is taken. -/
theorem mem_set_of_root (hi : s.mounts[i]? = some { active := a }) (hm : m ∈ s.mounts)
    (hr : m.fsRoot = some r) : m ∈ s.mounts.set i m₁ := by
  obtain ⟨j, hj⟩ := mem_iff_getElem?.mp hm
  refine mem_set_of_ne hj ?_
  rintro rfl
  obtain rfl := mem_unique hi hj
  exact nomatch hr

/-- A slot changes, but not what is mounted there and where. -/
theorem Good.setMount (G : Good s ext') (hi : s.mounts[i]? = some m) (hroot : m₁.fsRoot = m.fsRoot)
    (hmp : m₁.mountpoint = m.mountpoint) (hslot : Slot m₁ s.heap)
    (hrefs : ∀ n, m₁.refs n + ext n = m.refs n + ext' n) : Good (s.setMount i m₁) ext := by
  have hconv : ∀ m₀ ∈ s.mounts, ∃ m' ∈ s.mounts.set i m₁,
      m'.fsRoot = m₀.fsRoot ∧ m'.mountpoint = m₀.mountpoint := by
    intro m₀ hm₀
    obtain ⟨j, hj⟩ := mem_iff_getElem?.mp hm₀
    by_cases hji : j = i
    · subst hji
      obtain rfl := mem_unique hi hj
      obtain ⟨hlt, -⟩ := List.getElem?_eq_some_iff.mp hi
      exact ⟨_, mem_of_getElem? (getElem?_set_self hlt), hroot, hmp⟩
    · exact ⟨m₀, mem_set_of_ne hj hji, rfl, rfl⟩
  refine ⟨?_, ⟨G.filed.entry, G.filed.empty, G.filed.own, G.filed.known⟩, ?_, ?_⟩
  · refine G.acc.congr fun n _ => ?_
    have hsum := sum_set (b := m₁) (Mount.refs · n) hi
    have hn := hrefs n
    simp only [Pi.add_apply, Sys.refs, Sys.mountRefs, Sys.treeRefs, Sys.setMount]
    omega
  · refine G.placed.mono (Nat.le_refl _) (Nat.le_refl _) ?_
    rintro n ⟨m₀, hm₀, hr₀⟩
    obtain ⟨m', hm', hr', -⟩ := hconv m₀ hm₀
    exact ⟨m', hm', hr'.trans hr₀⟩
  · refine G.tabled.set G.tabled.vols hslot ?_ ?_ ?_ G.tabled.device
    · exact fun _ _ _ w _ _ _ hw => ⟨w, hw, rfl⟩
    · intro j m' r₁ r₂ z w hne hj hr₁ hr₂ hz hw hv
      rw [hroot] at hr₁
      exact hne (G.tabled.apart j i m' m r₂ r₁ w z hj hi hr₂ hr₁ hw hz hv.symm)
    · intro n z r hz hr
      obtain ⟨m₀, hm₀, hmp₀, hr₀⟩ := G.tabled.mounted n z r hz hr
      obtain ⟨m', hm', h₁, h₂⟩ := hconv m₀ hm₀
      exact ⟨m', hm', h₂.trans hmp₀, h₁.trans hr₀⟩

/-- A blank slot is claimed, or given back. -/
theorem Good.mark (G : Good s ext) (hi : s.mounts[i]? = some { active := a })
    (b : Bool) : Good (s.setMount i { active := b }) ext :=
  G.setMount hi rfl rfl ⟨fun _ => rfl, by simp, by simp⟩ fun _ => rfl

/-! ## `vfs_mount` -/

/-- The entry of a mount that is not owned by it. -/
def newMount (path : Name) (mp root dev : Nat) : Mount :=
  { path, mountpoint := some mp, fsRoot := some root, dev := some dev, active := true }

theorem ite_some_eq_one {a : Nat} : (if some a = some n then 1 else 0) = one a n := by
  by_cases h : n = a
  · subst h
    simp
  · rw [one_of_ne h, if_neg fun he => h (some.inj he).symm]

theorem refs_newMount {root : Nat} :
    (newMount path mp root dev).refs n = one mp n + one root n := by
  have hmp : (if (newMount path mp root dev).mountpoint = some n then 1 else 0) = one mp n :=
    ite_some_eq_one
  have hroot : (if (newMount path mp root dev).fsRoot = some n then 1 else 0) = one root n :=
    ite_some_eq_one
  rw [Mount.refs, hmp, hroot, if_neg fun h => Bool.false_ne_true h.1]
  omega

theorem add_eq_grow (hx : x.hashed = none) : h.add x = h.grow x none := by
  have : x = { x with hashed := none } := by
    cases x
    simp only at hx
    rw [hx]
  rw [Heap.grow, ← this]
  rfl

theorem modify_node_self (hx : h.node n = some x) : h.modify n f = h.set n (some (f x)) := by
  simp [Heap.modify, hx]

/-- The root in the place of the directory that it covers. -/
def rootNode (x : INode Obj) (vol file : Nat) : INode Obj :=
  { type := .directory, lookup := true, obj := ⟨vol, file⟩, name := x.name
    parent := x.parent, attached := true }

/-- The heap with the root in it, and the directory below it covered. -/
def mountHeap (h : Heap Obj) (mp : Nat) (x root : INode Obj) : Heap Obj :=
  (match x.parent with
    | none => h.add root
    | some p => vfsHold (h.add root) p).modify mp fun x => { x with mounted := some h.next }

/-- The heap before the directory is covered. -/
theorem mountHeap_eq (root : INode Obj) (S : Sound h) (hx : h.node mp = some x)
    (hroot : root.hashed = none) :
    ∃ g, mountHeap h mp x root = g.modify mp (fun x => { x with mounted := some h.next }) ∧
      g = (x.parent.elim h (vfsHold h)).grow root none := by
  refine ⟨_, rfl, ?_⟩
  cases hp : x.parent with
  | none => exact add_eq_grow hroot
  | some p =>
    have hlt := (S.tied mp x p hx hp).2.1
    have hb := S.bound mp x hx
    dsimp only
    rw [hold_add (by omega)]
    exact add_eq_grow hroot

theorem modify_node (hz : (h.modify k f).node n = some x) :
    (n = k ∧ ∃ w, h.node k = some w ∧ x = f w) ∨ (n ≠ k ∧ h.node n = some x) := by
  cases hw : h.node k with
  | none =>
    simp only [Heap.modify, hw] at hz
    refine .inr ⟨?_, hz⟩
    rintro rfl
    rw [hw] at hz
    cases hz
  | some w =>
    rw [modify_node_self hw] at hz
    exact (set_some hz).imp_left fun h => ⟨h.1, w, rfl, h.2⟩

theorem modify_live (hn : h.Live n) : (h.modify k f).Live n := by
  obtain ⟨x, hx⟩ := hn
  cases hw : h.node k with
  | none => exact ⟨x, by simp only [Heap.modify, hw]; exact hx⟩
  | some w =>
    rw [modify_node_self hw]
    by_cases hn : n = k
    · subst hn
      exact ⟨_, node_set_self⟩
    · exact ⟨x, by rw [node_set_of_ne hn]; exact hx⟩

/-- A directory is covered, or uncovered. -/
theorem Accounted.cover {r : Option Nat} (A : Accounted h ext) :
    Accounted (h.modify n fun x => { x with mounted := r }) ext := by
  cases hx : h.node n with
  | none =>
    have : (h.modify n fun x => { x with mounted := r }) = h := by simp [Heap.modify, hx]
    rw [this]
    exact A
  | some x =>
    rw [modify_node_self hx]
    exact A.write hx rfl rfl rfl (A.held n x hx) (fun _ _ => rfl) rfl

theorem count_cover {r : Option Nat} :
    (h.modify k fun x => { x with mounted := r }).count n = h.count n := by
  rw [Heap.modify]
  split
  · rfl
  next x hx =>
  by_cases hn : n = k
  · subst hn
    rw [count_set_self, count_of_node hx]
    rfl
  · exact count_set_of_ne hn

/-- What the heap of a mount is made of: the root, the directory that is covered, and
what was there. -/
theorem mountHeap_spec (vol file : Nat) (A : Accounted h ext) (hx : h.node mp = some x) :
    Accounted (mountHeap h mp x (rootNode x vol file)) (ext + one h.next) ∧
    (mountHeap h mp x (rootNode x vol file)).node h.next = some (rootNode x vol file) ∧
    (∀ n, h.Live n → (mountHeap h mp x (rootNode x vol file)).Live n) ∧
    ∀ n z, (mountHeap h mp x (rootNode x vol file)).node n = some z →
      (n = h.next ∧ z = rootNode x vol file) ∨
      ∃ w, h.node n = some w ∧ z = { w with shared := z.shared, mounted := z.mounted } ∧
        (n ≠ mp → z.mounted = w.mounted) ∧ (n = mp → z.mounted = some h.next) := by
  obtain ⟨g, heq, hg⟩ := mountHeap_eq (rootNode x vol file) A.toSound hx rfl
  have hup : (rootNode x vol file).up = x.parent := rfl
  obtain ⟨hnext, A₁, F₁⟩ : (x.parent.elim h (vfsHold h)).next = h.next ∧
      Accounted (x.parent.elim h (vfsHold h)) (ext + (rootNode x vol file).up.elim 0 one) ∧
      Frame h (x.parent.elim h (vfsHold h)) := by
    rw [hup]
    cases hp : x.parent with
    | none => exact ⟨rfl, A, .refl⟩
    | some p => exact ⟨hold_next, A.hold (A.tied mp x p hx hp).2.2, .hold⟩
  have Ag : Accounted g (ext + one h.next) := by
    rw [hg]
    refine A₁.grow (Nat.le_refl _) (fun _ _ => rfl) ?_ ?_
    · intro m hm
      rw [hnext] at hm
      simp [one_of_ne hm]
    · have hc := A.count h.next A.next_ne_root
      rw [count_of_none A.node_next] at hc
      rw [hnext, Pi.add_apply, one_self]
      show ext h.next + 1 = 1
      omega
  have F : Frame h g := by
    rw [hg]
    exact F₁.trans A.toSound (.grow A₁.toSound rfl)
  have hne : mp ≠ h.next := Nat.ne_of_lt (A.bound mp x hx)
  have hlive : ∀ n, h.Live n → g.Live n := fun n => A.keeps Ag F (fun m _ => Nat.le_add_right _ _)
  have hgnext : g.node h.next = some (rootNode x vol file) := by
    rw [hg, grow_node, hnext, Function.update_self]
    rfl
  rw [heq]
  refine ⟨Ag.cover, ?_, fun n hn => modify_live (hlive n hn), ?_⟩
  · obtain ⟨x', hx'⟩ := hlive mp ⟨x, hx⟩
    rw [modify_node_self hx', node_set_of_ne (Ne.symm hne)]
    exact hgnext
  · intro n z hz
    by_cases hn : n = h.next
    · subst hn
      rcases modify_node hz with ⟨he, -⟩ | ⟨-, hw⟩
      · exact absurd he.symm hne
      · exact .inl ⟨rfl, mem_unique hw hgnext⟩
    refine .inr ?_
    have hg : ∀ w', g.node n = some w' →
        ∃ w, h.node n = some w ∧ w' = { w with shared := w'.shared } := by
      intro w' hw'
      cases hw : h.node n with
      | none =>
        have hb := Ag.bound n w' hw'
        have hge := (F.new n w' hw' hw).1
        have : g.next = h.next + 1 := by
          rw [hg]
          exact congrArg (· + 1) hnext
        omega
      | some w => exact ⟨w, rfl, F.same n w w' hw hw'⟩
    rcases modify_node hz with ⟨rfl, w', hw', rfl⟩ | ⟨hnm, hw'⟩
    · obtain ⟨w, hw, hs⟩ := hg w' hw'
      refine ⟨w, hw, ?_, absurd rfl, fun _ => rfl⟩
      rw [hs]
    · obtain ⟨w, hw, hs⟩ := hg z hw'
      refine ⟨w, hw, ?_, fun _ => ?_, fun h => absurd h hnm⟩
      · rw [hs]
      · rw [hs]

/-- The state after a mount in slot `i`. -/
def Sys.mounting (s : Sys) (i mp dev : Nat) (path : Name) (x : INode Obj) (file : Nat) : Sys :=
  { s with
    heap := mountHeap s.heap mp x (rootNode x s.vols file)
    vols := s.vols + 1
    mounts := s.mounts.set i (newMount path mp s.heap.next dev) }

theorem Good.mounting {file : Nat} (G : Good s (ext + one mp))
    (hi : s.mounts[i]? = some { active := true }) (hx : s.heap.node mp = some x)
    (hfile : file < s.nextFile) : Good (s.mounting i mp dev path x file) ext := by
  obtain ⟨A, hroot, hlive, hold⟩ := mountHeap_spec s.vols file G.acc hx
  generalize hh : mountHeap s.heap mp x (rootNode x s.vols file) = h' at A hroot hlive hold
  have hs : s.mounting i mp dev path x file
      = { s with heap := h', vols := s.vols + 1
                 mounts := s.mounts.set i (newMount path mp s.heap.next dev) } := by
    rw [← hh]
    rfl
  rw [hs]
  -- an inode that was there and what has become of it
  have hkept : ∀ n w, s.heap.node n = some w →
      ∃ z, h'.node n = some z ∧ z.obj = w.obj ∧ z.attached = w.attached ∧ z.type = w.type := by
    intro n w hw
    obtain ⟨z, hz⟩ := hlive n ⟨w, hw⟩
    obtain ⟨rfl, -⟩ | ⟨w', hw', hzw, -⟩ := hold n z hz
    · exact absurd (G.acc.bound _ w hw) (Nat.lt_irrefl _)
    obtain rfl := mem_unique hw hw'
    exact ⟨z, hz, by rw [hzw], by rw [hzw], by rw [hzw]⟩
  have hself : (s.mounts.set i (newMount path mp s.heap.next dev))[i]?
      = some (newMount path mp s.heap.next dev) := by
    obtain ⟨hlt, -⟩ := List.getElem?_eq_some_iff.mp hi
    exact getElem?_set_self hlt
  have hisroot : Sys.IsRoot
      { s with heap := h', vols := s.vols + 1
               mounts := s.mounts.set i (newMount path mp s.heap.next dev) } s.heap.next :=
    ⟨_, mem_of_getElem? hself, rfl⟩
  refine ⟨?_, ⟨G.filed.entry, G.filed.empty, G.filed.own, ?_⟩, ⟨?_, ?_, ?_, ?_⟩,
    G.tabled.set (Nat.succ_pos _) ⟨(fun h => by cases h), ?_, ?_⟩ ?_ ?_ ?_ ?_⟩
  · refine A.congr fun n _ => ?_
    have := sum_set (b := newMount path mp s.heap.next dev) (Mount.refs · n) hi
    rw [refs_blank, refs_newMount] at this
    simp only [Pi.add_apply, Sys.refs, Sys.mountRefs, Sys.treeRefs]
    omega
  · intro j e c he hc
    obtain ⟨w, hw, ha⟩ := G.filed.known j e c he hc
    obtain ⟨z, hz, -, hatt, -⟩ := hkept c w hw
    exact ⟨z, hz, hatt.trans ha⟩
  · intro n z hz
    obtain ⟨-, rfl⟩ | ⟨w, hw, hzw, -⟩ := hold n z hz
    · exact hfile
    · rw [hzw]
      exact G.placed.file n w hw
  · intro n z hz
    obtain ⟨-, rfl⟩ | ⟨w, hw, hzw, -⟩ := hold n z hz
    · exact Nat.lt_succ_self _
    · rw [hzw]
      exact Nat.lt_succ_of_lt (G.placed.vol n w hw)
  · intro n z hz hv hno
    obtain ⟨rfl, -⟩ | ⟨w, hw, hzw, -⟩ := hold n z hz
    · exact absurd hisroot hno
    rw [hzw] at hv ⊢
    refine G.placed.home n w hw hv ?_
    rintro ⟨m, hm, hr⟩
    exact hno ⟨m, mem_set_of_root hi hm hr, hr⟩
  · intro n z q v hz hq hv hno
    obtain ⟨rfl, -⟩ | ⟨w, hw, hzw, -⟩ := hold n z hz
    · exact absurd hisroot hno
    have hq : w.parent = some q := by
      rw [hzw] at hq
      exact hq
    have hlt := (G.acc.tied n w q hw hq).2.1
    have hbound := G.acc.bound n w hw
    obtain ⟨rfl, -⟩ | ⟨u, hu, hvu, -⟩ := hold q v hv
    · omega
    rw [hzw, hvu]
    refine G.placed.same n w q u hw hq hu ?_
    rintro ⟨m, hm, hr⟩
    exact hno ⟨m, mem_set_of_root hi hm hr, hr⟩
  · intro r hr
    obtain rfl := some.inj hr
    exact ⟨rfl, G.acc.next_ne_root, ⟨mp, rfl⟩, dev, rfl⟩
  · intro r hr
    obtain rfl := some.inj hr
    exact ⟨_, hroot, Nat.ne_of_gt G.tabled.vols⟩
  · intro j m r w _ _ _ hw
    obtain ⟨z, hz, ho, -⟩ := hkept r w hw
    exact ⟨z, hz, by rw [ho]⟩
  · -- the volume of the new root is a new one
    intro j m r r' z w _ _ hr _ hz hw
    obtain rfl := some.inj hr
    obtain rfl := mem_unique hroot hz
    exact Nat.ne_of_gt (G.placed.vol r' w hw)
  · intro n z r hz hr
    obtain ⟨-, rfl⟩ | ⟨w, hw, -, hne, heq⟩ := hold n z hz
    · cases hr
    by_cases hnm : n = mp
    · rw [heq hnm] at hr
      obtain rfl := some.inj hr
      exact ⟨_, mem_of_getElem? hself, by rw [hnm]; rfl, rfl⟩
    · rw [hne hnm] at hr
      obtain ⟨m, hm, hmp, hmr⟩ := G.tabled.mounted n w r hw hr
      exact ⟨m, mem_set_of_root hi hm hmr, hmp, hmr⟩
  · intro nm d hd
    obtain ⟨w, hw, ht⟩ := G.tabled.device nm d hd
    obtain ⟨z, hz, -, -, htype⟩ := hkept d w hw
    exact ⟨z, hz, htype.trans ht⟩

theorem slotRelease_eq (hi : s.mounts[i]? = some { active := a }) :
    slotRelease s i = s.setMount i {} := by
  simp only [slotRelease, hi]

theorem mountOn_cases (i dev : Nat) (path : Name) (probe : Probe) (hx : s.heap.node mp = some x) :
    (∃ e, mountOn s i mp dev path probe = (.error e, slotRelease (s.drop mp) i)) ∨
    ∃ file, probe = .root file ∧ file < s.nextFile ∧
      mountOn s i mp dev path probe = (.ok (), s.mounting i mp dev path x file) := by
  simp only [mountOn, hx]
  split
  · exact .inl ⟨_, rfl⟩
  split
  · exact .inl ⟨_, rfl⟩
  cases probe with
  | unknown => exact .inl ⟨_, rfl⟩
  | bad => exact .inl ⟨_, rfl⟩
  | root file =>
    dsimp only
    split
    · exact .inl ⟨_, rfl⟩
    · next hfile => exact .inr ⟨file, rfl, Nat.lt_of_not_le hfile, rfl⟩

/-- A slot that was claimed and given back. -/
theorem Grows.release (hi : s.mounts[i]? = some {})
    (g : Grows (s.setMount i { active := true }) s') : Grows s (s'.setMount i {}) where
  frame := g.frame
  mounts := by
    obtain ⟨hlt, he⟩ := List.getElem?_eq_some_iff.mp hi
    show s'.mounts.set i {} = s.mounts
    rw [g.mounts]
    show (s.mounts.set i { active := true }).set i {} = s.mounts
    rw [set_set, ← he, set_getElem_self]
  held := g.held
  cwd := g.cwd
  devices := g.devices
  tree := g.tree

/-- How `vfs_mount` ends: as if it had only looked around, or with a mount in a slot
that was free. -/
structure Mounting (T : Terms) (s : Sys) (ext : Nat → Nat) (path : Name) (dev : Nat)
    (r : Except Errno Unit × Sys) : Prop where
  error : ∀ e, r.1 = .error e → Good r.2 ext ∧ Grows s r.2
  ok : r.1 = .ok () → Good r.2 ext ∧ ∃ s₁ i mp x file, s.mounts[i]? = some {} ∧
    Grows (s.setMount i { active := true }) s₁ ∧ Good s₁ (ext + one mp) ∧
    s₁.heap.node mp = some x ∧ file < s₁.nextFile ∧ r.2 = s₁.mounting i mp dev path x file
  kept : ∀ {I}, Keeps T I → I s → I r.2

theorem mountOn_mounting {s₁ : Sys} (probe : Probe) (hi : s.mounts[i]? = some {})
    (S : Sound s.heap) (L : GivesOn T (s.setMount i { active := true }) ext (.ok mp, s₁)) :
    Mounting T s ext path dev (mountOn s₁ i mp dev path probe) := by
  have G : Good s₁ (ext + one mp) := L.ok mp rfl
  have hi₁ : s₁.mounts[i]? = some { active := true } := by
    obtain ⟨hlt, -⟩ := List.getElem?_eq_some_iff.mp hi
    rw [L.grows.mounts]
    exact getElem?_set_self hlt
  have hkept : ∀ {J}, Makes T.free J → J s → J s₁ := fun M h =>
    L.kept M (M.same h rfl rfl)
  obtain ⟨x, hx⟩ := G.live_ext
  rcases mountOn_cases i dev path probe hx with ⟨e, he⟩ | ⟨file, -, hfile, hok⟩
  · rw [he, slotRelease_eq (s := s₁.drop mp) hi₁]
    exact ⟨fun _ _ => ⟨G.drop.mark hi₁ false,
      (L.grows.trans (s := s.setMount i { active := true }) S G.drop_grows).release hi⟩, nofun,
      fun K h => K.same (hkept K.toMakes h) rfl rfl⟩
  · rw [hok]
    exact ⟨nofun, fun _ => ⟨G.mounting hi₁ hx hfile, s₁, i, mp, x, file, hi, L.grows, G, hx, hfile,
      rfl⟩, fun K h => K.same (hkept K.toMakes h) rfl rfl⟩

theorem vfsMount_mounting (probe : Probe) (dev : Nat) (G : Good s ext) (room : Room)
    (ok : T.Mounts s path room) :
    Mounting T s ext path dev (vfsMount s path dev probe room) := by
  have hfail : ∀ e, Mounting T s ext path dev (.error e, s) := fun e =>
    ⟨fun _ _ => ⟨G, .refl⟩, nofun, fun _ h => h⟩
  rw [vfsMount]
  split
  · exact hfail _
  cases hf : s.mounts.findIdx? fun m => !m.active with
  | none => exact hfail _
  | some i =>
    obtain ⟨hlt, hact, -⟩ := findIdx?_eq_some_iff_getElem.mp hf
    have hi : s.mounts[i]? = some s.mounts[i] := getElem?_eq_getElem hlt
    have hblank : s.mounts[i] = {} := G.slot (getElem_mem hlt) (by simpa using hact)
    rw [hblank] at hi
    simp only [hi]
    -- the slot is claimed for as long as the mount is under way
    have G₀ : Good (s.setMount i { active := true }) ext := G.mark hi true
    have hi₀ : (s.setMount i { active := true }).mounts[i]? = some { active := true } :=
      getElem?_set_self hlt
    split
    · rw [slotRelease_eq hi₀]
      exact ⟨fun _ _ => ⟨G₀.mark hi₀ false, Grows.refl.release hi⟩, nofun,
        fun K h => K.same h rfl rfl⟩
    -- the lookup neither reads nor writes the mount table
    have okc : T.CreatesAfter ((s.setMount i { active := true }).lookup vfsRoot path)
        vfsRoot path room.seen := ok
    have L : GivesOn T (s.setMount i { active := true }) ext
        ((s.setMount i { active := true }).lookup vfsRoot path) := .lookup path G₀ G₀.acc.root
    generalize (s.setMount i { active := true }).lookup vfsRoot path = r at L okc
    obtain ⟨e | mp, s₁⟩ := r
    · have G₁ : Good s₁ ext := L.error e rfl
      have C := vfsCreate_gives G₁ G₁.acc.root .directory room (okc e rfl)
      have C : GivesOn T (s.setMount i { active := true }) ext
          (vfsCreate s₁ vfsRoot path .directory room) :=
        ⟨⟨L.grows.trans G₀.acc.toSound C.grows, C.ok, C.error⟩, fun M h => C.kept M (L.kept M h)⟩
      dsimp only
      generalize vfsCreate s₁ vfsRoot path .directory room = r at C
      obtain ⟨e | mp, s₂⟩ := r
      · have hi₂ : s₂.mounts[i]? = some { active := true } := by
          rw [C.grows.mounts]
          exact hi₀
        dsimp only
        rw [slotRelease_eq hi₂]
        have G₂ : Good s₂ ext := C.error e rfl
        exact ⟨fun _ _ => ⟨G₂.mark hi₂ false, C.grows.release hi⟩, nofun, fun K h =>
          K.same (C.kept K.toMakes (K.same h rfl rfl)) rfl rfl⟩
      · exact mountOn_mounting probe hi G.acc.toSound C
    · exact mountOn_mounting probe hi G.acc.toSound L

/-- The entry of a mount that succeeded, and the slot it is in. -/
theorem Mounting.entry {r : Except Errno Unit × Sys} (M : Mounting T s ext path dev r)
    (hok : r.1 = .ok ()) :
    ∃ i mp root, s.mounts[i]? = some {} ∧
      r.2.mounts = s.mounts.set i (newMount path mp root dev) ∧ r.2.devices = s.devices := by
  obtain ⟨-, s₁, i, mp, x, file, hi, g, -, -, -, hr⟩ := M.ok hok
  refine ⟨i, mp, s₁.heap.next, hi, ?_, ?_⟩
  · rw [hr]
    show s₁.mounts.set i _ = _
    rw [g.mounts]
    exact set_set ..
  · rw [hr]
    exact g.devices

/-! ## `vfs_mount_file` -/

/-- The ref in hand becomes that of the mount. -/
theorem Good.own {dev : Nat} (G : Good s (ext + one dev)) (hi : s.mounts[i]? = some m)
    (hr : m.fsRoot = some r) (hd : m.dev = some dev) (ho : m.devOwned = false) :
    Good (s.setMount i { m with devOwned := true }) ext := by
  have hm := mem_of_getElem? hi
  refine G.setMount hi rfl rfl ⟨?_, G.tabled.full m hm, G.tabled.root m hm⟩ fun n => ?_
  · exact fun hno => by cases hr.symm.trans hno
  · simp only [Mount.refs, hd, ho, Bool.false_eq_true, false_and, if_false, true_and,
      ite_some_eq_one, Pi.add_apply]
    omega

/-- No mount that does not own it is of a regular file. -/
theorem Settled.owns (T : Settled s) (G : Good s ext) (hfile : s.type n = some .file)
    (hm : m ∈ s.mounts) (hd : m.dev = some n) : m.devOwned = true := by
  cases ho : m.devOwned with
  | true => rfl
  | false =>
    obtain ⟨nm, hdev⟩ := T.owned m hm n hd ho
    obtain ⟨x, hx, ht⟩ := G.tabled.device nm n hdev
    rw [Sys.type, hx, map_some, ht] at hfile
    exact nomatch hfile

theorem map_own_eq (i : Nat) {file : Nat} (ha : m₁.active = true)
    (hd : m₁.dev = some file) (hl : ∀ m ∈ l, m.dev = some file → m.devOwned = true) :
    ((l.set i m₁).map fun m =>
        if m.active = true ∧ m.dev = some file then { m with devOwned := true } else m)
      = l.set i { m₁ with devOwned := true } := by
  have hid : (l.map fun m =>
      if m.active = true ∧ m.dev = some file then { m with devOwned := true } else m) = l := by
    refine (map_congr_left fun m hm => ?_).trans (map_id l)
    split
    · rename_i h
      have := hl m hm h.2
      cases m
      simp only at this
      rw [this]
      rfl
    · rfl
  rw [map_set, hid, if_pos ⟨ha, hd⟩]

/-- How `vfs_mount_file` ends. -/
structure FileMounting (T : Terms) (s : Sys) (ext : Nat → Nat) (path : Name)
    (r : Except Errno Unit × Sys) : Prop where
  kept : ∀ {I}, Keeps T I → I s → I r.2
  error : ∀ e, r.1 = .error e → Good r.2 ext ∧ Grows s r.2
  ok : r.1 = .ok () → Good r.2 ext ∧ ∃ i m, s.mounts[i]? = some {} ∧ m.fsRoot.isSome = true ∧
    m.devOwned = true ∧ m.path = path ∧ r.2.mounts = s.mounts.set i m ∧ r.2.devices = s.devices

theorem vfsMountFile_mounting {filePath : Name} {probe : Probe} (G : Good s ext) (S : Settled s)
    (room : Room) (ok : T.Ok s (.mountFile path filePath probe room)) :
    FileMounting T s ext path (vfsMountFile s path filePath probe room) := by
  rw [vfsMountFile]
  simp only [Terms.Ok] at ok
  have L : GivesOn T s ext (s.lookup vfsRoot filePath) := .lookup filePath G G.acc.root
  cases hr : s.lookup vfsRoot filePath with
  | mk res s₁ =>
    rw [hr] at L ok
    cases res with
    | error e => exact ⟨fun K => L.kept K.toMakes, fun _ _ => ⟨L.error e rfl, L.grows⟩, by simp⟩
    | ok file =>
      have G₁ : Good s₁ (ext + one file) := L.ok file rfl
      have S₁ : Settled s₁ := S.congr L.grows.mounts L.grows.devices
      dsimp only
      split
      · exact ⟨fun K h => K.drop (L.kept K.toMakes h),
          fun _ _ => ⟨G₁.drop, L.grows.trans G.acc.toSound G₁.drop_grows⟩, by simp⟩
      rename_i htype
      have M := vfsMount_mounting probe file G₁ room (ok file rfl)
      cases hv : vfsMount s₁ path file probe room with
      | mk res s₂ =>
        rw [hv] at M
        cases res with
        | error e =>
          obtain ⟨G₂, g₂⟩ := M.error e rfl
          exact ⟨fun K h => K.drop (M.kept K (L.kept K.toMakes h)), fun _ _ => ⟨G₂.drop,
            (L.grows.trans G.acc.toSound g₂).trans G.acc.toSound G₂.drop_grows⟩, by simp⟩
        | ok u =>
          obtain ⟨G₂, -⟩ := M.ok rfl
          obtain ⟨i, mp, root, hi, hms, hdev⟩ := M.entry rfl
          obtain ⟨hlt, -⟩ := List.getElem?_eq_some_iff.mp hi
          have hi₂ : s₂.mounts[i]? = some (newMount path mp root file) := by
            rw [hms]
            exact getElem?_set_self hlt
          have hown := G₂.own hi₂ rfl rfl rfl
          have hmine : (newMount path mp root file).dev = some file := rfl
          have hmap := map_own_eq i rfl hmine (fun m => S₁.owns G₁ (not_not.mp htype))
          have hset : s₂.mounts.set i { newMount path mp root file with devOwned := true }
              = s₁.mounts.set i { newMount path mp root file with devOwned := true } := by
            rw [hms]
            exact set_set ..
          rw [Sys.setMount, hset, ← hmap, ← hms] at hown
          refine ⟨fun K h => K.same (M.kept K (L.kept K.toMakes h)) rfl rfl, by simp,
            fun _ => ⟨hown, i, { newMount path mp root file with devOwned := true }, ?_, rfl, rfl,
              rfl, ?_, hdev.trans L.grows.devices⟩⟩
          · rw [← L.grows.mounts]
            exact hi
          · show (s₂.mounts.map _) = _
            rw [hms]
            refine hmap.trans ?_
            rw [show s₁.mounts = s.mounts from L.grows.mounts]

/-! ## `vfs_umount` -/

/-- The ref a mount has on its device. -/
def Mount.ownRef (m : Mount) : Nat → Nat := if m.devOwned then m.dev.elim 0 one else 0

theorem refs_eq (hmp : m.mountpoint = some mp) (hr : m.fsRoot = some r) :
    m.refs n = one mp n + one r n + m.ownRef n := by
  have hown : m.ownRef n = if m.devOwned = true ∧ m.dev = some n then 1 else 0 := by
    simp only [Mount.ownRef]
    cases m.devOwned with
    | false => simp
    | true =>
      cases m.dev with
      | none => simp
      | some d => simp only [if_true, elim_some, true_and, ite_some_eq_one]
  rw [Mount.refs, hmp, hr, hown, ite_some_eq_one, ite_some_eq_one]

/-- A root with nothing but the ref of its mount: nothing else of the file system is
there. What hangs below the root would be in its count, and everything else hangs
below something that hangs below the root. -/
theorem Good.idle (G : Good s ext) (hi : s.mounts[i]? = some m)
    (hr : m.fsRoot = some r) (hx : s.heap.node r = some x) (hcount : s.heap.count r ≤ 1)
    (n : Nat) (y : INode Obj) (hy : s.heap.node n = some y) (hv : y.obj.vol = x.obj.vol) :
    n = r := by
  have hm := mem_of_getElem? hi
  obtain ⟨-, hrr, -⟩ := G.tabled.full m hm r hr
  have hkids : s.heap.kids r = 0 := by
    have hc := G.acc.count r hrr
    have hpos := mountRefs_pos hm (refs_fsRoot hr)
    rw [Pi.add_apply, Sys.refs] at hc
    omega
  induction n using Nat.strongRecOn generalizing y with
  | _ n ih =>
    by_contra hne
    have hvol : y.obj.vol ≠ 0 := by
      obtain ⟨x', hx', hx0⟩ := G.tabled.root m hm r hr
      obtain rfl := mem_unique hx hx'
      rw [hv]
      exact hx0
    have hno : ¬s.IsRoot n := by
      rintro ⟨m', hm', hr'⟩
      obtain ⟨j, hj⟩ := mem_iff_getElem?.mp hm'
      have := G.tabled.apart j i m' m n r y x hj hi hr' hr hy hx hv
      subst this
      obtain rfl := mem_unique hi hj
      rw [hr] at hr'
      exact hne (some.inj hr').symm
    obtain ⟨p, hp⟩ := G.placed.home n y hy hvol hno
    obtain ⟨ha, hlt, z, hz⟩ := G.acc.tied n y p hy hp
    have hsame := G.placed.same n y p z hy hp hz hno
    have hpr : p = r := ih p hlt z hz (hsame.symm.trans hv)
    subst hpr
    have hup : s.heap.up n = some p := by rw [up_of_node hy, INode.up, if_pos ha, hp]
    have hin : n ∈ Finset.range s.heap.next := Finset.mem_range.mpr (G.acc.bound n y hy)
    have hle := le_tally (F := s.heap.up) (g := fun o => if o = some p then 1 else 0) hin
    simp only [hup] at hle
    have : 1 ≤ s.heap.kids p := hle
    omega

/-- `vfs_drop` makes no inodes. -/
theorem Accounted.drop_old (W : World Obj) (A : Accounted h (ext + one k))
    (hz : (vfsDrop h k).node n = some x) :
    ∃ w, h.node n = some w ∧ x = { w with shared := x.shared } := by
  have F := (A.drop_moves (W := W)).frame A.toSound
  cases hw : h.node n with
  | some w => exact ⟨w, rfl, F.same n w x hw hz⟩
  | none =>
    have hge := (F.new n x hz hw).1
    have hlt := A.drop.bound n x hz
    have hnext : (vfsDrop h k).next = h.next := dropLoop_next
    omega

/-- Inodes may have gone, and those that stay are where they were. -/
structure Shrinks (h h' : Heap Obj) : Prop where
  next : h'.next = h.next
  old : ∀ n z, h'.node n = some z →
    ∃ w, h.node n = some w ∧ z.obj = w.obj ∧ z.parent = w.parent ∧ z.attached = w.attached

theorem Shrinks.trans {g k : Heap Obj} (S : Shrinks h g) (S' : Shrinks g k) : Shrinks h k where
  next := S'.next.trans S.next
  old := by
    intro n z hz
    obtain ⟨w, hw, ho, hp, ha⟩ := S'.old n z hz
    obtain ⟨v, hv, ho', hp', ha'⟩ := S.old n w hw
    exact ⟨v, hv, ho.trans ho', hp.trans hp', ha.trans ha'⟩

theorem Shrinks.drop (W : World Obj) (A : Accounted h (ext + one k)) : Shrinks h (vfsDrop h k) where
  next := dropLoop_next
  old := by
    intro n z hz
    obtain ⟨w, hw, hzw⟩ := A.drop_old W hz
    exact ⟨w, hw, by rw [hzw], by rw [hzw], by rw [hzw]⟩

theorem Shrinks.cover {r : Option Nat} :
    Shrinks h (h.modify k fun x => { x with mounted := r }) where
  next := by
    rw [Heap.modify]
    split <;> rfl
  old := by
    intro n z hz
    rcases modify_node hz with ⟨rfl, w, hw, rfl⟩ | ⟨-, hw⟩
    · exact ⟨w, hw, rfl, rfl, rfl⟩
    · exact ⟨z, hw, rfl, rfl, rfl⟩

/-- The refs that everybody has, before and after, give the counts. -/
theorem Shrinks.count {e : Nat → Nat} (S : Shrinks h h')
    (A : Accounted h (ext' + e)) (A' : Accounted h' ext') (hn : n ≠ vfsRoot) :
    h'.count n + e n + attachedSince h' h n = h.count n := by
  have hkids := kids_eq_add (n := n) A'.toSound A.toSound (Nat.le_of_eq S.next) (by
    intro q hu
    obtain ⟨z, hz, hp, ha, -⟩ := A'.up_eq hu
    obtain ⟨w, hw, -, hpw, haw⟩ := S.old q z hz
    rw [up_of_node hw, INode.up, ← haw, ha, ← hpw]
    exact hp)
  have h1 := A.count n hn
  have h2 := A'.count n hn
  rw [Pi.add_apply] at h1
  omega

/-- The state in which the root has gone and the other refs of the mount are in hand. -/
def Sys.uncovered (s : Sys) (i mp r : Nat) : Sys :=
  { s with
    heap := vfsDrop (s.heap.modify mp fun x => { x with mounted := none }) r
    mounts := s.mounts.set i {} }

theorem uncovered_refs (mp : Nat) (hi : s.mounts[i]? = some m) (r n : Nat) :
    (s.uncovered i mp r).refs n + m.refs n = s.refs n := by
  have hsum := sum_set (b := {}) (Mount.refs · n) hi
  rw [refs_blank] at hsum
  simp only [Sys.refs, Sys.mountRefs, Sys.treeRefs, Sys.uncovered]
  omega

/-- The refs of the mount are in hand before the first of them is dropped. -/
theorem Good.uncover_accounted (G : Good s ext) (hi : s.mounts[i]? = some m)
    (hr : m.fsRoot = some r) (hmp : m.mountpoint = some mp) :
    Accounted (s.heap.modify mp fun x => { x with mounted := none })
      ((s.uncovered i mp r).refs + (ext + m.ownRef + one mp) + one r) := by
  refine G.acc.cover.congr fun n _ => ?_
  have := uncovered_refs mp hi r n
  rw [refs_eq hmp hr] at this
  simp only [Pi.add_apply]
  omega

theorem Good.uncover (G : Good s ext) (hi : s.mounts[i]? = some m)
    (hr : m.fsRoot = some r) (hmp : m.mountpoint = some mp) (hcount : s.heap.count r ≤ 1) :
    Good (s.uncovered i mp r) (ext + m.ownRef + one mp) ∧ ¬(s.uncovered i mp r).heap.Live r ∧
      Shrinks s.heap (s.uncovered i mp r).heap := by
  have hm := mem_of_getElem? hi
  obtain ⟨-, hrr, -⟩ := G.tabled.full m hm r hr
  have A := G.uncover_accounted hi hr hmp
  have A' := A.drop
  have hdead : ¬(s.uncovered i mp r).heap.Live r := by
    rintro ⟨z, hz⟩
    have hheld := A'.held r z hz hrr
    have hc := A.count_of_drop s.world hrr
    have hcz : (vfsDrop (s.heap.modify mp fun x => { x with mounted := none }) r).count r
        = z.shared := count_of_node hz
    rw [one_self] at hc
    rw [count_cover] at hc
    omega
  have Sh : Shrinks s.heap (s.uncovered i mp r).heap := Shrinks.cover.trans (.drop s.world A)
  -- what stays is what it was, but for the directory that is not covered any more
  have hold : ∀ n z, (s.uncovered i mp r).heap.node n = some z →
      ∃ w, s.heap.node n = some w ∧ z.obj = w.obj ∧ z.type = w.type ∧ z.attached = w.attached ∧
        (n ≠ mp → z.mounted = w.mounted) ∧ (n = mp → z.mounted = none) := by
    intro n z hz
    obtain ⟨u, hu, hzu⟩ := A.drop_old s.world hz
    rcases modify_node hu with ⟨rfl, w, hw, rfl⟩ | ⟨hne, hw⟩
    · rw [hzu]
      exact ⟨w, hw, rfl, rfl, rfl, absurd rfl, fun _ => rfl⟩
    · rw [hzu]
      exact ⟨u, hw, rfl, rfl, rfl, fun _ => rfl, fun h => absurd h hne⟩
  have hkept : ∀ n w, s.heap.node n = some w → 0 < (s.uncovered i mp r).refs n →
      ∃ z, (s.uncovered i mp r).heap.node n = some z ∧ z.obj = w.obj ∧ z.type = w.type ∧
        z.attached = w.attached := by
    intro n w hw hpos
    obtain ⟨z, hz⟩ := A'.live_of_pos (n := n) (by simp only [Pi.add_apply]; omega)
    obtain ⟨w', hw', ho, ht, ha, -⟩ := hold n z hz
    obtain rfl := mem_unique hw hw'
    exact ⟨z, hz, ho, ht, ha⟩
  refine ⟨⟨A', ⟨G.filed.entry, G.filed.empty, G.filed.own, ?_⟩, ?_,
    G.tabled.set G.tabled.vols ⟨fun _ => rfl, by simp, by simp⟩ ?_ ?_ ?_ ?_⟩, hdead, Sh⟩
  · intro j e c he hc
    obtain ⟨w, hw, ha⟩ := G.filed.known j e c he hc
    have hpos : 0 < s.treeRefs c := treeRefs_pos G.filed he hc
    have hsame : (s.uncovered i mp r).treeRefs c = s.treeRefs c := rfl
    obtain ⟨z, hz, -, -, hatt⟩ := hkept c w hw (by rw [Sys.refs]; omega)
    exact ⟨z, hz, hatt.trans ha⟩
  · refine G.placed.of_nodes ?_ (Nat.le_refl _) (Nat.le_refl _) ?_
    · intro n z hz
      obtain ⟨w, hw, ho, hp, -⟩ := Sh.old n z hz
      exact ⟨w, hw, ho, hp⟩
    · rintro n ⟨m', hm', hr'⟩
      obtain ⟨j, hj⟩ := mem_iff_getElem?.mp hm'
      by_cases hji : j = i
      · subst hji
        obtain rfl := mem_unique hi hj
        obtain rfl := mem_unique hr hr'
        refine .inr ?_
        cases hz : (s.uncovered j mp r).heap.node r with
        | none => rfl
        | some z => exact absurd ⟨z, hz⟩ hdead
      · exact .inl ⟨m', mem_set_of_ne hj hji, hr'⟩
  · intro j m' r' w hne hj hr' hw
    have hpos := mountRefs_pos (s := s.uncovered i mp r) (mem_set_of_ne hj hne) (refs_fsRoot hr')
    obtain ⟨z, hz, ho, -⟩ := hkept r' w hw (by rw [Sys.refs]; omega)
    exact ⟨z, hz, by rw [ho]⟩
  · exact fun _ _ _ _ _ _ _ _ hr' => by cases hr'
  · intro n z r' hz hr'
    obtain ⟨w, hw, -, -, -, hne, heq⟩ := hold n z hz
    by_cases hn : n = mp
    · rw [heq hn] at hr'
      cases hr'
    rw [hne hn] at hr'
    obtain ⟨m', hm', hmp', hroot'⟩ := G.tabled.mounted n w r' hw hr'
    obtain ⟨j, hj⟩ := mem_iff_getElem?.mp hm'
    refine ⟨m', mem_set_of_ne hj ?_, hmp', hroot'⟩
    rintro rfl
    obtain rfl := mem_unique hi hj
    rw [hmp] at hmp'
    exact hn (some.inj hmp').symm
  · intro nm d hd
    obtain ⟨w, hw, ht⟩ := G.tabled.device nm d hd
    have hpos : 0 < (s.devices.map (·.2)).count d :=
      count_pos_iff.mpr (mem_map.mpr ⟨(nm, d), hd, rfl⟩)
    obtain ⟨z, hz, -, htype, -⟩ := hkept d w hw (by
      rw [Sys.refs]
      simp only [Sys.uncovered]
      omega)
    exact ⟨z, hz, htype.trans ht⟩

/-- A mount that owns its file lets go of it. -/
def Sys.disown (s : Sys) (m : Mount) : Sys :=
  match m.devOwned, m.dev with
  | true, some d => s.drop d
  | _, _ => s

theorem Good.disown (G : Good s (ext + m.ownRef)) :
    Good (s.disown m) ext ∧ Shrinks s.heap (s.disown m).heap := by
  simp only [Sys.disown]
  rw [Mount.ownRef] at G
  have hstay : Shrinks s.heap s.heap := ⟨rfl, fun n z hz => ⟨z, hz, rfl, rfl, rfl⟩⟩
  cases ho : m.devOwned with
  | false =>
    rw [ho] at G
    exact ⟨G, hstay⟩
  | true =>
    rw [ho] at G
    cases hd : m.dev with
    | none =>
      rw [hd] at G
      exact ⟨G, hstay⟩
    | some d =>
      rw [hd] at G
      have A := G.acc_hand
      exact ⟨G.drop, .drop s.world A⟩

theorem umountIdle_cases (path : Name) (G : Good s ext) : (∃ e, umountIdle s path = (.error e, s)) ∨
    ∃ (i : Nat) (m : Mount) (r mp : Nat), s.mounts[i]? = some m ∧ m.path = path ∧
      m.fsRoot = some r ∧ m.mountpoint = some mp ∧ s.heap.count r ≤ 1 ∧
      umountIdle s path = (.ok (), ((s.uncovered i mp r).drop mp).disown m) := by
  simp only [umountIdle]
  cases hf : s.mounts.findIdx? (·.at path) with
  | none => exact .inl ⟨_, rfl⟩
  | some i =>
    obtain ⟨hlt, hat, -⟩ := findIdx?_eq_some_iff_getElem.mp hf
    have hi : s.mounts[i]? = some s.mounts[i] := getElem?_eq_getElem hlt
    generalize s.mounts[i] = m at hi hat
    simp only [Mount.at, Bool.and_eq_true, decide_eq_true_eq] at hat
    obtain ⟨⟨-, hsome⟩, hpath⟩ := hat
    obtain ⟨r, hr⟩ := isSome_iff_exists.mp hsome
    obtain ⟨-, -, ⟨mp, hmp⟩, -⟩ := G.tabled.full m (mem_of_getElem? hi) r hr
    obtain ⟨mpath, mmp, mroot, mdev, mact, mown⟩ := m
    obtain rfl : mroot = some r := hr
    obtain rfl : mmp = some mp := hmp
    simp only [hi]
    split
    · exact .inl ⟨_, rfl⟩
    · next hc => exact .inr ⟨i, _, r, mp, hi, hpath, rfl, rfl, Nat.le_of_not_lt hc, rfl⟩

/-- `s` to `s'`: the mount `m` in slot `i` came off. Nothing else of the file system
was there, nothing of it is there any more, and what the mount held is given back. -/
structure ComesOff (s s' : Sys) (i : Nat) (m : Mount) (path : Name) : Prop where
  slot : s.mounts[i]? = some m
  path : m.path = path
  idle : ∃ r x, m.fsRoot = some r ∧ s.heap.node r = some x ∧
    (∀ n y, s.heap.node n = some y → y.obj.vol = x.obj.vol → n = r) ∧
    ∀ n y, s'.heap.node n = some y → y.obj.vol ≠ x.obj.vol
  mounts : s'.mounts = s.mounts.set i {}
  count : ∀ n, n ≠ vfsRoot →
    s'.heap.count n + m.refs n + attachedSince s'.heap s.heap n = s.heap.count n

/-- What no unmounting touches. -/
structure Steady (s s' : Sys) : Prop where
  held : s'.held = s.held
  cwd : s'.cwd = s.cwd
  devices : s'.devices = s.devices
  files : s'.files = s.files

theorem Steady.refl : Steady s s := ⟨rfl, rfl, rfl, rfl⟩

theorem Steady.trans {s'' : Sys} (t : Steady s s') (t' : Steady s' s'') : Steady s s'' :=
  ⟨t'.held.trans t.held, t'.cwd.trans t.cwd, t'.devices.trans t.devices, t'.files.trans t.files⟩

theorem disown_same : Steady s (s.disown m) ∧ (s.disown m).mounts = s.mounts := by
  simp only [Sys.disown]
  split
  · exact ⟨⟨rfl, rfl, rfl, rfl⟩, rfl⟩
  · exact ⟨.refl, rfl⟩

theorem disown_refs : (s.disown m).refs n = s.refs n := by
  simp only [Sys.disown]
  split <;> rfl

theorem umountIdle_spec (path : Name) (G : Good s ext) :
    Good (umountIdle s path).2 ext ∧ Steady s (umountIdle s path).2 ∧
    (∀ e, (umountIdle s path).1 = .error e → (umountIdle s path).2 = s) ∧
    ((umountIdle s path).1 = .ok () → ∃ i m, ComesOff s (umountIdle s path).2 i m path) := by
  rcases umountIdle_cases path G with ⟨e, he⟩ | ⟨i, m, r, mp, hi, hpath, hr, hmp, hc, he⟩
  · rw [he]
    exact ⟨G, .refl, fun _ _ => rfl, by simp⟩
  obtain ⟨Gu, hdead, Su⟩ := G.uncover hi hr hmp hc
  have Sd : Shrinks (s.uncovered i mp r).heap ((s.uncovered i mp r).drop mp).heap :=
    .drop s.world Gu.acc_hand
  obtain ⟨Gf, Sf⟩ := Gu.drop.disown
  obtain ⟨st, hms⟩ := disown_same
  have Sh := (Su.trans Sd).trans Sf
  rw [he]
  have hmounts : (((s.uncovered i mp r).drop mp).disown m).mounts = s.mounts.set i {} := hms
  refine ⟨Gf, ⟨st.held, st.cwd, st.devices, st.files⟩, by simp, fun _ => ⟨i, m, hi, hpath, ?_,
    hmounts, ?_⟩⟩
  · obtain ⟨x, hx, -⟩ := G.tabled.root m (mem_of_getElem? hi) r hr
    have hidle := G.idle hi hr hx hc
    refine ⟨r, x, hr, hx, hidle, ?_⟩
    intro n y hy hv
    obtain ⟨w, hw, ho, -⟩ := (Sd.trans Sf).old n y hy
    obtain ⟨v, hv', ho', -⟩ := Su.old n w hw
    rw [ho, ho'] at hv
    obtain rfl := hidle n v hv' hv
    exact hdead ⟨w, hw⟩
  · intro n hn
    have A : Accounted s.heap ((((s.uncovered i mp r).drop mp).disown m).refs + ext + m.refs) := by
      refine G.acc.congr fun k _ => ?_
      have hrefs : ((s.uncovered i mp r).drop mp).refs k + m.refs k = s.refs k :=
        uncovered_refs mp hi r k
      simp only [Pi.add_apply, disown_refs]
      omega
    exact Sh.count A Gf.acc hn

/-- A state between two calls. -/
structure Consistent (s : Sys) : Prop where
  good : Good s 0
  settled : Settled s

/-- One slot of the table changes. -/
theorem Settled.set (T : Settled s) (hm : s'.mounts = s.mounts.set i m)
    (hd : s'.devices = s.devices) (hidle : m.fsRoot = none → m.active = false)
    (ho : ∀ d, m.dev = some d → m.devOwned = false → ∃ nm, (nm, d) ∈ s.devices) : Settled s' where
  idle := by
    intro m' hm' hno
    rw [hm] at hm'
    rcases mem_set_slot hm' with rfl | ⟨j, -, hj⟩
    · exact hidle hno
    · exact T.idle m' (mem_of_getElem? hj) hno
  owned := by
    intro m' hm' d hdev hown
    rw [hm] at hm'
    rw [hd]
    rcases mem_set_slot hm' with rfl | ⟨j, -, hj⟩
    · exact ho d hdev hown
    · exact T.owned m' (mem_of_getElem? hj) d hdev hown

theorem umountIdle_consistent (path : Name) (C : Consistent s) :
    Consistent (umountIdle s path).2 := by
  obtain ⟨G, st, herr, hok⟩ := umountIdle_spec path C.good
  refine ⟨G, ?_⟩
  cases hr : (umountIdle s path).1 with
  | error e =>
    rw [herr e hr]
    exact C.settled
  | ok u =>
    obtain ⟨i, m, off⟩ := hok hr
    exact C.settled.set off.mounts st.devices (fun _ => rfl) nofun

/-- A list of unmountings, as calls. -/
def umounts (l : List (Name × Nat)) : List Act := l.map fun c => .umount c.1 c.2

/-- What unmountings do, when they come back. -/
structure Unmounted (s s' : Sys) : Prop where
  consistent : Consistent s'
  steady : Steady s s'
  calls : ∃ l, s' = run step s (umounts l)
  kept : ∀ {T I}, Keeps T I → I s → I s'

theorem Unmounted.refl (C : Consistent s) : Unmounted s s := ⟨C, .refl, ⟨[], rfl⟩, fun _ h => h⟩

theorem Unmounted.trans {s'' : Sys} (u : Unmounted s s') (u' : Unmounted s' s'') :
    Unmounted s s'' where
  consistent := u'.consistent
  steady := u.steady.trans u'.steady
  calls := by
    obtain ⟨l, hl⟩ := u.calls
    obtain ⟨l', hl'⟩ := u'.calls
    refine ⟨l ++ l', ?_⟩
    rw [hl', hl, umounts, umounts, umounts, map_append, run_append]
  kept := fun K h => u'.kept K (u.kept K h)

/-- What every call of `vfs_umount` inside another is to do. -/
def Umounts (umount : Sys → Name → Option (Except Errno Unit × Sys)) : Prop :=
  ∀ s path r s', Consistent s → umount s path = some (r, s') → Unmounted s s'

/-- Files mounted from inside come off one by one. -/
theorem umountFilesOn_ok {umount : Sys → Name → Option (Except Errno Unit × Sys)}
    {root fuel : Nat} (hu : Umounts umount) : ∀ s r s', Consistent s →
      umountFilesOn umount root fuel s = some (r, s') → Unmounted s s' := by
  induction fuel with
  | zero => intro s r s' _ h; exact nomatch h
  | succ fuel ih =>
    intro s r s' C h
    rw [umountFilesOn] at h
    cases hf : fileMountOn s root with
    | none =>
      simp only [hf] at h
      obtain ⟨-, rfl⟩ := h
      exact .refl C
    | some m =>
      simp only [hf] at h
      cases hm : umount s m.path with
      | none => simp [hm] at h
      | some res =>
        obtain ⟨res, s₁⟩ := res
        have u := hu s m.path res s₁ C hm
        cases res with
        | error e =>
          simp only [hm] at h
          obtain ⟨-, rfl⟩ := h
          exact u
        | ok v =>
          simp only [hm] at h
          exact u.trans (ih s₁ r s' u.consistent h)

/-- `vfs_umount` takes off what was mounted from inside, and then what it was asked
for, if that is idle then. -/
theorem vfsUmount_cases {fuel : Nat} {r : Except Errno Unit} (hfuel : Umounts (vfsUmount fuel))
    (C : Consistent s) (h : vfsUmount (fuel + 1) s path = some (r, s')) :
    ∃ s₁, Unmounted s s₁ ∧ ((s' = s₁ ∧ ∃ e, r = .error e) ∨ umountIdle s₁ path = (r, s')) := by
  rw [vfsUmount] at h
  cases hroot : (s.mounts.reverse.find? (·.at path)).bind (·.fsRoot) with
  | none =>
    simp only [hroot, some.injEq] at h
    exact ⟨s, .refl C, .inr h⟩
  | some root =>
    simp only [hroot] at h
    cases hl : umountFilesOn (vfsUmount fuel) root (fuel + 1) s with
    | none => simp [hl] at h
    | some res =>
      obtain ⟨res, s₁⟩ := res
      have u := umountFilesOn_ok hfuel s res s₁ C hl
      cases res with
      | error e =>
        simp only [hl, some.injEq, Prod.mk.injEq] at h
        obtain ⟨rfl, rfl⟩ := h
        exact ⟨s₁, u, .inl ⟨rfl, _, rfl⟩⟩
      | ok v =>
        simp only [hl, some.injEq] at h
        exact ⟨s₁, u, .inr h⟩

theorem Keeps.umountIdle {I : Sys → Prop} (K : Keeps T I) (path : Name) (G : Good s ext)
    (h : I s) : I (umountIdle s path).2 := by
  rcases umountIdle_cases path G with ⟨e, he⟩ | ⟨i, m, r, mp, -, -, -, -, -, he⟩
  · rw [he]
    exact h
  · rw [he, Sys.disown]
    split <;> exact K.same h rfl rfl

theorem vfsUmount_umounts (fuel : Nat) : Umounts (vfsUmount fuel) := by
  induction fuel with
  | zero => intro s path r s' _ h; exact nomatch h
  | succ fuel ih =>
    intro s path r s' C h
    have hstep : s' = run step s (umounts [(path, fuel + 1)]) := by
      simp only [umounts, map_cons, map_nil, run_cons, run_nil, step, h]
    obtain ⟨s₁, u, ⟨rfl, -⟩ | hidle⟩ := vfsUmount_cases ih C h
    · exact u
    · have C' := umountIdle_consistent path u.consistent
      obtain ⟨-, t, -⟩ := umountIdle_spec path u.consistent.good
      refine ⟨?_, ?_, ⟨[(path, fuel + 1)], hstep⟩, fun K hI => ?_⟩
      · rw [hidle] at C'
        exact C'
      · rw [hidle] at t
        exact u.steady.trans t
      · have := K.umountIdle path u.consistent.good (u.kept K hI)
        rw [hidle] at this
        exact this

/-! ## Whole runs -/

theorem Leaves.consistent (C : Consistent s) (l : Leaves T s 0 s') : Consistent s' :=
  ⟨l.good, C.settled.congr (congrArg Prod.fst l.tables) (congrArg Prod.snd l.tables)⟩

theorem Grows.consistent (C : Consistent s) (G : Good s' 0) (g : Grows s s') : Consistent s' :=
  ⟨G, C.settled.congr g.mounts g.devices⟩

/-- A call on the terms leads from one state between calls to the next, and keeps what
is kept. -/
theorem step_on (A : T.Again) (C : Consistent s) (a : Act) (ok : T.Ok s a) :
    Consistent (step s a) ∧ ∀ {I}, Keeps T I → I s → I (step s a) := by
  have G := C.good
  have hleaves : ∀ {s'}, Leaves T s 0 s' → Consistent s' ∧ ∀ {I}, Keeps T I → I s → I s' :=
    fun l => ⟨l.consistent C, l.kept⟩
  cases a with
  | lookup base path follow =>
    refine hleaves (GivesOn.hand ?_)
    have hs := G.live_start base path
    split
    · exact .lookup _ G hs
    · exact .lookupNofollow _ G hs
  | «open» base path fl room fault => exact hleaves (vfsOpen_leaves G room fault ok)
  | reopen k => exact hleaves (reopenHeld_leaves G k)
  | close k => exact hleaves (closeHeld_leaves G k)
  | create base path kind room =>
    exact hleaves (vfsCreate_gives G (G.live_start base path) kind room ok).hand
  | mkdir t path room => exact hleaves (vfsMkdir_leaves G room ok)
  | symlink base target path room => exact hleaves (vfsSymlink_leaves G room ok)
  | unlink base path fault => exact hleaves (vfsUnlink_leaves G fault)
  | rename t old new fit fault => exact hleaves (vfsRename_leaves A G fault ok)
  | chdir t path => exact hleaves (vfsChdir_leaves G t)
  | mount path dev probe room =>
    rw [step]
    cases hd : s.world.device dev with
    | none => exact ⟨C, fun _ h => h⟩
    | some d =>
      have M := vfsMount_mounting probe d G room ok
      refine ⟨?_, M.kept⟩
      cases hr : (vfsMount s path d probe room).1 with
      | error e =>
        obtain ⟨G', g⟩ := M.error e hr
        exact g.consistent C G'
      | ok u =>
        obtain ⟨i, mp, root, -, hm, hdev⟩ := M.entry hr
        refine ⟨(M.ok hr).1, C.settled.set hm hdev nofun ?_⟩
        intro d' hd' _
        obtain rfl := some.inj hd'
        simp only [Sys.world, map_eq_some_iff] at hd
        obtain ⟨e, he, rfl⟩ := hd
        exact ⟨e.1, mem_of_find?_eq_some he⟩
  | mountFile path file probe room =>
    have M := vfsMountFile_mounting G C.settled room ok
    refine ⟨?_, M.kept⟩
    cases hr : (vfsMountFile s path file probe room).1 with
    | error e =>
      obtain ⟨G', g⟩ := M.error e hr
      exact g.consistent C G'
    | ok u =>
      obtain ⟨G', i, m, -, hsome, hown, -, hm, hdev⟩ := M.ok hr
      refine ⟨G', C.settled.set hm hdev (fun hno => by simp [hno] at hsome) ?_⟩
      intro d _ hno
      rw [hown] at hno
      cases hno
  | umount path fuel =>
    rw [step]
    cases hu : vfsUmount fuel s path with
    | none => exact ⟨C, fun _ h => h⟩
    | some r =>
      obtain ⟨res, s'⟩ := r
      have u := vfsUmount_umounts fuel s path res s' C hu
      exact ⟨u.consistent, u.kept⟩

theorem step_consistent (C : Consistent s) (a : Act) : Consistent (step s a) :=
  (step_on (fun _ _ _ => trivial) C a (Terms.any_ok a)).1

/-- Kept by every call that is on the terms, it holds after every run of such calls. -/
theorem Keeps.of_run {I : Sys → Prop} (K : Keeps T I) (C : Consistent s) (h : I s)
    {acts : List Act} (ok : Meets step T.Ok s acts) : I (run step s acts) := by
  have := run_inv (I := fun s => Consistent s ∧ I s)
    (fun s a hs ha => ⟨step_consistent hs.1 a, (step_on K.again hs.1 a ha).2 K hs.2⟩) ⟨C, h⟩ ok
  exact this.2

theorem run_consistent (C : Consistent s) (acts : List Act) : Consistent (run step s acts) := by
  induction acts generalizing s with
  | nil => exact C
  | cons a acts ih => exact ih (step_consistent C a)

/-- `s` to `s'`: nobody holds a ref that they did not hold, and the mount table is what
it was. An inode that was there has new inodes below it at most. -/
structure Released (s s' : Sys) : Prop where
  mounts : s'.mounts = s.mounts
  held : s'.held = s.held
  cwd : s'.cwd = s.cwd
  devices : s'.devices = s.devices
  count : ∀ n, n ≠ vfsRoot → s.heap.Live n →
    s'.heap.count n = s.heap.count n + attachedSince s.heap s'.heap n

theorem Grows.released (G : Good s 0) (G' : Good s' 0) (g : Grows s s') : Released s s' := by
  have hrefs : ∀ n, n < s.heap.next → s'.refs n = s.refs n := by
    intro n hn
    rw [Sys.refs, g.tree n hn, Sys.mountRefs, g.mounts, g.held, g.cwd, g.devices, Sys.refs,
      Sys.mountRefs]
  have hle : ∀ n, n ≠ vfsRoot → (s.refs + 0) n ≤ (s'.refs + 0) n := by
    intro n hn
    simp only [Pi.add_apply]
    by_cases hlt : n < s.heap.next
    · rw [hrefs n hlt]
    -- nobody holds what was not there
    have hc := G.acc.count n hn
    cases hx : s.heap.node n with
    | none =>
      rw [count_of_none hx, Pi.add_apply] at hc
      omega
    | some x => exact absurd (G.acc.bound n x hx) hlt
  refine ⟨g.mounts, g.held, g.cwd, g.devices, fun n hn hl => ?_⟩
  have hc := G.acc.count_of_more G'.acc g.frame hle hn
  simp only [Pi.add_apply, hrefs n (G.acc.live_lt hl)] at hc
  omega

/-- In every state that calls lead to: every ref on an inode is that of an inode
attached below it, of an open file or a caller, of a working directory, of the device
list, of a directory of tempfs or of the mount table. A directory that is covered is
covered by the root of a mount in the table. When `vfs_umount` succeeds, then once
the files mounted from inside have come off nothing of the file system was there but
its root; none of it is left, the slot is blank, and the refs of the mount and of
what it kept alive are all that has gone. A mount that fails leaves the slot, the
directory and the device with the refs they had, and one that succeeds is in a slot
that was blank. -/
theorem umount_only_idle (C : Consistent s) (acts : List Act) :
    (∀ n, n ≠ vfsRoot → (run step s acts).heap.count n
      = (run step s acts).heap.kids n + (run step s acts).refs n) ∧
    (∀ n x r, (run step s acts).heap.node n = some x → x.mounted = some r →
      (run step s acts).heap.Live r ∧ ∃ m ∈ (run step s acts).mounts,
        m.active = true ∧ m.mountpoint = some n ∧ m.fsRoot = some r) ∧
    (∀ fuel path s', vfsUmount fuel (run step s acts) path = some (.ok (), s') →
      ∃ l i m, ComesOff (run step (run step s acts) (umounts l)) s' i m path ∧
        Steady (run step s acts) s' ∧
        ∀ n, n ∈ s'.held ∨ n ∈ s'.cwd → s'.heap.Live n) ∧
    (∀ path dev probe room e, (vfsMount (run step s acts) path dev probe room).1 = .error e →
      Released (run step s acts) (vfsMount (run step s acts) path dev probe room).2) ∧
    (∀ path file probe room e, (vfsMountFile (run step s acts) path file probe room).1 = .error e →
      Released (run step s acts) (vfsMountFile (run step s acts) path file probe room).2) ∧
    (∀ path dev probe room, (vfsMount (run step s acts) path dev probe room).1 = .ok () →
      ∃ i m, (run step s acts).mounts[i]? = some {} ∧ m.path = path ∧
        (vfsMount (run step s acts) path dev probe room).2.mounts
          = (run step s acts).mounts.set i m) := by
  have C' := run_consistent C acts
  generalize run step s acts = t at C'
  have G := C'.good
  refine ⟨?_, ?_, ?_, ?_, ?_, ?_⟩
  · intro n hn
    have := G.acc.count n hn
    simpa using this
  · intro n x r hx hr
    obtain ⟨m, hm, hmp, hroot⟩ := G.tabled.mounted n x r hx hr
    obtain ⟨z, hz, -⟩ := G.tabled.root m hm r hroot
    exact ⟨⟨z, hz⟩, m, hm, (G.tabled.full m hm r hroot).1, hmp, hroot⟩
  · intro fuel path s' hu
    obtain ⟨C'', st, -⟩ := vfsUmount_umounts fuel t path _ s' C' hu
    cases fuel with
    | zero => exact nomatch hu
    | succ fuel =>
      obtain ⟨s₁, u, ⟨-, e, he⟩ | hidle⟩ := vfsUmount_cases (vfsUmount_umounts fuel) C' hu
      · exact nomatch he
      obtain ⟨-, -, -, hok⟩ := umountIdle_spec path u.consistent.good
      obtain ⟨l, rfl⟩ := u.calls
      rw [hidle] at hok
      obtain ⟨i, m, off⟩ := hok rfl
      refine ⟨l, i, m, off, st, ?_⟩
      rintro n (hn | hn)
      · exact C''.good.live_held hn
      · exact C''.good.live_cwd hn
  · intro path dev probe room e he
    obtain ⟨G', g⟩ := (vfsMount_mounting probe dev G room
      (Terms.any_ok (.mount path path probe room))).error e he
    exact g.released G G'
  · intro path file probe room e he
    obtain ⟨G', g⟩ := (vfsMountFile_mounting G C'.settled room
      (Terms.any_ok (.mountFile path file probe room))).error e he
    exact g.released G G'
  · intro path dev probe room hok
    obtain ⟨i, mp, root, hi, hm, -⟩ :=
      (vfsMount_mounting probe dev G room (Terms.any_ok (.mount path path probe room))).entry hok
    exact ⟨i, _, hi, rfl, hm⟩

/-- A root in tempfs, one device, and an empty volume on it, whose root is its own parent. The
root of a FAT32 volume has no `.` and `..`. -/
def bootSys (volume : Driver) : Sys where
  heap :=
    { node := fun n =>
        if n = 0 then some { type := .directory, lookup := true, obj := ⟨0, 0⟩ }
        else if n = 1 then some { type := .device, lookup := false, obj := ⟨0, 2⟩ }
        else none
      next := 2 }
  files := fun i =>
    if i = 0 then { driver := { fs := .tempfs }, kind := .directory }
    else if i = 1 then
      { driver := volume, kind := .directory
        entries := if volume.fs = .fat32 then [] else volume.dots .directory {} 1 1 }
    else { driver := volume, kind := .directory }
  nextFile := 3
  mounts := replicate vfsMaxMounts {}
  devices := [([97], 1)]
  hash := fun _ name => name.length

theorem bootSys_node {volume : Driver} (hx : (bootSys volume).heap.node n = some x) :
    (n = 0 ∧ x = { type := .directory, lookup := true, obj := ⟨0, 0⟩ }) ∨
      (n = 1 ∧ x = { type := .device, lookup := false, obj := ⟨0, 2⟩ }) := by
  simp only [bootSys] at hx
  split at hx
  · next hn => exact .inl ⟨hn, (some.inj hx).symm⟩
  split at hx
  · next hn => exact .inr ⟨hn, (some.inj hx).symm⟩
  · cases hx

theorem bootSys_entries {volume : Driver} {e : DirEnt} (he : e ∈ ((bootSys volume).files i).entries) :
    i = 1 ∧ e.node = none ∧ e.file = 1 := by
  simp only [bootSys] at he
  split at he
  · exact nomatch he
  split at he
  · next hi =>
      dsimp only at he
      split at he
      · exact nomatch he
      · obtain ⟨hn, hf⟩ := mem_dots he
        exact ⟨hi, hn, or_self_iff.mp hf⟩
  · exact nomatch he

theorem bootSys_consistent (volume : Driver) : Consistent (bootSys volume) := by
  have hparent : ∀ n x, (bootSys volume).heap.node n = some x →
      x.parent = none ∧ x.mounted = none ∧ x.obj.vol = 0 ∧ x.obj.file < 3 := by
    intro n x hx
    rcases bootSys_node hx with ⟨-, rfl⟩ | ⟨-, rfl⟩ <;> exact ⟨rfl, rfl, rfl, by decide⟩
  have hnone : ∀ {i e c}, e ∈ ((bootSys volume).files i).entries → e.node ≠ some c := by
    intro i e c he hc
    rw [(bootSys_entries he).2.1] at hc
    exact nomatch hc
  have hmount : ∀ m ∈ (bootSys volume).mounts, m = {} := fun m => eq_of_mem_replicate
  have hnoroot : ∀ {m r}, m ∈ (bootSys volume).mounts → m.fsRoot ≠ some r := fun hm hr =>
    by cases hmount _ hm ▸ hr
  have hrefs : ∀ n, (bootSys volume).refs n = one 1 n := by
    intro n
    have htree : (bootSys volume).treeRefs n = 0 :=
      tally_eq_zero fun i _ => countP_eq_zero.mpr fun e he => by simpa using hnone he
    have hmr : (bootSys volume).mountRefs n = 0 := by
      refine sum_eq_zero fun k hk => ?_
      obtain ⟨m, hm, rfl⟩ := mem_map.mp hk
      rw [hmount m hm]
      rfl
    have hdev : ((bootSys volume).devices.map (·.2)).count n = one 1 n := one_eq_count.symm
    have hheld : (bootSys volume).held = [] := rfl
    have hcwd : (bootSys volume).cwd = [] := rfl
    rw [Sys.refs, hheld, hcwd, count_nil]
    omega
  refine ⟨⟨⟨⟨⟨_, rfl⟩, ?_, ?_, ?_, fun _ _ h => absurd h not_mem_nil, fun _ => nodup_nil⟩, ?_⟩,
    ⟨?_, ?_, fun _ _ _ he hc => absurd hc (hnone he), fun _ _ _ he hc => absurd hc (hnone he)⟩,
    ⟨?_, ?_, ?_, ?_⟩,
    ⟨?_, fun _ hm _ hr => absurd hr (hnoroot hm), fun _ hm _ hr => absurd hr (hnoroot hm),
      ?_, ?_, ?_, Nat.one_pos⟩⟩, ?_, ?_⟩
  · intro n x hx
    rcases bootSys_node hx with ⟨rfl, -⟩ | ⟨rfl, -⟩
    · exact Nat.two_pos
    · exact Nat.one_lt_two
  · intro n x hx _
    rcases bootSys_node hx with ⟨-, rfl⟩ | ⟨-, rfl⟩ <;> decide
  · intro n x p hx hp
    rw [(hparent n x hx).1] at hp
    cases hp
  · intro n hn
    rw [Pi.add_apply, hrefs]
    by_cases h1 : n = 1
    · subst h1
      rfl
    have hnone : (bootSys volume).heap.node n = none := by
      have h0 : n ≠ 0 := hn
      simp only [bootSys]
      rw [if_neg h0, if_neg h1]
    rw [count_of_none hnone, one_of_ne h1]
    rfl
  · intro i e he
    rw [(bootSys_entries he).2.2]
    exact Nat.lt_add_left 1 Nat.one_lt_two
  · intro i hi
    have hi : 3 ≤ i := hi
    refine eq_nil_iff_forall_not_mem.mpr fun e he => ?_
    have := (bootSys_entries he).1
    omega
  · intro n x hx
    exact (hparent n x hx).2.2.2
  · intro n x hx
    rw [(hparent n x hx).2.2.1]
    exact Nat.one_pos
  · intro n x hx hv
    exact absurd (hparent n x hx).2.2.1 hv
  · intro n x p y hx hp
    rw [(hparent n x hx).1] at hp
    cases hp
  · intro m hm _
    rw [hmount m hm]
  · exact fun _ _ _ _ _ _ _ _ hi _ hr => absurd hr (hnoroot (mem_of_getElem? hi))
  · intro n x r hx hr
    rw [(hparent n x hx).2.1] at hr
    cases hr
  · intro nm d hd
    have : d = 1 := (Prod.ext_iff.mp (mem_singleton.mp hd)).2
    subst this
    exact ⟨_, rfl, rfl⟩
  · intro m hm _
    rw [hmount m hm]
  · intro m hm d hd
    rw [hmount m hm] at hd
    cases hd

/-- Links find room for their target, or for no entry. -/
def strandTerms : Terms :=
  { Terms.any with link := fun room => ∀ p written, room ≠ .short p written }

theorem forget_stranded {dir : Nat} {name : Name} : (forget s dir name).stranded = s.stranded := by
  rw [forget]
  split <;> rfl

theorem unlinking_stranded {k : Nat} {e : DirEnt} :
    (s.unlinking i k e).stranded = s.stranded := by
  rw [Sys.unlinking]
  split <;> rfl

theorem makeBare_stranded {dir : Nat} {o : Obj} {stored : Stored} {kind : Kind} {target : Name}
    {p : Place} : (s.makeBare dir o stored kind target p).stranded = s.stranded := by
  rw [Sys.makeBare]
  split <;> rfl

theorem createIn_stranded (dir : Nat) (name : Name) (kind : Kind) (room : Room) :
    (createIn s dir name kind room).2.stranded = s.stranded := by
  rcases createIn_cases s dir name kind room with ⟨e, he⟩ |
    ⟨d, stored, kind', p, -, -, -, ⟨e, he⟩ | he⟩
  · rw [he]
  · rw [he]
    exact makeBare_stranded
  · rw [he]
    rfl

theorem renameEntry_stranded {dir : Nat} {old new : Name} {fit : Fit} :
    (renameEntry s dir old new fit).2.stranded = s.stranded := by
  cases hd : s.heap.node dir with
  | none => simp only [renameEntry, hd]
  | some x =>
    obtain ⟨-, h, hs⟩ := renameEntry_rest old new fit hd
    rw [hs]
    rcases rename_cases (forget s dir old) x.obj old new fit with ⟨e, he, -⟩ |
      ⟨stored, k, e, -, -, -, -, he⟩
    · rw [he]
      exact forget_stranded
    · rw [he, Sys.renaming]
      split <;> exact forget_stranded

/-- No other call leaves an inode behind. -/
theorem strandTerms_keeps : Keeps strandTerms fun s => s.stranded = [] where
  same := fun h _ hs => hs.trans h
  create := fun kind room _ h _ => (createIn_stranded _ _ kind room).trans h
  symlink := by
    intro s ext dir name target room _ h hlink _
    rcases symlinkIn_cases s dir target name room with he |
      ⟨d, stored, p, target', -, -, -, he | ⟨-, ⟨p', written, hroom⟩, -⟩ | he⟩
    · rw [he]
      exact h
    · rw [he]
      exact makeBare_stranded.trans h
    · exact absurd hroom (hlink p' written)
    · rw [he]
      exact h
  unlink := by
    intro s dir name fault h
    rcases unlinkIn_cases s dir name fault with ⟨⟨e, he⟩, -⟩ | ⟨x, k, e, -, -, he⟩
    · rw [he]
      exact h
    · rw [he]
      exact (forget_stranded.trans unlinking_stranded).trans h
  rename := fun h _ => renameEntry_stranded.trans h
  again := fun _ _ _ => trivial

theorem strandTerms_ok {a : Act}
    (h : ∀ base target path p written, a ≠ .symlink base target path (.short p written)) :
    strandTerms.Ok s a := by
  cases a with
  | symlink base target path room =>
    refine ⟨?_, fun _ _ _ _ _ _ _ _ _ => trivial⟩
    rintro p written rfl
    exact h base target path p written rfl
  | _ => simp [Terms.Ok, strandTerms, Terms.any, Terms.Creates, Terms.CreatesAfter, Terms.Mounts,
      Sys.At]

/-- Inodes, file systems and mount table agree after any calls, on any file system; and every
inode that was built is one of those, unless ext2 had no room for the target of a link. -/
theorem namespace_consistent (volume : Driver) (acts : List Act) :
    Consistent (run step (bootSys volume) acts) ∧
    ((∀ base target path p written, Act.symlink base target path (.short p written) ∉ acts) →
      (run step (bootSys volume) acts).stranded = []) := by
  have C := bootSys_consistent volume
  refine ⟨run_consistent C acts, fun hno => strandTerms_keeps.of_run C rfl ?_⟩
  have hall : Meets step (fun _ a => ∀ base target path p written,
      a ≠ Act.symlink base target path (.short p written)) (bootSys volume) acts :=
    Meets.of_all fun a ha base target path p written he => hno base target path p written (he ▸ ha)
  exact hall.imp fun _ _ => strandTerms_ok

/-- The device mounted on a directory that is made for it, and taken off again. -/
theorem umount_only_idle_boot :
    (vfsUmount 1 (run step (bootSys { fs := .ext2 }) [.mount [47, 109] [97] (.root 1) (.made {})])
      [47, 109]).map (·.1)
      = some (.ok ()) ∧
    ∀ s', vfsUmount 1 (run step (bootSys { fs := .ext2 }) [.mount [47, 109] [97] (.root 1) (.made {})])
        [47, 109]
        = some (.ok (), s') →
      ∃ l i m, ComesOff (run step (run step (bootSys { fs := .ext2 })
          [.mount [47, 109] [97] (.root 1) (.made {})]) (umounts l)) s' i m [47, 109] := by
  refine ⟨rfl, fun s' hs' => ?_⟩
  obtain ⟨l, i, m, off, -⟩ := (umount_only_idle (bootSys_consistent { fs := .ext2 })
    [.mount [47, 109] [97] (.root 1) (.made {})]).2.2.1 1 [47, 109] s' hs'
  exact ⟨l, i, m, off⟩

end BleedKernel.Dentry
