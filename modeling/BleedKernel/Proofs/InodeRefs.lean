import BleedKernel.Lib.Slots
import BleedKernel.Lib.Tally
import BleedKernel.Model.Dentry

/-!
# Every ref on an inode has an owner

The count of an inode is the number of inodes attached below it plus what others
hold. `Accounted h ext` says so for a heap and an assignment `ext` of what others
hold; a walk and every other user of the inodes is then described by how `ext`
moves. `vfs_hold` adds one to it, `vfs_drop` takes one away, and everything they
do further up the tree is already in the count of the inodes below.

The root is not counted, so `ext` says nothing there.
-/

namespace BleedKernel.Dentry

open Lib Function Option

variable {ext' : Nat → Nat} {b : Option Nat}

variable {Obj : Type} {W : World Obj} {h h' h'' : Heap Obj} {ext : Nat → Nat} {n m p : Nat}
  {x y : INode Obj}

variable {o : Option (INode Obj)}

/-- The inode was not freed. -/
def Heap.Live (h : Heap Obj) (n : Nat) : Prop := ∃ x, h.node n = some x

/-- The directory that `n` holds a ref on. -/
def Heap.up (h : Heap Obj) (n : Nat) : Option Nat := (h.node n).bind INode.up

/-- The refs on `n`: none once it is freed. -/
def Heap.count (h : Heap Obj) (n : Nat) : Nat := ((h.node n).map (·.shared)).getD 0

/-- How many inodes hold a ref on `n` as the directory above them. -/
def Heap.kids (h : Heap Obj) (n : Nat) : Nat :=
  tally (Finset.range h.next) h.up fun o => if o = some n then 1 else 0

/-- One ref on `n`. -/
def one (n : Nat) : Nat → Nat := fun m => if m = n then 1 else 0

@[simp] theorem one_self : one n n = 1 := if_pos rfl

theorem one_of_ne (hne : m ≠ n) : one n m = 0 := if_neg hne

theorem count_of_node (hx : h.node n = some x) : h.count n = x.shared := by
  simp [Heap.count, hx]

theorem count_of_none (hx : h.node n = none) : h.count n = 0 := by
  simp [Heap.count, hx]

theorem up_of_node (hx : h.node n = some x) : h.up n = x.up := by
  simp [Heap.up, hx]

/-! ## The invariant -/

/-- The pointers between inodes and from the cache lead somewhere, and up the
tree they lead to older inodes. -/
structure Sound (h : Heap Obj) : Prop where
  root : h.Live vfsRoot
  bound : ∀ n x, h.node n = some x → n < h.next
  held : ∀ n x, h.node n = some x → n ≠ vfsRoot → 1 ≤ x.shared
  tied : ∀ n x p, h.node n = some x → x.parent = some p → x.attached = true ∧ p < n ∧ h.Live p
  cached : ∀ b n, n ∈ h.dcache b → ∃ x, h.node n = some x ∧ x.hashed = some b
  nodup : ∀ b, (h.dcache b).Nodup

/-- The count of an inode is what is attached below it and what others hold. -/
structure Accounted (h : Heap Obj) (ext : Nat → Nat) : Prop extends Sound h where
  count : ∀ n, n ≠ vfsRoot → h.count n = h.kids n + ext n

theorem Accounted.congr (A : Accounted h ext)
    (he : ∀ n, n ≠ vfsRoot → ext' n = ext n) : Accounted h ext' :=
  { A with count := fun n hn => by rw [he n hn]; exact A.count n hn }

theorem INode.up_some (hu : x.up = some p) : x.attached = true ∧ x.parent = some p := by
  rw [INode.up] at hu
  split at hu
  · exact ⟨‹_›, hu⟩
  · exact nomatch hu

theorem Sound.node_next (S : Sound h) : h.node h.next = none := by
  cases hx : h.node h.next with
  | none => rfl
  | some x => exact absurd (S.bound _ x hx) (Nat.lt_irrefl _)

theorem Sound.live_lt (S : Sound h) (hn : h.Live n) : n < h.next := by
  obtain ⟨x, hx⟩ := hn
  exact S.bound n x hx

/-- Who holds an inode keeps it alive. -/
theorem Accounted.live_of_pos (A : Accounted h ext) (hn : 0 < ext n) : h.Live n := by
  by_cases hr : n = vfsRoot
  · exact hr ▸ A.root
  have hc := A.count n hr
  cases hx : h.node n with
  | some x => exact ⟨x, hx⟩
  | none =>
    rw [count_of_none hx] at hc
    omega

theorem Accounted.live (A : Accounted h (ext + one n)) : h.Live n := by
  refine A.live_of_pos ?_
  rw [Pi.add_apply, one_self]
  omega

/-! ## Writing one inode -/

theorem up_set : (h.set n o).up = update h.up n (o.bind INode.up) := by
  funext m
  by_cases hm : m = n
  · subst hm
    simp [Heap.up, Heap.set]
  · simp [Heap.up, Heap.set, hm]

theorem kids_set (hn : n < h.next) (m : Nat) :
    (h.set n o).kids m + (if h.up n = some m then 1 else 0)
      = h.kids m + (if o.bind INode.up = some m then 1 else 0) := by
  simp only [Heap.kids, up_set]
  exact tally_update (Finset.mem_range.mpr hn)

theorem count_set_self : (h.set n o).count n = (o.map (·.shared)).getD 0 := by
  simp [Heap.count, Heap.set]

theorem count_set_of_ne (hne : m ≠ n) : (h.set n o).count m = h.count m := by
  simp [Heap.count, Heap.set, hne]

theorem node_set_self : (h.set n o).node n = o := by
  simp [Heap.set]

theorem node_set_of_ne (hne : m ≠ n) : (h.set n o).node m = h.node m := by
  simp [Heap.set, hne]

theorem set_some {z : INode Obj} (hz : (h.set n (some y)).node m = some z) :
    (m = n ∧ z = y) ∨ (m ≠ n ∧ h.node m = some z) := update_some hz

/-- An inode is written over; where it hangs and what the cache knows of it stays. -/
theorem Accounted.write (A : Accounted h ext) (hx : h.node n = some x)
    (hp : y.parent = x.parent) (ha : y.attached = x.attached) (hh : y.hashed = x.hashed)
    (hk : n ≠ vfsRoot → 1 ≤ y.shared) (hsame : ∀ m, m ≠ n → ext' m = ext m)
    (hn : ext' n + x.shared = ext n + y.shared) :
    Accounted (h.set n (some y)) ext' := by
  have hlt := A.bound n x hx
  have hkids : ∀ m, (h.set n (some y)).kids m = h.kids m := by
    intro m
    have hm := kids_set (o := some y) hlt m
    have hup : (some y).bind INode.up = h.up n := by
      rw [up_of_node hx, bind_some, INode.up, INode.up, hp, ha]
    rw [hup] at hm
    omega
  have hlive : ∀ m, h.Live m → (h.set n (some y)).Live m := by
    rintro m ⟨z, hz⟩
    by_cases hm : m = n
    · subst hm
      exact ⟨_, node_set_self⟩
    · exact ⟨z, by rw [node_set_of_ne hm]; exact hz⟩
  refine
    { root := hlive _ A.root
      bound := ?_, held := ?_, tied := ?_, cached := ?_, nodup := A.nodup, count := ?_ }
  · intro m z hz
    rcases set_some hz with ⟨rfl, -⟩ | ⟨-, hz⟩
    · exact hlt
    · exact A.bound m z hz
  · intro m z hz hr
    rcases set_some hz with ⟨rfl, rfl⟩ | ⟨-, hz⟩
    · exact hk hr
    · exact A.held m z hz hr
  · intro m z p hz hzp
    rcases set_some hz with ⟨rfl, rfl⟩ | ⟨-, hz⟩
    · obtain ⟨hax, hlt, hlp⟩ := A.tied m x p hx (hp ▸ hzp)
      exact ⟨ha.trans hax, hlt, hlive p hlp⟩
    · obtain ⟨haz, hlt, hlp⟩ := A.tied m z p hz hzp
      exact ⟨haz, hlt, hlive p hlp⟩
  · intro b m hm
    obtain ⟨z, hz, hb⟩ := A.cached b m hm
    by_cases hmn : m = n
    · subst hmn
      obtain rfl := mem_unique hx hz
      exact ⟨_, node_set_self, hh.trans hb⟩
    · exact ⟨z, by rw [node_set_of_ne hmn]; exact hz, hb⟩
  · intro m hr
    rw [hkids]
    have hc := A.count m hr
    by_cases hm : m = n
    · subst hm
      rw [count_of_node hx] at hc
      rw [count_set_self]
      simp only [map_some, getD_some]
      omega
    · rw [count_set_of_ne hm, hsame m hm]
      exact hc

/-- Only the number of refs on an inode is written. -/
theorem Accounted.reshare {k : Nat} (A : Accounted h ext)
    (hx : h.node n = some x) (hk : n ≠ vfsRoot → 1 ≤ k)
    (hsame : ∀ m, m ≠ n → ext' m = ext m) (hn : ext' n + x.shared = ext n + k) :
    Accounted (h.set n (some { x with shared := k })) ext' :=
  A.write hx rfl rfl rfl hk hsame hn

theorem bump_of_node (hx : h.node n = some x) :
    h.bump n = h.set n (some { x with shared := x.shared + 1 }) := by
  simp [Heap.bump, Heap.modify, hx]

/-- `shared++` -/
theorem Accounted.bump (A : Accounted h ext) (hn : h.Live n) :
    Accounted (h.bump n) (ext + one n) := by
  obtain ⟨x, hx⟩ := hn
  rw [bump_of_node hx]
  refine A.reshare hx (fun _ => Nat.le_add_left _ _) ?_ ?_
  · intro m hm
    simp [one_of_ne hm]
  · simp only [Pi.add_apply, one_self]
    omega

theorem Accounted.hold (A : Accounted h ext) (hn : h.Live n) :
    Accounted (vfsHold h n) (ext + one n) := by
  by_cases hr : n = vfsRoot
  · subst hr
    exact A.congr fun m hm => by simp [one_of_ne hm]
  · rw [vfsHold, if_neg hr]
    exact A.bump hn

/-! ## What a heap keeps -/

/-- From `h` to `h'` inodes may go, new ones may come, and those that stay differ
in their count at most. -/
structure Frame (h h' : Heap Obj) : Prop where
  next_le : h.next ≤ h'.next
  same : ∀ n x x', h.node n = some x → h'.node n = some x' → x' = { x with shared := x'.shared }
  new : ∀ n x', h'.node n = some x' → h.node n = none → h.next ≤ n ∧ x'.mounted = none

/-- Every inode of the second heap was there, or is new. -/
theorem Frame.of_node (hle : h.next ≤ h'.next) (hnode : ∀ n x', h'.node n = some x' →
      (∃ x, h.node n = some x ∧ x' = { x with shared := x'.shared }) ∨
        (h.next ≤ n ∧ h.node n = none ∧ x'.mounted = none)) : Frame h h' where
  next_le := hle
  same := by
    intro n x x' hx hx'
    rcases hnode n x' hx' with ⟨y, hy, he⟩ | ⟨-, hn, -⟩
    · obtain rfl := mem_unique hx hy
      exact he
    · exact nomatch hn.symm.trans hx
  new := by
    intro n x' hx' hn
    rcases hnode n x' hx' with ⟨y, hy, -⟩ | ⟨hle, -, hm⟩
    · exact nomatch hn.symm.trans hy
    · exact ⟨hle, hm⟩

theorem Frame.refl : Frame h h := .of_node (Nat.le_refl _) fun _ x hx => .inl ⟨x, hx, rfl⟩

theorem Frame.trans (S : Sound h) (F : Frame h h') (F' : Frame h' h'') : Frame h h'' where
  next_le := Nat.le_trans F.next_le F'.next_le
  same := by
    intro n x x'' hx hx''
    cases hx' : h'.node n with
    | none =>
      -- it would have come back under the address of an older inode
      have hlt := S.bound n x hx
      have := (F'.new n x'' hx'' hx').1
      have := F.next_le
      omega
    | some x' =>
      have h1 := F.same n x x' hx hx'
      have h2 := F'.same n x' x'' hx' hx''
      rw [h2, h1]
  new := by
    intro n x'' hx'' hn
    cases hx' : h'.node n with
    | none =>
      obtain ⟨hle, hm⟩ := F'.new n x'' hx'' hx'
      exact ⟨Nat.le_trans F.next_le hle, hm⟩
    | some x' =>
      obtain ⟨hle, hm⟩ := F.new n x' hx' hn
      refine ⟨hle, ?_⟩
      rw [F'.same n x' x'' hx' hx'']
      exact hm

theorem Frame.reshare {k : Nat} (hx : h.node n = some x) :
    Frame h (h.set n (some { x with shared := k })) := by
  refine .of_node (Nat.le_refl _) fun m y hy => .inl ?_
  rcases set_some hy with ⟨rfl, rfl⟩ | ⟨-, hy⟩
  · exact ⟨x, hx, rfl⟩
  · exact ⟨y, hy, rfl⟩

theorem Frame.bump : Frame h (h.bump n) := by
  cases hx : h.node n with
  | none =>
    have hb : h.bump n = h := by simp [Heap.bump, Heap.modify, hx]
    rw [hb]
    exact .refl
  | some x =>
    rw [bump_of_node hx]
    exact .reshare hx

theorem Frame.hold : Frame h (vfsHold h n) := by
  rw [vfsHold]
  split
  · exact .refl
  · exact .bump

/-- From the newest inode on: what holds of an inode when it holds of all that are
attached below it holds of every one. -/
theorem Accounted.live_rec (A : Accounted h ext) {P : Nat → Prop} (hroot : P vfsRoot)
    (step : ∀ n x, n ≠ vfsRoot → h.node n = some x →
      (∀ m, h.up m = some n → n < m ∧ h.Live m ∧ P m) → P n) (hn : h.Live n) : P n := by
  have key : ∀ k n, h.next - n ≤ k → h.Live n → P n := by
    intro k
    induction k with
    | zero =>
      intro n hk hn
      have := A.live_lt hn
      omega
    | succ k ih =>
      rintro n hk ⟨x, hx⟩
      by_cases hr : n = vfsRoot
      · exact hr ▸ hroot
      refine step n x hr hx fun m hup => ?_
      obtain ⟨y, hy, hyup⟩ := bind_eq_some_iff.mp hup
      have hlt := (A.tied m y n hy (INode.up_some hyup).2).2.1
      exact ⟨hlt, ⟨y, hy⟩, ih m (by omega) ⟨y, hy⟩⟩
  exact key _ n (Nat.le_refl _) hn

/-- An inode that nobody else holds has one attached below it. -/
theorem Accounted.kid (A : Accounted h ext) (hr : n ≠ vfsRoot) (hx : h.node n = some x)
    (h0 : ext n = 0) : ∃ m, h.up m = some n := by
  have hc := A.count n hr
  rw [count_of_node hx] at hc
  have := A.held n x hx hr
  obtain ⟨m, -, hup⟩ := exists_of_tally_pos (show 0 < h.kids n by omega)
  exact ⟨m, by by_contra hno; simp [hno] at hup⟩

/-- While nobody's refs are taken away, no inode of the first heap goes: the one
with the largest address would have nothing below it and nobody to let go of it. -/
theorem Accounted.keeps (A : Accounted h ext) (A' : Accounted h' ext')
    (F : Frame h h') (hle : ∀ n, n ≠ vfsRoot → ext n ≤ ext' n) (hn : h.Live n) : h'.Live n := by
  refine A.live_rec A'.root (fun n x hr hx ih => ?_) hn
  cases hx' : h'.node n with
  | some x' => exact ⟨x', hx'⟩
  | none =>
    have hc' := A'.count n hr
    rw [count_of_none hx'] at hc'
    have := hle n hr
    obtain ⟨m, hup⟩ := A.kid hr hx (by omega)
    obtain ⟨-, ⟨y, hy⟩, ⟨y', hy'⟩⟩ := ih m hup
    have hup' : h'.up m = some n := by
      rw [up_of_node hy', F.same m y y' hy hy', ← hup, up_of_node hy]
      rfl
    have hin : m ∈ Finset.range h'.next := Finset.mem_range.mpr (A'.bound m y' hy')
    have := le_tally (F := h'.up) (g := fun o => if o = some n then 1 else 0) hin
    simp only [hup'] at this
    have : 1 ≤ h'.kids n := this
    omega

/-! ## Inodes that come -/

theorem elim_one {o : Option Nat} : o.elim 0 one m = if o = some m then 1 else 0 := by
  cases o with
  | none => rfl
  | some q => simp [one, eq_comm]

/-- A new inode, in the cache if a bucket is given. -/
def Heap.grow (h : Heap Obj) (x : INode Obj) (b : Option Nat) : Heap Obj :=
  { h.add { x with hashed := b } with
    dcache := b.elim h.dcache fun b => update h.dcache b (h.next :: h.dcache b) }

theorem grow_node : (h.grow x b).node = update h.node h.next (some { x with hashed := b }) := rfl

theorem grow_up : (h.grow x b).up = update h.up h.next x.up := by
  funext m
  by_cases hm : m = h.next
  · subst hm
    simp only [Heap.up, grow_node, update_self]
    rfl
  · simp [Heap.up, grow_node, hm]

theorem grow_some (hy : (h.grow x b).node m = some y) :
    (m = h.next ∧ y = { x with hashed := b }) ∨ (m ≠ h.next ∧ h.node m = some y) :=
  update_some hy

theorem mem_grow_dcache {c : Nat} :
    m ∈ (h.grow x b).dcache c ↔ m ∈ h.dcache c ∨ (m = h.next ∧ b = some c) := by
  cases b with
  | none => simp [Heap.grow]
  | some b =>
    rw [some.injEq, eq_comm (a := b)]
    exact mem_push

/-- A new inode takes over the ref on the directory it hangs below. -/
theorem Accounted.grow (A : Accounted h (ext + x.up.elim 0 one)) (hk : 1 ≤ x.shared)
    (ht : ∀ p, x.parent = some p → x.attached = true)
    (hsame : ∀ m, m ≠ h.next → ext' m = ext m) (hself : ext' h.next = x.shared) :
    Accounted (h.grow x b) ext' := by
  have hnone := A.node_next
  have hdir : ∀ p, x.parent = some p → h.Live p := by
    intro p hp
    have hup : x.up = some p := by rw [INode.up, if_pos (ht p hp), hp]
    rw [hup] at A
    exact A.live
  have hkeep : ∀ m y, h.node m = some y → (h.grow x b).node m = some y := by
    intro m y hy
    rw [grow_node, update_of_ne]
    · exact hy
    · exact Nat.ne_of_lt (A.bound m y hy)
  refine { root := ?_, bound := ?_, held := ?_, tied := ?_, cached := ?_, nodup := ?_, count := ?_ }
  · obtain ⟨r, hr⟩ := A.root
    exact ⟨r, hkeep _ r hr⟩
  · intro m y hy
    show m < h.next + 1
    rcases grow_some hy with ⟨rfl, -⟩ | ⟨-, hy⟩
    · omega
    · have := A.bound m y hy
      omega
  · intro m y hy hr
    rcases grow_some hy with ⟨rfl, rfl⟩ | ⟨-, hy⟩
    · exact hk
    · exact A.held m y hy hr
  · intro m y q hy hq
    rcases grow_some hy with ⟨rfl, rfl⟩ | ⟨-, hy⟩
    · obtain ⟨d, hd⟩ := hdir q hq
      exact ⟨ht q hq, A.bound q d hd, d, hkeep q d hd⟩
    · obtain ⟨ha', hlt, z, hz⟩ := A.tied m y q hy hq
      exact ⟨ha', hlt, z, hkeep q z hz⟩
  · intro c m hm
    rcases mem_grow_dcache.mp hm with hm | ⟨rfl, hb⟩
    · obtain ⟨y, hy, hyc⟩ := A.cached c m hm
      exact ⟨y, hkeep m y hy, hyc⟩
    · exact ⟨_, by rw [grow_node, update_self], hb⟩
  · intro c
    cases b with
    | none => exact A.nodup c
    | some b =>
      refine nodup_push A.nodup fun hin => ?_
      obtain ⟨y, hy, -⟩ := A.cached b h.next hin
      rw [hnone] at hy
      exact nomatch hy
  · intro m hr
    have hkids : (h.grow x b).kids m = h.kids m + (if x.up = some m then 1 else 0) := by
      have hnext : (h.grow x b).next = h.next + 1 := rfl
      rw [Heap.kids, hnext, grow_up, tally_push]
      rfl
    have hc := A.count m hr
    rw [Pi.add_apply, elim_one] at hc
    by_cases hm : m = h.next
    · subst hm
      rw [count_of_none hnone] at hc
      have hcnt : (h.grow x b).count h.next = x.shared := by
        simp [Heap.count, grow_node]
      omega
    · have hcnt : (h.grow x b).count m = h.count m := by
        simp [Heap.count, grow_node, hm]
      rw [hsame m hm]
      omega

theorem Frame.grow (S : Sound h) (hm : x.mounted = none) : Frame h (h.grow x b) := by
  refine .of_node (Nat.le_succ _) fun n y hy => ?_
  rcases grow_some hy with ⟨rfl, rfl⟩ | ⟨-, hy⟩
  · exact .inr ⟨Nat.le_refl _, S.node_next, hm⟩
  · exact .inl ⟨y, hy, rfl⟩

/-- An address that was used and is free again. -/
theorem Accounted.skip (A : Accounted h ext) : Accounted { h with next := h.next + 1 } ext where
  root := A.root
  bound := fun n x hx => Nat.lt_succ_of_lt (A.bound n x hx)
  held := A.held
  tied := A.tied
  cached := A.cached
  nodup := A.nodup
  count := by
    intro n hn
    have hup : h.up h.next = none := by simp [Heap.up, A.node_next]
    have hk : Heap.kids { h with next := h.next + 1 } n = h.kids n := by
      have := tally_push (n := h.next) (F := h.up) (g := fun o => if o = some n then 1 else 0)
        (b := h.up h.next)
      rw [update_eq_self, hup] at this
      exact this
    rw [hk]
    exact A.count n hn

theorem Frame.skip : Frame h { h with next := h.next + 1 } :=
  .of_node (Nat.le_succ _) fun _ x hx => .inl ⟨x, hx, rfl⟩

/-! ## Inodes that go -/

theorem free_node (hx : h.node n = some x) : (h.free n).node = update h.node n none := by
  simp only [Heap.free, dcacheRemove, hx]
  cases hb : x.hashed with
  | none => rfl
  | some b => simp [Heap.set]

theorem free_next : (h.free n).next = h.next := by
  rw [Heap.free, dcacheRemove]
  split
  · rfl
  split
  · rfl
  · rfl

theorem free_some (hx : h.node n = some x) (hy : (h.free n).node m = some y) :
    m ≠ n ∧ h.node m = some y := by
  rw [free_node hx] at hy
  exact update_none hy

theorem mem_dcacheRemove {b : Nat} (hne : m ≠ n) :
    m ∈ (dcacheRemove h n).dcache b ↔ m ∈ h.dcache b := by
  rw [dcacheRemove]
  split
  · rfl
  split
  · rfl
  dsimp only
  rw [update_apply]
  split
  · rename_i hb
    subst hb
    exact List.mem_erase_of_ne hne
  · rfl

theorem not_mem_dcacheRemove (S : Sound h) {b : Nat} : n ∉ (dcacheRemove h n).dcache b := by
  rw [dcacheRemove]
  split
  · rename_i hx
    intro hm
    obtain ⟨y, hy, -⟩ := S.cached b n hm
    exact nomatch hx.symm.trans hy
  next x hx =>
  have hself : n ∈ h.dcache b → x.hashed = some b := by
    intro hm
    obtain ⟨y, hy, hyb⟩ := S.cached b n hm
    rwa [mem_unique hx hy]
  split
  · next hb => exact fun hm => nomatch hb.symm.trans (hself hm)
  next c hb =>
  dsimp only
  rw [update_apply]
  split
  · rename_i hbc
    subst hbc
    exact (S.nodup b).not_mem_erase
  · next hbc => exact fun hm => hbc (some.inj ((hself hm).symm.trans hb))

theorem dcacheRemove_nodup (S : Sound h) (b : Nat) : ((dcacheRemove h n).dcache b).Nodup := by
  rw [dcacheRemove]
  split
  · exact S.nodup b
  split
  · exact S.nodup b
  dsimp only
  rw [update_apply]
  split
  · exact (S.nodup _).erase n
  · exact S.nodup b

theorem kids_free (S : Sound h) (hx : h.node n = some x) (m : Nat) :
    (h.free n).kids m + (if x.up = some m then 1 else 0) = h.kids m := by
  have hk := kids_set (o := none) (S.bound n x hx) m
  have hup : (h.free n).up = (h.set n none).up := by
    funext q
    simp only [Heap.up, free_node hx, Heap.set]
  have he : (h.free n).kids m = (h.set n none).kids m := by
    rw [Heap.kids, hup, free_next]
    rfl
  rw [he, ← up_of_node hx]
  simpa using hk

theorem Frame.free (hx : h.node n = some x) : Frame h (h.free n) :=
  .of_node (by rw [free_next]) fun _ y hy => .inl ⟨y, (free_some hx hy).2, rfl⟩

/-- The last ref on an inode goes, and with it the ref it holds on the directory
above, which from then on is one of the refs that others hold. -/
theorem Accounted.free (A : Accounted h (ext + one n)) (hr : n ≠ vfsRoot)
    (hx : h.node n = some x) (hlast : x.shared ≤ 1) :
    Accounted (h.free n) (ext + (x.up.elim 0 one)) := by
  have hc := A.count n hr
  rw [count_of_node hx] at hc
  simp only [Pi.add_apply, one_self] at hc
  -- nothing points to it from below
  have hbelow : ∀ m y, h.node m = some y → y.parent ≠ some n := by
    intro m y hy hp
    have ha := (A.tied m y n hy hp).1
    have hin : m ∈ Finset.range h.next := Finset.mem_range.mpr (A.bound m y hy)
    have := le_tally (F := h.up) (g := fun o => if o = some n then 1 else 0) hin
    have hup : h.up m = some n := by
      rw [up_of_node hy, INode.up, if_pos ha]
      exact hp
    simp only [hup] at this
    have : 1 ≤ h.kids n := this
    omega
  have hkeep : ∀ m y, h.node m = some y → m ≠ n → (h.free n).node m = some y := by
    intro m y hy hm
    rw [free_node hx, update_of_ne hm]
    exact hy
  refine
    { root := ?_, bound := ?_, held := ?_, tied := ?_, cached := ?_
      nodup := dcacheRemove_nodup A.toSound, count := ?_ }
  · obtain ⟨y, hy⟩ := A.root
    exact ⟨y, hkeep _ y hy fun he => hr he.symm⟩
  · intro m y hy
    rw [free_next]
    exact A.bound m y (free_some hx hy).2
  · intro m y hy
    exact A.held m y (free_some hx hy).2
  · intro m y p hy hp
    have hy := (free_some hx hy).2
    obtain ⟨ha, hlt, z, hz⟩ := A.tied m y p hy hp
    exact ⟨ha, hlt, z, hkeep p z hz fun he => hbelow m y hy (he ▸ hp)⟩
  · intro b m hm
    have hne : m ≠ n := fun he => not_mem_dcacheRemove A.toSound (he ▸ hm)
    obtain ⟨y, hy, hb⟩ := A.cached b m ((mem_dcacheRemove hne).mp hm)
    exact ⟨y, hkeep m y hy hne, hb⟩
  · intro m hmr
    have hk := kids_free A.toSound hx m
    rw [Pi.add_apply, elim_one]
    by_cases hm : m = n
    · subst hm
      have hnone : (h.free m).node m = none := by rw [free_node hx, update_self]
      rw [count_of_none hnone]
      omega
    · have hcm := A.count m hmr
      have hsame : (h.free n).count m = h.count m := by
        rw [Heap.count, free_node hx, update_of_ne hm, Heap.count]
      rw [hsame, hcm, Pi.add_apply, one_of_ne hm]
      omega

/-! ## Names and the cache -/

/-- An inode but for its name and its place in the cache. -/
def INode.core (x : INode Obj) : INode Obj := { x with name := [], hashed := none }

/-- The heaps differ in names and in the cache. -/
structure Alike (h h' : Heap Obj) : Prop where
  next : h'.next = h.next
  node : ∀ n, (h'.node n).map INode.core = (h.node n).map INode.core

theorem Alike.refl : Alike h h := ⟨rfl, fun _ => rfl⟩

theorem Alike.trans (L : Alike h h') (L' : Alike h' h'') : Alike h h'' :=
  ⟨L'.next.trans L.next, fun n => (L'.node n).trans (L.node n)⟩

theorem Alike.symm (L : Alike h h') : Alike h' h := ⟨L.next.symm, fun n => (L.node n).symm⟩

theorem Alike.of_node (L : Alike h h') {x' : INode Obj} (hx' : h'.node n = some x') :
    ∃ x, h.node n = some x ∧ x'.core = x.core := by
  have := L.node n
  rw [hx', map_some, eq_comm, map_eq_some_iff] at this
  obtain ⟨x, hx, hc⟩ := this
  exact ⟨x, hx, hc.symm⟩

/-- What an inode and another with the same core have in common. -/
theorem core_eq (hc : x.core = y.core) :
    x.shared = y.shared ∧ x.type = y.type ∧ x.obj = y.obj ∧ x.parent = y.parent ∧
      x.mounted = y.mounted ∧ x.attached = y.attached ∧ x.lookup = y.lookup := by
  simp only [INode.core, INode.mk.injEq] at hc
  obtain ⟨h1, h2, h3, h4, h5, -, h6, h7, -⟩ := hc
  exact ⟨h1, h2, h4, h5, h6, h7, h3⟩

theorem Alike.up (L : Alike h h') : h'.up = h.up := by
  funext n
  cases hx' : h'.node n with
  | none =>
    have := L.node n
    rw [hx', map_none, eq_comm, map_eq_none_iff] at this
    simp [Heap.up, hx', this]
  | some x' =>
    obtain ⟨x, hx, hc⟩ := L.of_node hx'
    obtain ⟨-, -, -, hp, -, ha, -⟩ := core_eq hc
    rw [up_of_node hx', up_of_node hx, INode.up, INode.up, hp, ha]

theorem Alike.count (L : Alike h h') : h'.count n = h.count n := by
  cases hx' : h'.node n with
  | none =>
    have := L.node n
    rw [hx', map_none, eq_comm, map_eq_none_iff] at this
    rw [count_of_none hx', count_of_none this]
  | some x' =>
    obtain ⟨x, hx, hc⟩ := L.of_node hx'
    rw [count_of_node hx', count_of_node hx]
    exact (core_eq hc).1

theorem Alike.live (L : Alike h h') (hn : h.Live n) : h'.Live n := by
  obtain ⟨x, hx⟩ := hn
  obtain ⟨x', hx', -⟩ := L.symm.of_node hx
  exact ⟨x', hx'⟩

theorem Accounted.alike (A : Accounted h ext) (L : Alike h h')
    (hcached : ∀ b n, n ∈ h'.dcache b → ∃ x, h'.node n = some x ∧ x.hashed = some b)
    (hnodup : ∀ b, (h'.dcache b).Nodup) : Accounted h' ext where
  root := L.live A.root
  bound := by
    intro n x' hx'
    obtain ⟨x, hx, -⟩ := L.of_node hx'
    rw [L.next]
    exact A.bound n x hx
  held := by
    intro n x' hx' hr
    obtain ⟨x, hx, hc⟩ := L.of_node hx'
    rw [(core_eq hc).1]
    exact A.held n x hx hr
  tied := by
    intro n x' p hx' hp
    obtain ⟨x, hx, hc⟩ := L.of_node hx'
    obtain ⟨-, -, -, hpar, -, hatt, -⟩ := core_eq hc
    rw [hpar] at hp
    obtain ⟨ha, hlt, hl⟩ := A.tied n x p hx hp
    exact ⟨hatt.trans ha, hlt, L.live hl⟩
  cached := hcached
  nodup := hnodup
  count := by
    intro n hn
    rw [L.count, Heap.kids, L.up, L.next]
    exact A.count n hn

theorem Alike.set {d : Nat → List Nat} (hx : h.node n = some x) (hc : y.core = x.core) :
    Alike h { h.set n (some y) with dcache := d } := by
  refine ⟨rfl, fun m => ?_⟩
  by_cases hm : m = n
  · subst hm
    rw [hx]
    simp only [Heap.set, update_self, map_some, hc]
  · simp only [Heap.set, update_of_ne hm]

theorem Alike.uncache : Alike h (dcacheRemove h n) := by
  rw [dcacheRemove]
  split
  · exact .refl
  next hx =>
  split
  · exact .refl
  · exact .set hx rfl

theorem dcacheRemove_of_ne (hne : m ≠ n) : (dcacheRemove h n).node m = h.node m := by
  rw [dcacheRemove]
  split
  · rfl
  split
  · rfl
  · exact node_set_of_ne hne

/-- `dcache_remove` -/
theorem Accounted.uncache (A : Accounted h ext) : Accounted (dcacheRemove h n) ext := by
  refine A.alike .uncache ?_ (dcacheRemove_nodup A.toSound)
  intro c m hm
  have hne : m ≠ n := fun he => not_mem_dcacheRemove A.toSound (he ▸ hm)
  obtain ⟨y, hy, hyc⟩ := A.cached c m ((mem_dcacheRemove hne).mp hm)
  exact ⟨y, (dcacheRemove_of_ne hne).trans hy, hyc⟩

theorem Alike.encache : Alike h (dcacheInsert W h n) := by
  rw [dcacheInsert]
  split
  · exact .refl
  next hx =>
  split
  · exact .refl
  · exact .set hx rfl

/-- `dcache_insert` -/
theorem Accounted.encache (A : Accounted h ext) : Accounted (dcacheInsert W h n) ext := by
  cases hx : h.node n with
  | none =>
    have he : dcacheInsert W h n = h := by simp [dcacheInsert, hx]
    rw [he]
    exact A
  | some x =>
    cases hb : x.hashed with
    | some b =>
      have he : dcacheInsert W h n = h := by simp [dcacheInsert, hx, hb]
      rw [he]
      exact A
    | none =>
      -- it is in no bucket yet
      have hout : ∀ c, n ∉ h.dcache c := by
        intro c hc
        obtain ⟨y, hy, hyc⟩ := A.cached c n hc
        rw [← mem_unique hx hy, hb] at hyc
        exact nomatch hyc
      refine A.alike .encache ?_ ?_
      · intro c m hm
        simp only [dcacheInsert, hx, hb] at hm ⊢
        rcases mem_push.mp hm with hm | ⟨rfl, rfl⟩
        · obtain ⟨y, hy, hyc⟩ := A.cached c m hm
          have hne : m ≠ n := fun he => hout c (he ▸ hm)
          exact ⟨y, (node_set_of_ne hne).trans hy, hyc⟩
        · exact ⟨_, node_set_self, rfl⟩
      · intro c
        simp only [dcacheInsert, hx, hb]
        exact nodup_push A.nodup (hout _)

theorem Alike.rename {name : Name} : Alike h (h.modify n fun x => { x with name := name }) := by
  rw [Heap.modify]
  split
  · exact .refl
  next hx => exact .set hx rfl

theorem Accounted.rename {name : Name} (A : Accounted h ext) :
    Accounted (h.modify n fun x => { x with name := name }) ext := by
  rw [Heap.modify]
  cases hx : h.node n with
  | none => exact A
  | some x => exact A.write hx rfl rfl rfl (A.held n x hx) (fun _ _ => rfl) rfl

/-! ## What a walk does to the heap, one move at a time -/

/-- The name an inode is taken in under: the file system's own spelling, when it has
one. -/
def adoptName (own name : Name) : Name := if own = [] then name else own

/-- A count is written, an inode goes, an address is passed over, or an inode that
a file system built is taken in below its directory. -/
inductive Move (W : World Obj) : Heap Obj → Heap Obj → Prop
  | reshare {h : Heap Obj} {n : Nat} {x : INode Obj} (k : Nat) (hx : h.node n = some x) :
      Move W h (h.set n (some { x with shared := k }))
  | free {h : Heap Obj} {n : Nat} {x : INode Obj} (S : Sound h) (hx : h.node n = some x) :
      Move W h (h.free n)
  | skip {h : Heap Obj} : Move W h { h with next := h.next + 1 }
  | grow {h : Heap Obj} {dir : Nat} {d : INode Obj} {comp nm key : Name} {type : Kind}
      {lookup : Bool} {obj : Obj} (S : Sound h) (hd : h.node dir = some d)
      (hl : W.lookup d.obj comp = .fresh type lookup obj nm)
      (hkey : key = adoptName (cName nm) comp) (hmiss : dcacheFind W h dir key = none) :
      Move W h (h.grow
        { type, lookup, obj, parent := some dir, name := cName key, attached := true }
        (if key.length < nameSize then some (W.hash (some dir) (cName key)) else none))

/-- Any number of moves. -/
abbrev Moves (W : World Obj) : Heap Obj → Heap Obj → Prop := Relation.ReflTransGen (Move W)

theorem Move.frame (m : Move W h h') : Frame h h' := by
  cases m with
  | reshare k hx => exact .reshare hx
  | free S hx => exact .free hx
  | skip => exact .skip
  | grow S hd hl hkey hmiss => exact .grow S rfl

theorem Moves.frame (S : Sound h) (M : Moves W h h') : Frame h h' := by
  induction M with
  | refl => exact .refl
  | tail _ m ih => exact ih.trans S m.frame

theorem Moves.bump : Moves W h (h.bump n) := by
  cases hx : h.node n with
  | none =>
    have hb : h.bump n = h := by simp [Heap.bump, Heap.modify, hx]
    rw [hb]
  | some x =>
    rw [bump_of_node hx]
    exact .single (.reshare _ hx)

theorem Moves.hold : Moves W h (vfsHold h n) := by
  rw [vfsHold]
  split
  · exact .refl
  · exact .bump

/-! ## `vfs_drop` -/

/-- One round after the other: an inode goes when its last ref does, and its ref
on the directory above is dropped next. -/
theorem dropLoop_ok {fuel : Nat} (hf : n < fuel) (A : Accounted h (ext + one n)) :
    Accounted (dropLoop fuel h n) ext ∧ ∀ W, Moves W h (dropLoop fuel h n) := by
  induction fuel generalizing h n with
  | zero => omega
  | succ fuel ih =>
    rw [dropLoop]
    split
    · rename_i hr
      subst hr
      exact ⟨A.congr fun m hm => by simp [one_of_ne hm], fun _ => .refl⟩
    rename_i hr
    obtain ⟨x, hx⟩ := A.live
    have hheld := A.held n x hx hr
    simp only [hx]
    rw [if_neg (by omega)]
    split
    · refine ⟨A.reshare hx (fun _ => by omega) ?_ ?_, fun _ => .single (.reshare _ hx)⟩
      · intro m hm
        simp [one_of_ne hm]
      · simp only [Pi.add_apply, one_self]
        omega
    rename_i hlast
    have A' := A.free hr hx (Nat.le_of_not_lt hlast)
    have M : ∀ W, Moves W h (h.free n) := fun _ => .single (.free A.toSound hx)
    cases hu : x.up with
    | none =>
      rw [hu] at A'
      exact ⟨A', M⟩
    | some p =>
      rw [hu] at A'
      have hlt := (A.tied n x p hx (INode.up_some hu).2).2.1
      obtain ⟨B, M'⟩ := ih (by omega) A'
      exact ⟨B, fun W => (M W).trans (M' W)⟩

theorem Accounted.drop_moves (A : Accounted h (ext + one n)) : Moves W h (vfsDrop h n) :=
  (dropLoop_ok (Nat.lt_succ_self n) A).2 W

theorem Accounted.drop (A : Accounted h (ext + one n)) : Accounted (vfsDrop h n) ext :=
  (dropLoop_ok (Nat.lt_succ_self n) A).1

/-- The loop of `vfs_drop` is over before its rounds are used up. -/
theorem dropLoop_enough {fuel : Nat} (hf : n < fuel) (A : Accounted h (ext + one n)) :
    dropLoop fuel h n = vfsDrop h n := by
  suffices key : ∀ f g, n < f → n < g → dropLoop f h n = dropLoop g h n from
    key _ _ hf (Nat.lt_succ_self n)
  intro f
  clear hf
  induction f generalizing h n with
  | zero => omega
  | succ f ih =>
    intro g hf hg
    cases g with
    | zero => omega
    | succ g =>
      rw [dropLoop, dropLoop]
      split
      · rfl
      rename_i hr
      obtain ⟨x, hx⟩ := A.live
      simp only [hx]
      split
      · rfl
      split
      · rfl
      rename_i hlast
      have A' := A.free hr hx (Nat.le_of_not_lt hlast)
      cases hu : x.up with
      | none => rfl
      | some p =>
        rw [hu] at A'
        have hlt := (A.tied n x p hx (INode.up_some hu).2).2.1
        exact ih A' g (by omega) (by omega)

end BleedKernel.Dentry
