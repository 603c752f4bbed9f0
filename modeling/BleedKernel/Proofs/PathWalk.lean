import BleedKernel.Proofs.InodeRefs
import Mathlib.Data.List.Find

/-!
# The path walk gives back every ref but one

`walkLoop` is taken one component at a time. What it owns beyond the refs it
found is one ref on `cur`; a component trades it for one on the next inode, and
a failure gives it back. The refs of the first heap are never touched, so no
inode of the first heap goes during a walk (`Accounted.keeps`), and whatever
pointed to one still does.

The depth of links is an induction of its own: following a link is a walk with
one level less, from wherever the walk above it happens to be.
-/

namespace BleedKernel.Dentry

open Lib Function Option

variable {Obj : Type} {W : World Obj} {h h' h₀ : Heap Obj} {ext ext₀ : Nat → Nat}
  {n m p dir : Nat} {x y : INode Obj} {name : Name}

/-! ## Taking in an inode that was just built -/

@[simp] theorem hold_next : (vfsHold h n).next = h.next := by
  rw [vfsHold]
  split
  · rfl
  · rw [Heap.bump, Heap.modify]
    split <;> rfl

@[simp] theorem hold_dcache : (vfsHold h n).dcache = h.dcache := by
  rw [vfsHold]
  split
  · rfl
  · rw [Heap.bump, Heap.modify]
    split <;> rfl

theorem hold_node_of_ne (hne : m ≠ n) : (vfsHold h n).node m = h.node m := by
  rw [vfsHold]
  split
  · rfl
  rw [Heap.bump, Heap.modify]
  split
  · rfl
  · exact node_set_of_ne hne

/-- The inode has one ref more, and for the rest it is the one it was. -/
theorem hold_node_obj (hx : h.node n = some x) :
    ∃ x', (vfsHold h n).node n = some x' ∧ x'.obj = x.obj := by
  rw [vfsHold]
  split
  · exact ⟨x, hx, rfl⟩
  · rw [Heap.bump, Heap.modify, hx]
    exact ⟨_, node_set_self, rfl⟩

theorem hold_add (hne : n ≠ h.next) : vfsHold (h.add x) n = (vfsHold h n).add x := by
  by_cases hr : n = vfsRoot
  · simp [vfsHold, hr]
  simp only [vfsHold, if_neg hr, Heap.bump, Heap.modify, Heap.set, Heap.add, update_of_ne hne]
  cases hd : h.node n with
  | none => rfl
  | some d =>
    simp only [Heap.mk.injEq, and_true]
    exact update_comm (Ne.symm hne) (some x) _ h.node

theorem add_node_next : (h.add x).node h.next = some x := by simp [Heap.add]

theorem set_add : (h.add x).set h.next (some y) = h.add y := by
  simp [Heap.add, Heap.set]

/-- An inode as the file systems build it. -/
structure Built (x : INode Obj) : Prop where
  attached : x.attached = false
  hashed : x.hashed = none

/-- `vfs_attach` of a new inode: a ref on the directory, and the inode as it stays. -/
theorem vfsAttach_add (B : Built x) (hdir : dir < h.next) : vfsAttach W (h.add x) h.next dir name
      = (vfsHold h dir).grow { x with name := cName name, parent := some dir, attached := true }
          (if name.length < nameSize then some (W.hash (some dir) (cName name)) else none) := by
  simp only [vfsAttach, add_node_next, B.attached, Bool.false_eq_true, if_false, set_add,
    hold_add (Nat.ne_of_lt hdir)]
  -- the inode is written twice more where it was added
  have hmod : ∀ z f, ((vfsHold h dir).add z).modify h.next f = (vfsHold h dir).add (f z) := by
    intro z f
    have hz := add_node_next (h := vfsHold h dir) (x := z)
    rw [hold_next] at hz
    have hs := set_add (h := vfsHold h dir) (x := z) (y := f z)
    rw [hold_next] at hs
    rw [Heap.modify, hz]
    exact hs
  rw [hmod]
  split
  · simp [dcacheInsert, B.hashed, Heap.grow, Heap.add, Heap.set]
  · simp [Heap.grow, Heap.add, B.hashed]

/-- The copy that nobody needs is thrown away. -/
theorem vfsDrop_add (S : Sound h) (B : Built x) (hs : x.shared = 1) {c : Nat} (hc : c ≠ h.next) :
    vfsDrop (vfsHold (h.add x) c) h.next = { vfsHold h c with next := (vfsHold h c).next + 1 } := by
  have hroot : h.next ≠ vfsRoot := by
    have := S.live_lt S.root
    omega
  have hnone : (vfsHold h c).node h.next = none := by
    rw [hold_node_of_ne (Ne.symm hc)]
    exact S.node_next
  have hup : x.up = none := by rw [INode.up, B.attached]; rfl
  rw [hold_add hc, vfsDrop, dropLoop, if_neg hroot]
  simp only [Heap.add, hold_next, update_self, hup, Heap.free, dcacheRemove,
    B.hashed, Heap.set, update_idem]
  rw [if_neg (by omega), if_neg (by omega)]
  rw [← hnone, update_eq_self]

theorem dcacheFind_node {c : Nat} (hf : dcacheFind W h p name = some c) :
    ∃ x, h.node c = some x ∧ x.parent = some p ∧ x.name = name := by
  have := List.find?_some hf
  cases hx : h.node c with
  | none => simp [hx] at this
  | some x =>
    simp only [hx, any_some, decide_eq_true_eq] at this
    exact ⟨x, rfl, this⟩

/-- The cache answers by the names and directories of what is in the bucket. -/
theorem dcacheFind_congr (hd : h'.dcache = h.dcache) (hn : ∀ b m, m ∈ h.dcache b →
      (h'.node m).map (fun x => (x.parent, x.name)) = (h.node m).map fun x => (x.parent, x.name)) :
    dcacheFind W h' p name = dcacheFind W h p name := by
  rw [dcacheFind, hd]
  refine List.find?_congr fun m hm => ?_
  have := hn _ m hm
  cases hx : h.node m with
  | none =>
    cases hx' : h'.node m with
    | none => rfl
    | some x' => simp [hx, hx'] at this
  | some x =>
    cases hx' : h'.node m with
    | none => simp [hx, hx'] at this
    | some x' =>
      simp only [hx, hx', map_some, some.injEq, Prod.mk.injEq] at this
      simp [this]

theorem dcacheFind_hold : dcacheFind W (vfsHold h n) p name = dcacheFind W h p name := by
  refine dcacheFind_congr hold_dcache fun b m _ => ?_
  by_cases hm : m = n
  · subst hm
    rw [vfsHold]
    split
    · rfl
    rw [Heap.bump, Heap.modify]
    cases hx : h.node m with
    | none => simp [hx]
    | some x => simp [Heap.set]
  · rw [hold_node_of_ne hm]

theorem dcacheFind_add (S : Sound h) : dcacheFind W (h.add x) p name = dcacheFind W h p name := by
  refine dcacheFind_congr rfl fun b m hm => ?_
  obtain ⟨y, hy, -⟩ := S.cached b m hm
  simp [Heap.add, Nat.ne_of_lt (S.bound m y hy)]

/-- The inode a file system builds for an entry of the directory `dir`. -/
def freshNode (dir : Nat) (type : Kind) (lookup : Bool) (obj : Obj) (nm : Name) : INode Obj :=
  { type, lookup, obj, parent := some dir, name := cName nm }

theorem freshNode_built {type : Kind} {lookup : Bool} {obj : Obj} {nm : Name} :
    Built (freshNode dir type lookup obj nm) := ⟨rfl, rfl⟩

/-- `vfs_adopt` of a new inode goes on with the inode that was known by its name, or
takes the new one in. -/
theorem vfsAdopt_fresh {comp nm key : Name} (type : Kind) (lookup : Bool) (obj : Obj)
    (S : Sound h) (hdir : dir < h.next) (hkey : adoptName (cName nm) comp = key) :
    vfsAdopt W (h.add (freshNode dir type lookup obj nm)) dir h.next comp
      = match dcacheFind W h dir key with
        | some c => (c, { vfsHold h c with next := (vfsHold h c).next + 1 })
        | none => (h.next, (vfsHold h dir).grow
            { type, lookup, obj, parent := some dir, name := cName key, attached := true }
            (if key.length < nameSize then some (W.hash (some dir) (cName key)) else none)) := by
  have B : Built (freshNode dir type lookup obj nm) := freshNode_built
  simp only [vfsAdopt, add_node_next, B.attached, Bool.false_eq_true, if_false]
  rw [show (if (freshNode dir type lookup obj nm).name = [] then comp
      else (freshNode dir type lookup obj nm).name) = key from hkey, dcacheFind_add S]
  cases hf : dcacheFind W h dir key with
  | none =>
    rw [vfsAttach_add B hdir]
    rfl
  | some c =>
    obtain ⟨y, hy, -⟩ := dcacheFind_node hf
    have hc : c ≠ h.next := Nat.ne_of_lt (S.bound c y hy)
    dsimp only
    rw [if_neg hc, vfsDrop_add S B rfl hc]

/-- Either way it comes back with one ref. -/
theorem vfsAdopt_add {d : INode Obj} {comp nm : Name} {type : Kind} {lookup : Bool} {obj : Obj}
    (A : Accounted h ext) (hd : h.node dir = some d)
    (hl : W.lookup d.obj comp = .fresh type lookup obj nm) :
    Accounted (vfsAdopt W (h.add (freshNode dir type lookup obj nm)) dir h.next comp).2
        (ext + one (vfsAdopt W (h.add (freshNode dir type lookup obj nm)) dir h.next comp).1)
      ∧ Moves W h (vfsAdopt W (h.add (freshNode dir type lookup obj nm)) dir h.next comp).2 := by
  have hlt := A.bound dir d hd
  generalize hkey : adoptName (cName nm) comp = key
  rw [vfsAdopt_fresh type lookup obj A.toSound hlt hkey]
  cases hf : dcacheFind W h dir key with
  | none =>
    have A' := A.hold ⟨d, hd⟩
    constructor
    · refine A'.grow (Nat.le_refl _) (fun _ _ => rfl) ?_ ?_
      · intro m hm
        rw [hold_next] at hm
        simp [one_of_ne hm]
      · have hc := A.count h.next (by
          have := A.live_lt A.root
          omega)
        rw [count_of_none A.node_next] at hc
        simp only [hold_next, Pi.add_apply, one_self]
        omega
    · refine (Moves.hold (n := dir)).trans (.single ?_)
      obtain ⟨d', hd', hobj⟩ := hold_node_obj hd
      exact .grow A'.toSound hd' (hobj ▸ hl) hkey.symm (dcacheFind_hold.trans hf)
  | some c =>
    obtain ⟨y, hy, -⟩ := dcacheFind_node hf
    exact ⟨(A.hold ⟨y, hy⟩).skip, Moves.hold.trans (.single .skip)⟩

/-! ## One component -/

/-- The heap a walk may start in: what the file systems keep, the devices and
the roots of mounts are inodes, and what a file system keeps is in the tree. -/
structure Ready (W : World Obj) (h : Heap Obj) (ext : Nat → Nat) : Prop extends
    Accounted h ext where
  known : ∀ o nm c, W.lookup o nm = .known c → ∃ x, h.node c = some x ∧ x.attached = true
  device : ∀ nm d, W.device nm = some d → h.Live d
  mounted : ∀ n x r, h.node n = some x → x.mounted = some r → h.Live r

/-- What a walk relies on stays as long as nobody's refs are taken away. -/
theorem Ready.along (R : Ready W h ext) {ext' : Nat → Nat} (F : Frame h h')
    (A : Accounted h' ext') (hle : ∀ n, n ≠ vfsRoot → ext n ≤ ext' n) : Ready W h' ext' where
  toAccounted := A
  known := by
    intro o nm c hc
    obtain ⟨x, hx, ha⟩ := R.known o nm c hc
    obtain ⟨x', hx'⟩ := R.keeps A F hle ⟨x, hx⟩
    refine ⟨x', hx', ?_⟩
    rw [F.same c x x' hx hx']
    exact ha
  device := fun nm d hd => R.keeps A F hle (R.device nm d hd)
  mounted := by
    intro n x' r hx' hr
    cases hx : h.node n with
    | none =>
      have := (F.new n x' hx' hx).2
      rw [hr] at this
      exact nomatch this
    | some x =>
      have hs := F.same n x x' hx hx'
      rw [hs] at hr
      exact R.keeps A F hle (R.mounted n x r hx hr)

theorem walkEntry_ok {r : Nat × Heap Obj} (R : Ready W h ext) (hd : h.node dir = some x)
    (he : walkEntry W h dir x.obj name = some r) :
    Accounted r.2 (ext + one r.1) ∧ Moves W h r.2 := by
  rw [walkEntry] at he
  cases hf : dcacheFind W h dir name with
  | some c =>
    rw [hf] at he
    obtain rfl := some.inj he
    obtain ⟨y, hy, -⟩ := dcacheFind_node hf
    exact ⟨R.hold ⟨y, hy⟩, .hold⟩
  | none =>
    simp only [hf, inodeLookup] at he
    cases hl : W.lookup x.obj name with
    | missing => simp [hl] at he
    | known c =>
      simp only [hl, map_some, some.injEq] at he
      subst he
      obtain ⟨y, hy, ha⟩ := R.known x.obj name c hl
      -- it is in the tree already, so it is taken as it is
      have hb : vfsAdopt W (h.bump c) dir c name = (c, h.bump c) := by
        have : (h.bump c).node c = some { y with shared := y.shared + 1 } := by
          simp [Heap.bump, Heap.modify, hy, Heap.set]
        simp [vfsAdopt, this, ha]
      rw [hb]
      exact ⟨R.bump ⟨y, hy⟩, .bump⟩
    | fresh type lookup obj nm =>
      simp only [hl, map_some, some.injEq] at he
      subst he
      exact vfsAdopt_add R.toAccounted hd hl

theorem crossMount_ok (R : Ready W h (ext + one n)) :
    Accounted (crossMount h n).2 (ext + one (crossMount h n).1) ∧ Moves W h (crossMount h n).2 := by
  rw [crossMount]
  cases hm : (h.node n).bind (·.mounted) with
  | none => exact ⟨R.toAccounted, .refl⟩
  | some r =>
    obtain ⟨x, hx, hr⟩ := bind_eq_some_iff.mp hm
    have A := R.hold (R.mounted n x r hx hr)
    rw [add_right_comm] at A
    exact ⟨A.drop, Moves.hold.trans A.drop_moves⟩

theorem swapDevice_ok (R : Ready W h (ext + one n)) :
    Accounted (swapDevice W h n).2 (ext + one (swapDevice W h n).1)
      ∧ Moves W h (swapDevice W h n).2 := by
  rw [swapDevice]
  split
  · exact ⟨R.toAccounted, .refl⟩
  split
  · cases hd : W.device _ with
    | none => exact ⟨R.toAccounted, .refl⟩
    | some d =>
      dsimp only
      split
      · exact ⟨R.toAccounted, .refl⟩
      have A := R.hold (R.device _ d hd)
      rw [add_right_comm] at A
      exact ⟨A.drop, Moves.hold.trans A.drop_moves⟩
  · exact ⟨R.toAccounted, .refl⟩

/-! ## The walk -/

/-- A walk from `h` ends with one ref more on what it found, or with none. -/
structure Outcome (W : World Obj) (h : Heap Obj) (ext : Nat → Nat)
    (r : Except Errno Nat × Heap Obj) : Prop where
  moves : Moves W h r.2
  ok : ∀ n, r.1 = .ok n → Accounted r.2 (ext + one n)
  error : ∀ e, r.1 = .error e → Accounted r.2 ext

theorem Outcome.of_ok {r : Nat} {h' : Heap Obj} (A : Accounted h' (ext + one r))
    (M : Moves W h h') :
    Outcome W h ext (.ok r, h') where
  moves := M
  ok := by
    intro n hn
    obtain rfl := Except.ok.inj hn
    exact A
  error := nofun

theorem Outcome.of_error {e : Errno} {h' : Heap Obj} (A : Accounted h' ext) (M : Moves W h h') :
    Outcome W h ext (.error e, h') where
  moves := M
  ok := nofun
  error := fun _ _ => A

/-- The walk further down that follows a link, as the loop needs it. -/
def Follows (W : World Obj) (follow : Follow Obj) : Prop :=
  ∀ h ext dir link, Ready W h ext → h.Live dir → h.Live link → Outcome W h ext (follow h dir link)

theorem walkLoop_ok {follow : Follow Obj} {followLast : Bool} (hfollow : Follows W follow)
    (R₀ : Ready W h₀ ext₀) (steps : List (Name × Bool)) (M : Moves W h₀ h)
    (A : Accounted h (ext₀ + one n)) :
    Outcome W h₀ ext₀ (walkLoop W follow followLast steps h n) := by
  have hready : ∀ {h' : Heap Obj} {ext' : Nat → Nat}, Moves W h₀ h' → Accounted h' ext' →
      (∀ m, m ≠ vfsRoot → ext₀ m ≤ ext' m) → Ready W h' ext' :=
    fun M => R₀.along (M.frame R₀.toSound)
  induction steps generalizing h n with
  | nil =>
    have R := hready M A (by simp)
    obtain ⟨A', M'⟩ := swapDevice_ok R
    exact .of_ok A' (M.trans M')
  | cons step rest ih =>
    obtain ⟨comp, more⟩ := step
    rw [walkLoop]
    split
    · exact ih M A
    split
    · -- `..`
      cases hp : (h.node n).bind (·.parent) with
      | none => exact ih M A
      | some up =>
        obtain ⟨x, hx, hup⟩ := bind_eq_some_iff.mp hp
        have A' := A.hold (A.tied n x up hx hup).2.2
        rw [add_right_comm] at A'
        exact ih (M.trans (Moves.hold.trans A'.drop_moves)) A'.drop
    obtain ⟨x, hx⟩ := A.live
    simp only [hx]
    split
    · exact .of_error A.drop (M.trans A.drop_moves)
    have R := hready M A (by simp)
    cases he : walkEntry W h n x.obj comp with
    | none => exact .of_error A.drop (M.trans A.drop_moves)
    | some r =>
      obtain ⟨next, h₁⟩ := r
      obtain ⟨A₁, M₁⟩ := walkEntry_ok R hx he
      have M₁ := M.trans M₁
      dsimp only
      split
      · -- a link: the walk below owns nothing of ours
        have R₁ := hready M₁ A₁ (by simp only [Pi.add_apply]; omega)
        have hdir : h₁.Live n := by
          rw [add_right_comm] at A₁
          exact A₁.live
        have O := hfollow h₁ _ n next R₁ hdir A₁.live
        cases hr : follow h₁ n next with
        | mk res h₂ =>
          rw [hr] at O
          have M₂ := M₁.trans O.moves
          cases res with
          | error e =>
            have A₂ := O.error e rfl
            have A₃ := A₂.drop
            exact .of_error A₃.drop ((M₂.trans A₂.drop_moves).trans A₃.drop_moves)
          | ok dest =>
            have A₂ := O.ok dest rfl
            rw [add_right_comm] at A₂
            have M₃ := M₂.trans A₂.drop_moves
            have A₃ := A₂.drop
            have R₃ := hready M₃ A₃ (by simp only [Pi.add_apply]; omega)
            obtain ⟨A₄, M₄⟩ := crossMount_ok R₃
            have M₄ := M₃.trans M₄
            rw [add_right_comm] at A₄
            exact ih (M₄.trans A₄.drop_moves) A₄.drop
      · have R₁ := hready M₁ A₁ (by simp only [Pi.add_apply]; omega)
        obtain ⟨A₂, M₂⟩ := crossMount_ok R₁
        have M₂ := M₁.trans M₂
        rw [add_right_comm] at A₂
        exact ih (M₂.trans A₂.drop_moves) A₂.drop

theorem vfsFollow_ok {walk : Nat → Name → Heap Obj → Except Errno Nat × Heap Obj}
    (hwalk : ∀ h ext start path, Ready W h ext → h.Live start →
      Outcome W h ext (walk start path h)) : Follows W (vfsFollow W walk) := by
  intro h ext dir link R hdir _
  rw [vfsFollow]
  cases (h.node link).bind fun x => W.readlink x.obj with
  | none => exact .of_error R.toAccounted .refl
  | some t =>
    cases t with
    | error e => exact .of_error R.toAccounted .refl
    | ok target =>
      dsimp only
      split
      · exact .of_error R.toAccounted .refl
      refine hwalk h ext _ _ R ?_
      split
      · exact R.root
      · exact hdir

/-- A walk with any number of links to go. -/
theorem walkFrom_ok {links : Nat} {followLast : Bool} {start : Nat} {path : Name}
    (R : Ready W h ext) (hs : h.Live start) :
    Outcome W h ext (walkFrom W links followLast start path h) := by
  induction links generalizing h ext followLast start path with
  | zero =>
    refine walkLoop_ok ?_ R _ .hold (R.hold hs)
    intro h' ext' _ _ R' _ _
    exact .of_error R'.toAccounted .refl
  | succ links ih =>
    exact walkLoop_ok (vfsFollow_ok fun _ _ _ _ => ih) R _ .hold (R.hold hs)

/-! ## Counts before and after -/

/-- How many inodes are attached below `n` in `h'` and were not in `h`. -/
def attachedSince (h h' : Heap Obj) (n : Nat) : Nat :=
  ((Finset.range h'.next).filter fun m => h'.up m = some n ∧ h.up m ≠ some n).card

theorem Sound.up_eq (S : Sound h) {q : Nat} (hu : h.up m = some q) :
    ∃ x, h.node m = some x ∧ x.parent = some q ∧ x.attached = true ∧ m < h.next := by
  obtain ⟨x, hx, hxu⟩ := bind_eq_some_iff.mp hu
  rw [INode.up] at hxu
  split at hxu
  · next ha => exact ⟨x, hx, hxu, ha, S.bound m x hx⟩
  · cases hxu

/-- Counting over addresses that are not given out yet makes no difference. -/
theorem Sound.kids_eq (S : Sound h) {k : Nat} (hk : h.next ≤ k) (n : Nat) :
    h.kids n = ∑ m ∈ Finset.range k, if h.up m = some n then 1 else 0 := by
  rw [Heap.kids, tally]
  refine Finset.sum_subset (Finset.range_mono hk) ?_
  intro m _ hm
  rw [if_neg]
  intro hu
  obtain ⟨-, -, -, -, hlt⟩ := S.up_eq hu
  exact hm (Finset.mem_range.mpr hlt)

theorem kids_eq_add (S : Sound h) (S' : Sound h') (hle : h.next ≤ h'.next)
    (hkeep : ∀ m, h.up m = some n → h'.up m = some n) :
    h'.kids n = h.kids n + attachedSince h h' n := by
  rw [S.kids_eq hle, S'.kids_eq (Nat.le_refl _), attachedSince, Finset.card_filter,
    ← Finset.sum_add_distrib]
  refine Finset.sum_congr rfl fun m _ => ?_
  by_cases hu : h.up m = some n
  · simp [hu, hkeep m hu]
  · simp [hu]

/-- With the same refs held by others, a heap has no inode that it did not have. -/
theorem Accounted.no_new (A : Accounted h ext) (A' : Accounted h' ext) (F : Frame h h')
    (hn : h'.Live n) : h.Live n := by
  refine A'.live_rec A.root (fun n x' hr hx' ih => ?_) hn
  cases hx : h.node n with
  | some x => exact ⟨x, hx⟩
  | none =>
    have hc := A.count n hr
    rw [count_of_none hx] at hc
    obtain ⟨m, hup⟩ := A'.kid hr hx' (by omega)
    -- an inode below a new one is newer still
    obtain ⟨hlt, -, hm⟩ := ih m hup
    have hnew := (F.new n x' hx' hx).1
    have := A.live_lt hm
    omega

theorem Frame.up_keep (F : Frame h h') (hl : h'.Live m) {q : Nat} (hu : h.up m = some q) :
    h'.up m = some q := by
  obtain ⟨x, hx, hxu⟩ := bind_eq_some_iff.mp hu
  obtain ⟨x', hx'⟩ := hl
  rw [up_of_node hx', F.same m x x' hx hx', ← hxu]
  rfl

/-- A tree a walk may start in: the pointers lead to inodes, every inode attached
below another is in its count, what a file system keeps is attached, and devices
and roots of mounts are inodes. -/
structure Tree (W : World Obj) (h : Heap Obj) : Prop extends Sound h where
  covers : ∀ n, n ≠ vfsRoot → h.kids n ≤ h.count n
  known : ∀ o nm c, W.lookup o nm = .known c → ∃ x, h.node c = some x ∧ x.attached = true
  device : ∀ nm d, W.device nm = some d → h.Live d
  mounted : ∀ n x r, h.node n = some x → x.mounted = some r → h.Live r

/-- What others than inodes hold. -/
def Heap.outside (h : Heap Obj) (n : Nat) : Nat := h.count n - h.kids n

theorem Tree.ready (T : Tree W h) : Ready W h h.outside := { T with
    count := by
      intro n hn
      have := T.covers n hn
      rw [Heap.outside]
      omega }

theorem Ready.tree (R : Ready W h ext) : Tree W h := { R with
    covers := by
      intro n hn
      rw [R.count n hn]
      omega }

theorem Accounted.count_of_more {ext' : Nat → Nat} (A : Accounted h ext) (A' : Accounted h' ext')
    (F : Frame h h') (hle : ∀ n, n ≠ vfsRoot → ext n ≤ ext' n) (hm : m ≠ vfsRoot) :
    h'.count m + ext m = h.count m + ext' m + attachedSince h h' m := by
  have hkids := kids_eq_add (n := m) A.toSound A'.toSound F.next_le (by
    intro q hu
    obtain ⟨x, hx, -⟩ := A.up_eq hu
    exact F.up_keep (A.keeps A' F hle ⟨x, hx⟩) hu)
  have h1 := A.count m hm
  have h2 := A'.count m hm
  omega

theorem Accounted.count_of_same (A : Accounted h ext) (A' : Accounted h' ext)
    (F : Frame h h') (hm : m ≠ vfsRoot) : h'.count m = h.count m := by
  have hc := A.count_of_more A' F (fun _ _ => Nat.le_refl _) hm
  have hzero : attachedSince h h' m = 0 := by
    rw [attachedSince, Finset.card_eq_zero, Finset.filter_eq_empty_iff]
    rintro q - ⟨hu', hu⟩
    obtain ⟨x', hx', -⟩ := A'.up_eq hu'
    obtain ⟨x, hx⟩ := A.no_new A' F ⟨x', hx'⟩
    apply hu
    rw [up_of_node hx, ← hu', up_of_node hx', F.same q x x' hx hx']
    rfl
  omega

theorem dropLoop_next {fuel : Nat} : (dropLoop fuel h n).next = h.next := by
  induction fuel generalizing h n with
  | zero => rfl
  | succ fuel ih =>
    rw [dropLoop]
    split
    · rfl
    split
    · rfl
    split
    · rfl
    split
    · rfl
    split
    · exact free_next
    · rw [ih]
      exact free_next

/-- What `vfs_drop` leaves of the counts: the ref that was dropped goes, and with
every inode that is freed its ref on the directory above. -/
theorem Accounted.count_of_drop (W : World Obj) (A : Accounted h (ext + one n)) (hm : m ≠ vfsRoot) :
    (vfsDrop h n).count m + one n m + attachedSince (vfsDrop h n) h m = h.count m := by
  have F := (A.drop_moves (W := W)).frame A.toSound
  have A' := A.drop
  have hnext : (vfsDrop h n).next = h.next := dropLoop_next
  have hkids := kids_eq_add (n := m) A'.toSound A.toSound (Nat.le_of_eq hnext) (by
    intro q hu
    obtain ⟨x', hx', -, -, hlt⟩ := A'.up_eq hu
    cases hx : h.node q with
    | none =>
      have := (F.new q x' hx' hx).1
      omega
    | some x =>
      rw [up_of_node hx, ← hu, up_of_node hx', F.same q x x' hx hx']
      rfl)
  have h1 := A.count m hm
  have h2 := A'.count m hm
  simp only [Pi.add_apply] at h1
  omega

/-- A walk over any tree and any path comes back: with one ref more on the inode
it found, and for the rest a ref on every directory that an inode was newly
attached below; or with every count as it was. What it leaves is again a tree.
And `vfs_drop` of a ref that is held comes back too, takes one from the count of
the inode and one from a directory for each inode below it that goes, and frees
those and only those with nothing left. -/
theorem vfsWalk_balanced (T : Tree W h) (followLast : Bool) (start : Option Nat) (path : Name)
    (hstart : ∀ n, start = some n → h.Live n) :
    (∀ n, (vfsWalk W followLast start path h).1 = .ok n →
        (vfsWalk W followLast start path h).2.Live n ∧
        ∀ m, m ≠ vfsRoot → (vfsWalk W followLast start path h).2.count m
          = h.count m + one n m + attachedSince h (vfsWalk W followLast start path h).2 m) ∧
    (∀ e, (vfsWalk W followLast start path h).1 = .error e →
        ∀ m, m ≠ vfsRoot → (vfsWalk W followLast start path h).2.count m = h.count m) ∧
    (∀ n, h.Live n → (vfsWalk W followLast start path h).2.Live n) ∧
    Tree W (vfsWalk W followLast start path h).2 ∧
    (∀ n, n ≠ vfsRoot → h.kids n < h.count n →
      (∀ fuel, n < fuel → dropLoop fuel h n = vfsDrop h n) ∧
      ∀ m, m ≠ vfsRoot →
        (vfsDrop h n).count m + one n m + attachedSince (vfsDrop h n) h m = h.count m ∧
        ((vfsDrop h n).Live m ↔ one n m + attachedSince (vfsDrop h n) h m < h.count m)) := by
  have R := T.ready
  have O : Outcome W h h.outside (vfsWalk W followLast start path h) := by
    cases start with
    | none => exact .of_error R.toAccounted .refl
    | some s => exact walkFrom_ok R (hstart s rfl)
  have F := O.moves.frame R.toSound
  have hmore : ∀ n m, m ≠ vfsRoot → h.outside m ≤ (h.outside + one n) m :=
    fun n m _ => Nat.le_add_right _ _
  refine ⟨?_, ?_, ?_, ?_, ?_⟩
  · intro n hn
    have A := O.ok n hn
    refine ⟨A.live, fun m hm => ?_⟩
    have := R.count_of_more A F (hmore n) hm
    simp only [Pi.add_apply] at this
    omega
  · intro e he m hm
    exact R.count_of_same (O.error e he) F hm
  · intro n hn
    cases hr : (vfsWalk W followLast start path h).1 with
    | error e => exact R.keeps (O.error e hr) F (fun _ _ => Nat.le_refl _) hn
    | ok r => exact R.keeps (O.ok r hr) F (hmore r) hn
  · cases hr : (vfsWalk W followLast start path h).1 with
    | error e => exact (R.along F (O.error e hr) fun _ _ => Nat.le_refl _).tree
    | ok r => exact (R.along F (O.ok r hr) (hmore r)).tree
  · intro n hn hlt
    -- the ref to drop is one that no inode below accounts for
    have A : Accounted h ((fun m => h.outside m - one n m) + one n) := by
      refine R.congr fun m _ => ?_
      by_cases hmn : m = n
      · subst hmn
        simp only [Pi.add_apply, one_self, Heap.outside]
        omega
      · simp [one_of_ne hmn]
    refine ⟨fun fuel hf => dropLoop_enough hf A, fun m hm => ?_⟩
    have hc := A.count_of_drop W hm
    have hlive : (vfsDrop h n).Live m ↔ 0 < (vfsDrop h n).count m := by
      constructor
      · rintro ⟨x, hx⟩
        rw [count_of_node hx]
        exact A.drop.held m x hx hm
      · intro hpos
        cases hx : (vfsDrop h n).node m with
        | some x => exact ⟨x, hx⟩
        | none =>
          rw [count_of_none hx] at hpos
          omega
    rw [hlive]
    omega

/-- A volume of directories in directories, under a root that knows none of them. -/
def bareWorld : World Unit where
  hash := fun _ name => name.length
  lookup := fun _ name => .fresh .directory true () name
  readlink := fun _ => none
  device := fun _ => none

/-- The root alone. -/
def bareHeap : Heap Unit where
  node := fun n => if n = 0 then some { type := .directory, lookup := true, obj := () } else none

theorem bareHeap_tree : Tree bareWorld bareHeap := by
  have hroot : ∀ n x, bareHeap.node n = some x →
      n = 0 ∧ x = { type := .directory, lookup := true, obj := () } := by
    intro n x hx
    simp only [bareHeap] at hx
    split at hx
    · next hn => exact ⟨hn, (some.inj hx).symm⟩
    · exact nomatch hx
  refine
    { root := ⟨_, rfl⟩, bound := ?_, held := ?_, tied := ?_, cached := nofun
      nodup := fun _ => List.nodup_nil, covers := ?_, known := nofun, device := nofun
      mounted := ?_ }
  · intro n x hx
    rw [(hroot n x hx).1]
    decide
  · intro n x hx hr
    exact absurd (hroot n x hx).1 hr
  · intro n x p hx hp
    rw [(hroot n x hx).2] at hp
    exact nomatch hp
  · intro n _
    have hk : bareHeap.kids n = 0 := tally_eq_zero fun m hm => by
      have : m = 0 := by
        have := Finset.mem_range.mp hm
        simp only [bareHeap] at this
        omega
      subst this
      rfl
    omega
  · intro n x r hx hr
    rw [(hroot n x hx).2] at hr
    exact nomatch hr

/-- A path of two names that nobody looked up before: both inodes are new, the
caller holds the second and the second holds the first. -/
theorem vfsWalk_balanced_two_names :
    (vfsWalk bareWorld true (some 0) [97, 47, 98] bareHeap).1 = .ok 2 ∧
    (vfsWalk bareWorld true (some 0) [97, 47, 98] bareHeap).2.count 1 = bareHeap.count 1 + one 2 1
        + attachedSince bareHeap (vfsWalk bareWorld true (some 0) [97, 47, 98] bareHeap).2 1 :=
  ⟨rfl, ((vfsWalk_balanced bareHeap_tree true (some 0) [97, 47, 98] (by
      intro n hn
      obtain rfl := some.inj hn
      exact ⟨_, rfl⟩)).1 2 rfl).2 1 (by decide)⟩

end BleedKernel.Dentry
