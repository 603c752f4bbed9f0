import BleedKernel.Proofs.InodeHolders

/-!
# A rule for what the calls on names keep

Lookups come before everything a call does to a directory, and refs are dropped
after it. What a property of directories has to survive is therefore little: the few
places where a directory is written. `Keeps` lists these. At each of them a call may
be asked to meet a condition, on the directory and the names in question: `Terms`.

The lookups of the call decide which directory that is. So the condition on the
call, `Terms.Ok`, follows the call up to the place. Each call is then gone through
once: what is in hand after it, and that it keeps what may be kept, is said together,
in `GivesOn` and `Leaves`.
-/

namespace BleedKernel.Dentry

open Lib

variable {s s' : Sys} {ext ext' : Nat → Nat} {n dir start : Nat}
  {path : Name} {I : Sys → Prop}

/-- What is asked of a name that is made or renamed in a directory, and of what the driver
finds for a link. A name that is made goes where a scan comes, or where none does. -/
structure Terms where
  free : File → Name → Bool → Prop
  link : LinkRoom → Prop
  moved : File → Name → Name → Fit → Prop

/-- Something holds of the directory behind an inode. -/
def Sys.At (s : Sys) (dir : Nat) (P : File → Prop) : Prop :=
  ∀ x, s.heap.node dir = some x → P (s.files x.obj.file)

/-- `vfs_create` makes a name that may be made. -/
def Terms.Creates (T : Terms) (s : Sys) (start : Nat) (path : Name) (seen : Bool) : Prop :=
  ∀ parent name dir, pathSplit path = some (parent, name) → (s.lookup start parent).1 = .ok dir →
    (s.lookup start parent).2.At dir fun f => T.free f name seen

/-- It does so when the lookup before it finds nothing. -/
def Terms.CreatesAfter (T : Terms) (r : Except Errno Nat × Sys) (start : Nat) (path : Name)
    (seen : Bool) : Prop :=
  ∀ e, r.1 = .error e → T.Creates r.2 start path seen

/-- A mount makes the directory it is to be on. -/
def Terms.Mounts (T : Terms) (s : Sys) (path : Name) (room : Room) : Prop :=
  T.CreatesAfter (s.lookup vfsRoot path) vfsRoot path room.seen

/-- Both paths of a rename lead to a name in the directory `dir`, and then the state is
`s'`. -/
def Sys.RenamesIn (s : Sys) (t : Nat) (old new : Name) (dir : Nat) (oldName newName : Name)
    (s' : Sys) : Prop :=
  ∃ oldParent newParent s₁, pathSplit old = some (oldParent, oldName) ∧
    pathSplit new = some (newParent, newName) ∧
    s.lookup (s.start (.cwd t) old) oldParent = (.ok dir, s₁) ∧
    s₁.lookup (s₁.start (.cwd t) new) newParent = (.ok dir, s')

/-- Whatever a call does to a directory may be done. -/
def Terms.Ok (T : Terms) (s : Sys) : Act → Prop
  | .open base path fl room _ => fl.creat = true →
      T.CreatesAfter (if fl.nofollow then s.lookupNofollow (s.start base path) path
        else s.lookup (s.start base path) path) (s.start base path) path room.seen
  | .create base path _ room => T.Creates s (s.start base path) path room.seen
  | .mkdir t path room =>
    T.CreatesAfter (s.lookup (s.start (.cwd t) path) path) (s.start (.cwd t) path) path room.seen
  | .symlink base _ path room => T.link room ∧
      T.CreatesAfter (s.lookupNofollow (s.start base path) path) (s.start base path) path true
  | .rename t old new fit _ => ∀ dir oldName newName s',
      s.RenamesIn t old new dir oldName newName s' →
      s'.At dir fun f => T.moved f oldName newName fit
  | .mount path _ _ room => T.Mounts s path room
  | .mountFile path file _ room => ∀ n, (s.lookup vfsRoot file).1 = .ok n →
      T.Mounts (s.lookup vfsRoot file).2 path room
  | _ => True

/-- A rename may be done again once the name that was taken is gone. -/
def Terms.Again (T : Terms) : Prop :=
  ∀ {f old new fit} es, f.driver.fs = .tempfs →
    T.moved f old new fit → T.moved { f with entries := es } old new fit

/-- Nothing is asked. -/
def Terms.any : Terms where
  free := fun _ _ _ => True
  link := fun _ => True
  moved := fun _ _ _ _ => True

theorem Terms.any_ok (a : Act) : Terms.any.Ok s a := by
  cases a <;> simp [Terms.Ok, Terms.any, Terms.Creates, Terms.CreatesAfter, Terms.Mounts, Sys.At]

/-- Kept while names are made that may be. What is in memory, who holds refs and what is
mounted does not matter, but for inodes that are stranded. -/
structure Makes (free : File → Name → Bool → Prop) (I : Sys → Prop) : Prop where
  same : ∀ {s s' : Sys}, I s → s'.files = s.files → s'.stranded = s.stranded → I s'
  create : ∀ {s ext dir name} kind room, Good s ext → I s →
    s.At dir (fun f => free f name room.seen) → I (createIn s dir name kind room).2

/-- Kept by all that is ever done to directories. A rename finds its new name taken on
tempfs, and may be done once that name is gone. -/
structure Keeps (T : Terms) (I : Sys → Prop) : Prop extends Makes T.free I where
  symlink : ∀ {s ext dir name} target room, Good s ext → I s → T.link room →
    s.At dir (fun f => T.free f name true) → I (symlinkIn s dir target name room).2
  unlink : ∀ {s dir name} fault, I s → I (unlinkIn s dir name fault).2
  rename : ∀ {s dir old new fit}, I s → s.At dir (fun f => T.moved f old new fit) →
    I (renameEntry s dir old new fit).2
  again : T.Again

/-! ## Lookups and refs -/

/-- A call that hands back a ref when it succeeds, and keeps what is kept while names
are made. -/
structure GivesOn (T : Terms) (s : Sys) (ext : Nat → Nat) (r : Except Errno Nat × Sys) : Prop
    extends Gives s ext r where
  kept : ∀ {I}, Makes T.free I → I s → I r.2

/-- The mount table and the device list. -/
def Sys.tables (s : Sys) : List Mount × List (Name × Nat) := (s.mounts, s.devices)

/-- A call that leaves the tables alone, has in the end in hand what is said, and keeps
what is kept on the terms. -/
structure Leaves (T : Terms) (s : Sys) (ext : Nat → Nat) (s' : Sys) : Prop where
  good : Good s' ext
  tables : s'.tables = s.tables
  kept : ∀ {I}, Keeps T I → I s → I s'

theorem Makes.drop {free : File → Name → Bool → Prop} (K : Makes free I) (h : I s) :
    I (s.drop n) :=
  K.same h rfl rfl

theorem Good.drop_grows (G : Good s (ext + one n)) : Grows s (s.drop n) := by
  have A := G.acc_hand
  exact .of_frame (A.drop_moves (W := s.world) |>.frame G.acc.toSound)

theorem Gives.start_eq {base : Base} {r : Except Errno Nat × Sys} (g : Gives s ext r) :
    r.2.start base path = s.start base path := by
  simp only [Sys.start, g.grows.cwd, g.grows.held]

section GivesOn

variable {T : Terms} {r : Except Errno Nat × Sys} {e : Errno}

theorem GivesOn.lookup (path : Name) (G : Good s ext) (hs : s.heap.Live start) :
    GivesOn T s ext (s.lookup start path) :=
  ⟨G.lookup path hs, fun K h => K.same h rfl rfl⟩

theorem GivesOn.lookupNofollow (path : Name) (G : Good s ext) (hs : s.heap.Live start) :
    GivesOn T s ext (s.lookupNofollow start path) :=
  ⟨G.lookupNofollow path hs, fun K h => K.same h rfl rfl⟩

theorem GivesOn.of_error (G : Good s ext) : GivesOn T s ext (.error e, s) :=
  ⟨⟨.refl, nofun, fun _ _ => G⟩, fun _ h => h⟩

/-- With the ref of a directory in hand a call is made, and then that ref is dropped. -/
theorem GivesOn.trans_drop {s₁ : Sys} (S : Sound s.heap) (L : GivesOn T s ext (.ok dir, s₁))
    (C : GivesOn T s₁ (ext + one dir) r) : GivesOn T s ext (r.1, r.2.drop dir) := by
  obtain ⟨res, s₂⟩ := r
  have g : Grows s s₂ := L.grows.trans S C.grows
  cases res with
  | error e =>
    have G : Good s₂ (ext + one dir) := C.error e rfl
    exact ⟨⟨g.trans S G.drop_grows, nofun, fun _ _ => G.drop⟩,
      fun K h => K.drop (C.kept K (L.kept K h))⟩
  | ok n =>
    have G : Good s₂ (ext + one dir + one n) := C.ok n rfl
    rw [add_right_comm] at G
    refine ⟨⟨g.trans S G.drop_grows, ?_, nofun⟩, fun K h => K.drop (C.kept K (L.kept K h))⟩
    intro m hm
    obtain rfl := Except.ok.inj hm
    exact G.drop

theorem Leaves.refl (G : Good s ext) : Leaves T s ext s := ⟨G, rfl, fun _ h => h⟩

theorem Leaves.trans {s'' : Sys} (l : Leaves T s ext s') (l' : Leaves T s' ext' s'') :
    Leaves T s ext' s'' :=
  ⟨l'.good, l'.tables.trans l.tables, fun K h => l'.kept K (l.kept K h)⟩

theorem Leaves.drop (l : Leaves T s (ext + one n) s') : Leaves T s ext (s'.drop n) :=
  ⟨l.good.drop, l.tables, fun K h => K.drop (l.kept K h)⟩

/-- Who holds the refs is not kept. -/
theorem Leaves.hand (l : Leaves T s (ext + one n) s') :
    Leaves T s ext { s' with held := n :: s'.held } :=
  ⟨l.good.hand, l.tables, fun K h => K.same (l.kept K h) rfl rfl⟩

theorem Grows.tables (g : Grows s s') : s'.tables = s.tables := by
  rw [Sys.tables, g.mounts, g.devices, Sys.tables]

theorem GivesOn.leaves_ok (g : GivesOn T s ext r) (hr : r.1 = .ok n) :
    Leaves T s (ext + one n) r.2 :=
  ⟨g.ok n hr, g.grows.tables, fun K => g.kept K.toMakes⟩

theorem GivesOn.leaves_error (g : GivesOn T s ext r) (hr : r.1 = .error e) : Leaves T s ext r.2 :=
  ⟨g.error e hr, g.grows.tables, fun K => g.kept K.toMakes⟩

theorem GivesOn.hand (g : GivesOn T s ext r) : Leaves T s ext (Sys.hand r) := by
  obtain ⟨res, s'⟩ := r
  cases res with
  | error e => exact g.leaves_error rfl
  | ok n => exact (g.leaves_ok rfl).hand

end GivesOn

/-! ## The directory behind an inode -/

theorem Sys.At.frame {P : File → Prop} (a : s.At dir P) (F : Frame s.heap s'.heap)
    (hd : s.heap.Live dir) (hf : s'.files = s.files) : s'.At dir P := by
  intro x' hx'
  obtain ⟨x, hx⟩ := hd
  rw [F.same dir x x' hx hx', hf]
  exact a x hx

theorem Sys.At.alike {P : File → Prop} (a : s.At dir P) (L : Alike s.heap s'.heap)
    (hf : s'.files = s.files) : s'.At dir P := by
  intro x' hx'
  obtain ⟨x, hx, hc⟩ := L.of_node hx'
  rw [(core_eq hc).2.2.1, hf]
  exact a x hx

end BleedKernel.Dentry
