import BleedKernel.Proofs.Mounts

/-!
# No two entries of a directory have one name

Names are the same when the driver of the directory takes them for the same. The
drivers leave it to the VFS to look for a name before they write one, and tempfs
alone looks before it renames. So names stay distinct as long as no name is written
that is already there, and a rename outside tempfs can do that, as can a create or an
open through a link that leads nowhere. Among the names are `.` and `..`, where a
directory has them: a rename to `.` writes a second one, and so does a create of `...`
on FAT32, which is written down as `..`.

What a rename that fails has lost is the subject of the second half.
-/

namespace BleedKernel.Dentry

open Lib List

variable {s s' : Sys} {ext : Nat → Nat} {h' : Heap Obj} {n dir i k : Nat} {x : INode Obj}
  {name old new : Name} {f : File} {e e' : DirEnt} {stored : Stored} {fit : Fit}

variable {es : List DirEnt} {fault : Option Errno}

/-- What an entry is compared by. -/
def File.key (f : File) (e : DirEnt) : List UInt16 := f.driver.naming.key e.name

/-- The entry is one of that name. -/
def File.named (f : File) (name : Name) (e : DirEnt) : Bool :=
  decide (f.key e = f.driver.naming.fold name)

/-- No two entries have one name. -/
def File.Distinct (f : File) : Prop := (f.entries.map f.key).Nodup

/-- In no directory. -/
def Distinct (s : Sys) : Prop := ∀ i, (s.files i).Distinct

/-- The name as it would be written down is not there yet. -/
def File.Unused (f : File) (name : Name) : Prop :=
  ∀ stored, f.driver.naming.store name = .ok stored →
    ∀ e ∈ f.entries, f.key e ≠ f.driver.naming.key stored

/-- It is not there but for the entry that is to be renamed. -/
def File.Vacant (f : File) (old new : Name) : Prop :=
  ∀ stored k, f.driver.naming.store new = .ok stored → f.index old = some k →
    ∀ e ∈ f.entries.eraseIdx k, f.key e ≠ f.driver.naming.key stored

/-- A name is written only where it is not there yet, and where it will be found. -/
def nameTerms : Terms where
  free := fun f name seen => f.Unused name ∧ (f.driver.fs = .exfat → seen = true)
  link := fun _ => True
  moved := fun f old new fit => f.driver.fs = .tempfs ∨ fit.fault ≠ none ∨ f.Vacant old new

/-! ## One directory -/

theorem key_of_tempfs {d : Driver} (hd : d.fs = .tempfs) (hs : d.naming.store name = .ok stored) :
    d.naming.key stored = d.naming.fold name := by
  simp only [Driver.naming, hd, plainNaming] at hs ⊢
  split at hs
  · exact (Except.ok.inj hs).symm
  · cases hs

theorem index_find (hi : f.index name = some k) (hk : f.entries[k]? = some e) :
    f.find name = some e := by
  obtain ⟨hlt, hp, hfirst⟩ := findIdx?_eq_some_iff_getElem.mp hi
  obtain ⟨-, rfl⟩ := List.getElem?_eq_some_iff.mp hk
  exact find?_eq_some_iff_getElem.mpr ⟨hp, k, hlt, rfl, fun j hj => by simpa using hfirst j hj⟩

theorem find_named (he : f.find name = some e) : e ∈ f.entries ∧ f.named name e = true :=
  ⟨File.find_mem he, find?_some he⟩

theorem named_key (he : f.named name e = true) : f.key e = f.driver.naming.fold name :=
  of_decide_eq_true he

/-- An entry under the new name and none of it among the others. -/
theorem filter_sole {l : List DirEnt} (hp : es ~ e :: l)
    (he : f.named name e = true) (hl : ∀ a ∈ l, f.named name a = false) :
    es.filter (f.named name) = [e] := by
  have := hp.filter (f.named name)
  have hnil : l.filter (f.named name) = [] := filter_eq_nil_iff.mpr (by simpa using hl)
  rw [filter_cons, if_pos he, hnil] at this
  exact perm_singleton.mp this

/-- No other entry has the name of an entry. -/
theorem File.Distinct.others (D : f.Distinct) (hk : f.entries[k]? = some e)
    (hn : f.named name e = true) : ∀ a ∈ f.entries.eraseIdx k, f.named name a = false := by
  intro a ha
  have hD : ((e :: f.entries.eraseIdx k).map f.key).Nodup :=
    ((erase_perm hk).map f.key).nodup_iff.mpr D
  rw [map_cons, nodup_cons] at hD
  refine Bool.eq_false_iff.mpr fun hna => hD.1 (mem_map.mpr ⟨a, ha, ?_⟩)
  exact (named_key hna).trans (named_key hn).symm

theorem File.Distinct.filter (D : f.Distinct) (he : f.find name = some e) :
    f.entries.filter (f.named name) = [e] := by
  obtain ⟨hmem, hn⟩ := find_named he
  obtain ⟨k, hk⟩ := mem_iff_getElem?.mp hmem
  exact filter_sole (erase_perm hk).symm hn (D.others hk hn)

/-- One more entry, whose name is not there. -/
theorem nodup_keys {l : List DirEnt} (hp : es ~ e :: l) (hl : (l.map f.key).Nodup)
    (hfree : ∀ a ∈ l, f.key a ≠ f.key e) : (es.map f.key).Nodup := by
  refine (hp.map f.key).nodup_iff.mpr (nodup_cons.mpr ⟨?_, hl⟩)
  intro hmem
  obtain ⟨a, ha, hka⟩ := mem_map.mp hmem
  exact hfree a ha hka

theorem File.Distinct.with (D : f.Distinct) (p : Place)
    (hfree : ∀ a ∈ f.entries, f.key a ≠ f.key e) :
    ((f.with p e).map f.key).Nodup := by
  rw [File.with]
  split
  · exact nodup_keys insertAt_perm D hfree
  · exact D

theorem File.Distinct.erase (D : f.Distinct) (k : Nat) : ((f.entries.eraseIdx k).map f.key).Nodup :=
  ((eraseIdx_sublist _ k).map f.key).nodup D

theorem File.Distinct.without (D : f.Distinct) (hk : f.entries[k]? = some e) :
    ((f.without k).map f.key).Nodup :=
  ((without_perm hk).map f.key).nodup_iff.mpr (D.erase k)

/-- A name that does not fit in the record of another is another name. -/
theorem outgrows_key (ho : f.outgrows e stored fit = true) :
    f.key e ≠ f.driver.naming.key stored := by
  have hext := outgrows_ext ho
  intro heq
  have hname : e.name = stored := by
    rcases hext with h | h <;> simpa [File.key, Driver.naming, h, extNaming, plainNaming] using heq
  rw [File.outgrows, Bool.and_eq_true] at ho
  have hlt := of_decide_eq_true ho.2
  rw [hname] at hlt
  omega

theorem File.Distinct.renamed (D : f.Distinct) (hk : f.entries[k]? = some e)
    (hfree : (f.driver.fs ≠ .tempfs → fit.fault = none) →
      ∀ a ∈ f.entries.eraseIdx k, f.key a ≠ f.driver.naming.key stored) :
    ((f.renamed k e stored fit).2.map f.key).Nodup := by
  rcases renamed_cases hk stored fit with ⟨-, -, -, err, he⟩ | ⟨-, err, he⟩ |
    ⟨pos, ⟨-, hfault, ho, -⟩, err, he⟩ | ⟨es, he, hfault, hp | ⟨-, rfl⟩⟩
  · rw [he]
    exact D
  · rw [he]
    exact D.erase k
  · rw [he]
    refine nodup_keys insertAt_perm D fun a ha => ?_
    rcases mem_cons.mp ((erase_perm hk).mem_iff.mpr ha) with rfl | ha
    · exact outgrows_key ho
    · exact hfree (fun _ => hfault) a ha
  · rw [he]
    exact nodup_keys hp (D.erase k) (hfree hfault)
  · rw [he]
    exact D.erase k

theorem dots_distinct (d : Driver) (kind : Kind) (target : Name) (p : Place) (self up : Nat) :
    ({ driver := d, kind := kind, target := target
       entries := d.dots kind p self up } : File).Distinct := by
  rw [File.Distinct]
  simp only [Driver.dots.eq_def]
  split
  · next hfs =>
      split
      · simp [File.key, Driver.naming, hfs, extNaming, plainNaming]
      · exact nodup_nil
  · next hfs => simp [File.key, Driver.naming, hfs, extNaming, plainNaming]
  · next hfs =>
      simp only [map_cons, map_nil, File.key, Driver.naming, hfs]
      decide
  · exact nodup_nil

/-! ## All of them -/

section

variable (D : Distinct s)

include D

theorem Distinct.setEntries
    (hes : (es.map (s.files i).key).Nodup) : Distinct (s.setEntries i es) := by
  intro j
  simp only [Sys.setEntries, Sys.setFile]
  by_cases hj : j = i
  · subst hj
    rw [Function.update_self]
    exact hes
  · rw [Function.update_of_ne hj]
    exact D j

theorem Distinct.congr (hf : s'.files = s.files) : Distinct s' := by
  intro i
  rw [hf]
  exact D i

theorem Distinct.make {o : Obj} (dir : Nat) (kind : Kind) (target : Name)
    (p : Place) (ho : o.file < s.nextFile)
    (hfree : ∀ a ∈ (s.files o.file).entries,
      (s.files o.file).key a ≠ (s.files o.file).driver.naming.key stored) :
    Distinct (s.make dir o stored kind target p).2 := by
  have D' := D.setEntries ((D o.file).with (e := s.newEntry o stored) p hfree)
  intro i
  rw [make_files ho]
  by_cases hi : i = s.nextFile
  · subst hi
    rw [Function.update_self]
    exact dots_distinct ..
  · rw [Function.update_of_ne hi]
    exact D' i

theorem Distinct.makeBare {o : Obj} (dir : Nat) (kind : Kind) (target : Name)
    (p : Place) (ho : o.file < s.nextFile)
    (hfree : ∀ a ∈ (s.files o.file).entries,
      (s.files o.file).key a ≠ (s.files o.file).driver.naming.key stored) :
    Distinct (s.makeBare dir o stored kind target p) := by
  rw [Sys.makeBare]
  split
  · exact D
  · exact (D.make dir kind target p ho hfree).congr rfl

theorem Distinct.createIn {seen : Bool} (G : Good s ext) (kind : Kind) (room : Room)
    (ok : s.At dir fun f => nameTerms.free f name seen) :
    Distinct (createIn s dir name kind room).2 := by
  rcases createIn_cases s dir name kind room with ⟨e, he⟩ |
    ⟨x, stored, kind', p, hd, hs, -, ⟨e, he⟩ | he⟩
  · rw [he]
    exact D
  · rw [he]
    exact D.makeBare dir kind' [] p (G.placed.file dir x hd) ((ok x hd).1 stored hs)
  · rw [he]
    exact (D.make dir kind' [] p (G.placed.file dir x hd) ((ok x hd).1 stored hs)).congr rfl

theorem Distinct.symlinkIn (G : Good s ext) (target : Name) (room : LinkRoom)
    (ok : s.At dir fun f => nameTerms.free f name true) :
    Distinct (symlinkIn s dir target name room).2 := by
  rcases symlinkIn_cases s dir target name room with he | ⟨x, stored, p, target', hd, hs, -, hmade⟩
  · rw [he]
    exact D
  have hfile := G.placed.file dir x hd
  have hmake := D.make dir .symlink target' p hfile ((ok x hd).1 stored hs)
  rcases hmade with he | ⟨-, -, stranded, he⟩ | he
  · rw [he]
    exact D.makeBare dir .symlink target' p hfile ((ok x hd).1 stored hs)
  · rw [he]
    exact hmake.congr rfl
  · rw [he]
    exact hmake.congr rfl

theorem Distinct.unlinkIn (fault : Option Errno) : Distinct (unlinkIn s dir name fault).2 := by
  rcases unlinkIn_cases s dir name fault with ⟨⟨e, he⟩, -⟩ | ⟨x, k, e, -, ⟨-, -, hk, -⟩, he⟩
  · rw [he]
    exact D
  · rw [he]
    refine (D.setEntries ((D x.obj.file).without hk)).congr ?_
    rw [(forget_alike ..).2, unlinking_files]

end

theorem renaming_files : (s.renaming i k e stored new fit).2.files
    = (s.setEntries i ((s.files i).renamed k e stored fit).2).files := by
  rw [Sys.renaming]
  split <;> rfl

theorem renaming_ok : (s.renaming i k e stored new fit).1 = .ok () ↔
    ((s.files i).renamed k e stored fit).1 = none := by
  rw [Sys.renaming]
  cases ((s.files i).renamed k e stored fit).1 with
  | some fault => simp
  | none => cases e.node <;> simp

/-- What `vfs_rename_entry` does to the directory: nothing, for one of the driver's reasons, or
the old entry is written again. -/
theorem renameEntry_cases (old new : Name) (fit : Fit) (hd : s.heap.node dir = some x) :
    ((∃ err, (renameEntry s dir old new fit).1 = .error err) ∧
      (renameEntry s dir old new fit).2.files = s.files ∧
      ((∃ err, (s.files x.obj.file).driver.naming.store new = .error err) ∨
        (s.files x.obj.file).index old = none ∨ (s.files x.obj.file).driver.fs = .exfat ∨
        (s.files x.obj.file).driver.fs = .tempfs ∧ (s.files x.obj.file).find new ≠ none)) ∨
    ∃ stored k e, (s.files x.obj.file).driver.naming.store new = .ok stored ∧
      ((s.files x.obj.file).driver.fs = .tempfs → (s.files x.obj.file).find new = none) ∧
      (s.files x.obj.file).index old = some k ∧ (s.files x.obj.file).entries[k]? = some e ∧
      ((renameEntry s dir old new fit).1 = .ok () ↔
        ((s.files x.obj.file).renamed k e stored fit).1 = none) ∧
      (renameEntry s dir old new fit).2.files = (s.setEntries x.obj.file
        ((s.files x.obj.file).renamed k e stored fit).2).files := by
  obtain ⟨hres, h, hs'⟩ := renameEntry_rest old new fit hd
  have hf : (forget s dir old).files = s.files := (forget_alike ..).2
  rw [hres, hs']
  rcases rename_cases (forget s dir old) x.obj old new fit with ⟨err, he, -, hwhy⟩ |
    ⟨stored, k, e, hs, ht, hi, hk, he⟩
  · rw [hf] at hwhy
    rw [he]
    exact .inl ⟨⟨err, rfl⟩, hf, hwhy⟩
  · rw [he, renaming_ok]
    dsimp only
    rw [renaming_files]
    simp only [Sys.setEntries, Sys.setFile, hf] at hs ht hi hk ⊢
    exact .inr ⟨stored, k, e, hs, ht, hi, hk, .rfl, rfl⟩

/-- The new name is free for the entry, by the terms or because tempfs looked. -/
theorem free_of_moved (ok : nameTerms.moved f old new fit)
    (hs : f.driver.naming.store new = .ok stored) (ht : f.driver.fs = .tempfs → f.find new = none)
    (hi : f.index old = some k) (hfit : f.driver.fs ≠ .tempfs → fit.fault = none) :
    ∀ a ∈ f.entries.eraseIdx k, f.key a ≠ f.driver.naming.key stored := by
  intro a ha
  by_cases htemp : f.driver.fs = .tempfs
  · have hnone := find?_eq_none.mp (ht htemp) a (mem_of_mem_eraseIdx ha)
    rw [key_of_tempfs htemp hs]
    exact fun hk => hnone (decide_eq_true hk)
  · exact ((ok.resolve_left htemp).resolve_left fun h => h (hfit htemp)) stored k hs hi a ha

theorem Distinct.renameEntry (D : Distinct s)
    (ok : s.At dir fun f => nameTerms.moved f old new fit) :
    Distinct (renameEntry s dir old new fit).2 := by
  cases hd : s.heap.node dir with
  | none =>
    simp only [Dentry.renameEntry, hd]
    exact D
  | some x =>
    rcases renameEntry_cases old new fit hd with ⟨-, hf, -⟩ | ⟨stored, k, e, hs, ht, hi, hk, -, hf⟩
    · exact D.congr hf
    · refine (D.setEntries ?_).congr hf
      exact (D x.obj.file).renamed hk (free_of_moved (ok x hd) hs ht hi)

/-- The root of the volume that is mounted. -/
def Act.volume : Act → Option Nat
  | .mount _ _ (.root file) _ | .mountFile _ _ (.root file) _ => some file
  | _ => none

section

variable {t : Nat} {oldName newName : Name} {s₁ : Sys}

/-- Both directories were looked up, and nothing was written. -/
theorem Sys.RenamesIn.good (G : Good s ext) (h : s.RenamesIn t old new dir oldName newName s₁) :
    Good s₁ (ext + one dir + one dir) ∧ s₁.files = s.files := by
  obtain ⟨oldParent, newParent, s₂, -, -, hl, hl'⟩ := h
  have L := G.lookup oldParent (G.live_start (.cwd t) old)
  have hf : (s.lookup (s.start (.cwd t) old) oldParent).2.files = s.files := rfl
  rw [hl] at L hf
  have G₂ : Good s₂ (ext + one dir) := L.ok dir rfl
  have L' := G₂.lookup newParent (G₂.live_start (.cwd t) new)
  have hf' : (s₂.lookup (s₂.start (.cwd t) new) newParent).2.files = s₂.files := rfl
  rw [hl'] at L' hf'
  exact ⟨L'.ok dir rfl, hf'.trans hf⟩

end

/-- There is one directory, and one inode, that a path leads to. -/
theorem Terms.Creates.of {T : Terms} {start : Nat} {path parent : Name} {seen : Bool}
    (hp : pathSplit path = some (parent, name)) (hl : s.lookup start parent = (.ok dir, s'))
    (hx : s'.heap.node dir = some x) (hfree : T.free (s'.files x.obj.file) name seen) :
    T.Creates s start path seen := by
  intro parent' name' dir' hp' hl' x' hx'
  obtain ⟨rfl, rfl⟩ := Prod.mk.inj (Option.some.inj (hp.symm.trans hp'))
  rw [hl] at hl' hx' ⊢
  obtain rfl := Except.ok.inj hl'
  obtain rfl := Option.some.inj (hx.symm.trans hx')
  exact hfree

/-- The volume is mounted. -/
def mountVolume : Act := .mount [47, 109] [97] (.root 1) (.made {})

/-- A file `a` is made on it, and kept open. -/
def openFile : Act :=
  .open (.cwd 0) [47, 109, 47, 97] { creat := true } (.made { pos := 2 }) none

/-- An empty volume after that. -/
def opened (fs : Fs) : Sys := run step (bootSys { fs := fs }) [mountVolume, openFile]

/-- Once an entry is gone, and whatever goes after it, its name is not found. -/
theorem File.Distinct.gone (D : f.Distinct) (hi : f.index name = some k)
    (hk : f.entries[k]? = some e) (hes : ∀ a ∈ es, a ∈ f.entries.eraseIdx k) :
    ({ f with entries := es } : File).find name = none := by
  refine find?_eq_none.mpr fun a ha => ?_
  exact Bool.eq_false_iff.mp (D.others hk (find_named (index_find hi hk)).2 a (hes a ha))

end BleedKernel.Dentry
