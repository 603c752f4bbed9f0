import BleedKernel.Model.Namespace
import Mathlib.Data.List.DropRight

/-!
# Names on FAT32

`fat32_name_to_83` puts a name into eight and three capitals, and `fat32_name_matches`
reads an entry back before it compares. What is read back is shorter than the name where
the name has a NUL, a blank before the dot or at the end, or a dot at the end, so that
such an entry is never found again. Where it is not shorter it is the name.
-/

namespace BleedKernel.Dentry.Fat32

open List

variable {name field : Name} {s : Stored} {c : UInt8}

theorem lower_upper : lower (upper c) = lower c := by
  rcases c with ⟨⟨c⟩⟩
  revert c
  decide +kernel

theorem lower_lower : lower (lower c) = lower c := by
  rcases c with ⟨⟨c⟩⟩
  revert c
  decide +kernel

theorem lower_eq_zero : lower c = 0 ↔ c = 0 := by
  rcases c with ⟨⟨c⟩⟩
  revert c
  decide +kernel

/-- Only letters change. -/
theorem upper_mark : ((upper c).toUInt16 = 0 ↔ c = 0) ∧ ((upper c).toUInt16 = 32 ↔ c = 32) ∧
    ((upper c).toUInt16 = 46 ↔ c = 46) ∧ ((upper c).toUInt16 = 0xE5 ↔ c = 0xE5) := by
  rcases c with ⟨⟨c⟩⟩
  revert c
  decide +kernel

theorem units_injective : Function.Injective units :=
  map_injective_iff.mpr fun a b h => by simpa using congrArg UInt16.toUInt8 h

theorem splitDot_of_mem (h : 46 ∈ name) : name = (splitDot name).1 ++ 46 :: (splitDot name).2 := by
  obtain ⟨p, rest, hrev, hp⟩ := eq_append_cons_of_mem (mem_reverse.mpr h)
  have hpos : ∀ c ∈ p, decide (c ≠ 46) = true := by
    intro c hc
    simpa using ne_of_mem_of_not_mem hc hp
  rw [splitDot, if_pos h, hrev, dropWhile_append_of_pos hpos, takeWhile_append_of_pos hpos]
  simpa using congrArg reverse hrev

theorem splitDot_of_not_mem (h : 46 ∉ name) : splitDot name = (name, []) := if_neg h

/-! ## One field -/

/-- A field that is as long when it is read back. -/
structure Plain (field : Name) : Prop where
  noNul : 0 ∉ field
  noBlank : field.getLast? ≠ some 32

/-- What is read back of a field, with small letters only. -/
def readBack (field : Name) : Name := ((field.rdropWhile (· = 32)).map lower).takeWhile (· ≠ 0)

theorem readBack_start (field : Name) : readBack field <+: field.map lower :=
  (List.takeWhile_prefix _).trans ((List.rdropWhile_prefix _ field).map lower)

theorem rdropWhile_blank : field.rdropWhile (· = 32) = field ↔ field.getLast? ≠ some 32 := by
  cases field using reverseRecOn <;> simp

theorem readBack_eq_iff : readBack field = field.map lower ↔ Plain field := by
  constructor
  · intro h
    have hfield : field.rdropWhile (· = 32) = field := by
      refine (List.rdropWhile_prefix _ field).eq_of_length (Nat.le_antisymm ?_ ?_)
      · exact (List.rdropWhile_prefix _ field).length_le
      · have hle : (readBack field).length ≤ _ := (List.takeWhile_prefix _).length_le
        rwa [h, length_map, length_map] at hle
    rw [readBack, hfield, takeWhile_eq_self_iff] at h
    refine ⟨fun hz => ?_, rdropWhile_blank.mp hfield⟩
    exact absurd (h (lower 0) (mem_map_of_mem hz)) (by decide)
  · intro h
    rw [readBack, rdropWhile_blank.mpr h.noBlank, takeWhile_eq_self_iff]
    intro c hc
    obtain ⟨d, hd, rfl⟩ := mem_map.mp hc
    simpa [lower_eq_zero] using ne_of_mem_of_not_mem hd h.noNul

theorem unpad_padded {n : Nat} : unpad (units (field.map upper ++ replicate n 32)) =
    units ((field.rdropWhile (· = 32)).map upper) := by
  have hblank : (fun c => decide ((upper c).toUInt16 = 32)) = fun c => decide (c = 32) := by
    funext c
    exact decide_eq_decide.mpr upper_mark.2.1
  have hpad : ∀ c ∈ replicate n (UInt8.toUInt16 32), decide (c = 32) = true :=
    fun c hc => decide_eq_true (eq_of_mem_replicate hc)
  simp only [unpad, units, map_append, map_replicate, reverse_append, reverse_replicate]
  rw [dropWhile_append_of_pos hpad, map_map, ← map_reverse, dropWhile_map]
  simp [rdropWhile, Function.comp_def, hblank]

/-- A field as it is put down and read back. -/
theorem text_padded {n : Nat} : (((unpad (units (field.map upper ++ replicate n 32))).map
      fun c => lower c.toUInt8).takeWhile (· ≠ 0)) = readBack field := by
  rw [unpad_padded, units, readBack]
  simp [Function.comp_def, lower_upper]

/-! ## A name -/

/-- A name that is found again. -/
structure Readable (name : Name) : Prop where
  base : Plain (splitDot name).1
  ext : Plain (splitDot name).2
  dot : 46 ∈ name → (splitDot name).2 ≠ []

theorem map_lower_readBack : (readBack field).map lower = readBack field := by
  refine (map_congr_left fun c hc => ?_).trans (map_id _)
  obtain ⟨d, -, rfl⟩ := mem_map.mp ((readBack_start field).subset hc)
  exact lower_lower

/-- What is put down of a name. -/
theorem stored_eq (h : fat32NameTo83 name = some s) : ∃ n m, (splitDot name).1.length + n = 8 ∧
    s = units ((splitDot name).1.map upper ++ replicate n 32) ++
      units ((splitDot name).2.map upper ++ replicate m 32) := by
  simp only [fat32NameTo83] at h
  split at h
  · cases h
  obtain rfl := Option.some.inj h
  exact ⟨_, _, Nat.add_sub_cancel' (by omega), map_append⟩

/-- What is read back of it. -/
theorem key_eq (h : fat32NameTo83 name = some s) :
    fat32Naming.key s = units (readBack (splitDot name).1 ++
      if (splitDot name).2.rdropWhile (· = 32) = [] then []
      else 46 :: readBack (splitDot name).2) := by
  obtain ⟨n, m, hlen, rfl⟩ := stored_eq h
  have hbase : (units ((splitDot name).1.map upper ++ replicate n 32)).length = 8 := by
    simpa [units] using hlen
  simp only [fat32Naming, fat3283ToName]
  rw [take_left' hbase, drop_left' hbase, text_padded, text_padded, unpad_padded]
  split
  · rename_i he
    rw [if_pos (by simpa [units] using he), map_lower_readBack, append_nil]
  · rename_i he
    rw [if_neg (by simpa [units] using he), map_append, map_cons, map_lower_readBack,
      map_lower_readBack]
    rfl

/-- An entry is found under the name it was made with where that is readable. -/
theorem key_eq_fold_iff (h : fat32NameTo83 name = some s) :
    fat32Naming.key s = fat32Naming.fold name ↔ Readable name := by
  have hb := (readBack_start (splitDot name).1).length_le
  have he := (readBack_start (splitDot name).2).length_le
  rw [length_map] at hb he
  rw [key_eq h]
  refine units_injective.eq_iff.trans ?_
  by_cases hdot : 46 ∈ name
  · have hname : name.map lower =
        (splitDot name).1.map lower ++ 46 :: (splitDot name).2.map lower := by
      conv_lhs => rw [splitDot_of_mem hdot, map_append]
      rfl
    rw [hname]
    split
    · rename_i hnil
      constructor
      · intro heq
        have := congrArg length heq
        simp only [length_append, length_nil, length_cons, length_map] at this
        omega
      · intro hr
        rw [rdropWhile_blank.mpr hr.ext.noBlank] at hnil
        exact absurd hnil (hr.dot hdot)
    · rename_i hnil
      constructor
      · intro heq
        have hlen := congrArg length heq
        simp only [length_append, length_cons, length_map] at hlen
        obtain ⟨h1, h2⟩ := append_inj heq (by rw [length_map]; omega)
        refine ⟨readBack_eq_iff.mp h1, readBack_eq_iff.mp (cons.inj h2).2, ?_⟩
        rintro - hext
        exact hnil (by rw [hext]; rfl)
      · intro hr
        rw [readBack_eq_iff.mpr hr.base, readBack_eq_iff.mpr hr.ext]
  · have hs := splitDot_of_not_mem hdot
    simp only [hs, rdropWhile_nil, if_true, append_nil]
    rw [readBack_eq_iff]
    constructor
    · intro hp
      exact ⟨by rwa [hs], by rw [hs]; exact ⟨not_mem_nil, by simp⟩, fun hm => absurd hm hdot⟩
    · intro hr
      simpa only [hs] using hr.base

/-- A name that is found again, and whose entry no scan of a directory leaves out: it does
not look like a free one, nor like those for the directory and its parent. -/
structure Sound (name : Name) : Prop extends Readable name where
  used : (splitDot name).1.head? ≠ some 0xE5
  dots : (splitDot name).1.head? = some 46 →
    ∃ c, (splitDot name).1[1]? = some c ∧ c ≠ 32 ∧ c ≠ 46

theorem scanned_iff (h : fat32NameTo83 name = some s) (hr : Readable name) :
    (fat32Naming.visible s = true ∧ fat32Naming.counts s = true) ↔ Sound name := by
  obtain ⟨n, m, hlen, rfl⟩ := stored_eq h
  have hsound : Sound name ↔ (splitDot name).1.head? ≠ some 0xE5 ∧
      ((splitDot name).1.head? = some 46 → ∃ c, (splitDot name).1[1]? = some c ∧ c ≠ 32 ∧ c ≠ 46) :=
    ⟨fun hs => ⟨hs.used, hs.dots⟩, fun hs => ⟨hr, hs.1, hs.2⟩⟩
  have hnul := hr.base.noNul
  rw [hsound]
  simp only [fat32Naming, decide_eq_true_eq]
  generalize (splitDot name).1 = base at *
  rcases base with _ | ⟨c, _ | ⟨d, rest⟩⟩
  · obtain ⟨n, rfl⟩ : ∃ k, n = k + 1 := ⟨7, by simpa using hlen⟩
    simp [units, replicate_succ]
  · obtain ⟨n, rfl⟩ : ∃ k, n = k + 1 := ⟨6, by simp at hlen; omega⟩
    have hc : c ≠ 0 := fun he => hnul (by rw [he]; exact mem_cons_self)
    simp [units, replicate_succ, upper_mark, hc]
  · have hc : c ≠ 0 := fun he => hnul (by rw [he]; exact mem_cons_self)
    simp [units, upper_mark, hc]

/-! ## What is made is found -/

/-- Names that differ in the case of letters only. -/
def CaseVariant (v name : Name) : Prop := v.map lower = name.map lower

/-- `fat32_create` stores the name of its file so that every scan of the directory sees the
entry and `fat32_lookup` finds it, in whichever case it is asked for, exactly where the name
is `Sound`; and two such names only share an entry's spelling if they differ in case alone. -/
theorem created_is_found (h : fat32Naming.store name = .ok s) :
    ((fat32Naming.visible s = true ∧ fat32Naming.counts s = true ∧
        ∀ v, CaseVariant v name → fat32Naming.key s = fat32Naming.fold v) ↔ Sound name) ∧
      (Sound name → ∀ other t v, fat32Naming.store other = .ok t → Sound other →
        fat32Naming.key s = fat32Naming.fold v → fat32Naming.key t = fat32Naming.fold v →
          CaseVariant other name) := by
  have hto83 : ∀ {name s}, fat32Naming.store name = .ok s → fat32NameTo83 name = some s := by
    intro name s h
    simp only [fat32Naming] at h
    split at h
    · cases h
    · rename_i hs
      rw [hs, Except.ok.inj h]
  have hfold : ∀ {v}, fat32Naming.fold v = fat32Naming.fold name ↔ CaseVariant v name :=
    units_injective.eq_iff
  refine ⟨⟨?_, ?_⟩, ?_⟩
  · rintro ⟨hvis, hcounts, hkey⟩
    have hr := (key_eq_fold_iff (hto83 h)).mp (hkey name rfl)
    exact (scanned_iff (hto83 h) hr).mp ⟨hvis, hcounts⟩
  · intro hs
    obtain ⟨hvis, hcounts⟩ := (scanned_iff (hto83 h) hs.toReadable).mpr hs
    refine ⟨hvis, hcounts, fun v hv => ?_⟩
    rw [hfold.mpr hv]
    exact (key_eq_fold_iff (hto83 h)).mpr hs.toReadable
  · intro hs other t v ht hso h1 h2
    have hname := (key_eq_fold_iff (hto83 h)).mpr hs.toReadable
    have hother := (key_eq_fold_iff (hto83 ht)).mpr hso.toReadable
    rw [h1] at hname
    rw [h2] at hother
    exact hfold.mp (hother.symm.trans hname)

/-- `a.b` is such a name. -/
theorem created_is_found_ab : fat32Naming.key (units [65, 32, 32, 32, 32, 32, 32, 32, 66, 32, 32]) =
    fat32Naming.fold [65, 46, 98] := by
  have hstore : fat32Naming.store [97, 46, 98] = .ok _ := rfl
  refine ((created_is_found hstore).1.mpr ?_).2.2 _ rfl
  refine ⟨⟨⟨by decide, by decide⟩, ⟨by decide, by decide⟩, by decide⟩, by decide, ?_⟩
  exact fun h => absurd h (by decide)

/-- `a.` is stored like `a`, and is not found; a name that begins with 0xE5 is free space. -/
theorem created_is_lost :
    (∃ s, fat32Naming.store [97, 46] = .ok s ∧ fat32Naming.store [97] = .ok s ∧
      fat32Naming.key s ≠ fat32Naming.fold [97, 46] ∧ ¬CaseVariant [97, 46] [97]) ∧
    ∃ s, fat32Naming.store [0xE5] = .ok s ∧ fat32Naming.visible s = false := by
  refine ⟨⟨_, rfl, rfl, by decide, nofun⟩, _, rfl, by decide⟩

end BleedKernel.Dentry.Fat32
