import BleedKernel.Model.TtyOutput

/-!
# What is shown of the bytes written to a tty

How the bytes are cut into writes makes no difference, and well-formed UTF-8 is decoded
as it should be. Other bytes are a different matter. The first byte of a sequence takes
the next ones whatever they are, so a newline or an ESC among them is lost (`C3 0A`), and
an overlong sequence makes a code point below 80 of none (`C0 80`).
-/

namespace BleedKernel.TtyOutput

open Lib List

/-- One byte after the other, once the tty has a window. -/
def shown (u : Utf8) (bytes : List UInt8) : List Shown :=
  trace (fun u b => (ttyRenderByte u b).2) (fun u b => (ttyRenderByte u b).1.toList) u bytes

/-- The code points below 80 that are shown are the bytes below 80, each from that byte. -/
def Exact (bytes : List UInt8) (out : List Shown) : Prop :=
  out.filter (·.codepoint < 0x80) = (bytes.filter (·.toNat < 0x80)).map fun b => ⟨[b], b.toNat⟩

/-- The overlong sequences for a code point below 80. Two bytes are led by C0 or C1; of three
or four the first says nothing, and the next ones give no more than a bit. -/
def Low : List UInt8 → Prop
  | [a, _] => a.toNat = 0xC0 ∨ a.toNat = 0xC1
  | [a, b, _] => a.toNat = 0xE0 ∧ b.toNat &&& 0x3F < 2
  | [a, b, c, _] => a.toNat = 0xF0 ∧ b.toNat &&& 0x3F = 0 ∧ c.toNat &&& 0x3F < 2
  | _ => False

/-- A byte that comes while a sequence is under way is not below 80, and does not make it an
overlong one for a code point below 80. -/
def Fits (u : Utf8) (b : UInt8) : Prop :=
  u.buf ≠ [] → 0x80 ≤ b.toNat ∧ ¬Low (u.buf ++ [b])

variable {u : Utf8} {b : UInt8} {bytes : List UInt8} {t : Tty} {m : Nat}

/-! ## Writes -/

theorem ttyWrites_eq (t : Tty) (writes : List (List UInt8)) :
    ttyWrites t writes = (ttyInodeWrite t writes.flatten).2.1 := by
  induction writes generalizing t with
  | nil => rfl
  | cons w writes ih =>
    refine (congrArg _ (ih _)).trans ?_
    simp only [ttyInodeWrite, flatten_cons, trace_append]

theorem ttyInodeWrite_shown (ht : t.backend = some u)
    (hw : (t.offscreen && t.ownerPid == 0) = false) :
    (ttyInodeWrite t bytes).2.1 = shown u bytes := by
  induction bytes generalizing t u with
  | nil => rfl
  | cons b bytes ih =>
    have hput : ttyFbPutchar t b =
        ((ttyRenderByte u b).1, { t with backend := some (ttyRenderByte u b).2 }) := by
      simp only [ttyFbPutchar, ht, hw]
      rfl
    simp only [ttyInodeWrite, trace, hput]
    exact congrArg _ (ih rfl hw)

theorem ttyInodeWrite_gone (hw : (t.offscreen && t.ownerPid == 0) = true) :
    (ttyInodeWrite t bytes).2.1 = [] := by
  have hput : ∀ b, ttyFbPutchar t b = (none, t) := by
    intro b
    simp only [ttyFbPutchar]
    split
    · rfl
    · rw [if_pos hw]
  induction bytes with
  | nil => rfl
  | cons b bytes ih =>
    simp only [ttyInodeWrite, trace, hput]
    exact ih

/-! ## Well-formed sequences -/

theorem shown_cons : shown u (b :: bytes) =
    (ttyRenderByte u b).1.toList ++ shown (ttyRenderByte u b).2 bytes := rfl

/-- A sequence takes as many bytes as its first byte said, and is decoded. -/
theorem shown_tail {n m : Nat} {tail : List UInt8} (hu : u.buf ≠ []) (ht : tail ≠ [])
    (hn : u.buf.length + tail.length = u.expected) (hd : utf8Decode (u.buf ++ tail) = some (n, m)) :
    shown u (tail ++ bytes) = ⟨u.buf ++ tail, m⟩ :: shown {} bytes := by
  induction tail generalizing u with
  | nil => exact absurd rfl ht
  | cons b tail ih =>
    rw [length_cons] at hn
    rw [cons_append, shown_cons, ttyRenderByte, if_neg hu]
    dsimp only
    rw [length_append, length_singleton]
    cases tail with
    | nil =>
      rw [if_pos (show u.buf.length + 1 = u.expected from hn), hd]
      rfl
    | cons c tail =>
      rw [length_cons] at hn
      rw [if_neg (by omega)]
      have hrest := ih (u := { u with buf := u.buf ++ [b] }) (by simp) (by simp)
        (by simp; omega) (by simpa using hd)
      simpa using hrest

theorem shiftLeft_or {a m k : Nat} (h : m < 2 ^ k) : a <<< k ||| m = a * 2 ^ k + m := by
  rw [Nat.shiftLeft_eq, Nat.mul_comm, ← Nat.two_pow_add_eq_or_of_lt h]

theorem tail_bits : ∀ x < 64, (x + 128) &&& 0x3F = x := by decide

theorem lead_bits : (∀ x < 32, (x + 192) &&& 0xE0 = 0xC0 ∧ (x + 192) &&& 0x1F = x) ∧
    (∀ x < 16, (x + 224) &&& 0xE0 ≠ 0xC0 ∧ (x + 224) &&& 0xF0 = 0xE0 ∧ (x + 224) &&& 0x0F = x) ∧
    ∀ x < 8, (x + 240) &&& 0xE0 ≠ 0xC0 ∧ (x + 240) &&& 0xF0 ≠ 0xE0 ∧ (x + 240) &&& 0xF8 = 0xF0 ∧
      (x + 240) &&& 0x07 = x := by decide

theorem toNat_ofNat {x : Nat} (h : x < 256) : (UInt8.ofNat x).toNat = x := Nat.mod_eq_of_lt h

/-- The bytes of a character are shown as that character, and nothing is under way after. -/
theorem shown_char (c : Char) : shown {} (String.utf8EncodeChar c ++ bytes) =
    ⟨String.utf8EncodeChar c, c.toNat⟩ :: shown {} bytes := by
  have hv : c.val.toNat < 1114112 := by
    have hvalid : c.val.toNat.isValidChar := c.valid
    omega
  rw [show c.toNat = c.val.toNat from rfl]
  simp only [String.utf8EncodeChar]
  generalize c.val.toNat = v at hv
  obtain ⟨two, three, four⟩ := lead_bits
  have tail : ∀ x, (UInt8.ofNat (x % 64 + 128)).toNat &&& 0x3F = x % 64 := by
    intro x
    rw [toNat_ofNat (by omega), tail_bits _ (Nat.mod_lt _ (by decide))]
  split
  · have hb := toNat_ofNat (show v < 256 by omega)
    rw [singleton_append, shown_cons, ttyRenderByte, if_pos rfl, hb, if_pos (by omega)]
    rfl
  split
  · obtain ⟨h1, h2⟩ := two (v / 64 % 32) (by omega)
    have hb := toNat_ofNat (show v / 64 % 32 + 192 < 256 by omega)
    rw [cons_append, shown_cons, ttyRenderByte, if_pos rfl, hb, if_neg (by omega), if_pos h1]
    refine shown_tail (n := 2) (by simp) (by simp) rfl ?_
    simp only [utf8Decode, cons_append, nil_append, getD_cons_zero, getD_cons_succ, hb, tail, h1]
    rw [if_neg (by omega), if_pos trivial, shiftLeft_or (by omega)]
    congr 2
    omega
  split
  · obtain ⟨h0, h1, h2⟩ := three (v / 4096 % 16) (by omega)
    have hb := toNat_ofNat (show v / 4096 % 16 + 224 < 256 by omega)
    rw [cons_append, shown_cons, ttyRenderByte, if_pos rfl, hb, if_neg (by omega), if_neg h0,
      if_pos h1]
    refine shown_tail (n := 3) (by simp) (by simp) rfl ?_
    simp only [utf8Decode, cons_append, nil_append, getD_cons_zero, getD_cons_succ, hb, tail, h1]
    rw [if_neg (by omega), if_neg h0, if_pos trivial, Nat.or_assoc,
      shiftLeft_or (m := v % 64) (by omega), shiftLeft_or (by omega)]
    congr 2
    omega
  · obtain ⟨h0, h0', h1, h2⟩ := four (v / 262144 % 8) (by omega)
    have hb := toNat_ofNat (show v / 262144 % 8 + 240 < 256 by omega)
    rw [cons_append, shown_cons, ttyRenderByte, if_pos rfl, hb, if_neg (by omega), if_neg h0,
      if_neg h0', if_pos h1]
    refine shown_tail (n := 4) (by simp) (by simp) rfl ?_
    simp only [utf8Decode, cons_append, nil_append, getD_cons_zero, getD_cons_succ, hb, tail, h1]
    rw [if_neg (by omega), if_neg h0, if_neg h0', if_pos trivial, Nat.or_assoc, Nat.or_assoc,
      shiftLeft_or (m := v % 64) (by omega), shiftLeft_or (k := 12) (by omega),
      shiftLeft_or (by omega)]
    congr 2
    omega

theorem shown_chars (cs : List Char) :
    (shown {} (cs.flatMap String.utf8EncodeChar)).map (·.codepoint) = cs.map Char.toNat := by
  induction cs with
  | nil => rfl
  | cons c cs ih => rw [flatMap_cons, shown_char, map_cons, map_cons, ih]

/-! ## Other bytes -/

/-- What a byte does: it is shown, it begins a sequence or is dropped, it is taken by the
sequence under way, or it completes it. -/
theorem ttyRenderByte_cases (u : Utf8) (b : UInt8) :
    (u.buf = [] ∧ b.toNat < 0x80 ∧ ttyRenderByte u b = (some ⟨[b], b.toNat⟩, u)) ∨
    (u.buf = [] ∧ 0x80 ≤ b.toNat ∧ (ttyRenderByte u b).1 = none) ∨
    (u.buf ≠ [] ∧ (ttyRenderByte u b).1 = none) ∨
    u.buf ≠ [] ∧ ∃ c, (ttyRenderByte u b).1 = some ⟨u.buf ++ [b], c⟩ := by
  by_cases hu : u.buf = []
  · rw [ttyRenderByte, if_pos hu]
    split
    · next hb => exact .inl ⟨hu, hb, rfl⟩
    rename_i hb
    refine .inr (.inl ⟨hu, Nat.le_of_not_lt hb, ?_⟩)
    split
    · rfl
    split
    · rfl
    split <;> rfl
  · rw [ttyRenderByte, if_neg hu]
    dsimp only
    split
    · exact .inr (.inr (.inr ⟨hu, _, rfl⟩))
    · exact .inr (.inr (.inl ⟨hu, rfl⟩))

/-- No more bytes below 80 are shown than came. -/
theorem shown_low_le (h : ∀ s ∈ (shown u bytes).filter (·.codepoint < 0x80), s.bytes.length = 1) :
    ((shown u bytes).filter (·.codepoint < 0x80)).length
      ≤ (bytes.filter (·.toNat < 0x80)).length := by
  induction bytes generalizing u with
  | nil => exact Nat.le_refl _
  | cons b bytes ih =>
    rw [shown_cons] at h ⊢
    have hle : (bytes.filter (·.toNat < 0x80)).length
        ≤ ((b :: bytes).filter (·.toNat < 0x80)).length :=
      ((sublist_cons_self b bytes).filter _).length_le
    rcases ttyRenderByte_cases u b with ⟨-, hb, hr⟩ | ⟨-, -, hr⟩ | ⟨-, hr⟩ | ⟨hu, c, hr⟩
    · rw [hr] at h ⊢
      have hrest := ih fun s hs => h s (by rw [filter_append]; exact mem_append_right _ hs)
      simpa [hb] using hrest
    · rw [hr] at h ⊢
      exact Nat.le_trans (ih h) hle
    · rw [hr] at h ⊢
      exact Nat.le_trans (ih h) hle
    · rw [hr] at h ⊢
      by_cases hc : c < 0x80
      · have hone := h ⟨u.buf ++ [b], c⟩ (by simp [hc])
        have := length_pos_iff.mpr hu
        rw [length_append, length_singleton] at hone
        omega
      · have hskip : (Option.toList (some (Shown.mk (u.buf ++ [b]) c)) ++
            shown (ttyRenderByte u b).2 bytes).filter (·.codepoint < 0x80)
            = (shown (ttyRenderByte u b).2 bytes).filter (·.codepoint < 0x80) := by
          simp [hc]
        rw [hskip] at h ⊢
        exact Nat.le_trans (ih h) hle

theorem exact_high {out : List Shown} (hb : 0x80 ≤ b.toNat) :
    Exact (b :: bytes) out ↔ Exact bytes out := by
  rw [Exact, filter_cons_of_neg (by simpa using hb), Exact]

theorem Exact.single {out : List Shown} (h : Exact bytes out) :
    ∀ s ∈ out.filter (·.codepoint < 0x80), s.bytes.length = 1 := by
  intro s hs
  rw [h] at hs
  obtain ⟨b, -, rfl⟩ := mem_map.mp hs
  rfl

/-- A byte below 80 that is not shown at once is not made up for. -/
theorem not_exact_of_lost (hb : b.toNat < 0x80) : ¬Exact (b :: bytes) (shown u bytes) := by
  intro h
  have hle := shown_low_le h.single
  have hlen := congrArg length h
  rw [length_map, filter_cons_of_pos (by simpa using hb), length_cons] at hlen
  omega

/-- The byte begins a sequence of that length. -/
def Leads (a : UInt8) (n : Nat) : Prop :=
  n = 2 ∧ a.toNat &&& 0xE0 = 0xC0 ∨ n = 3 ∧ a.toNat &&& 0xF0 = 0xE0 ∨
    n = 4 ∧ a.toNat &&& 0xF8 = 0xF0

/-- The sequence under way is to be as long as its first byte says, and is not there yet. -/
inductive Led : Utf8 → Prop where
  | none {n : Nat} : Led ⟨[], n⟩
  | some {a : UInt8} {tail : List UInt8} {n : Nat} : Leads a n → tail.length + 1 < n →
    Led ⟨a :: tail, n⟩

theorem Led.step (h : Led u) : Led (ttyRenderByte u b).2 := by
  rw [ttyRenderByte]
  split
  · split
    · exact h
    split
    · next hb => exact .some (.inl ⟨rfl, hb⟩) (by simp)
    split
    · next hb => exact .some (.inr (.inl ⟨rfl, hb⟩)) (by simp)
    split
    · next hb => exact .some (.inr (.inr ⟨rfl, hb⟩)) (by simp)
    · exact h
  · rename_i hu
    dsimp only
    split
    · exact .none
    rename_i hlen
    cases h with
    | none => exact absurd rfl hu
    | @some a tail n ha ht =>
      rw [length_append, length_cons, length_singleton] at hlen
      have hmore : (tail ++ [b]).length + 1 < n := by
        rw [length_append, length_singleton]
        exact Nat.lt_of_le_of_ne ht hlen
      exact .some ha hmore

theorem two_low : ∀ a < 256, a &&& 0xE0 = 0xC0 →
    ¬a < 0x80 ∧ (a &&& 0x1F < 2 ↔ a = 0xC0 ∨ a = 0xC1) := by decide +kernel

theorem three_low : ∀ a < 256, a &&& 0xF0 = 0xE0 →
    ¬a < 0x80 ∧ a &&& 0xE0 ≠ 0xC0 ∧ (a &&& 0x0F = 0 ↔ a = 0xE0) := by decide +kernel

theorem four_low : ∀ a < 256, a &&& 0xF8 = 0xF0 →
    ¬a < 0x80 ∧ a &&& 0xE0 ≠ 0xC0 ∧ a &&& 0xF0 ≠ 0xE0 ∧ (a &&& 0x07 = 0 ↔ a = 0xF0) := by decide +kernel

theorem low_bits (b : UInt8) : b.toNat &&& 0x3F < 2 ^ 6 :=
  Nat.lt_succ_of_le Nat.and_le_right

theorem not_low_two {a : UInt8} (h : a.toNat &&& 0xE0 ≠ 0xC0) : ¬Low [a, b] := by
  rintro (ha | ha) <;> exact h (by simp [ha])

/-- The code point that a byte completes is below 80 for those sequences and for no others. -/
theorem Led.low (h : Led u) (hu : u.buf ≠ []) :
    (∀ s ∈ (ttyRenderByte u b).1, 0x80 ≤ s.codepoint) ↔ ¬Low (u.buf ++ [b]) := by
  rw [ttyRenderByte, if_neg hu]
  have hb := low_bits b
  cases h with
  | none => exact absurd rfl hu
  | @some a tail n ha ht =>
    rcases ha with ⟨rfl, ha⟩ | ⟨rfl, ha⟩ | ⟨rfl, ha⟩
    · obtain ⟨h0, hlow⟩ := two_low _ a.toNat_lt ha
      match tail, ht with
      | [], _ =>
        simp [utf8Decode, h0, ha, Low, ← hlow, shiftLeft_or hb]
        omega
    · obtain ⟨h0, h1, hlow⟩ := three_low _ a.toNat_lt ha
      match tail, ht with
      | [], _ => exact iff_of_true (by simp) (not_low_two h1)
      | [c], _ =>
        have hc := low_bits c
        simp [utf8Decode, h0, h1, ha, Low, ← hlow, shiftLeft_or hb, Nat.or_assoc]
        rw [shiftLeft_or (by omega)]
        omega
    · obtain ⟨h0, h1, h2, hlow⟩ := four_low _ a.toNat_lt ha
      match tail, ht with
      | [], _ => exact iff_of_true (by simp) (not_low_two h1)
      | [c], _ =>
        refine iff_of_true (by simp) ?_
        rintro ⟨h, -⟩
        exact h2 (by simp [h])
      | [c, d], _ =>
        have hc := low_bits c
        have hd := low_bits d
        simp [utf8Decode, h0, h1, h2, ha, Low, ← hlow, shiftLeft_or hb, Nat.or_assoc]
        rw [shiftLeft_or (k := 12) (by omega), shiftLeft_or (by omega)]
        omega

theorem exact_iff (hl : Led u) : Exact bytes (shown u bytes) ↔
    Meets (fun u b => (ttyRenderByte u b).2) Fits u bytes := by
  induction bytes generalizing u with
  | nil => exact ⟨fun _ => trivial, fun _ => rfl⟩
  | cons b bytes ih =>
    rw [shown_cons, Meets, ← ih hl.step]
    have hlost : ∀ {v : Utf8}, u.buf ≠ [] → ¬Low (u.buf ++ [b]) →
        (Exact (b :: bytes) (shown v bytes) ↔ Fits u b ∧ Exact bytes (shown v bytes)) := by
      intro v hu hs
      by_cases hb : b.toNat < 0x80
      · refine ⟨fun h => absurd h (not_exact_of_lost hb), fun h => ?_⟩
        have := (h.1 hu).1
        omega
      · have hb := Nat.le_of_not_lt hb
        exact (exact_high hb).trans ⟨fun h => ⟨fun _ => ⟨hb, hs⟩, h⟩, And.right⟩
    rcases ttyRenderByte_cases u b with ⟨hu, hb, hr⟩ | ⟨hu, hb, hr⟩ | ⟨hu, hr⟩ | ⟨hu, c, hr⟩
    · have hfits : Fits u b := absurd hu
      rw [hr]
      simp only [Exact, Option.toList_some, singleton_append, hfits, true_and]
      rw [filter_cons_of_pos (by simpa using hb), filter_cons_of_pos (by simpa using hb),
        map_cons, cons.injEq, and_iff_right rfl]
    · have hfits : Fits u b := absurd hu
      rw [hr, and_iff_right hfits]
      exact exact_high hb
    · have hlow := (hl.low (b := b) hu).mp (by simp [hr])
      rw [hr]
      exact hlost hu hlow
    · by_cases hc : c < 0x80
      · refine ⟨fun h => ?_, fun h => ?_⟩
        · have hone := h.single ⟨u.buf ++ [b], c⟩ (by simp [hr, hc])
          have := length_pos_iff.mpr hu
          rw [length_append, length_singleton] at hone
          omega
        · exact absurd ((hl.low hu).mpr (h.1 hu).2 _ hr) (Nat.not_le.mpr hc)
      · have hskip : Exact (b :: bytes)
            ((ttyRenderByte u b).1.toList ++ shown (ttyRenderByte u b).2 bytes)
            ↔ Exact (b :: bytes) (shown (ttyRenderByte u b).2 bytes) := by
          rw [hr, Exact, Option.toList_some, singleton_append,
            filter_cons_of_neg (by simpa using hc), Exact]
        refine hskip.trans (hlost hu ((hl.low hu).mp ?_))
        rw [hr]
        rintro s ⟨⟩
        exact Nat.le_of_not_lt hc

/-- What is shown depends on the bytes and not on how they are cut into writes; well-formed
UTF-8 is shown as the characters it is of; and the bytes below 80 are shown as themselves,
and nothing else as one of them, exactly when no byte below 80 comes while a sequence is
under way and no sequence is an overlong one for such a byte. Nothing is shown once the window
is gone. -/
theorem tty_output_iff (offscreen : Bool) (ownerPid : Nat) (writes : List (List UInt8)) :
    let t : Tty := ⟨some {}, offscreen, ownerPid⟩
    let bytes := writes.flatten
    let out := ttyWrites t writes
    let gone := offscreen && ownerPid == 0
    out = (ttyInodeWrite t bytes).2.1 ∧
    (∀ cs : List Char, bytes = cs.flatMap String.utf8EncodeChar →
      out.map (·.codepoint) = if gone then [] else cs.map Char.toNat) ∧
    (Exact bytes out ↔ if gone then ∀ b ∈ bytes, 0x80 ≤ b.toNat
      else Meets (fun u b => (ttyRenderByte u b).2) Fits {} bytes) := by
  intro t bytes out gone
  have hout : out = (ttyInodeWrite t bytes).2.1 := ttyWrites_eq t writes
  refine ⟨hout, ?_, ?_⟩
  · rintro cs hcs
    split
    · next hgone => rw [hout, ttyInodeWrite_gone hgone, map_nil]
    · next hgone =>
      rw [hout, ttyInodeWrite_shown rfl (Bool.eq_false_iff.mpr hgone), hcs, shown_chars]
  · split
    · rename_i hgone
      rw [hout, ttyInodeWrite_gone hgone, Exact]
      simp
    · rename_i hgone
      rw [hout, ttyInodeWrite_shown rfl (Bool.eq_false_iff.mpr hgone)]
      exact exact_iff .none

/-- A newline that comes after a byte which begins a sequence is not shown, and a NUL is
shown where none was written. -/
theorem newline_swallowed : let t : Tty := ⟨some {}, false, 0⟩
    (ttyWrites t [[0xC3], [0x0A]]).map (·.codepoint) = [0xCA] ∧
      ¬Exact [0xC3, 0x0A] (ttyWrites t [[0xC3], [0x0A]]) ∧
      (ttyWrites t [[0xC0, 0x80]]).map (·.codepoint) = [0] := by
  simp only [Exact]
  decide

end BleedKernel.TtyOutput
