import BleedKernel.Lib.Run
import BleedKernel.Model.Ipv4
import Mathlib.Data.Finset.Card

/-!
# What a datagram that was put together is made of

`ipv4_reassemble` counts the blocks of 8 bytes that have arrived and compares the
count with the number of blocks of the whole. The count is right: it is the number
of different blocks the fragments of the slot lie in. What the comparison does not
see is where those blocks are, nor how much of a block was there. So the datagram
is whole exactly when no fragment lies past its end and no block was left half
filled by a last fragment that turned out not to be the last.
-/

namespace BleedKernel.Ip

open BleedKernel.Lib List

variable {S : Finset Nat} {ip : Hdr} {i now : Nat} {f : Frag} {s : Sys}

/-! ## Marking blocks -/

/-- The bitmap holds the set `S`, and the count is its size. -/
structure Marks (S : Finset Nat) (st : (Nat → Bool) × Nat) : Prop where
  arrived : ∀ b, st.1 b = true ↔ b ∈ S
  count : st.2 = S.card

theorem Marks.mark {st : (Nat → Bool) × Nat} (h : Marks S st) (b : Nat) :
    Marks (insert b S) (markBlock st b) := by
  simp only [markBlock]
  split
  · rename_i hb
    rw [Finset.insert_eq_of_mem ((h.arrived b).mp hb)]
    exact h
  rename_i hb
  have hnot : b ∉ S := by
    intro hmem
    exact hb ((h.arrived b).mpr hmem)
  refine ⟨?_, ?_⟩
  · intro c
    by_cases hc : c = b
    · subst hc
      simp
    · simp [hc, h.arrived c]
  · show st.2 + 1 = _
    rw [Finset.card_insert_of_notMem hnot, h.count]

theorem Marks.foldl {st : (Nat → Bool) × Nat} {l : List Nat}
    (h : Marks S st) : Marks (l.toFinset ∪ S) (l.foldl markBlock st) := by
  induction l generalizing S st with
  | nil => simpa using h
  | cons b l ih =>
    have hrest := ih (h.mark b)
    rwa [show l.toFinset ∪ insert b S = (b :: l).toFinset ∪ S by simp] at hrest

/-- A block is one of a run of bytes when it holds one of them. -/
theorem mem_blocksOf {offset len b : Nat} (h : offset % 8 = 0) :
    b ∈ blocksOf offset len ↔ offset ≤ 8 * b ∧ 8 * b < offset + len := by
  rw [blocksOf, mem_range'_1]
  omega

/-! ## One slot -/

/-- The blocks some piece lies in. -/
def touched : List Piece → Finset Nat
  | [] => ∅
  | p :: ps => (blocksOf p.offset p.bytes.length).toFinset ∪ touched ps

/-- Where the datagram ends, by the newest of the pieces that say so. -/
def endOf : List Piece → Nat
  | [] => 0
  | p :: ps => if p.more then endOf ps else p.stop

/-- The byte at a place, by the newest of the pieces that have it. -/
def newest : List Piece → Nat → Option UInt8
  | [], _ => none
  | p :: ps, i =>
    if p.offset ≤ i ∧ i < p.stop then p.bytes[i - p.offset]? else newest ps i

/-- Some piece has the byte at a place. -/
def Supplied (pieces : List Piece) (i : Nat) : Prop :=
  ∃ p ∈ pieces, p.offset ≤ i ∧ i < p.stop

instance {pieces : List Piece} {i : Nat} : Decidable (Supplied pieces i) :=
  inferInstanceAs (Decidable (∃ p ∈ pieces, p.offset ≤ i ∧ i < p.stop))

/-- What a slot in use says of the pieces that were put into it. -/
structure SlotOk (f : Frag) : Prop where
  aligned : ∀ p ∈ f.pieces, p.offset % 8 = 0
  taken : ∀ p ∈ f.pieces, p.refused = false
  marks : Marks (touched f.pieces) (f.arrived, f.blocks)
  total : f.total = endOf f.pieces
  data : ∀ i b, newest f.pieces i = some b → f.data i = b

theorem freshFrag_ok {heap : Nat → UInt8} : SlotOk (freshFrag ip now heap) where
  aligned := by simp [freshFrag]
  taken := by simp [freshFrag]
  marks := ⟨by simp [freshFrag, touched], by simp [freshFrag, touched]⟩
  total := rfl
  data := by simp [freshFrag, newest]

theorem pieceOf_aligned {payload : List UInt8} : (pieceOf ip payload).offset % 8 = 0 := by
  simp only [pieceOf]
  omega

theorem SlotOk.putPiece {p : Piece} (h : SlotOk f) (ha : p.offset % 8 = 0)
    (hp : p.refused = false) : SlotOk (putPiece f p) := by
  refine ⟨?_, ?_, ?_, ?_, ?_⟩
  · intro q hq
    rcases mem_cons.mp hq with rfl | hq
    · exact ha
    · exact h.aligned q hq
  · intro q hq
    rcases mem_cons.mp hq with rfl | hq
    · exact hp
    · exact h.taken q hq
  · exact h.marks.foldl
  · show (if p.more then f.total else p.stop) = endOf (p :: f.pieces)
    rw [endOf, h.total]
  · intro i b hb
    show store f.data p.offset p.bytes i = b
    rw [show (Ip.putPiece f p).pieces = p :: f.pieces from rfl, newest] at hb
    split at hb
    · rw [store, if_neg (by omega), hb]
      rfl
    rename_i hout
    rw [← h.data i b hb]
    rw [Piece.stop] at hout
    by_cases hlt : i < p.offset
    · exact store_of_lt hlt
    · exact store_of_ge (by omega)

/-! ## The table -/

/-- Every slot in use is in order. -/
def Ok (s : Sys) : Prop := ∀ f ∈ s.frags, f.used = true → SlotOk f

theorem ok_init : Ok Sys.init := by
  intro f hf hu
  rw [(mem_replicate.mp hf).2] at hu
  cases hu

theorem Ok.setFrag (h : Ok s) (hf : f.used = true → SlotOk f) : Ok (s.setFrag i f) := by
  intro g hg hu
  rcases mem_or_eq_of_mem_set hg with hg | rfl
  · exact h g hg hu
  · exact hf hu

theorem Ok.fragFree (h : Ok s) : Ok (fragFree s i) := by
  simp only [Ip.fragFree]
  split
  · refine h.setFrag ?_
    intro hu
    cases hu
  · exact h

/-- A slot that was found is the slot of the datagram. -/
theorem lookFrom_found {frags : List Frag} {left j : Nat}
    {free oldest : Option Nat} (h : lookFrom frags ip left i free oldest = .found j) :
    ∃ f, frags[j]? = some f ∧ f.used = true ∧ f.isFor ip = true := by
  induction left generalizing i free oldest with
  | zero => cases h
  | succ left ih =>
    rw [lookFrom] at h
    split at h
    · cases h
    rename_i f hf
    split at h
    · exact ih h
    rename_i hu
    split at h
    · rename_i hfor
      cases h
      exact ⟨f, hf, by simpa using hu, hfor⟩
    · exact ih h

theorem isFor_freshFrag {heap : Nat → UInt8} : (freshFrag ip now heap).isFor ip = true := by
  simp [Frag.isFor, freshFrag]

/-- What `frag_slot` leaves: a table in order, and in it, if it found one, a slot of
the datagram. -/
theorem fragSlot_ok {s' : Sys} {mem : Option (Nat → UInt8)}
    {slot : Option Nat} (h : Ok s) (hs : fragSlot s ip now mem = (slot, s')) :
    Ok s' ∧ ∀ i f, slot = some i → s'.frags[i]? = some f → f.used = true ∧ f.isFor ip = true := by
  have fresh : ∀ (t : Sys) (i : Nat) (heap : Nat → UInt8), Ok t →
      Ok (t.setFrag i (freshFrag ip now heap)) ∧
        ∀ j f, some i = some j → (t.setFrag i (freshFrag ip now heap)).frags[j]? = some f →
          f.used = true ∧ f.isFor ip = true := by
    intro t i heap ht
    refine ⟨ht.setFrag fun _ => freshFrag_ok, ?_⟩
    intro j f hij hf
    cases hij
    have hj : i < t.frags.length := by
      have := (List.getElem?_eq_some_iff.mp hf).1
      simpa [Sys.setFrag] using this
    rw [show (t.setFrag i (freshFrag ip now heap)).frags[i]? = some (freshFrag ip now heap) by
      simp [Sys.setFrag, hj]] at hf
    cases hf
    exact ⟨rfl, isFor_freshFrag⟩
  have dropped : Ok { s with dropped := s.dropped + 1 } := h
  simp only [fragSlot] at hs
  split at hs
  · rename_i hl
    cases hs
    refine ⟨h, ?_⟩
    intro j f hij hf
    cases hij
    obtain ⟨g, hg, hu, hfor⟩ := lookFrom_found hl
    rw [hg] at hf
    cases hf
    exact ⟨hu, hfor⟩
  · split at hs
    · cases hs
      exact ⟨h, fun _ _ hn => by cases hn⟩
    · cases hs
      exact fresh _ _ _ h
  · split at hs
    · cases hs
      exact ⟨dropped.fragFree, fun _ _ hn => by cases hn⟩
    · cases hs
      exact fresh _ _ _ dropped.fragFree
  · cases hs
    exact ⟨h, fun _ _ hn => by cases hn⟩

/-- What `ipv4_reassemble` leaves, and what it hands out. -/
theorem ipv4Reassemble_ok {s' : Sys} {payload : List UInt8}
    {mem : Option (Nat → UInt8)} {whole : Option Frag} (h : Ok s)
    (hs : ipv4Reassemble s ip payload now mem = (whole, s')) :
    Ok s' ∧ ∀ f, whole = some f → SlotOk f ∧ f.complete = true ∧ f.isFor ip = true := by
  simp only [ipv4Reassemble] at hs
  split at hs
  · cases hs
    exact ⟨h, fun _ hn => by cases hn⟩
  rename_i hr
  split at hs
  · rename_i hf
    cases hs
    exact ⟨(fragSlot_ok h hf).1, fun _ hn => by cases hn⟩
  rename_i i s1 hf
  obtain ⟨h1, hslot⟩ := fragSlot_ok h hf
  split at hs
  · cases hs
    exact ⟨h1, fun _ hn => by cases hn⟩
  rename_i f hi
  obtain ⟨hu, hfor⟩ := hslot i f rfl hi
  have hok : SlotOk (putPiece f (pieceOf ip payload)) :=
    (h1 f (mem_of_getElem? hi) hu).putPiece pieceOf_aligned (by simpa using hr)
  split at hs
  · rename_i hc
    cases hs
    refine ⟨h1.setFrag (fun hu' => by cases hu'), ?_⟩
    intro g hg
    cases hg
    exact ⟨hok, hc, hfor⟩
  · cases hs
    exact ⟨h1.setFrag fun _ => hok, fun _ hn => by cases hn⟩

theorem Ok.step {act : Act} (h : Ok s) : Ok (step s act) := by
  cases act with
  | input nif d now mem =>
    simp only [Ip.step, ipv4Input]
    split
    · split
      · exact h
      · exact (ipv4Reassemble_ok h rfl).1
    · exact h
  | tick now =>
    intro f hf hu
    simp only [Ip.step, ipv4FragTick, mem_map] at hf
    obtain ⟨g, hg, rfl⟩ := hf
    split at hu
    · cases hu
    rename_i he
    rw [if_neg he]
    exact h g hg hu

theorem ok_run (acts : List Act) : Ok (run step Sys.init acts) :=
  run_inv (fun _ _ h _ => h.step) ok_init (.of_all fun _ _ => trivial)

/-! ## When the count is right -/

/-- No piece that brings bytes ends past the last block of the whole, and where one
ends inside a block before the end of the whole, other pieces have the rest of that
block. -/
def Fits (pieces : List Piece) : Prop :=
  (∀ p ∈ pieces, p.bytes ≠ [] → p.stop ≤ 8 * ((endOf pieces + 7) / 8)) ∧
  ∀ p ∈ pieces, ∀ i, p.stop % 8 ≠ 0 → p.stop ≤ i → i < endOf pieces → i / 8 = p.stop / 8 →
    Supplied pieces i

theorem mem_touched {pieces : List Piece} {b : Nat} (ha : ∀ p ∈ pieces, p.offset % 8 = 0) :
    b ∈ touched pieces ↔ ∃ p ∈ pieces, p.offset ≤ 8 * b ∧ 8 * b < p.stop := by
  induction pieces with
  | nil => simp [touched]
  | cons p ps ih =>
    rw [touched, Finset.mem_union, mem_toFinset, mem_blocksOf (ha p (by simp)),
      ih fun q hq => ha q (by simp [hq])]
    simp [Piece.stop]

/-- As many blocks as the whole has: they are its blocks when none is past its end,
and when none of its blocks is missing. -/
theorem card_eq_iff {n : Nat} (h : S.card = n) : (∀ b ∈ S, b < n) ↔ ∀ b, b < n → b ∈ S := by
  constructor
  · intro hlt b hb
    have hsub : S ⊆ Finset.range n := by
      intro c hc
      exact Finset.mem_range.mpr (hlt c hc)
    have heq : S = Finset.range n :=
      Finset.eq_of_subset_of_card_le hsub (by rw [Finset.card_range, h])
    rw [heq]
    exact Finset.mem_range.mpr hb
  · intro hin b hb
    have hsub : Finset.range n ⊆ S := by
      intro c hc
      exact hin c (Finset.mem_range.mp hc)
    have heq : Finset.range n = S :=
      Finset.eq_of_subset_of_card_le hsub (by rw [Finset.card_range, h])
    rw [← heq] at hb
    exact Finset.mem_range.mp hb

theorem SlotOk.supplied_iff (h : SlotOk f) (hc : f.complete = true) :
    (∀ i, i < f.total → Supplied f.pieces i) ↔ Fits f.pieces := by
  have hcard : (touched f.pieces).card = (endOf f.pieces + 7) / 8 := by
    have := of_decide_eq_true hc
    rw [← h.marks.count, ← h.total]
    exact this.2
  have hblocks := card_eq_iff hcard
  rw [h.total]
  constructor
  · intro hall
    refine ⟨?_, fun p _ i _ _ hi _ => hall i hi⟩
    intro p hp hne
    have hin : ∀ b, b < (endOf f.pieces + 7) / 8 → b ∈ touched f.pieces := by
      intro b hb
      obtain ⟨q, hq, h1, h2⟩ := hall (8 * b) (by omega)
      exact (mem_touched h.aligned).mpr ⟨q, hq, h1, h2⟩
    -- The last block of `p` is marked, so it is one of the whole.
    have hlen : 0 < p.bytes.length := length_pos_iff.mpr hne
    have hlast : (p.stop - 1) / 8 ∈ touched f.pieces := by
      have := h.aligned p hp
      refine (mem_touched h.aligned).mpr ⟨p, hp, ?_, ?_⟩ <;> rw [Piece.stop] at * <;> omega
    have := hblocks.mpr hin _ hlast
    omega
  · rintro ⟨hpast, hshort⟩ i hi
    have hlt : ∀ b ∈ touched f.pieces, b < (endOf f.pieces + 7) / 8 := by
      intro b hb
      obtain ⟨p, hp, h1, h2⟩ := (mem_touched h.aligned).mp hb
      have hne : p.bytes ≠ [] := by
        intro he
        rw [Piece.stop, he, length_nil] at h2
        omega
      have := hpast p hp hne
      omega
    obtain ⟨p, hp, h1, h2⟩ := (mem_touched h.aligned).mp (hblocks.mp hlt (i / 8) (by omega))
    by_cases hin : i < p.stop
    · exact ⟨p, hp, by omega, hin⟩
    · exact hshort p hp i (by omega) (by omega) hi (by omega)

theorem exists_newest {pieces : List Piece} (h : Supplied pieces i) :
    ∃ p ∈ pieces, ∃ b, p.offset ≤ i ∧ p.bytes[i - p.offset]? = some b ∧
      newest pieces i = some b := by
  induction pieces with
  | nil =>
    obtain ⟨p, hp, -⟩ := h
    cases hp
  | cons q ps ih =>
    by_cases hq : q.offset ≤ i ∧ i < q.stop
    · have hlt : i - q.offset < q.bytes.length := by
        have := hq.2
        rw [Piece.stop] at this
        omega
      refine ⟨q, by simp, q.bytes[i - q.offset], hq.1, getElem?_eq_getElem hlt, ?_⟩
      rw [newest, if_pos hq]
      exact getElem?_eq_getElem hlt
    · obtain ⟨p, hp, hin⟩ := h
      have hp : p ∈ ps := by
        rcases mem_cons.mp hp with rfl | hp
        · exact absurd hin hq
        · exact hp
      obtain ⟨r, hr, b, h1, h2, h3⟩ := ih ⟨p, hp, hin⟩
      refine ⟨r, by simp [hr], b, h1, h2, ?_⟩
      rw [newest, if_neg hq]
      exact h3

/-- In every run, whenever `ipv4_reassemble` hands out a datagram, every byte of it
was supplied by a fragment put into its slot exactly when the fragments fit; and a
byte that was supplied is the one that is handed out. -/
theorem reassembled_supplied_iff (acts : List Act) (ip : Hdr) (payload : List UInt8)
    (now : Nat) (mem : Option (Nat → UInt8)) (f : Frag)
    (hf : (ipv4Reassemble (run step Sys.init acts) ip payload now mem).1 = some f) :
    f.isFor ip = true ∧
    ((∀ i, i < f.total → Supplied f.pieces i) ↔ Fits f.pieces) ∧
    ∀ i, i < f.total → Supplied f.pieces i →
      ∃ p ∈ f.pieces, p.offset ≤ i ∧ i < p.stop ∧ f.whole[i]? = p.bytes[i - p.offset]? := by
  obtain ⟨hok, hc, hfor⟩ := (ipv4Reassemble_ok (ok_run acts) rfl).2 f hf
  refine ⟨hfor, hok.supplied_iff hc, ?_⟩
  intro i hi hs
  obtain ⟨p, hp, b, h1, h2, h3⟩ := exists_newest hs
  refine ⟨p, hp, h1, ?_, ?_⟩
  · have := (List.getElem?_eq_some_iff.mp h2).1
    rw [Piece.stop]
    omega
  · rw [h2, Frag.whole, slice, List.getElem?_map, List.getElem?_range hi, Option.map_some,
      Nat.zero_add, hok.data i b h3]

/-- 8 bytes of a datagram, in a packet from 10.0.0.10 to 11.0.0.10. -/
def eight (frag : Nat) : List UInt8 :=
  ipv4Send ⟨0, 0, false⟩ [1, 2, 3, 4, 5, 6, 7, 8] 0x0A00000A 0x0A00000B 17 7 frag

/-- `ipv4_reassemble` of one such packet after another came in. -/
def afterOne (first second : Nat) : Option Frag :=
  (ipv4Reassemble
    (run step Sys.init [.input ⟨0, 0, false⟩ (eight first) 0 (some fun _ => 0x5A)])
    (Hdr.read (eight second)) (payloadOf (eight second)) 1 none).1

theorem reassembled_supplied_two_halves :
    ∃ f, afterOne ipFlagMf 1 = some f ∧ f.total = 16 ∧ ∀ i, i < f.total → Supplied f.pieces i := by
  have hsome : (afterOne ipFlagMf 1).isSome = true := by decide +kernel
  obtain ⟨f, hf⟩ := Option.isSome_iff_exists.mp hsome
  have hval : ∀ g ∈ afterOne ipFlagMf 1, g.total = 16 ∧
      (∀ p ∈ g.pieces, p.stop ≤ 8 * ((endOf g.pieces + 7) / 8)) ∧
      ∀ p ∈ g.pieces, p.stop % 8 = 0 := by decide +kernel
  obtain ⟨ht, hpast, hshort⟩ := hval f hf
  refine ⟨f, hf, ht, ((reassembled_supplied_iff _ _ _ _ _ f hf).2.1).mpr ⟨?_, ?_⟩⟩
  · intro p hp _
    exact hpast p hp
  · intro p hp i h8
    exact absurd (hshort p hp) h8

/-- A fragment past the end makes up for the first one, which never came. -/
theorem reassembled_from_heap :
    ∃ f, afterOne (5 ||| ipFlagMf) 1 = some f ∧ f.total = 16 ∧ ¬Supplied f.pieces 0 ∧
      f.whole.head? = some 0x5A := by
  have h : ∃ f ∈ afterOne (5 ||| ipFlagMf) 1, f.total = 16 ∧ ¬Supplied f.pieces 0 ∧
      f.whole.head? = some 0x5A := by decide +kernel
  exact h

end BleedKernel.Ip
