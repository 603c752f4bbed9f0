import BleedKernel.Lib.Slots
import BleedKernel.Proofs.Reassembly

/-!
# A payload that was cut up arrives in one piece

The sender cuts at multiples of 1480 and the receiver counts blocks of 8, which
divide 1480, so no two fragments share a block and a fragment is there or not as a
whole. What the receiver does with the fragments of one payload is then to collect
their numbers: whatever the order and however often each comes, the payload is
delivered by the one that completes the collection, and the collection starts over.

Other packets come and go meanwhile. They have slots of their own, and the only way
in which they touch the slot of this payload is to take it away for lack of another;
the statement is about runs in which that does not happen.
-/

namespace BleedKernel.Ip

open BleedKernel.Lib Finset

variable {d : List UInt8} {nif : Netif} {A : Finset Nat} {frags : List Frag}
  {free oldest : Option Nat} {key : Hdr}

variable {i k : Nat} {via : Netif} {f : Frag} {ip : Hdr} {s : Sys}

/-! ## The checksum

Adding the folded carries changes the sum by a multiple of 65535, so a header with
its checksum in place adds up to one. -/

/-- The words of a list of bytes, added up. -/
def wordSum : List UInt8 → Nat
  | a :: b :: rest => a.toNat * 256 + b.toNat + wordSum rest
  | [a] => a.toNat * 256
  | [] => 0

theorem netChecksumPartial_eq {sum : Nat} (h : sum < 2 ^ 32) :
    netChecksumPartial d sum = (sum + wordSum d) % 2 ^ 32 := by
  induction d, sum using netChecksumPartial.induct with
  | case1 a b rest sum ih =>
    rw [netChecksumPartial, wordSum]
    omega
  | case2 a sum => rw [netChecksumPartial, wordSum]
  | case3 sum =>
    rw [netChecksumPartial, wordSum]
    omega

theorem wordSum_append {l l' : List UInt8} (h : l.length % 2 = 0) :
    wordSum (l ++ l') = wordSum l + wordSum l' := by
  induction l using wordSum.induct with
  | case1 a b rest ih =>
    have hrest := ih (by simp at h; omega)
    rw [List.cons_append, List.cons_append, wordSum, wordSum]
    omega
  | case2 a => simp at h
  | case3 => simp [wordSum]

theorem wordSum_put16 {x : Nat} : wordSum (put16 x) = x % 65536 := by
  simp [put16, wordSum]
  omega

theorem wordSum_put32 (x : UInt32) : wordSum (put32 x) ≤ 2 * 65535 := by
  simp [put32, wordSum]
  omega

theorem foldSum_spec (fuel sum : Nat) :
    (0 < sum → 0 < foldSum fuel sum) ∧ ∃ k, sum = foldSum fuel sum + 65535 * k := by
  induction fuel generalizing sum with
  | zero => exact ⟨id, 0, rfl⟩
  | succ fuel ih =>
    rw [foldSum]
    split
    · obtain ⟨h1, k, hk⟩ := ih (sum % 65536 + sum / 65536)
      exact ⟨fun _ => h1 (by omega), k + sum / 65536, by omega⟩
    · exact ⟨id, 0, rfl⟩

/-- Three rounds are enough. -/
theorem foldSum_le {sum : Nat} (h : sum < 2 ^ 32) : foldSum 3 sum ≤ 65535 := by
  simp only [foldSum]
  repeat' split
  all_goals omega

/-- Bytes that add up to those of `d` and the checksum of `d` pass the check. -/
theorem netChecksum_eq_zero {d' : List UInt8} {start : Nat}
    (hd : start + wordSum d < 2 ^ 32 - 65536)
    (h : wordSum d' = wordSum d + netChecksum d start) : netChecksum d' start = 0 := by
  have hp : netChecksumPartial d start = start + wordSum d := by
    rw [netChecksumPartial_eq (by omega)]
    omega
  have h1 := foldSum_le (show start + wordSum d < 2 ^ 32 by omega)
  obtain ⟨h2, k, hk⟩ := foldSum_spec 3 (start + wordSum d)
  rw [netChecksum, hp] at h
  have hp' : netChecksumPartial d' start = start + wordSum d' := by
    rw [netChecksumPartial_eq (by omega)]
    omega
  have h4 := foldSum_le (show start + wordSum d' < 2 ^ 32 by omega)
  obtain ⟨h5, k', hk'⟩ := foldSum_spec 3 (start + wordSum d')
  rw [netChecksum, hp']
  omega

theorem wordSum_le (d : List UInt8) : wordSum d ≤ (d.length + 1) / 2 * 65535 := by
  induction d using wordSum.induct with
  | case1 a b rest ih =>
    have ha := a.toNat_lt
    have hb := b.toNat_lt
    rw [wordSum, List.length_cons, List.length_cons]
    omega
  | case2 a =>
    have ha := a.toNat_lt
    rw [wordSum, List.length_singleton]
    omega
  | case3 => exact Nat.zero_le _

/-- The checksum of bytes with a field of zeros, stored in the field, makes them pass the
check, and nothing overflows on the way. -/
theorem checksum_field (a b : List UInt8) (src dst : UInt32) (proto : UInt8) (len x : Nat)
    (ha : a.length % 2 = 0) (hlen : a.length + 2 + b.length ≤ 65535) :
    let start := ipv4PseudoSum src dst proto len
    let d (x : Nat) := a ++ put16 x ++ b
    netChecksum (d (netChecksum (d 0) start)) start = 0 ∧ start + wordSum (d x) < 2 ^ 32 := by
  intro start d
  have hstart : start ≤ 6 * 65535 := by
    show netChecksumPartial _ 0 ≤ _
    rw [netChecksumPartial_eq (by decide), Nat.zero_add]
    refine (Nat.mod_le _ _).trans ((wordSum_le _).trans ?_)
    simp [put16, put32]
  have hsum : ∀ x, wordSum (d x) = wordSum a + x % 65536 + wordSum b := by
    intro x
    rw [wordSum_append (by simp [put16]; omega), wordSum_append ha, wordSum_put16]
  have hla := wordSum_le a
  have hlb := wordSum_le b
  refine ⟨netChecksum_eq_zero (d := d 0) ?_ ?_, ?_⟩
  · rw [hsum]
    omega
  · rw [hsum, hsum, Nat.mod_eq_of_lt (by rw [netChecksum]; omega)]
    omega
  · rw [hsum]
    omega

theorem checksum_field_odd : netChecksum ([9, 8] ++ put16 (netChecksum ([9, 8] ++ put16 0 ++ [7])
    (ipv4PseudoSum 1 2 17 5)) ++ [7]) (ipv4PseudoSum 1 2 17 5) = 0 :=
  (checksum_field [9, 8] [7] 1 2 17 5 0 rfl (by decide)).1

/-! ## The header, written and read -/

theorem raw32_of_bytes {x : UInt32}
    (h0 : byteAt d i = x.toNat % 256) (h1 : byteAt d (i + 1) = x.toNat / 256 % 256)
    (h2 : byteAt d (i + 2) = x.toNat / 65536 % 256)
    (h3 : byteAt d (i + 3) = x.toNat / 16777216 % 256) : raw32 d i = x := by
  have hx := x.toNat_lt
  rw [raw32, h0, h1, h2, h3]
  have h : x.toNat % 256 + x.toNat / 256 % 256 * 256 + x.toNat / 65536 % 256 * 65536
      + x.toNat / 16777216 % 256 * 16777216 = x.toNat := by omega
  rw [h, UInt32.ofNat_toNat]

variable {payload : List UInt8} {len frag sum : Nat} {src dst : UInt32} {proto : UInt8}
  {id : UInt16}

@[simp] theorem length_headerBytes :
    (headerBytes len id frag proto sum src dst).length = ipHlen := rfl

theorem read_headerBytes (hf : frag < 65536) (hl : len < 65536) :
    Hdr.read (headerBytes len id frag proto sum src dst ++ payload) =
      { verIhl := 0x45, totalLen := len, id := id.toNat, frag := frag,
        proto := proto.toNat, src := src, dst := dst } := by
  have hid := id.toNat_lt
  rw [Hdr.read]
  congr 1
  · simp [headerBytes, byteAt, be16, put16]
    omega
  · simp [headerBytes, byteAt, be16, put16]
    omega
  · simp [headerBytes, byteAt, be16, put16]
    omega
  · apply raw32_of_bytes <;> simp [headerBytes, byteAt, put16, put32]
  · apply raw32_of_bytes <;> simp [headerBytes, byteAt, put16, put32]

theorem wordSum_headerBytes : wordSum (headerBytes len id frag proto sum src dst) =
      0x4500 + len % 65536 + id.toNat % 65536 + frag % 65536 + (64 * 256 + proto.toNat)
        + sum % 65536 + wordSum (put32 src) + wordSum (put32 dst) := by
  simp only [headerBytes]
  repeat rw [wordSum_append (by simp [put16, put32])]
  simp only [wordSum_put16]
  rfl

theorem netChecksum_headerBytes : netChecksum (headerBytes len id frag proto
      (netChecksum (headerBytes len id frag proto 0 src dst) 0) src dst) 0 = 0 := by
  have hp := proto.toNat_lt
  have hs := wordSum_put32 src
  have hd := wordSum_put32 dst
  have hc : netChecksum (headerBytes len id frag proto 0 src dst) 0 < 65536 := by
    rw [netChecksum]
    omega
  have hbase : wordSum (headerBytes len id frag proto 0 src dst) = _ := wordSum_headerBytes
  refine netChecksum_eq_zero (d := headerBytes len id frag proto 0 src dst) ?_ ?_
  · omega
  · rw [wordSum_headerBytes]
    omega

/-! ## What is sent -/

/-- How many fragments a payload makes. -/
def fragCount (payload : List UInt8) : Nat := (payload.length + 1479) / 1480

/-- The bytes of fragment `k`. -/
def fragBytes (payload : List UInt8) (k : Nat) : List UInt8 := (payload.drop (1480 * k)).take 1480

/-- Fragment `k` is not the last. -/
def fragMore (payload : List UInt8) (k : Nat) : Bool := decide (1480 * (k + 1) < payload.length)

/-- The fragment field of fragment `k`. -/
def fragField (payload : List UInt8) (k : Nat) : Nat :=
  185 * k ||| (if fragMore payload k then ipFlagMf else 0)

/-- The packet fragment `k` goes out in. -/
def packet (via : Netif) (payload : List UInt8) (src dst : UInt32) (proto : UInt8)
    (id : UInt16) (k : Nat) : List UInt8 :=
  ipv4Send via (fragBytes payload k) src dst proto id (fragField payload k)

/-- A payload that can be sent has at most 45 fragments. -/
theorem fragCount_le (h : payload.length ≤ ipMaxPayload) : fragCount payload ≤ 45 := by
  simp only [fragCount, ipMaxPayload] at *
  omega

theorem length_fragBytes : (fragBytes payload k).length = min 1480 (payload.length - 1480 * k) := by
  simp [fragBytes]

theorem outputLoop_packets {fails : Nat → Option Errno} {fuel : Nat}
    (hl : payload.length ≤ ipMaxPayload) (hk : k < fragCount payload)
    (hfuel : fragCount payload - k ≤ fuel)
    (h : (outputLoop via payload src dst proto id fails fuel (1480 * k)).1 = .ok ()) :
    (outputLoop via payload src dst proto id fails fuel (1480 * k)).2
      = (List.range' k (fragCount payload - k)).map (packet via payload src dst proto id) := by
  induction fuel generalizing k with
  | zero => omega
  | succ fuel ih =>
    have h45 := fragCount_le hl
    have hcount : fragCount payload = (payload.length + 1479) / 1480 := rfl
    have hoff : 1480 * k < payload.length := by omega
    have hfield : 1480 * k / 8 % 65536 = 185 * k := by omega
    have hchunk : ipFragChunk = 1480 := rfl
    have hbytes : ∀ c, c = (if payload.length - 1480 * k < ipFragChunk
        then payload.length - 1480 * k else ipFragChunk) →
        (payload.drop (1480 * k)).take c = fragBytes payload k := by
      intro c hc
      rw [fragBytes, List.take_eq_take_iff, List.length_drop, hc]
      split <;> omega
    have hmore : decide (1480 * k + (if payload.length - 1480 * k < ipFragChunk
        then payload.length - 1480 * k else ipFragChunk) < payload.length)
        = fragMore payload k := by
      rw [fragMore, decide_eq_decide]
      split <;> omega
    rw [outputLoop, if_pos (.inl hoff)] at h ⊢
    simp only [hfield, hmore, hbytes _ rfl] at h ⊢
    split at h
    · cases h
    split at h
    · rename_i hm
      have hm' : 1480 * (k + 1) < payload.length := of_decide_eq_true hm
      rw [show 1480 * k + ipFragChunk = 1480 * (k + 1) from rfl]
      rw [if_pos hm, ih (by omega) (by omega) h,
        show fragCount payload - k = fragCount payload - (k + 1) + 1 by omega,
        List.range'_succ, List.map_cons, packet, fragField]
    · rename_i hm
      have hm' : ¬1480 * (k + 1) < payload.length := by
        intro hlt
        exact hm (decide_eq_true hlt)
      rw [if_neg hm, show fragCount payload - k = 1 by omega]
      show [_] = [packet via payload src dst proto id k]
      rw [packet, fragField]

/-- What `ipv4_output_flat` sent when it went well. -/
theorem ipv4OutputFlat_packets {fails : Nat → Option Errno} (hpos : payload ≠ [])
    (h : (ipv4OutputFlat (some via) payload src dst proto id fails).1 = .ok ()) :
    payload.length ≤ ipMaxPayload ∧
    (ipv4OutputFlat (some via) payload src dst proto id fails).2
      = (List.range (fragCount payload)).map (packet via payload src dst proto id) := by
  have hlen : 0 < payload.length := List.length_pos_iff.mpr hpos
  have hcount : fragCount payload = (payload.length + 1479) / 1480 := rfl
  simp only [ipv4OutputFlat] at h ⊢
  split at h
  · cases h
  rename_i hl
  have hl : payload.length ≤ ipMaxPayload := Nat.le_of_not_lt hl
  refine ⟨hl, ?_⟩
  rw [if_neg (Nat.not_lt.mpr hl), List.range_eq_range']
  exact outputLoop_packets (k := 0) hl (by omega) (by omega) h

/-! ## What is received -/

/-- Fragment `k`, as the receiver sees it. -/
def fragPiece (payload : List UInt8) (k : Nat) : Piece :=
  ⟨1480 * k, fragBytes payload k, fragMore payload k⟩

/-- The header of fragment `k`, as the receiver reads it. -/
def fragHdr (via : Netif) (payload : List UInt8) (src dst : UInt32) (proto : UInt8)
    (id : UInt16) (k : Nat) : Hdr where
  verIhl := 0x45
  totalLen := (fragBytes payload k).length + ipHlen
  id := id.toNat
  frag := fragField payload k
  proto := proto.toNat
  src := if src ≠ 0 then src else ipv4Source via dst
  dst := dst

/-- What the receiver makes of the fragment field. -/
theorem fragField_bits (hl : payload.length ≤ ipMaxPayload) (hk : k < fragCount payload) :
    fragField payload k < 65536 ∧ fragField payload k &&& ipFragMask = 185 * k ∧
      decide (fragField payload k &&& ipFlagMf ≠ 0) = fragMore payload k ∧
      (fragField payload k &&& (ipFlagMf ||| ipFragMask) = 0 ↔ fragCount payload = 1) := by
  have hk45 : k < 45 := Nat.lt_of_lt_of_le hk (fragCount_le hl)
  have bits : ∀ k < 45, ∀ b : Bool, (185 * k ||| (if b then ipFlagMf else 0)) < 65536 ∧
      (185 * k ||| (if b then ipFlagMf else 0)) &&& ipFragMask = 185 * k ∧
      decide ((185 * k ||| (if b then ipFlagMf else 0)) &&& ipFlagMf ≠ 0) = b ∧
      ((185 * k ||| (if b then ipFlagMf else 0)) &&& (ipFlagMf ||| ipFragMask) = 0 ↔
        k = 0 ∧ b = false) := by decide
  obtain ⟨h1, h2, h3, h4⟩ := bits k hk45 (fragMore payload k)
  refine ⟨h1, h2, h3, h4.trans ?_⟩
  simp only [fragMore, decide_eq_false_iff_not, fragCount] at *
  omega

section

variable {via : Netif} {k : Nat} (hl : payload.length ≤ ipMaxPayload)
  (hk : k < fragCount payload)

include hl hk

theorem read_packet : Hdr.read (packet via payload src dst proto id k)
      = fragHdr via payload src dst proto id k := by
  have hlen : (fragBytes payload k).length + ipHlen < 65536 := by
    rw [length_fragBytes]
    simp only [ipHlen]
    omega
  exact read_headerBytes (fragField_bits hl hk).1 hlen

theorem payloadOf_packet :
    payloadOf (packet via payload src dst proto id k) = fragBytes payload k := by
  simp only [payloadOf, read_packet hl hk, fragHdr]
  simp only [packet, ipv4Send]
  rw [List.drop_left' (by simp [ipHlen])]
  exact List.take_length

theorem accepts_packet :
    accepts nif (packet via payload src dst proto id k) = ipv4IsOurs nif dst := by
  have hh : ((0x45 &&& 0x0F) * 4) = 20 := by decide
  have hplen : (packet via payload src dst proto id k).length
      = (fragBytes payload k).length + 20 := by
    simp only [packet, ipv4Send, List.length_append, length_headerBytes, ipHlen]
    omega
  have hsum : netChecksum ((packet via payload src dst proto id k).take 20) 0 = 0 := by
    simp only [packet, ipv4Send]
    rw [List.take_left' (by simp [ipHlen])]
    exact netChecksum_headerBytes
  simp only [accepts, read_packet hl hk, fragHdr, hh, hsum, hplen, ipHlen]
  simp

theorem pieceOf_packet : pieceOf (fragHdr via payload src dst proto id k) (fragBytes payload k)
      = fragPiece payload k := by
  obtain ⟨-, h2, h3, -⟩ := fragField_bits hl hk
  simp only [pieceOf, fragHdr]
  congr 1
  omega

theorem fragPiece_taken : (fragPiece payload k).refused = false := by
  have hlen : (fragBytes payload k).length = _ := length_fragBytes
  simp only [Piece.refused, Piece.stop, fragPiece, fragMore, fragCount] at *
  by_cases hm : 1480 * (k + 1) < payload.length
  · have : (fragBytes payload k).length = 1480 := by omega
    have hne : fragBytes payload k ≠ [] := by
      intro he
      rw [he] at this
      cases this
    simp [this, hne]
    omega
  · simp [hm]
    omega

end

/-! ## A slot that collects fragments -/

/-- The slot has the fragments with numbers in `A`, and nothing else. -/
structure Collected (payload : List UInt8) (A : Finset Nat) (f : Frag) : Prop where
  ok : SlotOk f
  only : ∀ p ∈ f.pieces, ∃ k ∈ A, p = fragPiece payload k
  all : ∀ k ∈ A, fragPiece payload k ∈ f.pieces
  lt : ∀ k ∈ A, k < fragCount payload

theorem Collected.put (h : Collected payload A f)
    (hl : payload.length ≤ ipMaxPayload) (hk : k < fragCount payload) :
    Collected payload (insert k A) (putPiece f (fragPiece payload k)) := by
  refine ⟨h.ok.putPiece ?_ (fragPiece_taken hl hk), ?_, ?_, ?_⟩
  · show 1480 * k % 8 = 0
    omega
  · intro p hp
    rcases List.mem_cons.mp hp with rfl | hp
    · exact ⟨k, mem_insert_self k A, rfl⟩
    · obtain ⟨j, hj, rfl⟩ := h.only p hp
      exact ⟨j, mem_insert_of_mem hj, rfl⟩
  · intro j hj
    rcases mem_insert.mp hj with rfl | hj
    · exact List.mem_cons_self
    · exact List.mem_cons_of_mem _ (h.all j hj)
  · intro j hj
    rcases mem_insert.mp hj with rfl | hj
    · exact hk
    · exact h.lt j hj

/-- Where fragment `k` ends, and when it is the last. -/
theorem stop_fragPiece (hk : k < fragCount payload) : (fragPiece payload k).stop ≤ payload.length ∧
      1480 * k < (fragPiece payload k).stop ∧ (fragPiece payload k).stop ≤ 1480 * (k + 1) ∧
      ((fragPiece payload k).more = false ↔ k + 1 = fragCount payload) ∧
      ((fragPiece payload k).more = false → (fragPiece payload k).stop = payload.length) ∧
      ∀ i < payload.length, i < 1480 * (k + 1) → i < (fragPiece payload k).stop := by
  have hlen : (fragBytes payload k).length = _ := length_fragBytes
  simp only [Piece.stop, fragPiece, fragMore, fragCount, decide_eq_false_iff_not] at *
  refine ⟨?_, ?_, ?_, ?_, ?_, fun i hi hi' => ?_⟩ <;> omega

/-- When the pieces that say where the end is agree, one of them has been there or
the end is not known. -/
theorem endOf_cases {pieces : List Piece} {L : Nat}
    (h : ∀ p ∈ pieces, p.more = false → p.stop = L) :
    (∃ p ∈ pieces, p.more = false ∧ endOf pieces = L) ∨
      ((∀ p ∈ pieces, p.more = true) ∧ endOf pieces = 0) := by
  induction pieces with
  | nil => exact .inr ⟨by simp, rfl⟩
  | cons p ps ih =>
    rw [endOf]
    cases hm : p.more with
    | false =>
      refine .inl ⟨p, by simp, hm, ?_⟩
      exact h p (by simp) hm
    | true =>
      rcases ih fun q hq => h q (by simp [hq]) with ⟨q, hq, hq1, hq2⟩ | ⟨hall, h0⟩
      · exact .inl ⟨q, by simp [hq], hq1, hq2⟩
      refine .inr ⟨?_, h0⟩
      intro q hq
      rcases List.mem_cons.mp hq with rfl | hq
      · exact hm
      · exact hall q hq

theorem Collected.ends (h : Collected payload A f) :
    ∀ p ∈ f.pieces, p.more = false → p.stop = payload.length := by
  intro p hp hm
  obtain ⟨k, hk, rfl⟩ := h.only p hp
  exact (stop_fragPiece (h.lt k hk)).2.2.2.2.1 hm

theorem Collected.endOf_last (h : Collected payload A f)
    (hlast : fragCount payload - 1 ∈ A) : endOf f.pieces = payload.length := by
  have hlt := h.lt _ hlast
  rcases endOf_cases h.ends with ⟨-, -, -, hend⟩ | ⟨hall, -⟩
  · exact hend
  have hm := hall _ (h.all _ hlast)
  have hfalse := (stop_fragPiece hlt).2.2.2.1.mpr (by omega)
  rw [hm] at hfalse
  cases hfalse

theorem Collected.complete_iff (h : Collected payload A f) (hpos : payload ≠ []) :
    f.complete = true ↔ A = range (fragCount payload) := by
  have hlen : 0 < payload.length := List.length_pos_iff.mpr hpos
  have hcount : fragCount payload = (payload.length + 1479) / 1480 := rfl
  have hpast : ∀ b ∈ touched f.pieces, b < (payload.length + 7) / 8 := by
    intro b hb
    obtain ⟨p, hp, h1, h2⟩ := (mem_touched h.ok.aligned).mp hb
    obtain ⟨k, hk, rfl⟩ := h.only p hp
    have := (stop_fragPiece (h.lt k hk)).1
    omega
  have hblocks : f.blocks = (touched f.pieces).card := h.ok.marks.count
  rw [Frag.complete, decide_eq_true_iff, h.ok.total, hblocks]
  constructor
  · rintro ⟨hne, hcard⟩
    rcases endOf_cases h.ends with ⟨-, -, -, hend⟩ | ⟨-, h0⟩
    · rw [hend] at hcard
      have hin := (card_eq_iff hcard).mp hpast
      refine Finset.Subset.antisymm ?_ ?_
      · intro k hk
        exact mem_range.mpr (h.lt k hk)
      · intro k hk
        have hk := mem_range.mp hk
        -- The first block of fragment `k` is in no other fragment.
        obtain ⟨q, hq, h1, h2⟩ := (mem_touched h.ok.aligned).mp (hin (185 * k) (by omega))
        obtain ⟨j, hj, rfl⟩ := h.only q hq
        have hstop := (stop_fragPiece (h.lt j hj)).2.2.1
        have hoff : (fragPiece payload j).offset = 1480 * j := rfl
        have : j = k := by omega
        exact this ▸ hj
    · exact absurd h0 hne
  · intro hA
    have hlast : fragCount payload - 1 ∈ A := by
      rw [hA, mem_range]
      omega
    rw [h.endOf_last hlast]
    refine ⟨by omega, ?_⟩
    have heq : touched f.pieces = range ((payload.length + 7) / 8) := by
      refine Finset.Subset.antisymm ?_ ?_
      · intro b hb
        exact mem_range.mpr (hpast b hb)
      · intro b hb
        have hb := mem_range.mp hb
        have hk : 8 * b / 1480 ∈ A := by
          rw [hA, mem_range]
          omega
        refine (mem_touched h.ok.aligned).mpr ⟨_, h.all _ hk, ?_, ?_⟩
        · show 1480 * (8 * b / 1480) ≤ 8 * b
          omega
        · exact (stop_fragPiece (h.lt _ hk)).2.2.2.2.2 _ (by omega) (by omega)
    rw [heq, card_range]

/-- A slot with all the fragments holds the payload. -/
theorem Collected.whole
    (h : Collected payload (range (fragCount payload)) f) (hpos : payload ≠ []) :
    f.whole = payload := by
  have hlen : 0 < payload.length := List.length_pos_iff.mpr hpos
  have hcount : fragCount payload = (payload.length + 1479) / 1480 := rfl
  have htotal : f.total = payload.length := by
    rw [h.ok.total]
    exact h.endOf_last (mem_range.mpr (by omega))
  refine List.ext_getElem? fun i => ?_
  rw [Frag.whole, htotal]
  by_cases hi : i < payload.length
  · have hk : i / 1480 < fragCount payload := by omega
    have hsup : Supplied f.pieces i := by
      refine ⟨_, h.all _ (mem_range.mpr hk), ?_, ?_⟩
      · show 1480 * (i / 1480) ≤ i
        omega
      · exact (stop_fragPiece hk).2.2.2.2.2 i hi (by omega)
    obtain ⟨p, hp, b, h1, h2, h3⟩ := exists_newest hsup
    obtain ⟨k, -, rfl⟩ := h.only p hp
    have hb : payload[i]? = some b := by
      have h1 : 1480 * k ≤ i := h1
      rw [show (fragPiece payload k).bytes = (payload.drop (1480 * k)).take 1480 from rfl,
        show (fragPiece payload k).offset = 1480 * k from rfl, List.getElem?_take] at h2
      split at h2
      · rw [List.getElem?_drop, show 1480 * k + (i - 1480 * k) = i by omega] at h2
        exact h2
      · cases h2
    rw [hb, Lib.slice, List.getElem?_map, List.getElem?_range hi, Option.map_some, Nat.zero_add,
      h.ok.data i b h3]
  · rw [List.getElem?_eq_none (by rw [length_slice]; omega), List.getElem?_eq_none (by omega)]

/-! ## The table -/

/-- The slots in use for the datagram of a header. -/
def mine (ip : Hdr) (s : Sys) : List Frag := s.frags.filter fun f => f.used && f.isFor ip

/-- Two headers of one datagram. -/
def sameKey (ip ip' : Hdr) : Bool :=
  ip.src == ip'.src && ip.dst == ip'.dst && ip.id == ip'.id && ip.proto == ip'.proto

theorem isFor_other {ip' : Hdr} (h : f.isFor ip' = true)
    (hne : sameKey ip' ip = false) : f.isFor ip = false := by
  simp only [Frag.isFor, Bool.and_eq_true, beq_iff_eq] at h
  obtain ⟨⟨⟨h1, h2⟩, h3⟩, h4⟩ := h
  rw [Frag.isFor, h1, h2, h3, h4]
  exact hne

theorem isFor_same {ip' : Hdr} (h : sameKey ip ip' = true) : f.isFor ip = f.isFor ip' := by
  simp only [sameKey, Bool.and_eq_true, beq_iff_eq] at h
  obtain ⟨⟨⟨h1, h2⟩, h3⟩, h4⟩ := h
  rw [Frag.isFor, Frag.isFor, h1, h2, h3, h4]

/-- What the two candidates of a look are: a slot that is free, one that is in use. -/
structure Candidates (frags : List Frag) (free oldest : Option Nat) : Prop where
  free : ∀ j, free = some j → ∃ f, frags[j]? = some f ∧ f.used = false
  oldest : ∀ j, oldest = some j → ∃ f, frags[j]? = some f

theorem Candidates.none : Candidates frags none none :=
  ⟨fun _ h => (by cases h), fun _ h => (by cases h)⟩

theorem Candidates.addFree
    (h : Candidates frags free oldest) (hf : frags[i]? = some f) (hu : f.used = false) :
    Candidates frags (free.or (some i)) oldest := by
  refine ⟨?_, h.oldest⟩
  intro j hj
  cases free with
  | none =>
    cases hj
    exact ⟨f, hf, hu⟩
  | some m => exact h.free j hj

theorem Candidates.addOldest (h : Candidates frags free oldest) (hf : frags[i]? = some f) :
    Candidates frags free (if older frags f oldest then some i else oldest) := by
  refine ⟨h.free, ?_⟩
  intro j hj
  split at hj
  · cases hj
    exact ⟨f, hf⟩
  · exact h.oldest j hj

/-- A look that found no slot of the datagram has seen all of them. -/
theorem lookFrom_absent {left : Nat} {free' oldest' : Option Nat}
    (h : lookFrom frags ip left i free oldest = .absent free' oldest')
    (hc : Candidates frags free oldest) :
    Candidates frags free' oldest' ∧
      ∀ j f, i ≤ j → j < i + left → frags[j]? = some f → (f.used && f.isFor ip) = false := by
  induction left generalizing i free oldest with
  | zero =>
    cases h
    exact ⟨hc, by omega⟩
  | succ left ih =>
    rw [lookFrom] at h
    split at h
    · rename_i hi
      cases h
      refine ⟨hc, ?_⟩
      intro j f hj _ hf
      have := List.getElem?_eq_none_iff.mp hi
      have := (List.getElem?_eq_some_iff.mp hf).1
      omega
    rename_i g hg
    -- What the rest of the look says, and this slot, make the claim from `i` on.
    have extend : (g.used && g.isFor ip) = false →
        (∀ j f, i + 1 ≤ j → j < i + 1 + left → frags[j]? = some f →
          (f.used && f.isFor ip) = false) →
        ∀ j f, i ≤ j → j < i + (left + 1) → frags[j]? = some f →
          (f.used && f.isFor ip) = false := by
      intro hnot hrest j f hj hj' hf
      by_cases hji : j = i
      · subst hji
        rw [hg] at hf
        cases hf
        exact hnot
      · exact hrest j f (by omega) (by omega) hf
    split at h
    · rename_i hu
      have hu : g.used = false := by simpa using hu
      obtain ⟨h1, h2⟩ := ih h (hc.addFree hg hu)
      exact ⟨h1, extend (by simp [hu]) h2⟩
    · split at h
      · cases h
      · rename_i hfor
        obtain ⟨h1, h2⟩ := ih h (hc.addOldest hg)
        exact ⟨h1, extend (by simp [hfor]) h2⟩

/-- Once there is a candidate there is one at the end, and any slot makes one. -/
theorem lookFrom_candidate {left : Nat} {free' oldest' : Option Nat}
    (h : lookFrom frags ip left i free oldest = .absent free' oldest')
    (hc : free.isSome = true ∨ oldest.isSome = true ∨ 0 < left ∧ i < frags.length) :
    free'.isSome = true ∨ oldest'.isSome = true := by
  induction left generalizing i free oldest with
  | zero =>
    cases h
    simpa using hc
  | succ left ih =>
    rw [lookFrom] at h
    split at h
    · rename_i hi
      cases h
      have := List.getElem?_eq_none_iff.mp hi
      rcases hc with hc | hc | hc
      · exact .inl hc
      · exact .inr hc
      · omega
    · split at h
      · exact ih h (.inl (by cases free <;> rfl))
      split at h
      · cases h
      refine ih h (.inr (.inl ?_))
      cases oldest with
      | none => rfl
      | some o =>
        split <;> rfl

theorem mine_nil_of_absent (hs : s.frags.length = ipFragSlots)
    (h : lookFrom s.frags ip ipFragSlots 0 none none = .absent free oldest) :
    mine ip s = [] := by
  refine List.filter_eq_nil_iff.mpr ?_
  intro f hf
  obtain ⟨j, hj⟩ := List.mem_iff_getElem?.mp hf
  have hlt := (List.getElem?_eq_some_iff.mp hj).1
  have := (lookFrom_absent h .none).2 j f (Nat.zero_le j) (by omega) hj
  simpa using this

theorem mem_mine_of_found (h : lookFrom s.frags ip ipFragSlots 0 none none = .found i) :
    ∃ f, s.frags[i]? = some f ∧ f ∈ mine ip s := by
  obtain ⟨f, hf, hu, hfor⟩ := lookFrom_found h
  exact ⟨f, hf, List.mem_filter.mpr ⟨List.mem_of_getElem? hf, by simp [hu, hfor]⟩⟩

/-- The slot a packet takes from another datagram for want of a free one. -/
def victim (s : Sys) (ip : Hdr) : Option Frag :=
  match lookFrom s.frags ip ipFragSlots 0 none none with
  | .absent none (some i) => s.frags[i]?
  | _ => none

/-- What `frag_slot` does for a datagram that has no slot: the slot at `i`, which was
free or was given up, becomes a fresh one if there is memory. -/
theorem fragSlot_absent (now : Nat) (mem : Option (Nat → UInt8))
    (hs : s.frags.length = ipFragSlots) (hm : mine ip s = []) :
    ∃ i g, s.frags[i]? = some g ∧ (g.used = false ∨ victim s ip = some g) ∧
      (mem = none → ∃ g' s', fragSlot s ip now mem = (none, s') ∧
        s'.frags = s.frags.set i g' ∧ (g'.used = true → g' = g)) ∧
      ∀ heap, mem = some heap → ∃ s', fragSlot s ip now mem = (some i, s') ∧
        s'.frags = s.frags.set i (freshFrag ip now heap) := by
  cases hl : lookFrom s.frags ip ipFragSlots 0 none none with
  | found i =>
    obtain ⟨f, -, hmem⟩ := mem_mine_of_found hl
    rw [hm] at hmem
    cases hmem
  | absent free oldest =>
    have hc := (lookFrom_absent hl .none).1
    cases free with
    | some i =>
      obtain ⟨g, hg, hu⟩ := hc.free i rfl
      refine ⟨i, g, hg, .inl hu, ?_, ?_⟩
      · rintro rfl
        refine ⟨g, s, by simp only [fragSlot, hl], ?_, fun _ => rfl⟩
        obtain ⟨hlt, rfl⟩ := List.getElem?_eq_some_iff.mp hg
        exact (List.set_getElem_self hlt).symm
      · rintro heap rfl
        exact ⟨s.setFrag i (freshFrag ip now heap), by simp only [fragSlot, hl], rfl⟩
    | none =>
      cases oldest with
      | none =>
        have := lookFrom_candidate hl (.inr (.inr ⟨by decide, by rw [hs]; decide⟩))
        simp at this
      | some i =>
        obtain ⟨g, hg⟩ := hc.oldest i rfl
        refine ⟨i, g, hg, .inr (by simp only [victim, hl, hg]), ?_, ?_⟩
        · rintro rfl
          refine ⟨{ g with used := false }, _, by simp only [fragSlot, hl]; rfl, ?_,
            fun h => by cases h⟩
          simp only [fragFree, hg, Sys.setFrag]
        · rintro heap rfl
          refine ⟨_, by simp only [fragSlot, hl]; rfl, ?_⟩
          simp only [fragFree, hg, Sys.setFrag, List.set_set]

section

variable {s s' : Sys} {ip : Hdr} {bytes : List UInt8} {now i : Nat}
  {mem : Option (Nat → UInt8)} {f : Frag}

section

variable (hr : (pieceOf ip bytes).refused = false)

include hr

/-- What `ipv4_reassemble` does once it has a slot. -/
theorem ipv4Reassemble_slot
    (hslot : fragSlot s ip now mem = (some i, s')) (hf : s'.frags[i]? = some f) :
    ipv4Reassemble s ip bytes now mem = if (putPiece f (pieceOf ip bytes)).complete then
        (some (putPiece f (pieceOf ip bytes)),
          s'.setFrag i { putPiece f (pieceOf ip bytes) with used := false })
      else (none, s'.setFrag i (putPiece f (pieceOf ip bytes))) := by
  simp only [ipv4Reassemble, hr, hslot, hf]
  rfl

theorem ipv4Reassemble_noSlot (hslot : fragSlot s ip now mem = (none, s')) :
    ipv4Reassemble s ip bytes now mem = (none, s') := by
  simp only [ipv4Reassemble, hr, hslot]
  rfl

/-- What is left of a slot that was filled: it is of the same datagram, or free. -/
theorem ipv4Reassemble_left
    (hslot : fragSlot s ip now mem = (some i, s')) (hf : s'.frags[i]? = some f)
    (hfor : f.isFor ip = true) :
    ∃ g, (ipv4Reassemble s ip bytes now mem).2.frags = s'.frags.set i g ∧ g.isFor ip = true := by
  rw [ipv4Reassemble_slot hr hslot hf]
  split
  · exact ⟨_, rfl, hfor⟩
  · exact ⟨_, rfl, hfor⟩

end

/-- A packet of another datagram leaves the slot alone, unless it takes it. -/
theorem mine_other (hs : s.frags.length = ipFragSlots) (hne : sameKey ip key = false)
    (hv : (pieceOf ip bytes).refused = false → ∀ g, victim s ip = some g → g.isFor key = false) :
    mine key (ipv4Reassemble s ip bytes now mem).2 = mine key s ∧
      (ipv4Reassemble s ip bytes now mem).2.frags.length = ipFragSlots := by
  have other : ∀ {t : Sys} {j : Nat} {g g' : Frag}, t.frags = s.frags.set j g' →
      s.frags[j]? = some g → (g.used && g.isFor key) = false →
      (g'.used && g'.isFor key) = false →
      mine key t = mine key s ∧ t.frags.length = ipFragSlots := by
    intro t j g g' ht hg h1 h2
    rw [mine, ht]
    exact ⟨filter_set_of_other hg h1 h2, by rw [List.length_set, hs]⟩
  cases hr : (pieceOf ip bytes).refused with
  | true =>
    rw [ipv4Reassemble]
    simp only [hr]
    exact ⟨rfl, hs⟩
  | false =>
    cases hl : lookFrom s.frags ip ipFragSlots 0 none none with
    | found j =>
      obtain ⟨g, hg, hu, hfor⟩ := lookFrom_found hl
      have hslot : fragSlot s ip now mem = (some j, s) := by simp only [fragSlot, hl]
      obtain ⟨g', hg', hfor'⟩ := ipv4Reassemble_left hr hslot hg hfor
      exact other hg' hg (by simp [isFor_other hfor hne]) (by simp [isFor_other hfor' hne])
    | absent free oldest =>
      obtain ⟨j, g, hg, hold, hnone, hsome⟩ := fragSlot_absent now mem hs (mine_nil_of_absent hs hl)
      have hnot : (g.used && g.isFor key) = false := by
        rcases hold with hu | hvict
        · simp [hu]
        · simp [hv hr g hvict]
      cases mem with
      | none =>
        obtain ⟨g', t, hslot, ht, hsame⟩ := hnone rfl
        rw [ipv4Reassemble_noSlot hr hslot]
        refine other ht hg hnot ?_
        cases hu : g'.used with
        | false => rfl
        | true =>
          have heq := hsame hu
          rw [heq] at hu ⊢
          rwa [hu] at hnot
      | some heap =>
        obtain ⟨t, hslot, ht⟩ := hsome heap rfl
        have hj : t.frags[j]? = some (freshFrag ip now heap) := by
          rw [ht, List.getElem?_set_self (List.getElem?_eq_some_iff.mp hg).1]
        obtain ⟨g', hg', hfor'⟩ := ipv4Reassemble_left hr hslot hj isFor_freshFrag
        rw [ht, List.set_set] at hg'
        exact other hg' hg hnot (by simp [isFor_other hfor' hne])

/-- What the table says of a payload whose fragments with numbers in `A` are there. -/
def Tracks (payload : List UInt8) (key : Hdr) (A : Finset Nat) (s : Sys) : Prop :=
  (mine key s = [] ∧ A = ∅) ∨ ∃ f, mine key s = [f] ∧ A ≠ ∅ ∧ Collected payload A f

/-- A fragment of the payload comes in: it is lost for want of memory, or it completes
the collection, or it is added to it. -/
theorem Tracks.reassemble (h : Tracks payload key A s) (hs : s.frags.length = ipFragSlots)
    (hl : payload.length ≤ ipMaxPayload) (hpos : payload ≠ []) (hk : k < fragCount payload)
    (hkey : sameKey ip key = true) (hp : pieceOf ip bytes = fragPiece payload k) :
    let r := ipv4Reassemble s ip bytes now mem
    r.2.frags.length = ipFragSlots ∧
    ((A = ∅ ∧ mem = none ∧ r.1 = none ∧ Tracks payload key A r.2) ∨ (A ≠ ∅ ∨ mem ≠ none) ∧
        ((insert k A = range (fragCount payload) ∧
          r.1.map Frag.whole = some payload ∧ Tracks payload key ∅ r.2) ∨
        (insert k A ≠ range (fragCount payload) ∧
          r.1 = none ∧ Tracks payload key (insert k A) r.2))) := by
  intro r
  have hr : (pieceOf ip bytes).refused = false := by
    rw [hp]
    exact fragPiece_taken hl hk
  have hmine : mine ip = mine key := by
    funext t
    simp only [mine, isFor_same hkey]
  -- Once there is a slot with the fragments in `A`, whichever way it was had.
  have filled : ∀ {t : Sys} {j : Nat} {g : Frag}, fragSlot s ip now mem = (some j, t) →
      t.frags[j]? = some g → t.frags.length = ipFragSlots → mine key t = [g] →
      (g.used && g.isFor key) = true → Collected payload A g →
      r.2.frags.length = ipFragSlots ∧
      ((insert k A = range (fragCount payload) ∧
        r.1.map Frag.whole = some payload ∧ Tracks payload key ∅ r.2) ∨
      (insert k A ≠ range (fragCount payload) ∧
        r.1 = none ∧ Tracks payload key (insert k A) r.2)) := by
    intro t j g hslot hg hlen hone hsel hcol
    have hr' := ipv4Reassemble_slot hr hslot hg
    have hput := hcol.put hl hk
    have hiff := hput.complete_iff hpos
    rw [hp] at hr'
    have hsel' : ((putPiece g (fragPiece payload k)).used &&
        (putPiece g (fragPiece payload k)).isFor key) = true := hsel
    split at hr'
    · rename_i hc
      have hA := hiff.mp hc
      refine ⟨?_, .inl ⟨hA, ?_, .inl ⟨?_, rfl⟩⟩⟩
      · simp only [r, hr', Sys.setFrag, List.length_set, hlen]
      · simp only [r, hr', Option.map_some]
        rw [hA] at hput
        rw [hput.whole hpos]
      · simp only [r, hr', mine, Sys.setFrag]
        rw [filter_set_of_only hg hsel hone]
        rfl
    · rename_i hc
      have hA : insert k A ≠ range (fragCount payload) := fun hA => hc (hiff.mpr hA)
      refine ⟨?_, .inr ⟨hA, ?_, .inr ⟨_, ?_, insert_ne_empty k A, hput⟩⟩⟩
      · simp only [r, hr', Sys.setFrag, List.length_set, hlen]
      · simp only [r, hr']
      · simp only [r, hr', mine, Sys.setFrag]
        rw [filter_set_of_only hg hsel hone]
        simp only [List.filter_cons, hsel', List.filter_nil, if_true]
  rcases h with ⟨hnil, rfl⟩ | ⟨f, hone, hne, hcol⟩
  · obtain ⟨j, g, hg, -, hnone, hsome⟩ := fragSlot_absent now mem hs (by rw [hmine, hnil])
    have hlt := (List.getElem?_eq_some_iff.mp hg).1
    cases hm : mem with
    | none =>
      obtain ⟨g', t, hslot, ht, hsame⟩ := hnone hm
      have hgone : (g'.used && g'.isFor key) = false := by
        cases hu : g'.used with
        | false => rfl
        | true =>
          have hg' := List.mem_of_getElem? hg
          rw [← hsame hu] at hg'
          simpa [hu] using List.filter_eq_nil_iff.mp hnil g' hg'
      have hr' := ipv4Reassemble_noSlot hr hslot
      refine ⟨by simp only [r, hr', ht, List.length_set, hs],
        .inl ⟨rfl, rfl, by simp only [r, hr'], .inl ⟨?_, rfl⟩⟩⟩
      simp only [r, hr', mine, ht]
      rw [filter_set_of_none hg hnil]
      simp [hgone]
    | some heap =>
      obtain ⟨t, hslot, ht⟩ := hsome heap hm
      have hsel : ((freshFrag ip now heap).used && (freshFrag ip now heap).isFor key) = true := by
        rw [← isFor_same hkey, isFor_freshFrag]
        rfl
      have hfresh := filled hslot (by rw [ht, List.getElem?_set_self hlt])
        (by rw [ht, List.length_set, hs])
        (by
          simp only [mine, ht]
          rw [filter_set_of_none hg hnil]
          simp only [List.filter_cons, hsel, List.filter_nil, if_true]) hsel
        ⟨freshFrag_ok, by simp [freshFrag], by simp, by simp⟩
      exact ⟨hfresh.1, .inr ⟨.inr (by simp), hfresh.2⟩⟩
  · have hfound : ∃ j, lookFrom s.frags ip ipFragSlots 0 none none = .found j ∧
        s.frags[j]? = some f := by
      cases hlook : lookFrom s.frags ip ipFragSlots 0 none none with
      | absent free oldest =>
        have := mine_nil_of_absent hs hlook
        rw [hmine, hone] at this
        cases this
      | found j =>
        obtain ⟨g, hg, hmem⟩ := mem_mine_of_found hlook
        rw [hmine, hone, List.mem_singleton] at hmem
        exact ⟨j, rfl, hmem ▸ hg⟩
    obtain ⟨j, hlook, hj⟩ := hfound
    have hsel : (f.used && f.isFor key) = true := by
      have hmem : f ∈ mine key s := by rw [hone]; exact List.mem_singleton_self f
      simpa using (List.mem_filter.mp hmem).2
    have hfilled := filled (by simp only [fragSlot, hlook]) hj hs hone hsel hcol
    exact ⟨hfilled.1, .inr ⟨.inl hne, hfilled.2⟩⟩

end

/-! ## Any order, any number of times -/

/-- What comes in: a fragment of the payload by its number, or anything else. -/
inductive Feed where
  | ours (k : Nat) (nif : Netif) (now : Nat) (mem : Option (Nat → UInt8))
  | other (act : Act)

/-- The step a feed is, where `sent` are the packets that went out. -/
def Feed.act (sent : List (List UInt8)) : Feed → Act
  | .ours k nif now mem => .input nif (sent.getD k []) now mem
  | .other act => act

/-- The header that says which datagram the packets are of. -/
def keyOf (sent : List (List UInt8)) : Hdr := Hdr.read (sent.getD 0 [])

/-- A packet that gets as far as `frag_slot`. -/
def isFragment (nif : Netif) (d : List UInt8) : Bool :=
  accepts nif d && decide ((Hdr.read d).frag &&& (ipFlagMf ||| ipFragMask) ≠ 0) &&
    !(pieceOf (Hdr.read d) (payloadOf d)).refused

/-- The slots a step gives up: the one it evicts, those that time out. -/
def givesUp (s : Sys) : Act → List Frag
  | .input nif d _ _ => if isFragment nif d then (victim s (Hdr.read d)).toList else []
  | .tick now => s.frags.filter fun f => f.expired now

/-- A fragment of the payload goes to a machine it is meant for. Anything else is not a
fragment of that datagram, and does not make the receiver give up its slot. -/
def Undisturbed (sent : List (List UInt8)) (s : Sys) : Feed → Prop
  | .ours k nif _ _ => k < sent.length ∧ ipv4IsOurs nif (keyOf sent).dst = true
  | .other (.input nif d now mem) =>
    (isFragment nif d = true → sameKey (Hdr.read d) (keyOf sent) = false) ∧
      ∀ f ∈ givesUp s (.input nif d now mem), f.isFor (keyOf sent) = false
  | .other (.tick now) => ∀ f ∈ givesUp s (.tick now), f.isFor (keyOf sent) = false

/-- The numbers collected once a feed came in, out of `n`. A fragment that is not sent
alone needs a slot, and with nothing collected yet the slot needs memory. -/
def collect (n : Nat) (A : Finset Nat) : Feed → Finset Nat
  | .ours k _ _ mem =>
    if n ≠ 1 ∧ A = ∅ ∧ mem.isNone then A
    else if insert k A = range n then ∅ else insert k A
  | .other _ => A

theorem mine_tick {now : Nat} (h : ∀ f ∈ givesUp s (.tick now), f.isFor key = false) :
    mine key (ipv4FragTick s now) = mine key s := by
  have hgone : ∀ f ∈ s.frags, f.expired now = true → f.isFor key = false := by
    intro f hf he
    exact h f (List.mem_filter.mpr ⟨hf, he⟩)
  simp only [mine, ipv4FragTick]
  generalize s.frags = l at hgone
  induction l with
  | nil => rfl
  | cons f l ih =>
    have hrest := ih fun g hg => hgone g (by simp [hg])
    rw [List.map_cons, List.filter_cons, List.filter_cons, hrest]
    cases he : f.expired now with
    | true => simp [hgone f (by simp) he]
    | false => simp

/-- Anything else leaves the collection as it is. -/
theorem tracks_other {sent : List (List UInt8)} {act : Act}
    (ht : Tracks payload (keyOf sent) A s) (hs : s.frags.length = ipFragSlots)
    (hu : Undisturbed sent s (.other act)) :
    Tracks payload (keyOf sent) A (step s act) ∧ (step s act).frags.length = ipFragSlots := by
  have same : ∀ {t : Sys}, mine (keyOf sent) t = mine (keyOf sent) s →
      Tracks payload (keyOf sent) A t := by
    intro t hm
    rw [Tracks, hm]
    exact ht
  cases act with
  | tick now =>
    refine ⟨same (mine_tick hu), ?_⟩
    simp only [step, ipv4FragTick, List.length_map, hs]
  | input nif d now mem =>
    simp only [step, ipv4Input]
    split
    · rename_i ha
      split
      · exact ⟨same rfl, hs⟩
      rename_i hfrag
      by_cases hr : (pieceOf (Hdr.read d) (payloadOf d)).refused = true
      · simp only [ipv4Reassemble, hr]
        exact ⟨same rfl, hs⟩
      have hisf : isFragment nif d = true := by
        simp [isFragment, ha, hfrag, hr]
      have hgives : ∀ g, victim s (Hdr.read d) = some g → g.isFor (keyOf sent) = false := by
        intro g hg
        exact hu.2 g (by simp [givesUp, hisf, hg])
      obtain ⟨hm, hlen⟩ : mine (keyOf sent)
            (ipv4Reassemble s (Hdr.read d) (payloadOf d) now mem).2 = mine (keyOf sent) s ∧ _ :=
        mine_other hs (hu.1 hisf) fun _ => hgives
      exact ⟨same hm, hlen⟩
    · exact ⟨same rfl, hs⟩

/-- The datagram `ipv4_input` hands up when the bytes come to one that was sent. -/
def arrival (via : Netif) (src dst : UInt32) (proto : UInt8) (bytes : List UInt8) : Datagram :=
  ⟨if src ≠ 0 then src else ipv4Source via dst, dst, proto.toNat, bytes⟩

/-- The packets of a payload, as the receiver finds them. -/
structure SentOk (sent : List (List UInt8)) (via : Netif) (payload : List UInt8)
    (src dst : UInt32) (proto : UInt8) (id : UInt16) : Prop where
  pos : payload ≠ []
  le : payload.length ≤ ipMaxPayload
  eq : sent = (List.range (fragCount payload)).map (packet via payload src dst proto id)

namespace SentOk

variable {sent : List (List UInt8)} {via : Netif} (h : SentOk sent via payload src dst proto id)

include h

theorem length : sent.length = fragCount payload := by
  rw [h.eq, List.length_map, List.length_range]

theorem getD (hk : k < fragCount payload) :
    sent.getD k [] = packet via payload src dst proto id k := by
  rw [h.eq, List.getD_eq_getElem?_getD, List.getElem?_map, List.getElem?_range hk]
  rfl

theorem count_pos : 0 < fragCount payload := by
  have := List.length_pos_iff.mpr h.pos
  rw [fragCount]
  omega

theorem keyOf : keyOf sent = fragHdr via payload src dst proto id 0 := by
  rw [Ip.keyOf, h.getD h.count_pos, read_packet h.le h.count_pos]

theorem sameKey : sameKey (fragHdr via payload src dst proto id k) (Ip.keyOf sent) = true := by
  rw [h.keyOf]
  simp [Ip.sameKey, fragHdr]

/-- What `ipv4_input` does with fragment `k`. -/
theorem input {now : Nat} {mem : Option (Nat → UInt8)}
    (hk : k < fragCount payload) (hnif : ipv4IsOurs nif dst = true) :
    ipv4Input s nif (sent.getD k []) now mem = if fragCount payload = 1 then
        (some (arrival via src dst proto payload), s)
      else
        let r := ipv4Reassemble s (fragHdr via payload src dst proto id k)
          (fragBytes payload k) now mem
        (r.1.map fun f => arrival via src dst proto f.whole, r.2) := by
  have hfield := (fragField_bits h.le hk).2.2.2
  have hbits : (fragHdr via payload src dst proto id k).frag = fragField payload k := rfl
  rw [h.getD hk, ipv4Input, accepts_packet h.le hk, hnif]
  simp only [read_packet h.le hk, payloadOf_packet h.le hk, hbits]
  by_cases hone : fragCount payload = 1
  · have hk0 : k = 0 := by omega
    have hbytes : fragBytes payload 0 = payload := by
      have hcount : fragCount payload = (payload.length + 1479) / 1480 := rfl
      rw [fragBytes, List.drop_zero]
      exact List.take_of_length_le (by omega)
    rw [if_pos (hfield.mpr hone), if_pos hone, hk0, hbytes]
    rfl
  · rw [if_neg (fun h0 => hone (hfield.mp h0)), if_neg hone]
    rfl

/-- A fragment comes in: what it delivers, and what is collected afterwards. -/
theorem ours (now : Nat) (mem : Option (Nat → UInt8)) (ht : Tracks payload (Ip.keyOf sent) A s)
    (hs : s.frags.length = ipFragSlots) (h1 : fragCount payload = 1 → A = ∅)
    (hk : k < fragCount payload) (hnif : ipv4IsOurs nif dst = true) :
    let r := ipv4Input s nif (sent.getD k []) now mem
    r.2.frags.length = ipFragSlots ∧
    Tracks payload (Ip.keyOf sent) (collect (fragCount payload) A (.ours k nif now mem)) r.2 ∧
    r.1 = if (fragCount payload = 1 ∨ A ≠ ∅ ∨ mem.isSome) ∧
        insert k A = range (fragCount payload) then
      some (arrival via src dst proto payload)
    else none := by
  intro r
  have hr : r = _ := h.input hk hnif
  by_cases hone : fragCount payload = 1
  · have hk0 : k = 0 := by omega
    have hA := h1 hone
    have hins : insert k A = range (fragCount payload) := by
      rw [hA, hk0, hone]
      rfl
    have hkept : collect (fragCount payload) A (.ours k nif now mem) = A := by
      rw [collect, if_neg (by simp [hone]), if_pos hins, hA]
    rw [if_pos hone] at hr
    rw [hr, hkept, if_pos ⟨.inl hone, hins⟩]
    exact ⟨hs, ht, rfl⟩
  rw [if_neg hone] at hr
  obtain ⟨hlen, hcases⟩ := ht.reassemble hs h.le h.pos hk h.sameKey (pieceOf_packet h.le hk)
  refine ⟨by rw [hr]; exact hlen, ?_⟩
  have keeps : A ≠ ∅ ∨ mem ≠ none → ¬(fragCount payload ≠ 1 ∧ A = ∅ ∧ mem.isNone = true) := by
    rintro hmem ⟨-, hA, hn⟩
    rcases hmem with hmem | hmem
    · exact hmem hA
    · exact hmem (Option.isNone_iff_eq_none.mp hn)
  rcases hcases with ⟨hA, hn, hnone, htr⟩ | ⟨hmem, ⟨hins, hwhole, htr⟩ | ⟨hins, hnone, htr⟩⟩
  · have hkept : collect (fragCount payload) A (.ours k nif now mem) = A := by
      rw [collect, if_pos ⟨hone, hA, by simp [hn]⟩]
    have hno : ¬((fragCount payload = 1 ∨ A ≠ ∅ ∨ mem.isSome = true) ∧
        insert k A = range (fragCount payload)) := by
      simp [hone, hA, hn]
    rw [hr, hkept, if_neg hno]
    exact ⟨htr, by simp only [hnone, Option.map_none]⟩
  · have hgot : collect (fragCount payload) A (.ours k nif now mem) = ∅ := by
      rw [collect, if_neg (keeps hmem), if_pos hins]
    have hyes : fragCount payload = 1 ∨ A ≠ ∅ ∨ mem.isSome = true :=
      .inr (hmem.imp_right Option.isSome_iff_ne_none.mpr)
    rw [hr, hgot, if_pos ⟨hyes, hins⟩]
    obtain ⟨f, hf, hfw⟩ := Option.map_eq_some_iff.mp hwhole
    exact ⟨htr, by simp only [hf, Option.map_some, hfw]⟩
  · have hgot : collect (fragCount payload) A (.ours k nif now mem) = insert k A := by
      rw [collect, if_neg (keeps hmem), if_neg hins]
    rw [hr, hgot, if_neg fun hand => hins hand.2]
    exact ⟨htr, by simp only [hnone, Option.map_none]⟩

/-- One feed keeps the collection what it is said to be. -/
theorem step {feed : Feed} (ht : Tracks payload (Ip.keyOf sent) A s)
    (hs : s.frags.length = ipFragSlots) (h1 : fragCount payload = 1 → A = ∅)
    (hu : Undisturbed sent s feed) :
    Tracks payload (Ip.keyOf sent) (collect sent.length A feed) (Ip.step s (feed.act sent)) ∧
    (Ip.step s (feed.act sent)).frags.length = ipFragSlots ∧
    (fragCount payload = 1 → collect sent.length A feed = ∅) := by
  rw [h.length]
  cases feed with
  | ours k nif now mem =>
    have hk : k < fragCount payload := h.length ▸ hu.1
    have hnif : ipv4IsOurs nif dst = true := by
      have := hu.2
      rwa [h.keyOf] at this
    obtain ⟨hlen, htr, -⟩ := h.ours now mem ht hs h1 hk hnif
    refine ⟨htr, hlen, ?_⟩
    intro hone
    have hk0 : k = 0 := by omega
    have hins : insert k A = range (fragCount payload) := by
      rw [h1 hone, hk0, hone]
      rfl
    rw [collect, if_neg (by simp [hone]), if_pos hins]
  | other act =>
    obtain ⟨htr, hlen⟩ := tracks_other ht hs hu
    exact ⟨htr, hlen, h1⟩

theorem undisturbed (s : Sys) (now : Nat) (mem : Option (Nat → UInt8))
    (hk : k < fragCount payload) (hnif : ipv4IsOurs nif dst = true) :
    Undisturbed sent s (.ours k nif now mem) := by
  refine ⟨h.length ▸ hk, ?_⟩
  rw [h.keyOf]
  exact hnif

/-- Any number of feeds do. -/
theorem run {feeds : List Feed}
    (ht : Tracks payload (Ip.keyOf sent) A s) (hs : s.frags.length = ipFragSlots)
    (h1 : fragCount payload = 1 → A = ∅)
    (hu : Meets (fun s x => Ip.step s (x.act sent)) (Undisturbed sent) s feeds) :
    let t := Lib.run Ip.step s (feeds.map (Feed.act sent))
    Tracks payload (Ip.keyOf sent) (feeds.foldl (collect sent.length) A) t ∧
    t.frags.length = ipFragSlots ∧
    (fragCount payload = 1 → feeds.foldl (collect sent.length) A = ∅) := by
  induction feeds generalizing A s with
  | nil => exact ⟨ht, hs, h1⟩
  | cons feed feeds ih =>
    obtain ⟨ht', hs', h1'⟩ := h.step ht hs h1 hu.1
    exact ih ht' hs' h1' hu.2

end SentOk

/-- With no failure underneath, every payload that fits is sent. -/
theorem ipv4OutputFlat_ok (hl : payload.length ≤ ipMaxPayload) :
    (ipv4OutputFlat (some via) payload src dst proto id fun _ => none).1 = .ok () := by
  have loop : ∀ fuel off,
      (outputLoop via payload src dst proto id (fun _ => none) fuel off).1 = .ok () := by
    intro fuel
    induction fuel with
    | zero => intro off; rfl
    | succ fuel ih =>
      intro off
      simp only [outputLoop]
      split
      · split <;> split
        · exact ih _
        · rfl
        · exact ih _
        · rfl
      · rfl
  simp only [ipv4OutputFlat]
  rw [if_neg (Nat.not_lt.mpr hl)]
  exact loop _ _

/-- The packets `ipv4_output_flat` sent for a payload come to a receiver with no slot for
that datagram, in any order and any number of times, between packets and ticks that do
not take the slot away. The receiver hands up the payload, whole and as it was sent,
exactly when the packet that comes in is the last one missing. -/
theorem fragments_round_trip {via : Netif} {fails : Nat → Option Errno} (hpos : payload ≠ [])
    (hsent : (ipv4OutputFlat (some via) payload src dst proto id fails).1 = .ok ())
    {s : Sys} (hs : s.frags.length = ipFragSlots) {feeds : List Feed} {k now : Nat}
    {nif : Netif} {mem : Option (Nat → UInt8)} :
    let sent := (ipv4OutputFlat (some via) payload src dst proto id fails).2
    let t := run step s (feeds.map (Feed.act sent))
    let got := feeds.foldl (collect sent.length) ∅
    mine (keyOf sent) s = [] →
    Meets (fun s x => step s (x.act sent)) (Undisturbed sent) s feeds →
    Undisturbed sent t (.ours k nif now mem) →
    (ipv4Input t nif (sent.getD k []) now mem).1 =
      if (sent.length = 1 ∨ got ≠ ∅ ∨ mem.isSome) ∧ insert k got = range sent.length
      then some ⟨if src ≠ 0 then src else ipv4Source via dst, dst, proto.toNat, payload⟩
      else none := by
  intro sent t got hnone hmeets hlast
  obtain ⟨hl, heq⟩ := ipv4OutputFlat_packets hpos hsent
  have h : SentOk sent via payload src dst proto id := ⟨hpos, hl, heq⟩
  have hstart : Tracks payload (keyOf sent) ∅ s := .inl ⟨hnone, rfl⟩
  obtain ⟨htr, hlen, hone⟩ := h.run hstart hs (fun _ => rfl) hmeets
  have hk : k < fragCount payload := h.length ▸ hlast.1
  have hnif : ipv4IsOurs nif dst = true := by
    have := hlast.2
    rwa [h.keyOf] at this
  have hours := (h.ours now mem htr hlen hone hk hnif).2.2
  rw [hours, ← h.length]
  rfl

/-- Two fragments, the second one first. -/
theorem fragments_round_trip_two : let lo : Netif := ⟨0x0100007f, 0x000000ff, true⟩
    let payload := List.replicate 1481 7
    let sent := (ipv4OutputFlat (some lo) payload 0 0x0100007f 17 5 fun _ => none).2
    let heap : Option (Nat → UInt8) := some fun _ => 0
    let t := run step Sys.init [Feed.act sent (.ours 1 lo 0 heap)]
    (ipv4Input t lo (sent.getD 0 []) 0 heap).1 = some ⟨0x0100007f, 0x0100007f, 17, payload⟩ := by
  intro lo payload sent heap t
  have hlen : payload.length = 1481 := List.length_replicate
  -- From here on only the length of the payload matters.
  clear_value payload
  have hpos : payload ≠ [] := List.ne_nil_of_length_pos (by omega)
  have hcount : fragCount payload = 2 := by rw [fragCount, hlen]
  have hl : payload.length ≤ ipMaxPayload := by rw [hlen]; decide
  have hok : (ipv4OutputFlat (some lo) payload 0 0x0100007f 17 5 fun _ => none).1 = .ok () :=
    ipv4OutputFlat_ok hl
  have h : SentOk sent lo payload 0 0x0100007f 17 5 :=
    ⟨hpos, hl, (ipv4OutputFlat_packets hpos hok).2⟩
  have hn : sent.length = 2 := by rw [h.length, hcount]
  have hlo : ipv4IsOurs lo 0x0100007f = true := by decide
  have hfirst : Meets (fun s x => step s (Feed.act sent x)) (Undisturbed sent) Sys.init
      [.ours 1 lo 0 heap] :=
    ⟨h.undisturbed Sys.init 0 heap (by omega) hlo, trivial⟩
  have hlast := h.undisturbed t 0 heap (by omega : 0 < fragCount payload) hlo
  have hround := fragments_round_trip hpos hok rfl rfl hfirst hlast
  have hall : insert 0 ([Feed.ours 1 lo 0 heap].foldl (collect sent.length) ∅)
      = range sent.length := by
    rw [hn]
    rfl
  exact hround.trans (if_pos ⟨.inr (.inr rfl), hall⟩)

end BleedKernel.Ip
