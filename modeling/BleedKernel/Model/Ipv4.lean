import BleedKernel.Lib.Ring

/-!
# `net/ipv4.c` and `net/ipv4_frag.c`

Packets are lists of bytes as they are on the wire, header first. The sender cuts
a payload into fragments and writes a header before each; the receiver checks the
header, and puts fragments together in one of a few slots.

`kmalloc` is a choice made from outside. A buffer it hands out holds whatever was
in that part of the heap, so an allocation that went well comes with the bytes
that are found there.

A slot carries a list that the kernel does not have: the fragments that were put
into it since it was taken, the last one first.
-/

namespace BleedKernel.Ip

open BleedKernel.Lib

/-- `IP_HLEN` -/
def ipHlen : Nat := 20

/-- `IP_TTL` -/
def ipTtl : Nat := 64

/-- `IP_FLAG_MF` -/
def ipFlagMf : Nat := 0x2000

/-- `IP_FRAG_MASK` -/
def ipFragMask : Nat := 0x1FFF

/-- `IP_MAX_PAYLOAD` -/
def ipMaxPayload : Nat := 0xFFFF - ipHlen

/-- `ETH_MTU` -/
def ethMtu : Nat := 1500

/-- `IP_FRAG_CHUNK` -/
def ipFragChunk : Nat := ethMtu - ipHlen

/-- `IP_FRAG_SLOTS` -/
def ipFragSlots : Nat := 4

/-- `IP_FRAG_TIMEOUT_MS` -/
def ipFragTimeoutMs : Nat := 5000

/-- `IP_BROADCAST` -/
def ipBroadcast : UInt32 := 0xFFFFFFFF

/-! ## Bytes -/

/-- Byte `i`, as a number. -/
def byteAt (d : List UInt8) (i : Nat) : Nat := (d.getD i 0).toNat

/-- `ntohs` of the two bytes at `i`. -/
def be16 (d : List UInt8) (i : Nat) : Nat := byteAt d i * 256 + byteAt d (i + 1)

/-- The four bytes at `i` as they are kept in memory, the first one lowest. -/
def raw32 (d : List UInt8) (i : Nat) : UInt32 :=
  UInt32.ofNat (byteAt d i + byteAt d (i + 1) * 256 + byteAt d (i + 2) * 65536
    + byteAt d (i + 3) * 16777216)

/-- `htons`, stored. -/
def put16 (x : Nat) : List UInt8 := [UInt8.ofNat (x / 256 % 256), UInt8.ofNat (x % 256)]

/-- An address, stored. -/
def put32 (x : UInt32) : List UInt8 :=
  [UInt8.ofNat (x.toNat % 256), UInt8.ofNat (x.toNat / 256 % 256),
    UInt8.ofNat (x.toNat / 65536 % 256), UInt8.ofNat (x.toNat / 16777216 % 256)]

/-- `net_checksum_partial`, in 32 bits. -/
def netChecksumPartial : List UInt8 → Nat → Nat
  | a :: b :: rest, sum =>
    netChecksumPartial rest ((sum + (a.toNat * 256 + b.toNat)) % 2 ^ 32)
  | [a], sum => (sum + a.toNat * 256) % 2 ^ 32
  | [], sum => sum

/-- The folding loop of `net_checksum`, for at most `fuel` rounds. -/
def foldSum : Nat → Nat → Nat
  | 0, sum => sum
  | fuel + 1, sum =>
    if sum / 65536 ≠ 0 then foldSum fuel (sum % 65536 + sum / 65536) else sum

/-- `net_checksum`, before `htons`. Three rounds fold any 32 bits. -/
def netChecksum (d : List UInt8) (start : Nat) : Nat :=
  65535 - foldSum 3 (netChecksumPartial d start) % 65536

/-- `ipv4_pseudo_sum` -/
def ipv4PseudoSum (src dst : UInt32) (proto : UInt8) (len : Nat) : Nat :=
  netChecksumPartial (put32 src ++ put32 dst ++ [0, proto] ++ put16 len) 0

/-! ## The header -/

/-- What is read of an `ipv4_hdr_t`, numbers in host order. -/
structure Hdr where
  verIhl : Nat
  totalLen : Nat
  id : Nat
  frag : Nat
  proto : Nat
  src : UInt32
  dst : UInt32
deriving DecidableEq, Repr

/-- The header at the start of a packet. -/
def Hdr.read (d : List UInt8) : Hdr where
  verIhl := byteAt d 0
  totalLen := be16 d 2
  id := be16 d 4
  frag := be16 d 6
  proto := byteAt d 9
  src := raw32 d 12
  dst := raw32 d 16

/-- The part of a `netif_t` that decides what is for this machine. -/
structure Netif where
  ip : UInt32
  netmask : UInt32
  configured : Bool
deriving DecidableEq, Repr

/-- `IP_LOOPBACK` -/
def ipLoopback (ip : UInt32) : Bool := ip &&& 0xFF == 127

/-- `ipv4_is_ours` -/
def ipv4IsOurs (nif : Netif) (dst : UInt32) : Bool :=
  if dst == ipBroadcast || ipLoopback dst then true
  else if !nif.configured then true
  else if dst == nif.ip then true
  else nif.netmask != 0 && dst == ((nif.ip &&& nif.netmask) ||| ~~~nif.netmask)

/-! ## Sending -/

/-- The header `ipv4_send` writes, with `sum` as its checksum. -/
def headerBytes (len : Nat) (id : UInt16) (frag : Nat) (proto : UInt8) (sum : Nat)
    (src dst : UInt32) : List UInt8 :=
  [0x45, 0] ++ put16 len ++ put16 id.toNat ++ put16 frag ++
    [UInt8.ofNat ipTtl, proto] ++ put16 sum ++ put32 src ++ put32 dst

/-- `ipv4_source` -/
def ipv4Source (nif : Netif) (dst : UInt32) : UInt32 :=
  if ipLoopback dst then 0x0100007F else nif.ip

/-- `ipv4_send`, up to where the packet leaves. -/
def ipv4Send (nif : Netif) (payload : List UInt8) (src dst : UInt32) (proto : UInt8)
    (id : UInt16) (frag : Nat) : List UInt8 :=
  let len := payload.length + ipHlen
  let src := if src ≠ 0 then src else ipv4Source nif dst
  headerBytes len id frag proto (netChecksum (headerBytes len id frag proto 0 src dst) 0) src dst
    ++ payload

/-- The error codes of the modelled calls; a driver may have others. -/
inductive Errno where
  | emsgsize | enetunreach | enobufs
  | driver (code : Nat)
deriving DecidableEq, Repr

/-- The loop of `ipv4_output_flat` from `off` on, for at most `fuel` turns. `fails` is
what goes wrong in the turn at an offset, with the `netbuf` or on the packet's way out. -/
def outputLoop (nif : Netif) (payload : List UInt8) (src dst : UInt32) (proto : UInt8)
    (id : UInt16) (fails : Nat → Option Errno) : Nat → Nat → Except Errno Unit × List (List UInt8)
  | 0, _ => (.ok (), [])
  | fuel + 1, off =>
    if off < payload.length ∨ off = 0 then
      let chunk := if payload.length - off < ipFragChunk then payload.length - off
        else ipFragChunk
      let more := decide (off + chunk < payload.length)
      match fails off with
      | some e => (.error e, [])
      | none =>
        let frag := off / 8 % 65536 ||| (if more then ipFlagMf else 0)
        let packet := ipv4Send nif ((payload.drop off).take chunk) src dst proto id frag
        if more then
          let r := outputLoop nif payload src dst proto id fails fuel (off + ipFragChunk)
          (r.1, packet :: r.2)
        else (.ok (), [packet])
    else (.ok (), [])

/-- `ipv4_output_flat`: what it returns, and what it sent. `route` is the interface
when there is a next hop. -/
def ipv4OutputFlat (route : Option Netif) (payload : List UInt8) (src dst : UInt32)
    (proto : UInt8) (id : UInt16) (fails : Nat → Option Errno) :
    Except Errno Unit × List (List UInt8) :=
  if payload.length > ipMaxPayload then (.error .emsgsize, [])
  else
    match route with
    | none => (.error .enetunreach, [])
    | some nif => outputLoop nif payload src dst proto id fails (payload.length + 1) 0

/-! ## Putting fragments together -/

/-- A fragment that was put into a slot. -/
structure Piece where
  offset : Nat
  bytes : List UInt8
  more : Bool
deriving DecidableEq, Repr

/-- The place just past a fragment. -/
def Piece.stop (p : Piece) : Nat := p.offset + p.bytes.length

/-- `ip_frag_t`. Bit `b` of `have` is `arrived b`. -/
structure Frag where
  used : Bool := false
  src : UInt32 := 0
  dst : UInt32 := 0
  id : Nat := 0
  proto : Nat := 0
  started : Nat := 0
  total : Nat := 0
  blocks : Nat := 0
  data : Nat → UInt8 := fun _ => 0
  arrived : Nat → Bool := fun _ => false
  pieces : List Piece := []

/-- `frags` and `frags_dropped` -/
structure Sys where
  frags : List Frag
  dropped : Nat := 0

/-- `frags` at boot: every slot is free. -/
def Sys.init : Sys := { frags := List.replicate ipFragSlots {} }

/-- A write to a slot. -/
def Sys.setFrag (s : Sys) (i : Nat) (f : Frag) : Sys := { s with frags := s.frags.set i f }

/-- A slot is for the datagram a header belongs to. -/
def Frag.isFor (f : Frag) (ip : Hdr) : Bool :=
  f.src == ip.src && f.dst == ip.dst && f.id == ip.id && f.proto == ip.proto

/-- What the loop of `frag_slot` found: the slot of the datagram, or else the first
free one and the oldest of those in use. -/
inductive Look where
  | found (i : Nat)
  | absent (free oldest : Option Nat)
deriving DecidableEq, Repr

/-- `!oldest || f->started < oldest->started` -/
def older (frags : List Frag) (f : Frag) (oldest : Option Nat) : Bool :=
  (oldest.bind fun o => frags[o]?).all fun o => decide (f.started < o.started)

/-- The loop of `frag_slot`, with `left` slots to go from slot `i` on. -/
def lookFrom (frags : List Frag) (ip : Hdr) :
    Nat → Nat → Option Nat → Option Nat → Look
  | 0, _, free, oldest => .absent free oldest
  | left + 1, i, free, oldest =>
    match frags[i]? with
    | none => .absent free oldest
    | some f =>
      if !f.used then lookFrom frags ip left (i + 1) (free.or (some i)) oldest
      else if f.isFor ip then .found i
      else lookFrom frags ip left (i + 1) free (if older frags f oldest then some i else oldest)

/-- `frag_free` -/
def fragFree (s : Sys) (i : Nat) : Sys :=
  match s.frags[i]? with
  | some f => s.setFrag i { f with used := false }
  | none => s

/-- The slot `frag_slot` fills in for a new datagram. -/
def freshFrag (ip : Hdr) (now : Nat) (heap : Nat → UInt8) : Frag :=
  { used := true, src := ip.src, dst := ip.dst, id := ip.id, proto := ip.proto,
    started := now, total := 0, blocks := 0, data := heap, arrived := fun _ => false,
    pieces := [] }

/-- `frag_slot`: the slot, and the table it is in. `mem` is what `kmalloc` answers,
and what is in the buffer. -/
def fragSlot (s : Sys) (ip : Hdr) (now : Nat) (mem : Option (Nat → UInt8)) :
    Option Nat × Sys :=
  match lookFrom s.frags ip ipFragSlots 0 none none with
  | .found i => (some i, s)
  | .absent (some i) _ =>
    match mem with
    | none => (none, s)
    | some heap => (some i, s.setFrag i (freshFrag ip now heap))
  | .absent none (some i) =>
    let s := fragFree { s with dropped := s.dropped + 1 } i
    match mem with
    | none => (none, s)
    | some heap => (some i, s.setFrag i (freshFrag ip now heap))
  | .absent none none => (none, s)

/-- One turn of the loop that marks what has arrived. -/
def markBlock (st : (Nat → Bool) × Nat) (b : Nat) : (Nat → Bool) × Nat :=
  if st.1 b then st else (Function.update st.1 b true, st.2 + 1)

/-- The blocks of 8 bytes that `len` bytes at `offset` lie in. -/
def blocksOf (offset len : Nat) : List Nat :=
  List.range' (offset / 8) ((offset + len + 7) / 8 - offset / 8)

/-- What a fragment does to its slot. -/
def putPiece (f : Frag) (p : Piece) : Frag :=
  let marked := (blocksOf p.offset p.bytes.length).foldl markBlock (f.arrived, f.blocks)
  { f with
    data := store f.data p.offset p.bytes,
    arrived := marked.1, blocks := marked.2,
    total := if p.more then f.total else p.stop,
    pieces := p :: f.pieces }

/-- `f->total && f->blocks == (f->total + 7) / 8` -/
def Frag.complete (f : Frag) : Bool := decide (f.total ≠ 0 ∧ f.blocks = (f.total + 7) / 8)

/-- The fragment a header and its payload are. -/
def pieceOf (ip : Hdr) (payload : List UInt8) : Piece where
  offset := (ip.frag &&& ipFragMask) * 8
  bytes := payload
  more := decide (ip.frag &&& ipFlagMf ≠ 0)

/-- The test at the top of `ipv4_reassemble`: only the last piece can end off a
block boundary. -/
def Piece.refused (p : Piece) : Bool :=
  decide (p.stop > ipMaxPayload) ||
    (p.more && (decide (p.bytes.length % 8 ≠ 0) || p.bytes.isEmpty))

/-- `ipv4_reassemble`: the slot whose buffer is handed out, if any. -/
def ipv4Reassemble (s : Sys) (ip : Hdr) (payload : List UInt8) (now : Nat)
    (mem : Option (Nat → UInt8)) : Option Frag × Sys :=
  let p := pieceOf ip payload
  if p.refused then (none, s)
  else
    match fragSlot s ip now mem with
    | (none, s) => (none, s)
    | (some i, s) =>
      match s.frags[i]? with
      | none => (none, s)
      | some f =>
        let f := putPiece f p
        if f.complete then (some f, s.setFrag i { f with used := false })
        else (none, s.setFrag i f)

/-- The `out_len` bytes of a buffer that was handed out. -/
def Frag.whole (f : Frag) : List UInt8 := slice f.data 0 f.total

/-- The arguments of a call of `ipv4_deliver`. -/
structure Datagram where
  src : UInt32
  dst : UInt32
  proto : Nat
  payload : List UInt8
deriving DecidableEq, Repr

/-- The packet passes the checks `ipv4_input` makes before it looks at the payload. -/
def accepts (nif : Netif) (d : List UInt8) : Bool :=
  let ip := Hdr.read d
  let hlen := (ip.verIhl &&& 0x0F) * 4
  decide (ipHlen ≤ d.length) && decide (ip.verIhl / 16 = 4) && decide (ipHlen ≤ hlen) &&
    decide (hlen ≤ d.length) && decide (hlen ≤ ip.totalLen) &&
    decide (ip.totalLen ≤ d.length) && decide (netChecksum (d.take hlen) 0 = 0) &&
    ipv4IsOurs nif ip.dst

/-- The payload of a packet that was accepted. -/
def payloadOf (d : List UInt8) : List UInt8 :=
  let ip := Hdr.read d
  let hlen := (ip.verIhl &&& 0x0F) * 4
  (d.drop hlen).take (ip.totalLen - hlen)

/-- `ipv4_input`: what it delivers, and the table it leaves. -/
def ipv4Input (s : Sys) (nif : Netif) (d : List UInt8) (now : Nat)
    (mem : Option (Nat → UInt8)) : Option Datagram × Sys :=
  if accepts nif d then
    let ip := Hdr.read d
    let payload := payloadOf d
    if ip.frag &&& (ipFlagMf ||| ipFragMask) = 0 then
      (some ⟨ip.src, ip.dst, ip.proto, payload⟩, s)
    else
      let r := ipv4Reassemble s ip payload now mem
      (r.1.map fun f => ⟨ip.src, ip.dst, ip.proto, f.whole⟩, r.2)
  else (none, s)

/-- A slot the tick gives up on. -/
def Frag.expired (f : Frag) (now : Nat) : Bool :=
  f.used && decide (ipFragTimeoutMs ≤ (now + 2 ^ 64 - f.started) % 2 ^ 64)

/-- `ipv4_frag_tick` -/
def ipv4FragTick (s : Sys) (now : Nat) : Sys :=
  { frags := s.frags.map fun f => if f.expired now then { f with used := false } else f,
    dropped := s.dropped + s.frags.countP fun f => f.expired now }

/-- What can happen next. -/
inductive Act where
  | input (nif : Netif) (d : List UInt8) (now : Nat) (mem : Option (Nat → UInt8))
  | tick (now : Nat)

/-- One step. -/
def step (s : Sys) : Act → Sys
  | .input nif d now mem => (ipv4Input s nif d now mem).2
  | .tick now => ipv4FragTick s now

end BleedKernel.Ip
