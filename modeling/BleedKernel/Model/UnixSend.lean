import Mathlib.Data.List.Basic

/-!
# Sending on a connected unix socket

`send_stream` of a stream or seqpacket socket, `unix_poll_mask` and `unix_block`. A turn is
one pass of its loop: it takes the lock to see how much room the peer has, and then sends,
waits or returns. What others do in the meantime is in `Env`.
-/

namespace BleedKernel.Unix

/-- The kind of a socket. -/
inductive SockType where
  | stream
  | dgram
  | seqpacket
deriving DecidableEq, Repr

/-- The errors of a send. -/
inductive Errno where
  | enotconn
  | epipe
  | eagain
  | eintr
  | enomem
  | emsgsize
deriving DecidableEq, Repr

/-- `UNIX_RX_MAX` -/
def unixRxMax : Nat := 256 * 1024

/-- `UNIX_DGRAM_MAX` -/
def unixDgramMax : Nat := 208 * 1024

/-- `UNIX_CHUNK` -/
def unixChunk : Nat := 16384

/-- The fields of a `unix_sock` that sending and polling look at. `rx` and `pending` say
whether there is anything in the queue of that name. -/
structure Sock where
  type : SockType
  nonblock : Bool
  listening : Bool
  connected : Bool
  rdEof : Bool
  wrShut : Bool
  rx : Bool
  rxBytes : Nat
  pending : Bool
  sndtimeo : Bool
deriving DecidableEq, Repr

/-- A socket and its peer. -/
structure Pair where
  sock : Sock
  peer : Option Sock
deriving DecidableEq, Repr

/-- The bits of a poll mask. -/
structure Mask where
  pollin : Bool := false
  pollout : Bool := false
  pollhup : Bool := false
deriving DecidableEq, Repr

/-- `unix_poll_mask` -/
def unixPollMask (p : Pair) : Mask :=
  let u := p.sock
  if u.listening then { pollin := u.pending }
  else
    let mask : Mask := { pollin := u.rx || u.rdEof }
    if u.type = .dgram then { mask with pollout := true }
    else if !u.connected then { mask with pollhup := true }
    else
      match p.peer with
      | none => { mask with pollin := true, pollhup := true }
      | some v => { mask with pollout := !u.wrShut && decide (v.rxBytes < unixRxMax) }

/-- What happens to the task in one turn: a signal that interrupts it is pending, one comes
between the look at the signals and the wait, the time to wait is up, `msg_make` gets its
message, and the peer is still there when the message is to be queued. -/
structure Env where
  interrupted : Bool
  signalled : Bool
  expired : Bool
  made : Bool
  peerStays : Bool
deriving DecidableEq, Repr

/-- What one turn comes to. `spun` is a turn that did not wait and has nothing to show. -/
inductive Turn where
  | returned (r : Except Errno Nat)
  | queued (n : Nat)
  | slept
  | roused
  | spun
deriving DecidableEq

/-- `unix_block` for `POLLOUT`: the error, or what the wait came to. -/
def unixBlock (p : Pair) (e : Env) : Except Errno Turn :=
  if e.interrupted then .error .eintr
  else if p.sock.sndtimeo && e.expired then .error .eagain
  else if (unixPollMask p).pollout || (unixPollMask p).pollhup then .ok .spun
  else if e.signalled then .ok .roused
  else .ok .slept

/-- The room `send_stream` finds for a message of `total` bytes with `queued` in the queue. -/
def sendRoom (packet : Bool) (total queued : Nat) : Nat :=
  let room := if queued < unixRxMax then unixRxMax - queued else 0
  -- a packet goes whole, an empty queue always takes one
  if packet && decide (room < total) && decide (queued ≠ 0) then 0 else room

/-- One turn of `send_stream`, with `sent` of the `total` bytes gone. -/
def sendTurn (p : Pair) (total sent : Nat) (dontwait : Bool) (e : Env) : Turn × Pair :=
  let u := p.sock
  let packet := decide (u.type = .seqpacket)
  let fail (err : Errno) : Turn := .returned (if sent ≠ 0 then .ok sent else .error err)
  if !u.connected then (fail .enotconn, p)
  else
    match p.peer with
    | none => (fail .epipe, p)
    | some v =>
      let room := sendRoom packet total v.rxBytes
      if u.wrShut then (fail .epipe, p)
      else if room = 0 then
        if sent ≠ 0 then (.returned (.ok sent), p)
        else if u.nonblock || dontwait then (.returned (.error .eagain), p)
        else
          match unixBlock p e with
          | .error err => (.returned (.error err), p)
          -- `continue` goes to the test of the loop
          | .ok t => (if sent < total then t else .returned (.ok sent), p)
      else
        let n := if packet then total else min (min (total - sent) room) unixChunk
        if !e.made then (fail .enomem, p)
        else if !e.peerStays then (fail .epipe, { p with peer := none })
        else (if sent + n < total then .queued n else .returned (.ok (sent + n)),
          { p with peer := some { v with rx := true, rxBytes := v.rxBytes + n } })

/-- The loop of `send_stream` from turn `k` on. Others have made `others k` of the two
sockets before the turn. -/
def sendLoop (total : Nat) (dontwait : Bool) (others : Nat → Pair → Pair) (env : Nat → Env) :
    (fuel k sent : Nat) → Pair → Option (Except Errno Nat) × Pair
  | 0, _, _, p => (none, p)
  | fuel + 1, k, sent, p =>
    match sendTurn (others k p) total sent dontwait (env k) with
    | (.returned r, p) => (some r, p)
    | (.queued n, p) => sendLoop total dontwait others env fuel (k + 1) (sent + n) p
    | (_, p) => sendLoop total dontwait others env fuel (k + 1) sent p

/-- `send_stream` for the first `fuel` turns. -/
def sendStream (p : Pair) (total : Nat) (dontwait : Bool) (others : Nat → Pair → Pair)
    (env : Nat → Env) (fuel : Nat) : Option (Except Errno Nat) × Pair :=
  if p.sock.type = .seqpacket ∧ unixDgramMax < total then (some (.error .emsgsize), p)
  else sendLoop total dontwait others env fuel 0 0 p

end BleedKernel.Unix
