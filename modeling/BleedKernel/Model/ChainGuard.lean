import Mathlib.Init

/-!
# The guard of a cluster chain

`chain_guard_t` of `fs/chain_guard.h`: one cluster of the chain is remembered, and the walk
stops when it comes again. It is replaced after 1, 2, 4, … further clusters.
-/

namespace BleedKernel.Fat

/-- `chain_guard_t` -/
structure ChainGuard where
  mark : UInt32
  power : UInt32
  len : UInt32
deriving DecidableEq, Repr

/-- `chain_guard_init` -/
def chainGuardInit (first : UInt32) : ChainGuard := ⟨first, 1, 0⟩

/-- `chain_guard_step`, `none` for `false`. -/
def chainGuardStep (g : ChainGuard) (next : UInt32) : Option ChainGuard :=
  if next = g.mark then none
  else if g.len + 1 = g.power then
    some ⟨next, if g.power < 0x80000000 then g.power * 2 else g.power, 0⟩
  else some { g with len := g.len + 1 }

/-- The guard after the clusters up to `x i`, unless it has stopped the walk. -/
def guardAfter (x : Nat → UInt32) : Nat → Option ChainGuard
  | 0 => some (chainGuardInit (x 0))
  | i + 1 => (guardAfter x i).bind fun g => chainGuardStep g (x (i + 1))

end BleedKernel.Fat
