import SealedGraph.Machine

/-!
# The number of nodes of a tree, from the number of its leaves

A buyer computes it on announced numbers before any tree is built, so it is
computed on 64-bit words and stops at the greatest word.
-/

namespace SealedGraph.Merkle

/-- Adds up the widths of the levels above a level.  A width of 64 bits is
halved 64 times at most before it is one. -/
def countAbove : (fuel : Nat) → (width total : UInt64) → UInt64
  | 0, _, total => total
  | fuel + 1, width, total =>
      if width ≤ 1 then total
      else
        let next := Machine.ceilDiv width 2
        countAbove fuel next (Machine.saturatingAdd total next)

/-- The number of nodes of a tree with the given number of leaves. -/
def nodeCountFor (leaves : UInt64) : UInt64 :=
  if leaves = 0 then 0 else countAbove 64 leaves leaves

end SealedGraph.Merkle
