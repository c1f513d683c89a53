import Mathlib
import SealedGraph.Exchange.Key
import SealedGraph.Proofs.Merkle.NodeCount

/-!
# The shape of a tree

The number of leaves fixes everything about a tree but its digests: how many
levels there are, how wide each of them is, and how many nodes there are in
all.  The widths are halved from level to level and rounded up, which comes to
the same as dividing by a power of two and rounding up once.

A tree is built by a loop that goes on while the last level has more than one
node, and its nodes are counted by another loop that goes on while the width is
more than one.  Neither carries a bound of its own.  The two take the same
number of rounds, at most 64 if the number of leaves is a 64-bit word.

More leaves have more nodes.  So the length of a list of masked nodes tells how
many leaves there are, as long as the counted number is not the greatest word.

## Main results

* `length_level`, `depth_build_eq`: how wide and how many the levels are.
* `loops_tally`, `loops_build`: both loops end, after the same number of rounds.
* `nodesOver_strictMono`: more leaves have more nodes.
* `counts_nodes`: what is counted without a tree is what stands in it.
-/

namespace SealedGraph.Merkle

/-! ## Levels -/

namespace Tree

/-- Halving and then dividing is dividing by twice as much, rounded up in both
places. -/
theorem ceilDiv_half (n k : Nat) :
    ((n + 1) / 2) ⌈/⌉ 2 ^ k = n ⌈/⌉ 2 ^ (k + 1) := by
  have hHalf : (n + 1) / 2 = n ⌈/⌉ 2 := rfl
  refine eq_of_forall_ge_iff fun m => ?_
  rw [hHalf, ceilDiv_le_iff_le_mul (Nat.two_pow_pos k),
    ceilDiv_le_iff_le_mul (by decide),
    ceilDiv_le_iff_le_mul (Nat.two_pow_pos (k + 1)), pow_succ', Nat.mul_assoc]

theorem length_level (leaves : List Word) : ∀ {k : Nat} {level : List Word},
    (build leaves).levels[k]? = some level →
    level.length = leaves.length ⌈/⌉ 2 ^ k := by
  have hLowest (leaves : List Word) :
      leaves.length = leaves.length ⌈/⌉ 2 ^ 0 := by
    rw [pow_zero, ceilDiv_one]
  induction leaves using level_induction with
  | short leaves hShort =>
      intro k level hLevel
      rw [levels_build_of_le_one hShort] at hLevel
      cases k with
      | zero =>
          cases hLevel
          exact hLowest leaves
      | succ k => cases hLevel
  | long leaves hLong ih =>
      intro k level hLevel
      rw [levels_build_of_two_le hLong] at hLevel
      cases k with
      | zero =>
          cases hLevel
          exact hLowest leaves
      | succ k => rw [ih hLevel, length_parents, ceilDiv_half]

theorem clog_half {n : Nat} (h : 2 ≤ n) :
    Nat.clog 2 n = Nat.clog 2 ((n + 1) / 2) + 1 :=
  Nat.clog_of_two_le (by decide) h

theorem depth_build_eq (leaves : List Word) :
    (build leaves).depth = Nat.clog 2 leaves.length + 1 := by
  induction leaves using level_induction with
  | short leaves hShort =>
      rw [depth_build_of_le_one hShort, Nat.clog_of_right_le_one hShort]
  | long leaves hLong ih =>
      rw [depth_build_of_two_le hLong, ih, length_parents, clog_half hLong]

/-- There are no more levels than are needed for one node to stand above all
leaves. -/
theorem isLeast_depth (leaves : List Word) :
    IsLeast {d | 1 ≤ d ∧ leaves.length ≤ 2 ^ (d - 1)} (build leaves).depth := by
  rw [depth_build_eq]
  constructor
  · exact ⟨Nat.le_add_left 1 _, Nat.le_pow_clog (by decide) _⟩
  · rintro d ⟨hPos, hFit⟩
    have hLog : Nat.clog 2 leaves.length ≤ d - 1 := Nat.clog_le_of_le_pow hFit
    omega

end Tree

/-! ## Loops -/

/-- A loop goes on from state to state while it may, and ends after so many
rounds. -/
inductive Loops {σ : Type} (goesOn : σ → Prop) (next : σ → σ) :
    (rounds : Nat) → σ → σ → Prop
  | ends {s : σ} : ¬ goesOn s → Loops goesOn next 0 s s
  | goes {rounds : Nat} {s last : σ} : goesOn s → Loops goesOn next rounds
      (next s) last →
      Loops goesOn next (rounds + 1) s last

/-- Where the loop that counts nodes has got to: the width of a level, and the
nodes up to it. -/
structure Tally where
  width : UInt64
  total : UInt64

namespace Tally

def GoesOn (t : Tally) : Prop := 1 < t.width

/-- Adds the nodes of the level above. -/
def next (t : Tally) : Tally :=
  ⟨Machine.ceilDiv t.width 2,
    Machine.saturatingAdd t.total (Machine.ceilDiv t.width 2)⟩

end Tally

/-- Whether the last of some levels has more than one node. -/
def Growing (levels : List (List Word)) : Prop :=
  1 < (levels.getLastD []).length

/-- Adds the level above the last one. -/
def grow (levels : List (List Word)) : List (List Word) :=
  levels ++ [parents (levels.getLastD [])]

/-- The bound that the count is made with is never reached. -/
theorem loops_tally :
    ∀ (fuel : Nat) (width total : UInt64), width.toNat ≤ 2 ^ fuel →
    ∃ last,
      Loops Tally.GoesOn Tally.next (Nat.clog 2 width.toNat) ⟨width,
        total⟩ last ∧
      last.total = countAbove fuel width total := by
  intro fuel
  induction fuel with
  | zero =>
      intro width total hFit
      have hLast : ¬ Tally.GoesOn ⟨width, total⟩ := by
        rw [Tally.GoesOn, UInt64.lt_iff_toNat_lt]
        exact Nat.not_lt.mpr hFit
      rw [Nat.clog_of_right_le_one hFit]
      exact ⟨⟨width, total⟩, .ends hLast, rfl⟩
  | succ fuel ih =>
      intro width total hFit
      by_cases hShort : width ≤ 1
      · have hLast : ¬ Tally.GoesOn ⟨width, total⟩ := UInt64.not_lt.mpr hShort
        rw [Nat.clog_of_right_le_one (UInt64.le_iff_toNat_le.mp hShort),
          countAbove, if_pos hShort]
        exact ⟨⟨width, total⟩, .ends hLast, rfl⟩
      · have hGoes : Tally.GoesOn ⟨width, total⟩ := UInt64.not_le.mp hShort
        have hLong : 2 ≤ width.toNat := UInt64.lt_iff_toNat_lt.mp hGoes
        have hHalf : (Machine.ceilDiv width 2).toNat = (width.toNat + 1) / 2 :=
          Machine.toNat_ceilDiv (by decide)
        have hRest : (Machine.ceilDiv width 2).toNat ≤ 2 ^ fuel := by
          rw [pow_succ] at hFit
          omega
        obtain ⟨last, hLoops, hTotal⟩ := ih (Machine.ceilDiv width 2)
          (Machine.saturatingAdd total (Machine.ceilDiv width 2)) hRest
        rw [hHalf] at hLoops
        rw [Tree.clog_half hLong, countAbove, if_neg hShort]
        exact ⟨last, .goes hGoes hLoops, hTotal⟩

/-- The levels from some level on are added one by one to those below it. -/
theorem loops_build (leaves : List Word) : ∀ lower : List (List Word),
    Loops Growing grow (Nat.clog 2 leaves.length) (lower ++ [leaves])
      (lower ++ (Tree.build leaves).levels) := by
  induction leaves using Tree.level_induction with
  | short leaves hShort =>
      intro lower
      have hLast : ¬ Growing (lower ++ [leaves]) := by
        rw [Growing, List.getLastD_concat]
        omega
      rw [Nat.clog_of_right_le_one hShort, Tree.levels_build_of_le_one hShort]
      exact .ends hLast
  | long leaves hLong ih =>
      intro lower
      have hLast : Growing (lower ++ [leaves]) := by
        rw [Growing, List.getLastD_concat]
        omega
      have hNext :
          grow (lower ++ [leaves]) =
            (lower ++ [leaves]) ++ [parents leaves] := by
        rw [grow, List.getLastD_concat]
      have hRest := ih (lower ++ [leaves])
      rw [length_parents, ← hNext, List.append_assoc, List.singleton_append,
        ← Tree.levels_build_of_two_le hLong] at hRest
      rw [Tree.clog_half hLong]
      exact .goes hLast hRest

/-! ## Counting -/

theorem nodesOver_strictMono : StrictMono nodesOver := by
  intro few many hLt
  induction many using Nat.strong_induction_on generalizing few with
  | _ many ih =>
      by_cases hFew : few ≤ 1
      · have hMany := le_nodesOver many
        rw [nodesOver, if_pos hFew]
        omega
      · have hUp : nodesOver ((few + 1) / 2) ≤ nodesOver ((many + 1) / 2) := by
          rcases Nat.lt_or_ge ((few + 1) / 2)
            ((many + 1) / 2) with hHalf | hHalf
          · exact Nat.le_of_lt (ih _ (by omega) hHalf)
          · exact Nat.le_of_eq (congrArg nodesOver (by omega))
        rw [nodesOver, nodesOver.eq_def many, if_neg hFew, if_neg (by omega)]
        omega

theorem nodeCountFor_eq (count : UInt64) :
    nodeCountFor count = countAbove 64 count count := by
  rw [nodeCountFor]
  split
  · next hZero => rw [hZero]; rfl
  · rfl

theorem nodeCountFor_lt {few many : UInt64} (hLt : few < many)
    (hFew : nodeCountFor few < Machine.greatest) :
    nodeCountFor few < nodeCountFor many := by
  have hNodes := nodesOver_strictMono (UInt64.lt_iff_toNat_lt.mp hLt)
  rw [UInt64.lt_iff_toNat_lt, toNat_nodeCountFor_eq_nodesOver] at hFew
  rw [UInt64.lt_iff_toNat_lt, toNat_nodeCountFor_eq_nodesOver,
    toNat_nodeCountFor_eq_nodesOver]
  omega

namespace Tree

theorem nodeCount_eq_nodesOver (t : Tree) :
    t.nodeCount = nodesOver t.leafCount := by
  rw [t.eq_build, nodeCount_build]
  rfl

theorem toNat_nodeCountFor_leafCount {t : Tree} (h : t.nodeCount < 2 ^ 64) :
    (nodeCountFor (UInt64.ofNat t.leafCount)).toNat = t.nodeCount := by
  have hLeaves := le_nodesOver t.leafCount
  rw [nodeCount_eq_nodesOver] at h ⊢
  have hWord : (UInt64.ofNat t.leafCount).toNat = t.leafCount :=
    UInt64.toNat_ofNat_of_lt' (show t.leafCount < 2 ^ 64 by omega)
  rw [toNat_nodeCountFor_eq_nodesOver, hWord, Machine.toNat_greatest]
  omega

theorem nodeCount_eq_sum (t : Tree) :
    t.nodeCount = (t.levels.map List.length).sum := by
  rw [nodeCount, nodes, List.length_flatten]

theorem length_blind_nodes (t : Tree) (key : ExchangeKey) :
    (key.blind t.nodes).length = nodesOver t.leafCount := by
  rw [ExchangeKey.blind, ExchangeKey.length_blindFrom, ← nodeCount_eq_nodesOver,
    nodeCount]

end Tree

/-- As long as the number of nodes is a 64-bit word, it is counted from the
number of leaves.  Each level is as wide as the leaves are many, divided by the
power of two for its height and rounded up, and there is no level more than
needed.  The loop that counts and the loop that builds take the same number of
rounds, whatever the number of leaves.  Greater numbers of leaves have greater
counts up to the greatest word; so masked nodes tell by their length how many
leaves there are, and a count that agrees with their length is right about
it. -/
theorem counts_nodes :
    (∀ t : Tree, t.nodeCount < 2 ^ 64 →
      (nodeCountFor (UInt64.ofNat t.leafCount)).toNat = t.nodeCount ∧
        t.nodes.length = t.nodeCount ∧
          (t.levels.map List.length).sum = t.nodeCount) ∧
    (∀ t : Tree, (∀ (k : Nat) (level : List Word), t.levels[k]? = some level →
        level.length = t.leafCount ⌈/⌉ 2 ^ k) ∧
      IsLeast {d | 1 ≤ d ∧ t.leafCount ≤ 2 ^ (d - 1)} t.depth) ∧
    (∀ count : UInt64, ∃ rounds ≤ 64,
      (∃ last, Loops Tally.GoesOn Tally.next rounds ⟨count, count⟩ last ∧
        last.total = nodeCountFor count) ∧
      ∀ t : Tree, t.leafCount = count.toNat →
      Loops Growing grow rounds [t.leaves] t.levels) ∧
    (∀ few many : UInt64, few < many → nodeCountFor few < Machine.greatest →
      nodeCountFor few < nodeCountFor many) ∧
    (∀ (t u : Tree) (key other : ExchangeKey),
      (key.blind t.nodes).length = (other.blind u.nodes).length →
      t.leafCount = u.leafCount) ∧
    ∀ (t : Tree) (key : ExchangeKey) (count : UInt64),
      nodeCountFor count < Machine.greatest →
      (key.blind t.nodes).length = (nodeCountFor count).toNat →
      t.leafCount = count.toNat := by
  refine ⟨?_, ?_, ?_, ?_, ?_, ?_⟩
  · intro t hWord
    exact ⟨Tree.toNat_nodeCountFor_leafCount hWord, rfl,
      t.nodeCount_eq_sum.symm⟩
  · intro t
    rw [t.eq_build]
    exact ⟨fun k level => Tree.length_level t.leaves,
      Tree.isLeast_depth t.leaves⟩
  · intro count
    have hCount : count.toNat ≤ 2 ^ 64 := Nat.le_of_lt count.toNat_lt
    refine ⟨Nat.clog 2 count.toNat, Nat.clog_le_of_le_pow hCount, ?_, ?_⟩
    · rw [nodeCountFor_eq]
      exact loops_tally 64 count count hCount
    · intro t hLeaves
      rw [t.eq_build, ← hLeaves]
      exact loops_build t.leaves []
  · exact fun few many => nodeCountFor_lt
  · intro t u key other hLength
    rw [Tree.length_blind_nodes, Tree.length_blind_nodes] at hLength
    exact nodesOver_strictMono.injective hLength
  · intro t key count hWord hLength
    rw [UInt64.lt_iff_toNat_lt, toNat_nodeCountFor_eq_nodesOver] at hWord
    rw [Tree.length_blind_nodes, toNat_nodeCountFor_eq_nodesOver] at hLength
    exact nodesOver_strictMono.injective (by omega)

/-- Five leaves, with levels of three nodes, two nodes and one node above
them. -/
def fiveLeaves : List Word := (List.range 5).map Word.ofNat

theorem counts_nodes_fiveLeaves :
    let t := Tree.build fiveLeaves
    let u := Tree.build fiveLeaves.reverse
    let key : ExchangeKey := ⟨Word.zero⟩
    let other : ExchangeKey := ⟨Word.ofNat 1⟩
    (t.nodeCount < 2 ^ 64 ∧
      (nodeCountFor (UInt64.ofNat t.leafCount)).toNat = t.nodeCount) ∧
      (∃ level, t.levels[2]? = some level ∧
        level.length = t.leafCount ⌈/⌉ 2 ^ 2) ∧
      (t.leafCount = (5 : UInt64).toNat ∧
        ∃ rounds, Loops Growing grow rounds [t.leaves] t.levels) ∧
      (nodeCountFor 5 < Machine.greatest ∧ nodeCountFor 5 < nodeCountFor 6) ∧
      ((key.blind t.nodes).length = (other.blind u.nodes).length ∧
        t.leafCount = u.leafCount) ∧
      ((key.blind t.nodes).length = (nodeCountFor 5).toNat ∧
        t.leafCount = (5 : UInt64).toNat) := by
  intro t u key other
  obtain ⟨hCounts, hShape, hLoops, hGrows, hTells, hAgrees⟩ := counts_nodes
  have hFew : t.nodeCount < 2 ^ 64 := by decide
  have hLevel : t.levels[2]? = some t.levels[2] :=
    List.getElem?_eq_getElem (by decide)
  have hFive : t.leafCount = (5 : UInt64).toNat := by decide
  have hWord : nodeCountFor 5 < Machine.greatest := by decide
  have hMasked : (key.blind t.nodes).length = (other.blind u.nodes).length := by
    decide
  have hLength : (key.blind t.nodes).length = (nodeCountFor 5).toNat := by
    decide
  obtain ⟨rounds, _, _, hBuilt⟩ := hLoops 5
  refine ⟨?_, ?_, ?_, ?_, ?_, ?_⟩
  · exact ⟨hFew, (hCounts t hFew).1⟩
  · exact ⟨_, hLevel, (hShape t).1 2 _ hLevel⟩
  · exact ⟨hFive, rounds, hBuilt t hFive⟩
  · exact ⟨hWord, hGrows 5 6 (by decide) hWord⟩
  · exact ⟨hMasked, hTells t u key other hMasked⟩
  · exact ⟨hLength, hAgrees t key 5 hWord hLength⟩

end SealedGraph.Merkle
