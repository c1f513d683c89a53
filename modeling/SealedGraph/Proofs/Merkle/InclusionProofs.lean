import Mathlib
import SealedGraph.Merkle.Inclusion
import SealedGraph.Proofs.Merkle.Filling

/-!
# Inclusion proofs of a tree

A proof leads from a leaf to a root, one sibling at a time.  The sides on which
the siblings stand are the binary digits of a position, the lowest first; the
index that a proof names is not looked at when it is checked.

A tree has a proof for each of its leaves.  Conversely a proof of the right
length that leads to the root of a tree begins with one of its leaves, whatever
the siblings are that it was made with: going down from the root, each pair
that the proof hashes is the pair that the tree hashes for the same node, or
else the two collide.  The position may lie beyond the last leaf, in the part
of the row that repeats its end.

## Main results

* `siblings?_build`: the siblings above a node of a level, and where they lead.
* `getElem?_fill_or_collision`: what leads to a root stands in the filled row.
* `inclusion?_of_index`: which proofs a tree has, and that they are right.
* `leaf_of_verifies`: what a proof shows that leads to the root of a tree.
-/

namespace SealedGraph.Merkle

/-! ## Pairs -/

/-- The message for a node is made of the two nodes below it, or of a last one
twice. -/
theorem getElem?_messagesOf : ∀ (level : List Word) (j : Nat),
    (messagesOf level)[j]? = level[2 * j]?.bind fun left =>
      (level[2 * j + 1]?.or (some left)).map fun right =>
        left.bytes ++ right.bytes
  | [], j => by simp [messagesOf]
  | [last], 0 => rfl
  | [last], j + 1 => by simp [messagesOf, Nat.mul_add]
  | left :: right :: rest, 0 => rfl
  | left :: right :: rest, j + 1 => by
      rw [messagesOf, List.getElem?_cons_succ, getElem?_messagesOf rest j]
      rfl

/-- A node above a level is made of the two nodes below it, or of a last one
twice. -/
theorem getElem?_parents (level : List Word) (j : Nat) :
    (parents level)[j]? = level[2 * j]?.bind fun left =>
      (level[2 * j + 1]?.or (some left)).map fun right =>
        combine left right := by
  rw [parents_eq_map, List.getElem?_map, getElem?_messagesOf, Option.map_bind]
  congr 1
  funext left
  rw [Function.comp_apply, Option.map_map]
  rfl

/-! ## Positions and messages of a proof -/

/-- The position that the sides of the siblings spell, the lowest binary digit
first. -/
def position (path : List Step) : Nat :=
  Nat.ofDigits 2 (path.map fun step => step.siblingIsLeft.toNat)

theorem position_cons (step : Step) (path : List Step) :
    position (step :: path) = step.siblingIsLeft.toNat + 2 * position path :=
  Nat.ofDigits_cons

/-- The bytes that are hashed for the node above a node, given its sibling. -/
def Step.message (node : Word) (step : Step) : Bytes :=
  if step.siblingIsLeft then step.sibling.bytes ++ node.bytes
    else node.bytes ++ step.sibling.bytes

theorem Step.up_eq (node : Word) (step : Step) :
    step.up node = keccak256 (step.message node) := by
  unfold Step.up Step.message
  split <;> rfl

/-- The sides of the siblings are the binary digits of the position. -/
theorem sides_eq (path : List Step) :
    path.map (·.siblingIsLeft) =
      (List.range path.length).map (position path).testBit := by
  induction path with
  | nil => rfl
  | cons step rest ih =>
      have hLowest :
          (position (step :: rest)).testBit 0 = step.siblingIsLeft := by
        rw [position_cons, Nat.testBit_zero]
        cases step.siblingIsLeft <;> simp
      have hOthers (k : Nat) :
          (position (step :: rest)).testBit (k + 1) =
            (position rest).testBit k := by
        have hSide := Bool.toNat_le step.siblingIsLeft
        rw [position_cons, Nat.testBit_succ,
          show (step.siblingIsLeft.toNat + 2 * position rest) / 2 =
              position rest by omega]
      rw [List.length_cons, List.range_succ_eq_map]
      simp only [List.map_cons, List.map_map, hLowest, ih]
      congr 1
      exact List.map_congr_left fun k _ => (hOthers k).symm

/-- The bytes that are hashed on the way up from a node. -/
def messagesAlong : Word → List Step → List Bytes
  | _, [] => []
  | node, step :: rest => step.message node :: messagesAlong (step.up node) rest

/-- The bytes that are hashed when a proof is checked. -/
def Inclusion.messages (p : Inclusion) : List Bytes :=
  messagesAlong p.leaf p.path

/-! ## The proofs of a tree -/

/-- A node of a level has a sibling, which may be itself, and a node above the
two. -/
theorem exists_sibling {level : List Word} {i : Nat} {node : Word}
    (hNode : level[i]? = some node) :
    ∃ sibling,
      (if i % 2 = 0 then (level[i + 1]?).or level[i]? else level[i - 1]?) =
        some sibling ∧
      (parents level)[i / 2]? = some (Step.up node ⟨sibling, i % 2 = 1⟩) := by
  rcases Nat.mod_two_eq_zero_or_one i with hEven | hOdd
  · have hLeft : level[2 * (i / 2)]? = some node := by
      rw [show 2 * (i / 2) = i by omega]
      exact hNode
    refine ⟨level[i + 1]?.getD node, ?_, ?_⟩
    · rw [if_pos hEven, hNode]
      cases level[i + 1]? <;> rfl
    · rw [getElem?_parents, hLeft, show 2 * (i / 2) + 1 = i + 1 by omega]
      cases level[i + 1]? <;> simp [Step.up, hEven]
  · have hShort : i < level.length := (List.getElem?_eq_some_iff.mp hNode).1
    have hLeft : level[i - 1]? = some level[i - 1] :=
      List.getElem?_eq_getElem (by omega)
    refine ⟨level[i - 1], ?_, ?_⟩
    · rw [if_neg (by omega), hLeft]
    · rw [getElem?_parents, show 2 * (i / 2) = i - 1 by omega, hLeft,
        show i - 1 + 1 = i by omega]
      simp [hNode, Step.up, hOdd]

namespace Tree

/-- The siblings above a node are its own, and those above the node above it. -/
theorem siblings?_cons {i : Nat} {level : List Word} {t : Tree} {sibling : Word}
    {path : List Step}
    (hSibling :
      (if i % 2 = 0 then (level[i + 1]?).or level[i]? else level[i - 1]?) =
        some sibling)
    (hPath : siblings? (i / 2) t.levels = some path) :
    siblings? i (level :: t.levels) = some (⟨sibling, i % 2 = 1⟩ :: path) := by
  rw [levels] at hPath ⊢
  rw [siblings?, hPath]
  split at hSibling
  · next hEven => simp [hEven, hSibling]
  · next hOdd => simp [hOdd, hSibling]

/-- The siblings above a node lead to the root, from the position of the
node. -/
theorem siblings?_build (level : List Word) :
    ∀ {i : Nat} {node : Word}, level[i]? = some node →
    ∃ path, siblings? i (build level).levels = some path ∧
      path.length + 1 = (build level).depth ∧
      position path = i ∧ path.foldl Step.up node = (build level).root := by
  induction level using level_induction with
  | short level hShort =>
      intro i node hNode
      have hIndex : i < level.length := (List.getElem?_eq_some_iff.mp hNode).1
      obtain rfl : i = 0 := by omega
      obtain ⟨only, rfl⟩ :=
        List.length_eq_one_iff.mp (show level.length = 1 by omega)
      cases hNode
      exact ⟨[], rfl, rfl, rfl, rfl⟩
  | long level hLong ih =>
      intro i node hNode
      obtain ⟨sibling, hSibling, hParent⟩ := exists_sibling hNode
      obtain ⟨path, hPath, hDepth, hPosition, hRoot⟩ := ih hParent
      refine ⟨⟨sibling, i % 2 = 1⟩ :: path, ?_, ?_, ?_, ?_⟩
      · rw [levels_build_of_two_le hLong]
        exact siblings?_cons hSibling hPath
      · rw [List.length_cons, hDepth, depth_build_of_two_le hLong]
      · rw [position_cons, hPosition]
        rcases Nat.mod_two_eq_zero_or_one i with h | h <;> simp [h] <;> omega
      · rw [List.foldl_cons, hRoot, root_build_of_two_le hLong]

/-- On every level there is a node above a leaf. -/
theorem lt_length_of_level {leaves : List Word} :
    ∀ {k : Nat} {level : List Word} {i : Nat},
    i < leaves.length → (build leaves).levels[k]? = some level →
    i / 2 ^ k < level.length := by
  induction leaves using level_induction with
  | short leaves hShort =>
      intro k level i hIndex hLevel
      rw [levels_build_of_le_one hShort] at hLevel
      cases k with
      | zero =>
          cases hLevel
          simpa using hIndex
      | succ k => cases hLevel
  | long leaves hLong ih =>
      intro k level i hIndex hLevel
      rw [levels_build_of_two_le hLong] at hLevel
      cases k with
      | zero =>
          cases hLevel
          simpa using hIndex
      | succ k =>
          rw [Nat.pow_succ', ← Nat.div_div_eq_div_mul]
          have hParents := length_parents leaves
          exact ih (by omega) hLevel

theorem inclusion?_eq_some {t : Tree} {i : Nat} {p : Inclusion} :
    t.inclusion? i = some p ↔ t.leaves[i]? = some p.leaf ∧ p.index = i ∧
      siblings? i t.levels = some p.path := by
  obtain ⟨leaf, index, path⟩ := p
  simp only [inclusion?, Option.bind_eq_bind, Option.bind_eq_some_iff]
  constructor
  · rintro ⟨_, hLeaf, _, hPath, hSame⟩
    cases hSame
    exact ⟨hLeaf, rfl, hPath⟩
  · rintro ⟨hLeaf, rfl, hPath⟩
    exact ⟨leaf, hLeaf, path, hPath, rfl⟩

/-- There is a proof for each leaf. -/
theorem exists_inclusion {t : Tree} {i : Nat} {leaf : Word}
    (hLeaf : t.leaves[i]? = some leaf) :
    ∃ path, t.inclusion? i = some ⟨leaf, i, path⟩ ∧ path.length + 1 = t.depth ∧
      position path = i ∧ path.foldl Step.up leaf = t.root := by
  rw [t.eq_build] at hLeaf ⊢
  obtain ⟨path, hPath, hAll⟩ := siblings?_build t.leaves hLeaf
  exact ⟨path, inclusion?_eq_some.mpr ⟨hLeaf, rfl, hPath⟩, hAll⟩

/-- A tree has a proof for each of its leaves and no other one.  No level ends
before the node that stands above the leaf, so that its siblings are there.  The
proof names the leaf and its index, has a sibling for each level below the root,
on the sides that the binary digits of the index say, and leads to the root. -/
theorem inclusion?_of_index (t : Tree) (i : Nat) :
    ((t.inclusion? i).isSome ↔ i < t.leafCount) ∧
      (i < t.leafCount → ∀ k level, t.levels[k]? = some level →
        i / 2 ^ k < level.length) ∧
      ∀ p, t.inclusion? i = some p → t.leaves[i]? = some p.leaf ∧ p.index = i ∧
        p.path.length = t.depth - 1 ∧
        p.path.map (·.siblingIsLeft) =
          (List.range (t.depth - 1)).map i.testBit ∧
        p.verifies t.root = true := by
  refine ⟨⟨fun hSome => ?_, fun hIndex => ?_⟩, fun hIndex k level hLevel => ?_,
    fun p hp => ?_⟩
  · obtain ⟨p, hp⟩ := Option.isSome_iff_exists.mp hSome
    exact (List.getElem?_eq_some_iff.mp (inclusion?_eq_some.mp hp).1).1
  · have hLength : i < t.leaves.length := hIndex
    obtain ⟨path, hPath, _⟩ :=
      exists_inclusion (List.getElem?_eq_getElem hLength)
    exact Option.isSome_iff_exists.mpr ⟨_, hPath⟩
  · rw [t.eq_build] at hLevel
    exact lt_length_of_level hIndex hLevel
  · obtain ⟨leaf, index, path⟩ := p
    obtain ⟨hLeaf, rfl, _⟩ := inclusion?_eq_some.mp hp
    obtain ⟨_, hFound, hDepth, hPosition, hRoot⟩ := exists_inclusion hLeaf
    cases hp.symm.trans hFound
    have hLength : path.length = t.depth - 1 := by omega
    have hSides := sides_eq path
    rw [hLength, hPosition] at hSides
    exact ⟨hLeaf, rfl, hLength, hSides, decide_eq_true hRoot⟩

/-- Three leaves, of which the last one is paired with itself. -/
def threeLeaves : List Word := [Word.ofNat 1, Word.ofNat 2, Word.ofNat 3]

theorem inclusion?_of_index_three :
    ∃ p, (build threeLeaves).inclusion? 2 = some p ∧
    threeLeaves[2]? = some p.leaf ∧ p.index = 2 ∧
    p.path.map (·.siblingIsLeft) = [false, true] ∧
      p.verifies (build threeLeaves).root = true := by
  obtain ⟨hSome, _, hProof⟩ := inclusion?_of_index (build threeLeaves) 2
  obtain ⟨p, hp⟩ := Option.isSome_iff_exists.mp (hSome.mpr (by decide))
  obtain ⟨hLeaf, hIndex, _, hSides, hVerifies⟩ := hProof p hp
  have hDigits :
      (List.range ((build threeLeaves).depth - 1)).map (Nat.testBit 2) =
        [false, true] := by
    decide +kernel
  exact ⟨p, hp, hLeaf, hIndex, hSides.trans hDigits, hVerifies⟩

end Tree

/-! ## What a proof shows -/

/-- A byte string of a list has the digest of a different one of another
list. -/
def CollisionBetween (messages others : List Bytes) : Prop :=
  ∃ m ∈ messages, ∃ n ∈ others, m ≠ n ∧ keccak256 m = keccak256 n

instance (messages others : List Bytes) :
    Decidable (CollisionBetween messages others) := by
  unfold CollisionBetween
  infer_instance

/-- A node can be read off the message for the node above it. -/
theorem getElem?_of_message {row : List Word} (hEven : row.length % 2 = 0)
    {node : Word} {step : Step} {j : Nat}
    (hMessage : (messagesOf row)[j]? = some (step.message node)) :
    row[step.siblingIsLeft.toNat + 2 * j]? = some node := by
  rw [getElem?_messagesOf] at hMessage
  obtain ⟨left, hLeft, hPair⟩ := Option.bind_eq_some_iff.mp hMessage
  have hIndex : 2 * j < row.length := (List.getElem?_eq_some_iff.mp hLeft).1
  obtain ⟨right, hRight⟩ : ∃ right, row[2 * j + 1]? = some right :=
    ⟨_, List.getElem?_eq_getElem (by omega)⟩
  rw [hRight] at hPair
  have hBytes : left.bytes ++ right.bytes = step.message node :=
    Option.some.inj hPair
  have hLength :
      ∀ word : Word, left.bytes.length = word.bytes.length := fun word => by
    rw [left.length_bytes, word.length_bytes]
  unfold Step.message at hBytes
  cases hSide : step.siblingIsLeft with
  | false =>
      rw [hSide] at hBytes
      have hSame := Word.ext (List.append_inj hBytes (hLength node)).1
      rw [← hSame, ← hLeft]
      simp
  | true =>
      rw [hSide] at hBytes
      have hSame := Word.ext (List.append_inj hBytes (hLength step.sibling)).2
      rw [← hSame, ← hRight, Bool.toNat_true, Nat.add_comm]

namespace Tree

/-- What leads to the root of a tree by a path as long as the tree is high
stands in the filled row of the leaves, at the position that the path spells. -/
theorem getElem?_fill_or_collision :
    ∀ {path : List Step} {level : List Word} {node : Word},
    0 < level.length → (build level).depth = path.length + 1 →
    path.foldl Step.up node = (build level).root →
    (fill path.length level)[position path]? = some node ∨
      CollisionBetween (messagesAlong node path) (build level).messages
  | [], level, node, hPos, hDepth, hRoot => by
      have hFit := length_le_of_depth level hDepth
      rw [List.length_nil, pow_zero] at hFit
      obtain ⟨only, rfl⟩ :=
        List.length_eq_one_iff.mp (Nat.le_antisymm hFit hPos)
      rw [root_build_singleton] at hRoot
      exact .inl (congrArg some hRoot.symm)
  | step :: rest, level, node, hPos, hDepth, hRoot => by
      have hLong := two_le_length_of_depth hDepth
      have hFit : level.length ≤ 2 ^ (rest.length + 1) :=
        length_le_of_depth level hDepth
      have hUp : (build (parents level)).depth = rest.length + 1 := by
        rw [depth_build_of_two_le hLong] at hDepth
        exact Nat.succ.inj hDepth
      rw [root_build_of_two_le hLong] at hRoot
      rw [messages_build_of_two_le hLong]
      rcases getElem?_fill_or_collision (by rw [length_parents]; omega)
        hUp hRoot with
        hParent | ⟨m, hm, n, hn, hPair⟩
      · rw [← parents_fill rest.length level hPos hFit, parents_eq_map,
          List.getElem?_map] at hParent
        obtain ⟨n, hn, hDigest⟩ := Option.map_eq_some_iff.mp hParent
        rw [Step.up_eq] at hDigest
        by_cases hSame : step.message node = n
        · have hEven := length_fill (rest.length + 1) level hPos hFit
          rw [pow_succ] at hEven
          rw [← hSame] at hn
          rw [position_cons]
          exact .inl (getElem?_of_message (by rw [List.length_cons]; omega) hn)
        · -- The row repeats nodes of the level, and so do the pairs in it.
          rw [messagesOf_fill rest.length level hPos hFit] at hn
          have hMessage := mem_of_mem_fill (List.mem_of_getElem? hn)
          exact .inr ⟨_, List.mem_cons_self, n, List.mem_append_left _ hMessage,
            hSame, hDigest.symm⟩
      · exact .inr ⟨m, List.mem_cons_of_mem _ hm, n,
          List.mem_append_right _ hn, hPair⟩

/-- What leads to the root of a tree by as many siblings as there are levels
below it begins with a leaf, and with the leaf that stands at the position that
the sides of the siblings spell, if there is one.  Otherwise a pair that is
hashed on the way collides with one that is hashed for the tree. -/
theorem leaf_of_verifies {leaves : List Word} (hPos : 0 < leaves.length)
    {p : Inclusion} (hLength : p.path.length = (build leaves).depth - 1)
    (hVerifies : p.verifies (build leaves).root = true) :
    (p.leaf ∈ leaves ∧
      ∀ h : position p.path < leaves.length, leaves[position p.path] = p.leaf) ∨
      CollisionBetween p.messages (build leaves).messages := by
  have hDepth := depth_pos (build leaves)
  have hRoot : p.path.foldl Step.up p.leaf = (build leaves).root :=
    of_decide_eq_true hVerifies
  refine (getElem?_fill_or_collision hPos (by omega) hRoot).imp_left fun hRow =>
    ⟨?_, fun h => ?_⟩
  · exact mem_of_mem_fill (List.mem_of_getElem? hRow)
  · have hSame := (prefix_fill p.path.length leaves).getElem h
    rw [hSame]
    exact (List.getElem?_eq_some_iff.mp hRow).2

/-- A proof for the last of three leaves, with an index that it does not
have. -/
def lastProof : Inclusion :=
  let last := Word.ofNat 3
  ⟨last, 7, [⟨last, false⟩, ⟨combine (Word.ofNat 1) (Word.ofNat 2), true⟩]⟩

theorem leaf_of_verifies_last :
    lastProof.path.length = (build threeLeaves).depth - 1 ∧
    lastProof.verifies (build threeLeaves).root = true ∧
    ¬ CollisionBetween lastProof.messages (build threeLeaves).messages ∧
    lastProof.leaf ∈ threeLeaves ∧ position lastProof.path = 2 ∧
    threeLeaves[2]? = some lastProof.leaf := by
  have hLength : lastProof.path.length = (build threeLeaves).depth - 1 := by
    decide +kernel
  have hVerifies : lastProof.verifies (build threeLeaves).root = true := by
    decide +kernel
  have hFree :
      ¬ CollisionBetween lastProof.messages (build threeLeaves).messages := by
    decide +kernel
  have hPosition : position lastProof.path = 2 := by decide +kernel
  obtain ⟨hLeaf, hHere⟩ :=
    (leaf_of_verifies (by decide) hLength hVerifies).resolve_right hFree
  refine ⟨hLength, hVerifies, hFree, hLeaf, hPosition, ?_⟩
  rw [← hPosition, ← hHere (by rw [hPosition]; decide)]
  exact List.getElem?_eq_getElem _

end Tree
end SealedGraph.Merkle
