import Mathlib
import SealedGraph.Proofs.Merkle.Filling

/-!
# What a root binds

A root does not say how many leaves stand under it.  Two lists of leaves share
a root when one of them stands again as a level of the tree on the other, up
to the repetitions with which the pairing rule fills both rows.  There is no
other way, unless two messages hashed in the two trees have one digest.

That digests do not collide is never assumed: a collision is exhibited among
the messages of the trees in question.

## Main results

* `leaves_eq_or_collisionInPlace`: equally many leaves with one root are the
  same, or messages in the same place of the two trees collide.
* `recurs_or_collision`: leaves with one root recur in each other, or collide.
* `root_eq_of_recurs`: leaves that recur have one root.
* `sunk_of_recurs`: leaves that recur in a deeper tree are digests.
* `prefix_or_collision`: byte strings with one root begin one another, or
  collide.
-/

namespace SealedGraph

/-- Two different byte strings among some messages have the same digest. -/
def Collision (messages : List Bytes) : Prop :=
  ∃ m ∈ messages, ∃ n ∈ messages, m ≠ n ∧ keccak256 m = keccak256 n

instance (messages : List Bytes) : Decidable (Collision messages) := by
  unfold Collision
  infer_instance

theorem Collision.mono {messages others : List Bytes} (h : Collision messages)
    (hSubset : ∀ m ∈ messages, m ∈ others) : Collision others := by
  obtain ⟨m, hm, n, hn, hNe, hDigest⟩ := h
  exact ⟨m, hSubset m hm, n, hSubset n hn, hNe, hDigest⟩

/-- Messages on either side may be joined by others. -/
theorem Collision.append {xs ys messages others : List Bytes}
    (h : Collision (xs ++ ys)) (hx : xs ⊆ messages) (hy : ys ⊆ others) :
    Collision (messages ++ others) := by
  refine h.mono fun m hm => ?_
  rcases List.mem_append.mp hm with hm | hm
  · exact List.mem_append_left _ (hx hm)
  · exact List.mem_append_right _ (hy hm)

theorem Collision.swap {xs ys : List Bytes} (h : Collision (xs ++ ys)) :
    Collision (ys ++ xs) :=
  h.mono fun _ hm => List.mem_append.mpr (List.mem_append.mp hm).symm

/-- Two byte strings collide if they differ and have one digest. -/
theorem collision_pair {m n : Bytes} :
    Collision [m, n] ↔ m ≠ n ∧ keccak256 m = keccak256 n := by
  constructor
  · rintro ⟨x, hx, y, hy, hNe, hDigest⟩
    rw [List.mem_pair] at hx hy
    rcases hx with rfl | rfl <;> rcases hy with rfl | rfl
    · exact absurd rfl hNe
    · exact ⟨hNe, hDigest⟩
    · exact ⟨hNe.symm, hDigest.symm⟩
    · exact absurd rfl hNe
  · rintro ⟨hNe, hDigest⟩
    exact ⟨m, List.mem_pair.mpr (.inl rfl), n, List.mem_pair.mpr (.inr rfl),
      hNe, hDigest⟩

/-- Two different byte strings with one digest stand in the same place of two
lists. -/
def CollisionInPlace (messages others : List Bytes) : Prop :=
  ∃ pair ∈ messages.zip others, pair.1 ≠ pair.2 ∧
    keccak256 pair.1 = keccak256 pair.2

instance (messages others : List Bytes) :
    Decidable (CollisionInPlace messages others) := by
  unfold CollisionInPlace
  infer_instance

theorem CollisionInPlace.collision {messages others : List Bytes}
    (h : CollisionInPlace messages others) :
    Collision (messages ++ others) := by
  obtain ⟨⟨m, n⟩, hPair, hNe, hDigest⟩ := h
  have hPlaces := List.of_mem_zip hPair
  exact ⟨m, List.mem_append_left _ hPlaces.1, n,
    List.mem_append_right _ hPlaces.2, hNe, hDigest⟩

/-- Places are kept when equally many messages are put before, or any behind. -/
theorem CollisionInPlace.append {xs ys us vs : List Bytes}
    (hLen : xs.length = ys.length)
    (h : CollisionInPlace xs ys ∨ CollisionInPlace us vs) :
    CollisionInPlace (xs ++ us) (ys ++ vs) := by
  unfold CollisionInPlace
  rw [List.zip_append hLen]
  rcases h with ⟨pair, hPair, hClash⟩ | ⟨pair, hPair, hClash⟩
  · exact ⟨pair, List.mem_append_left _ hPair, hClash⟩
  · exact ⟨pair, List.mem_append_right _ hPair, hClash⟩

/-- Equal lists of digests belong to equal lists of messages, or two messages
collide in place. -/
theorem eq_or_collisionInPlace_of_map_eq {xs : List Bytes} :
    ∀ {ys : List Bytes},
    xs.map keccak256 = ys.map keccak256 → xs = ys ∨ CollisionInPlace xs ys := by
  induction xs with
  | nil =>
      intro ys h
      cases ys with
      | nil => exact .inl rfl
      | cons y ys => simp at h
  | cons x xs ih =>
      intro ys h
      cases ys with
      | nil => simp at h
      | cons y ys =>
          simp only [List.map_cons, List.cons.injEq] at h
          by_cases hHead : x = y
          · rcases ih h.2 with hTail | ⟨pair, hPair, hClash⟩
            · exact .inl (by rw [hHead, hTail])
            · exact .inr ⟨pair, List.mem_cons_of_mem _ hPair, hClash⟩
          · exact .inr ⟨(x, y), by simp, hHead, h.1⟩

theorem eq_or_collision_of_map_eq {xs ys : List Bytes}
    (h : xs.map keccak256 = ys.map keccak256) :
    xs = ys ∨ Collision (xs ++ ys) :=
  (eq_or_collisionInPlace_of_map_eq h).imp_right CollisionInPlace.collision

namespace Merkle.Tree

/-! ## Trees on equally many leaves -/

/-- Going down from one root, equal rows of digests belong to equal rows of
nodes, as long as no two messages in the same place of the two trees collide. -/
theorem leaves_eq_or_collisionInPlace {xs : List Word} : ∀ {ys : List Word},
    xs.length = ys.length → (build xs).root = (build ys).root →
      xs = ys ∨ CollisionInPlace (build xs).messages (build ys).messages := by
  induction xs using level_induction with
  | short xs hShort =>
      intro ys hLen hRoot
      match xs, ys, hLen with
      | [], [], _ => exact .inl rfl
      | [x], [y], _ =>
          rw [root_build_singleton, root_build_singleton] at hRoot
          exact .inl (by rw [hRoot])
      | _ :: _ :: _, _, _ => simp at hShort
  | long xs hLong ih =>
      intro ys hLen hRoot
      have hyLong : 2 ≤ ys.length := by omega
      have hUp : (parents xs).length = (parents ys).length := by
        rw [length_parents, length_parents, hLen]
      have hMessages : (messagesOf xs).length = (messagesOf ys).length := by
        rw [length_messagesOf, length_messagesOf, hLen]
      rw [root_build_of_two_le hLong, root_build_of_two_le hyLong] at hRoot
      rw [messages_build_of_two_le hLong, messages_build_of_two_le hyLong]
      rcases ih hUp hRoot with hParents | hCollision
      · rw [parents_eq_map, parents_eq_map] at hParents
        rcases eq_or_collisionInPlace_of_map_eq hParents with hSame | hCollision
        · exact .inl (eq_of_messagesOf_eq hLen hSame)
        · exact .inr (.append hMessages (.inl hCollision))
      · exact .inr (.append hMessages (.inr hCollision))

theorem leaves_eq_or_collision {xs ys : List Word}
    (hLen : xs.length = ys.length) (hRoot : (build xs).root = (build ys).root) :
    xs = ys ∨ Collision ((build xs).messages ++ (build ys).messages) :=
  (leaves_eq_or_collisionInPlace hLen hRoot).imp_right
    CollisionInPlace.collision

/-! ## Trees of one depth -/

theorem fill_eq_or_collision : ∀ {height : Nat} {xs ys : List Word},
    0 < xs.length → 0 < ys.length →
    (build xs).depth = height + 1 → (build ys).depth = height + 1 →
    (build xs).root = (build ys).root →
    fill height xs = fill height ys ∨
      Collision ((build xs).messages ++ (build ys).messages)
  | 0, xs, ys, hxPos, hyPos, hxDepth, hyDepth, hRoot => by
      have hxFit := length_le_of_depth xs hxDepth
      have hyFit := length_le_of_depth ys hyDepth
      rw [pow_zero] at hxFit hyFit
      obtain ⟨x, rfl⟩ := List.length_eq_one_iff.mp (Nat.le_antisymm hxFit hxPos)
      obtain ⟨y, rfl⟩ := List.length_eq_one_iff.mp (Nat.le_antisymm hyFit hyPos)
      rw [root_build_singleton, root_build_singleton] at hRoot
      exact .inl (by rw [hRoot])
  | height + 1, xs, ys, hxPos, hyPos, hxDepth, hyDepth, hRoot => by
      have hxLong := two_le_length_of_depth hxDepth
      have hyLong := two_le_length_of_depth hyDepth
      have hxFit := length_le_of_depth xs hxDepth
      have hyFit := length_le_of_depth ys hyDepth
      rw [depth_build_of_two_le hxLong] at hxDepth
      rw [depth_build_of_two_le hyLong] at hyDepth
      rw [root_build_of_two_le hxLong, root_build_of_two_le hyLong] at hRoot
      rw [messages_build_of_two_le hxLong, messages_build_of_two_le hyLong]
      rcases fill_eq_or_collision (by rw [length_parents]; omega)
        (by rw [length_parents]; omega)
        (Nat.succ.inj hxDepth) (Nat.succ.inj hyDepth)
          hRoot with hUp | hCollision
      · -- Equal rows of digests: either the messages below them are equal, or
        -- two of them collide.
        rw [parents_eq_map, parents_eq_map, fill_map, fill_map] at hUp
        rcases eq_or_collision_of_map_eq hUp with hRow | hCollision
        · rw [← messagesOf_fill height xs hxPos hxFit,
            ← messagesOf_fill height ys hyPos hyFit]
            at hRow
          have hxLength := length_fill (height + 1) xs hxPos hxFit
          have hyLength := length_fill (height + 1) ys hyPos hyFit
          exact .inl (eq_of_messagesOf_eq (hxLength.trans hyLength.symm) hRow)
        · exact .inr (hCollision.append
            (fun _ hm => List.mem_append_left _ (mem_of_mem_fill hm))
            (fun _ hm => List.mem_append_left _ (mem_of_mem_fill hm)))
      · exact .inr
          (hCollision.append (List.subset_append_right ..)
            (List.subset_append_right ..))

/-! ## Levels as leaves -/

/-- A level of a tree has the root of that tree, and hashes nothing new. -/
theorem level_build {leaves : List Word} : ∀ {k : Nat} {level : List Word},
    0 < leaves.length → (build leaves).levels[k]? = some level →
    0 < level.length ∧ (build level).root = (build leaves).root ∧
      (build level).depth + k = (build leaves).depth ∧
      ∀ m ∈ (build level).messages, m ∈ (build leaves).messages := by
  induction leaves using level_induction with
  | short leaves hShort =>
      intro k level hPos hLevel
      rw [levels_build_of_le_one hShort] at hLevel
      obtain ⟨rfl, rfl⟩ : k = 0 ∧ leaves = level := by
        cases k with
        | zero => exact ⟨rfl, by simpa using hLevel⟩
        | succ k => simp at hLevel
      exact ⟨hPos, rfl, rfl, fun m hm => hm⟩
  | long leaves hLong ih =>
      intro k level hPos hLevel
      rw [levels_build_of_two_le hLong] at hLevel
      cases k with
      | zero =>
          obtain rfl : leaves = level := by simpa using hLevel
          exact ⟨hPos, rfl, rfl, fun m hm => hm⟩
      | succ k =>
          rw [List.getElem?_cons_succ] at hLevel
          obtain ⟨hLevelPos, hRoot, hDepth, hMessages⟩ :=
            ih (by rw [length_parents]; omega) hLevel
          refine ⟨hLevelPos, ?_, ?_, fun m hm => ?_⟩
          · rw [hRoot, root_build_of_two_le hLong]
          · rw [depth_build_of_two_le hLong, ← hDepth]
            rfl
          · rw [messages_build_of_two_le hLong]
            exact List.mem_append_right _ (hMessages m hm)

/-- The nodes of a level above the leaves are digests of messages. -/
theorem mem_level_build {leaves level : List Word} {k : Nat} {node : Word}
    (hLevel : (build leaves).levels[k + 1]? = some level)
    (hNode : node ∈ level) :
    ∃ m ∈ (build leaves).messages, keccak256 m = node := by
  have hAbove : level ∈ (build leaves).above := List.mem_of_getElem? hLevel
  have hFlat : node ∈ (build leaves).above.flatten :=
    List.mem_flatten.mpr ⟨level, hAbove, hNode⟩
  rw [flatten_above_build] at hFlat
  exact List.mem_map.mp hFlat

/-! ## Trees of any depth -/

/-- The leaves of a tree stand again as a level of another one: both rows fill
up alike. -/
def Recurs (t u : Tree) : Prop :=
  ∃ k level, u.levels[k]? = some level ∧ t.depth + k = u.depth ∧
    fill (t.depth - 1) t.leaves = fill (t.depth - 1) level

theorem root_eq_of_recurs {xs ys : List Word} (hxPos : 0 < xs.length)
    (hyPos : 0 < ys.length) (h : Recurs (build xs) (build ys)) :
    (build xs).root = (build ys).root := by
  obtain ⟨k, level, hLevel, hDepth, hFill⟩ := h
  obtain ⟨hLevelPos, hRoot, hLevelDepth, _⟩ := level_build hyPos hLevel
  have hDepthPos := depth_pos (build xs)
  rw [← hRoot]
  exact root_eq_of_fill_eq hxPos hLevelPos (by omega) (by omega) hFill

theorem recurs_or_collision {xs ys : List Word} (hxPos : 0 < xs.length)
    (hyPos : 0 < ys.length) (hDepth : (build xs).depth ≤ (build ys).depth)
    (hRoot : (build xs).root = (build ys).root) :
    Recurs (build xs) (build ys) ∨
      Collision ((build xs).messages ++ (build ys).messages) := by
  have hDepthPos := depth_pos (build xs)
  have hIndex :
      (build ys).depth - (build xs).depth < (build ys).levels.length := by
    show _ < (build ys).depth
    omega
  obtain ⟨level, hLevel⟩ :
      ∃ level, (build ys).levels[(build ys).depth - (build xs).depth]? =
        some level :=
    ⟨_, List.getElem?_eq_getElem hIndex⟩
  obtain ⟨hLevelPos, hLevelRoot, hLevelDepth, hMessages⟩ :=
    level_build hyPos hLevel
  rcases fill_eq_or_collision hxPos hLevelPos
    (show (build xs).depth = (build xs).depth - 1 + 1 by omega) (by omega)
    (by rw [hRoot, hLevelRoot]) with hFill | hCollision
  · exact .inl ⟨_, level, hLevel, by omega, hFill⟩
  · exact .inr (hCollision.append (List.Subset.refl _) hMessages)

/-- Of two trees with one root, the leaves of one recur in the other, whichever
is deeper. -/
theorem recurs_either_or_collision {xs ys : List Word} (hxPos : 0 < xs.length)
    (hyPos : 0 < ys.length) (hRoot : (build xs).root = (build ys).root) :
    (Recurs (build xs) (build ys) ∨ Recurs (build ys) (build xs)) ∨
      Collision ((build xs).messages ++ (build ys).messages) := by
  rcases Nat.le_total (build xs).depth (build ys).depth with hDepth | hDepth
  · exact (recurs_or_collision hxPos hyPos hDepth hRoot).imp_left .inl
  · rcases recurs_or_collision hyPos hxPos hDepth hRoot.symm with hRecurs
      | hCollision
    · exact .inl (.inr hRecurs)
    · exact .inr hCollision.swap

theorem fill_eq_of_recurs {xs ys : List Word}
    (hDepth : (build xs).depth = (build ys).depth)
    (h : Recurs (build xs) (build ys)) :
    fill ((build xs).depth - 1) xs = fill ((build xs).depth - 1) ys := by
  obtain ⟨k, level, hLevel, hSum, hFill⟩ := h
  obtain rfl : k = 0 := by omega
  obtain rfl : ys = level := by simpa [levels, build] using hLevel
  exact hFill

/-- Every leaf of a tree is a digest that is computed in a deeper tree. -/
def Sunk (t u : Tree) : Prop :=
  t.depth < u.depth ∧ ∀ leaf ∈ t.leaves, ∃ m ∈ u.messages, keccak256 m = leaf

theorem sunk_of_recurs {xs ys : List Word}
    (hDepth : (build xs).depth < (build ys).depth)
    (h : Recurs (build xs) (build ys)) : Sunk (build xs) (build ys) := by
  obtain ⟨k, level, hLevel, hSum, hFill⟩ := h
  obtain ⟨j, rfl⟩ : ∃ j, k = j + 1 := ⟨k - 1, by omega⟩
  refine ⟨hDepth, fun leaf hLeaf => mem_level_build hLevel ?_⟩
  have hRow : leaf ∈ fill ((build xs).depth - 1) xs :=
    (prefix_fill _ xs).subset hLeaf
  rw [show fill ((build xs).depth - 1) xs = _ from hFill] at hRow
  exact mem_of_mem_fill hRow

/-! ## Trees on byte strings -/

theorem prefix_of_digests {items others : List Bytes}
    (h : items.map keccak256 <+: others.map keccak256) :
    items <+: others ∨ Collision (items ++ others) := by
  have hTake :
      items.map keccak256 = (others.take items.length).map keccak256 := by
    rw [List.map_take, ← List.length_map keccak256]
    exact List.prefix_iff_eq_take.mp h
  rcases eq_or_collision_of_map_eq hTake with hSame | hCollision
  · exact .inl (List.prefix_iff_eq_take.mpr hSame)
  · exact .inr (hCollision.append (List.Subset.refl _) (List.take_subset ..))

theorem prefix_of_recurs {items others : List Bytes}
    (hDepth : (ofData items).depth = (ofData others).depth)
    (hRecurs : Recurs (ofData items) (ofData others)) :
    (items <+: others ∨ others <+: items) ∨ Collision (items ++ others) := by
  have hFill := fill_eq_of_recurs hDepth hRecurs
  rcases Nat.le_total (items.map keccak256).length
    (others.map keccak256).length with hLe | hLe
  · exact (prefix_of_digests (prefix_of_fill_eq hFill hLe)).imp_left .inl
  · rcases prefix_of_digests (prefix_of_fill_eq hFill.symm hLe) with hPrefix
      | hCollision
    · exact .inl (.inr hPrefix)
    · exact .inr hCollision.swap

/-- Leaves that recur in a deeper tree are digests of messages.  A byte string
that is no message collides with one if its digest is such a leaf. -/
theorem collision_of_recurs {items others : List Bytes}
    (hItem : ∃ item ∈ items, item.length ≠ 64)
    (hDepth : (ofData items).depth < (ofData others).depth)
    (hRecurs : Recurs (ofData items) (ofData others)) :
    Collision (items ++ (ofData others).messages) := by
  obtain ⟨item, hMem, hLong⟩ := hItem
  obtain ⟨m, hm, hDigest⟩ :=
    (sunk_of_recurs hDepth hRecurs).2 (keccak256 item)
      (List.mem_map_of_mem hMem)
  have hNe : item ≠ m := fun h => hLong (h ▸ length_of_mem_messages hm)
  exact ⟨item, List.mem_append_left _ hMem, m, List.mem_append_right _ hm, hNe,
    hDigest.symm⟩

private theorem prefix_of_depth_le {items others : List Bytes}
    (hItem : ∃ item ∈ items, item.length ≠ 64) (hOthers : 0 < others.length)
    (hDepth : (ofData items).depth ≤ (ofData others).depth)
    (hRoot : (ofData items).root = (ofData others).root) :
    (items <+: others ∨ others <+: items) ∨
      Collision
        ((items ++ (ofData items).messages) ++
          (others ++ (ofData others).messages)) := by
  have hPos : 0 < (items.map keccak256).length := by
    obtain ⟨item, hMem, _⟩ := hItem
    rw [List.length_map]
    exact List.length_pos_of_mem hMem
  have hOtherPos : 0 < (others.map keccak256).length := by
    rw [List.length_map]
    exact hOthers
  rcases recurs_or_collision hPos hOtherPos hDepth hRoot with hRecurs
    | hCollision
  · rcases Nat.lt_or_eq_of_le hDepth with hDeeper | hSame
    · exact .inr ((collision_of_recurs hItem hDeeper hRecurs).append
        (List.subset_append_left ..) (List.subset_append_right ..))
    · rcases prefix_of_recurs hSame hRecurs with hPrefix | hCollision
      · exact .inl hPrefix
      · exact .inr
          (hCollision.append (List.subset_append_left ..)
            (List.subset_append_left ..))
  · exact .inr
      (hCollision.append (List.subset_append_right ..)
        (List.subset_append_right ..))

/-- Leaves and nodes are hashed alike.  As long as some byte string of each list
cannot be taken for the message of a node, lists with one root begin one another
all the same. -/
theorem prefix_or_collision {items others : List Bytes}
    (hItem : ∃ item ∈ items, item.length ≠ 64)
    (hOther : ∃ item ∈ others, item.length ≠ 64)
    (hRoot : (ofData items).root = (ofData others).root) :
    (items <+: others ∨ others <+: items) ∨
      Collision
        ((items ++ (ofData items).messages) ++
          (others ++ (ofData others).messages)) := by
  have hPos {list : List Bytes} : (∃ item ∈ list, item.length ≠ 64) →
      0 < list.length :=
    fun ⟨_, hMem, _⟩ => List.length_pos_of_mem hMem
  rcases Nat.le_total (ofData items).depth
    (ofData others).depth with hDepth | hDepth
  · exact prefix_of_depth_le hItem (hPos hOther) hDepth hRoot
  · rcases prefix_of_depth_le hOther (hPos hItem)
      hDepth hRoot.symm with hPrefix | hCollision
    · exact .inl hPrefix.symm
    · exact .inr hCollision.swap

end Merkle.Tree
end SealedGraph
