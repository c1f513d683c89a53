import SealedGraph.Merkle.Tree

/-!
# From level to level of a tree

A tree on two leaves or more is its leaves under the tree on their parents.
Everything about whole trees is proved along this step: the root, the number
of levels, the nodes, and the byte strings that are hashed on the way.

The bound on the number of levels that the builder carries along is never
reached, so it disappears from every statement here.

## Main results

* `above_build_of_two_le`: the levels above a level are its parents and the
  levels above those.
* `flatten_above_build`: the nodes above the leaves are the digests of the
  messages of the tree, one for one and in order.
-/

namespace SealedGraph.Merkle

/-! ## The builder without its bound -/

/-- More levels than there are nodes are never needed. -/
theorem levelsAbove_eq_of_length_le (n : Nat) :
    ∀ (fuel : Nat) (level : List Word), level.length ≤ n → level.length ≤ fuel →
      levelsAbove fuel level = levelsAbove level.length level := by
  induction n with
  | zero =>
      intro fuel level hLen _
      have hNil : level = [] := List.length_eq_zero_iff.mp (by omega)
      subst hNil
      cases fuel <;> rfl
  | succ n ih =>
      intro fuel level hLen hFuel
      match fuel, hSize : level.length with
      | 0, 0 => rfl
      | 0, size + 1 => omega
      | fuel + 1, 0 => simp [levelsAbove, hSize]
      | fuel + 1, size + 1 =>
          by_cases hShort : level.length ≤ 1
          · simp only [levelsAbove, if_pos hShort]
          · have hParents := length_parents level
            have hLeft := ih fuel (parents level) (by omega) (by omega)
            have hRight := ih size (parents level) (by omega) (by omega)
            simp only [levelsAbove, if_neg hShort, hLeft, hRight]

namespace Tree

theorem above_build_of_le_one {level : List Word} (hShort : level.length ≤ 1) :
    (build level).above = [] := by
  show levelsAbove level.length level = []
  cases hSize : level.length with
  | zero => rfl
  | succ size => rw [levelsAbove, if_pos hShort]

theorem above_build_of_two_le {level : List Word} (hLong : 2 ≤ level.length) :
    (build level).above = parents level :: (build (parents level)).above := by
  show levelsAbove level.length level =
    parents level :: levelsAbove (parents level).length (parents level)
  have hParents := length_parents level
  match hSize : level.length with
  | 0 => omega
  | size + 1 =>
      rw [levelsAbove, if_neg (by omega)]
      exact congrArg (parents level :: ·)
        (levelsAbove_eq_of_length_le size size (parents level) (by omega)
          (by omega))

/-- What holds of short levels, and of a level if it holds of its parents, holds
of all. -/
theorem level_induction {motive : List Word → Prop}
    (short : ∀ level, level.length ≤ 1 → motive level)
    (long : ∀ level, 2 ≤ level.length → motive (parents level) → motive level) :
    ∀ level, motive level := by
  have hBounded : ∀ (n : Nat) (level : List Word), level.length ≤ n →
      motive level := by
    intro n
    induction n with
    | zero => exact fun level hLen => short level (by omega)
    | succ n ih =>
        intro level hLen
        by_cases hShort : level.length ≤ 1
        · exact short level hShort
        · have hParents := length_parents level
          exact long level (by omega) (ih (parents level) (by omega))
  exact fun level => hBounded level.length level (Nat.le_refl _)

/-! ## Root, depth and nodes -/

theorem root_build_singleton (node : Word) : (build [node]).root = node := rfl

theorem root_build_of_two_le {level : List Word} (hLong : 2 ≤ level.length) :
    (build level).root = (build (parents level)).root := by
  unfold root
  rw [above_build_of_two_le hLong, List.getLast?_cons]
  rfl

theorem levels_build_of_le_one {level : List Word} (hShort : level.length ≤ 1) :
    (build level).levels = [level] := by
  unfold levels
  rw [above_build_of_le_one hShort]
  rfl

theorem levels_build_of_two_le {level : List Word} (hLong : 2 ≤ level.length) :
    (build level).levels = level :: (build (parents level)).levels := by
  unfold levels
  rw [above_build_of_two_le hLong]
  rfl

theorem depth_build_of_le_one {level : List Word} (hShort : level.length ≤ 1) :
    (build level).depth = 1 := by
  unfold depth
  rw [levels_build_of_le_one hShort]
  rfl

theorem depth_build_of_two_le {level : List Word} (hLong : 2 ≤ level.length) :
    (build level).depth = (build (parents level)).depth + 1 := by
  unfold depth
  rw [levels_build_of_two_le hLong, List.length_cons]

theorem depth_pos (t : Tree) : 0 < t.depth := by
  unfold depth levels
  simp

theorem nodeCount_eq (t : Tree) :
    t.nodeCount = t.leafCount + t.above.flatten.length := by
  simp [nodeCount, nodes, levels, leafCount]

end Tree

/-! ## Messages -/

/-- The 64-byte messages that are hashed for the level above a level. -/
def messagesOf : List Word → List Bytes
  | [] => []
  | [last] => [last.bytes ++ last.bytes]
  | left :: right :: rest => (left.bytes ++ right.bytes) :: messagesOf rest

theorem parents_eq_map (level : List Word) :
    parents level = (messagesOf level).map keccak256 := by
  match level with
  | [] => rfl
  | [_] => rfl
  | left :: right :: rest =>
      simp only [parents, messagesOf, List.map_cons, parents_eq_map rest]
      rfl

theorem length_of_mem_messagesOf {message : Bytes} :
    ∀ {level : List Word}, message ∈ messagesOf level → message.length = 64
  | [], h => by simp [messagesOf] at h
  | [last], h => by
      simp only [messagesOf, List.mem_singleton] at h
      rw [h, List.length_append, last.length_bytes]
  | left :: right :: rest, h => by
      simp only [messagesOf, List.mem_cons] at h
      rcases h with rfl | h
      · rw [List.length_append, left.length_bytes, right.length_bytes]
      · exact length_of_mem_messagesOf h

namespace Tree

/-- Everything that is hashed when a tree is built on its leaves: the top level
has no parents. -/
def messages (t : Tree) : List Bytes := t.levels.dropLast.flatMap messagesOf

theorem messages_build_of_le_one {level : List Word}
    (hShort : level.length ≤ 1) :
    (build level).messages = [] := by
  unfold messages
  rw [levels_build_of_le_one hShort]
  rfl

theorem messages_build_of_two_le {level : List Word}
    (hLong : 2 ≤ level.length) :
    (build level).messages =
      messagesOf level ++ (build (parents level)).messages := by
  unfold messages
  rw [levels_build_of_two_le hLong,
    List.dropLast_cons_of_ne_nil (by simp [levels]), List.flatMap_cons]

/-- The nodes above the leaves are the digests of the messages. -/
theorem flatten_above_build (leaves : List Word) :
    (build leaves).above.flatten = (build leaves).messages.map keccak256 := by
  induction leaves using level_induction with
  | short level hShort =>
      rw [above_build_of_le_one hShort, messages_build_of_le_one hShort]
      rfl
  | long level hLong ih =>
      rw [above_build_of_two_le hLong, messages_build_of_two_le hLong,
        List.flatten_cons, List.map_append, ih, parents_eq_map level]

theorem length_of_mem_messages {t : Tree} {message : Bytes}
    (h : message ∈ t.messages) :
    message.length = 64 := by
  unfold messages at h
  obtain ⟨level, _, hLevel⟩ := List.mem_flatMap.mp h
  exact length_of_mem_messagesOf hLevel

end Tree
end SealedGraph.Merkle
