import Mathlib
import SealedGraph.Proofs.Merkle.Levels

/-!
# Filled rows

Pairing a last node with itself amounts to hashing a full row of `2 ^ height`
nodes, in which ends are repeated until the row is full.  Two lists of nodes
have the same tree of digests above them as soon as they fill up to the same
row, and this is the only freedom that the pairing rule leaves.

The function that fills a row works on any things in a row, since it is
applied to nodes and to the messages that are hashed for them.

## Main results

* `messagesOf_fill`, `parents_fill`: filling commutes with going up a level.
* `prefix_fill`, `length_fill`: a filled row begins with what it was made from.
* `root_eq_of_fill_eq`: lists that fill up to the same row have the same root.
-/

namespace SealedGraph.Merkle

/-- A list of at most `2 ^ height` things, filled up to so many: while it fits
the left half of the row, the right half repeats the left one. -/
def fill {α : Type} : (height : Nat) → List α → List α
  | 0, xs => xs
  | height + 1, xs =>
      if xs.length ≤ 2 ^ height then fill height xs ++ fill height xs
      else xs.take (2 ^ height) ++ fill height (xs.drop (2 ^ height))

section Row

variable {α β : Type}

theorem length_fill : ∀ (height : Nat) (xs : List α),
    0 < xs.length → xs.length ≤ 2 ^ height →
    (fill height xs).length = 2 ^ height
  | 0, xs, hPos, hFit => by
      rw [pow_zero] at hFit ⊢
      exact Nat.le_antisymm hFit hPos
  | height + 1, xs, hPos, hFit => by
      rw [pow_succ] at hFit ⊢
      by_cases hHalf : xs.length ≤ 2 ^ height
      · rw [fill, if_pos hHalf, List.length_append,
          length_fill height xs hPos hHalf]
        omega
      · have hRight := length_fill height (xs.drop (2 ^ height))
          (by rw [List.length_drop]; omega) (by rw [List.length_drop]; omega)
        rw [fill, if_neg hHalf, List.length_append, hRight, List.length_take]
        omega

theorem prefix_fill : ∀ (height : Nat) (xs : List α), xs <+: fill height xs
  | 0, xs => List.prefix_refl xs
  | height + 1, xs => by
      by_cases hHalf : xs.length ≤ 2 ^ height
      · rw [fill, if_pos hHalf]
        exact (prefix_fill height xs).trans (List.prefix_append _ _)
      · rw [fill, if_neg hHalf]
        conv => lhs; rw [← List.take_append_drop (2 ^ height) xs]
        exact List.prefix_append_right_inj _ |>.mpr (prefix_fill height _)

theorem mem_of_mem_fill {x : α} :
    ∀ {height : Nat} {xs : List α}, x ∈ fill height xs → x ∈ xs
  | 0, _, h => h
  | height + 1, xs, h => by
      rw [fill] at h
      split at h
      · rcases List.mem_append.mp h with h | h <;> exact mem_of_mem_fill h
      · rcases List.mem_append.mp h with h | h
        · exact List.mem_of_mem_take h
        · exact List.mem_of_mem_drop (mem_of_mem_fill h)

theorem fill_map (f : α → β) : ∀ (height : Nat) (xs : List α),
    fill height (xs.map f) = (fill height xs).map f
  | 0, _ => rfl
  | height + 1, xs => by
      simp only [fill, List.length_map, ← List.map_take, ← List.map_drop,
        fill_map f height]
      split <;> rw [List.map_append]

/-- Of two rows that fill up alike, the shorter one begins the longer one. -/
theorem prefix_of_fill_eq {height : Nat} {xs ys : List α}
    (hFill : fill height xs = fill height ys) (hLen : xs.length ≤ ys.length) :
    xs <+: ys := by
  have hLeft := prefix_fill height xs
  rw [hFill] at hLeft
  exact List.prefix_of_prefix_length_le hLeft (prefix_fill height ys) hLen

theorem eq_of_fill_eq {height : Nat} {xs ys : List α}
    (hFill : fill height xs = fill height ys) (hLen : xs.length = ys.length) :
    xs = ys :=
  (prefix_of_fill_eq hFill (Nat.le_of_eq hLen)).eq_of_length hLen

end Row

/-! ## Filling and pairing -/

theorem length_messagesOf (level : List Word) :
    (messagesOf level).length = (level.length + 1) / 2 := by
  rw [← length_parents, parents_eq_map, List.length_map]

/-- Pairs do not reach over a place before which an even number of nodes
stands. -/
theorem messagesOf_append :
    ∀ {xs : List Word} (ys : List Word), xs.length % 2 = 0 →
    messagesOf (xs ++ ys) = messagesOf xs ++ messagesOf ys
  | [], _, _ => rfl
  | [_], _, hEven => by simp at hEven
  | left :: right :: rest, ys, hEven => by
      have hRest : rest.length % 2 = 0 := by
        simp only [List.length_cons] at hEven
        omega
      simp only [List.cons_append, messagesOf, messagesOf_append ys hRest]

theorem messagesOf_fill : ∀ (height : Nat) (level : List Word),
    0 < level.length → level.length ≤ 2 ^ (height + 1) →
      messagesOf (fill (height + 1) level) = fill height (messagesOf level)
  | 0, level, hPos, hFit => by
      match level with
      | [_] => simp [fill, messagesOf]
      | [_, _] => rfl
      | _ :: _ :: _ :: _ => simp at hFit
  | height + 1, level, hPos, hFit => by
      have hMessages := length_messagesOf level
      have hPow : 2 ^ (height + 1) = 2 ^ height * 2 := pow_succ 2 height
      have hPow' : 2 ^ (height + 1 + 1) = 2 ^ (height + 1) * 2 :=
        pow_succ 2 (height + 1)
      by_cases hHalf : level.length ≤ 2 ^ (height + 1)
      · have ih := messagesOf_fill height level hPos hHalf
        have hEven := length_fill (height + 1) level hPos hHalf
        rw [fill, if_pos hHalf, messagesOf_append _ (by omega), ih, fill,
          if_pos (by omega)]
      · -- The left half of the row is whole, and its pairs are the left half of
        -- all pairs.
        have hDrop :
            (level.drop (2 ^ (height + 1))).length =
              level.length - 2 ^ (height + 1) :=
          List.length_drop
        have hTake :
            (level.take (2 ^ (height + 1))).length = 2 ^ (height + 1) := by
          rw [List.length_take]
          omega
        have ih :=
          messagesOf_fill height (level.drop (2 ^ (height + 1))) (by omega)
            (by omega)
        have hSplit :
            messagesOf level = messagesOf (level.take (2 ^ (height + 1))) ++
            messagesOf (level.drop (2 ^ (height + 1))) := by
          conv => lhs; rw [← List.take_append_drop (2 ^ (height + 1)) level]
          exact messagesOf_append _ (by omega)
        have hLeft :
            (messagesOf (level.take (2 ^ (height + 1)))).length =
              2 ^ height := by
          rw [length_messagesOf]
          omega
        rw [fill, if_neg hHalf, messagesOf_append _ (by omega), ih, fill,
          if_neg (by omega), hSplit, List.take_left' hLeft,
          List.drop_left' hLeft]

theorem parents_fill (height : Nat) (level : List Word)
    (hPos : 0 < level.length) (hFit : level.length ≤ 2 ^ (height + 1)) :
    parents (fill (height + 1) level) = fill height (parents level) := by
  rw [parents_eq_map, messagesOf_fill height level hPos hFit,
    parents_eq_map, fill_map]

/-- Equally many nodes can be read off the messages for the nodes above them. -/
theorem eq_of_messagesOf_eq : ∀ {xs ys : List Word}, xs.length = ys.length →
    messagesOf xs = messagesOf ys → xs = ys
  | [], [], _, _ => rfl
  | [], _ :: _, hLen, _ => by simp at hLen
  | _ :: _, [], hLen, _ => by simp at hLen
  | [_], _ :: _ :: _, hLen, _ => by simp at hLen
  | _ :: _ :: _, [_], hLen, _ => by simp at hLen
  | [a], [c], _, h => by
      simp only [messagesOf, List.cons.injEq, and_true] at h
      have hLast :=
        (List.append_inj h (by rw [a.length_bytes, c.length_bytes])).1
      rw [Word.ext hLast]
  | a :: b :: xs, c :: d :: ys, hLen, h => by
      simp only [messagesOf, List.cons.injEq] at h
      obtain ⟨hLeft, hRight⟩ :=
        List.append_inj h.1 (by rw [a.length_bytes, c.length_bytes])
      have hRest : xs = ys :=
        eq_of_messagesOf_eq (by simp only [List.length_cons] at hLen; omega) h.2
      rw [Word.ext hLeft, Word.ext hRight, hRest]

/-! ## Rows and trees -/

namespace Tree

/-- The leaves of a tree fit the row that its depth asks for. -/
theorem length_le_of_depth (level : List Word) :
    ∀ {height : Nat}, (build level).depth = height + 1 →
    level.length ≤ 2 ^ height := by
  induction level using level_induction with
  | short level hShort =>
      intro height _
      exact Nat.le_trans hShort Nat.one_le_two_pow
  | long level hLong ih =>
      intro height hDepth
      rw [depth_build_of_two_le hLong] at hDepth
      match height with
      | 0 => have := depth_pos (build (parents level)); omega
      | height + 1 =>
          have hParents := ih (Nat.succ.inj hDepth)
          rw [length_parents] at hParents
          rw [pow_succ]
          omega

/-- A tree with levels above its leaves has two leaves or more. -/
theorem two_le_length_of_depth {level : List Word} {height : Nat}
    (hDepth : (build level).depth = height + 2) : 2 ≤ level.length := by
  by_contra hShort
  rw [depth_build_of_le_one (by omega)] at hDepth
  omega

theorem root_eq_of_fill_eq : ∀ {height : Nat} {xs ys : List Word},
    0 < xs.length → 0 < ys.length →
    (build xs).depth = height + 1 → (build ys).depth = height + 1 →
    fill height xs = fill height ys → (build xs).root = (build ys).root
  | 0, xs, ys, _, _, _, _, hFill => by
      rw [show xs = ys from hFill]
  | height + 1, xs, ys, hxPos, hyPos, hxDepth, hyDepth, hFill => by
      have hxLong := two_le_length_of_depth hxDepth
      have hyLong := two_le_length_of_depth hyDepth
      have hUp : fill height (parents xs) = fill height (parents ys) := by
        rw [← parents_fill height xs hxPos (length_le_of_depth xs hxDepth),
          ← parents_fill height ys hyPos (length_le_of_depth ys hyDepth), hFill]
      rw [depth_build_of_two_le hxLong] at hxDepth
      rw [depth_build_of_two_le hyLong] at hyDepth
      rw [root_build_of_two_le hxLong, root_build_of_two_le hyLong]
      exact root_eq_of_fill_eq (by rw [length_parents]; omega)
        (by rw [length_parents]; omega)
        (Nat.succ.inj hxDepth) (Nat.succ.inj hyDepth) hUp

end Tree
end SealedGraph.Merkle
