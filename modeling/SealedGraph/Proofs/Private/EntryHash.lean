import Mathlib
import SealedGraph.Private.Committer
import SealedGraph.Proofs.Json.Unambiguous
import SealedGraph.Proofs.Merkle.Binding
import SealedGraph.Proofs.Private.BlockLeaves

/-!
# What the hash of an entry binds

The hash of an entry is the root of a tree that says neither how many leaves
it has nor how long the payload is.  It binds the payload all the same, but
for two cases: two numbers, one of whose texts begins the other one, may fill
rows of leaves that the pairing rule makes equal; and the leaves of one payload
may be digests from the tree on another one.  The first case does occur; the
second one asks for texts that are digests.

## Main results

* `hash_eq_ok`: every entry with data has a hash, the root of its leaves.
* `hash_binds`: entries with one hash have one payload, but for these cases.
* `hash_not_binding`: two numbers with one hash.
-/

namespace SealedGraph.Committer

open Merkle

/-! ## The hash of an entry -/

section Entry

variable {c : Committer} {entry : PrivateEntry} {v : Json} {leaves : List Word}

theorem payload_eq_ok (hPayload : entry.payload? = some v) :
    payload entry = .ok v.canonicalBytes := by
  rw [payload, hPayload]

theorem tree_eq_ok (hPayload : entry.payload? = some v)
    (hSplit : Blocks.splitLeaves v.canonicalBytes c.privacy = .ok leaves) :
    c.tree entry = .ok (Tree.build leaves) := by
  rw [tree, payload_eq_ok hPayload]
  show Blocks.splitLeaves v.canonicalBytes c.privacy >>= _ = _
  rw [hSplit]
  rfl

theorem hash_eq_ok (hPayload : entry.payload? = some v)
    (hSplit : Blocks.splitLeaves v.canonicalBytes c.privacy = .ok leaves) :
    c.hash entry = .ok (Tree.build leaves).root := by
  rw [hash, tree_eq_ok hPayload hSplit]
  rfl

end Entry

/-! ## Payloads from leaves -/

section Payloads

variable {s : PrivacySettings} {u v : Json} {xs ys : List Word}

theorem canonicalText_eq_of_leaves (hValid : s.Valid)
    (hxs : Blocks.splitLeaves u.canonicalBytes s = .ok xs)
    (hys : Blocks.splitLeaves v.canonicalBytes s = .ok ys) (hLeaves : xs = ys) :
    u.canonicalText = v.canonicalText := by
  have hu :=
    Blocks.payload_of_leaves hValid (Json.zero_notMem_canonicalBytes u) hxs
  have hv :=
    Blocks.payload_of_leaves hValid (Json.zero_notMem_canonicalBytes v) hys
  rw [hLeaves, hv] at hu
  exact Bytes.ofText_injective hu.symm

/-- When leaves begin other leaves, one text begins the other one; texts that
are no numbers are equal then. -/
theorem canonicalText_eq_or_numbers_of_leaves (hValid : s.Valid)
    (hxs : Blocks.splitLeaves u.canonicalBytes s = .ok xs)
    (hys : Blocks.splitLeaves v.canonicalBytes s = .ok ys)
    (hPrefix : xs <+: ys) :
    u.canonicalText = v.canonicalText ∨
      ∃ m n, u = .number m ∧ v = .number n ∧ m.render <+: n.render := by
  have hu :=
    Blocks.payload_of_leaves hValid (Json.zero_notMem_canonicalBytes u) hxs
  have hv :=
    Blocks.payload_of_leaves hValid (Json.zero_notMem_canonicalBytes v) hys
  have hBytes : u.canonicalBytes <+: v.canonicalBytes := by
    obtain ⟨rest, rfl⟩ := hPrefix
    rw [← hu, ← hv, List.flatMap_append]
    exact List.prefix_append _ _
  have hText := Bytes.prefix_of_ofText_prefix hBytes
  rcases Json.render_eq_or_numbers_of_prefix hText with hSame | ⟨m, n, hm, hn⟩
  · exact .inl (congrArg String.ofList hSame)
  · rw [hm, hn] at hText
    exact .inr ⟨m, n, Json.eq_number_of_normalize hm,
      Json.eq_number_of_normalize hn, hText⟩

end Payloads

/-! ## Binding -/

/-- Two numbers, one of whose texts begins the other one, have different numbers
of leaves that fill up to one row. -/
def NumbersRecur (u v : Json) (t t' : Tree) : Prop :=
  (∃ m n, u = .number m ∧ v = .number n ∧
    (m.render <+: n.render ∨ n.render <+: m.render)) ∧
    t.leafCount ≠ t'.leafCount ∧ t.depth = t'.depth ∧ t.Recurs t'

/-- Entries with data have a hash.  Two of them with one hash have one canonical
text, or two messages of their trees collide, or they are numbers whose leaves
recur, or the leaves of one are digests from the deeper tree of the other. -/
theorem hash_binds {c : Committer} {e f : PrivateEntry} {u v : Json}
    (he : e.payload? = some u) (hf : f.payload? = some v)
    (hHash : c.hash e = c.hash f) :
    ∃ t t', c.tree e = .ok t ∧ c.tree f = .ok t' ∧
      (u.canonicalText = v.canonicalText ∨
        Collision (t.messages ++ t'.messages) ∨
        NumbersRecur u v t t' ∨ t.Sunk t' ∨ t'.Sunk t) := by
  obtain ⟨xs, hxs, _⟩ := Blocks.splitLeaves_eq_ok u.canonicalBytes c.valid
  obtain ⟨ys, hys, _⟩ := Blocks.splitLeaves_eq_ok v.canonicalBytes c.valid
  refine ⟨Tree.build xs, Tree.build ys, tree_eq_ok he hxs,
    tree_eq_ok hf hys, ?_⟩
  have hRoot : (Tree.build xs).root = (Tree.build ys).root := by
    rw [hash_eq_ok he hxs, hash_eq_ok hf hys] at hHash
    exact Except.ok.inj hHash
  have hxPos : 0 < xs.length := by
    rw [Blocks.length_splitLeaves c.valid hxs]
    exact Blocks.count_pos _ c.valid
  have hyPos : 0 < ys.length := by
    rw [Blocks.length_splitLeaves c.valid hys]
    exact Blocks.count_pos _ c.valid
  rcases Nat.lt_trichotomy (Tree.build xs).depth
    (Tree.build ys).depth with hDepth | hDepth | hDepth
  · rcases Tree.recurs_or_collision hxPos hyPos (Nat.le_of_lt hDepth)
      hRoot with hRecurs | hCollision
    · exact .inr (.inr (.inr (.inl (Tree.sunk_of_recurs hDepth hRecurs))))
    · exact .inr (.inl hCollision)
  · rcases Tree.recurs_or_collision hxPos hyPos (Nat.le_of_eq hDepth)
      hRoot with hRecurs | hCollision
    · have hFill := Tree.fill_eq_of_recurs hDepth hRecurs
      by_cases hCount : xs.length = ys.length
      · exact .inl
          (canonicalText_eq_of_leaves c.valid hxs hys
            (eq_of_fill_eq hFill hCount))
      · rcases Nat.le_total xs.length ys.length with hLe | hLe
        · rcases canonicalText_eq_or_numbers_of_leaves c.valid hxs hys
            (prefix_of_fill_eq hFill hLe) with hSame | ⟨m, n, hm, hn, hPrefix⟩
          · exact .inl hSame
          · exact .inr
              (.inr (.inl ⟨⟨m, n, hm, hn, .inl hPrefix⟩, hCount, hDepth,
                hRecurs⟩))
        · rcases canonicalText_eq_or_numbers_of_leaves c.valid hys hxs
            (prefix_of_fill_eq hFill.symm hLe) with hSame | ⟨n, m, hn,
              hm, hPrefix⟩
          · exact .inl hSame.symm
          · exact .inr
              (.inr (.inl ⟨⟨m, n, hm, hn, .inr hPrefix⟩, hCount, hDepth,
                hRecurs⟩))
    · exact .inr (.inl hCollision)
  · rcases Tree.recurs_or_collision hyPos hxPos (Nat.le_of_lt hDepth)
      hRoot.symm with
      hRecurs | hCollision
    · exact .inr (.inr (.inr (.inr (Tree.sunk_of_recurs hDepth hRecurs))))
    · exact .inr
        (.inl (hCollision.mono fun m hm =>
          List.mem_append.mpr (List.mem_append.mp hm).symm))

/-! ## Two numbers with one hash -/

/-- At least three leaves, of any size. -/
def threeCommitter : Committer := ⟨⟨3, 32, ["private"]⟩, by decide⟩

/-- An entry that holds a number. -/
def numberEntry (n : UInt64) : PrivateEntry := .new (Json.ofWord n)

set_option maxRecDepth 100000 in
/-- Three leaves with the digit 1, and four of them, have one root. -/
theorem hash_numberEntry :
    threeCommitter.hash (numberEntry 111) =
      threeCommitter.hash (numberEntry 1111) := by
  have hSome : (threeCommitter.hash (numberEntry 111)).toOption =
      (threeCommitter.hash (numberEntry 1111)).toOption := by
    decide +kernel
  obtain ⟨xs, hxs, _⟩ :=
    Blocks.splitLeaves_eq_ok
      (Json.ofWord 111).canonicalBytes threeCommitter.valid
  obtain ⟨ys, hys, _⟩ :=
    Blocks.splitLeaves_eq_ok
      (Json.ofWord 1111).canonicalBytes threeCommitter.valid
  have hx : threeCommitter.hash (numberEntry 111) = .ok (Tree.build xs).root :=
    hash_eq_ok rfl hxs
  have hy : threeCommitter.hash (numberEntry 1111) = .ok (Tree.build ys).root :=
    hash_eq_ok rfl hys
  rw [hx, hy] at hSome ⊢
  exact congrArg Except.ok (Option.some.inj hSome)

theorem hash_binds_numbers :
    threeCommitter.hash (numberEntry 111) =
      threeCommitter.hash (numberEntry 1111) ∧
    ∃ t t', threeCommitter.tree (numberEntry 111) = .ok t ∧
      threeCommitter.tree (numberEntry 1111) = .ok t' ∧
      ((Json.ofWord 111).canonicalText = (Json.ofWord 1111).canonicalText ∨
        Collision (t.messages ++ t'.messages) ∨
        NumbersRecur (Json.ofWord 111) (Json.ofWord 1111) t t' ∨ t.Sunk t' ∨
          t'.Sunk t) :=
  ⟨hash_numberEntry, hash_binds rfl rfl hash_numberEntry⟩

set_option maxRecDepth 100000 in
/-- The messages of the two trees do not collide, and yet the texts differ. -/
theorem hash_not_binding :
    ¬ ∀ (c : Committer) (e f : PrivateEntry) (u v : Json) (t t' : Tree),
      e.payload? = some u → f.payload? = some v → c.tree e = .ok t →
      c.tree f = .ok t' →
      c.hash e = c.hash f →
        u.canonicalText = v.canonicalText ∨
          Collision (t.messages ++ t'.messages) := by
  intro h
  have hNoCollision : ∀ t ∈ (threeCommitter.tree (numberEntry 111)).toOption,
      ∀ t' ∈ (threeCommitter.tree (numberEntry 1111)).toOption,
        ¬ Collision (t.messages ++ t'.messages) := by
    decide +kernel
  obtain ⟨xs, hxs, _⟩ :=
    Blocks.splitLeaves_eq_ok
      (Json.ofWord 111).canonicalBytes threeCommitter.valid
  obtain ⟨ys, hys, _⟩ :=
    Blocks.splitLeaves_eq_ok
      (Json.ofWord 1111).canonicalBytes threeCommitter.valid
  have ht : threeCommitter.tree (numberEntry 111) = .ok (Tree.build xs) :=
    tree_eq_ok rfl hxs
  have ht' : threeCommitter.tree (numberEntry 1111) = .ok (Tree.build ys) :=
    tree_eq_ok rfl hys
  rcases h threeCommitter (numberEntry 111) (numberEntry 1111)
    _ _ _ _ rfl rfl ht ht' hash_numberEntry with hSame | hCollision
  · exact absurd hSame (by decide)
  · exact hNoCollision _ (by rw [ht]; rfl) _ (by rw [ht']; rfl) hCollision

end SealedGraph.Committer
