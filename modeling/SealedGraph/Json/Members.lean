/-!
# Ordered members

The members of a JSON object, and every other table keyed by names, are lists
of pairs in ascending order of their names.  Names are compared character by
character, by code point.

## Main results

* `ascending_ofList`: a table made from any pairs is in ascending order.
* `ofList_of_ascending`: pairs that are in order already stay as they are.
* `mem_ofList_iff`: pairs of different names are all kept.
* `eq_of_mem_iff`, `eq_of_lookup_eq`: tables with the same members are equal.
* `ofList_of_perm`: pairs become the table to which they can be put in order.
-/

namespace SealedGraph

/-- Named values. -/
abbrev Members (α : Type) := List (String × α)

namespace Members

variable {α : Type}

/-- The names are in strictly ascending order, so that no name stands twice. -/
def Ascending (ms : Members α) : Prop := ms.Pairwise fun a b => a.1 < b.1

/-- Puts a value under a name, in place of a value that is already there. -/
def insert (name : String) (value : α) : Members α → Members α
  | [] => [(name, value)]
  | (other, found) :: rest =>
      if name < other then (name, value) :: (other, found) :: rest
      else if name = other then (name, value) :: rest
      else (other, found) :: insert name value rest

/-- Puts a value under a name unless there is one already. -/
def insertNew (name : String) (value : α) : Members α → Members α
  | [] => [(name, value)]
  | (other, found) :: rest =>
      if name < other then (name, value) :: (other, found) :: rest
      else if name = other then (other, found) :: rest
      else (other, found) :: insertNew name value rest

/-- The table of a list of pairs; of several pairs with one name, the last
counts. -/
def ofList (pairs : List (String × α)) : Members α :=
  pairs.foldr (fun pair ms => insertNew pair.1 pair.2 ms) []

/-! ## Order -/

theorem mem_insertNew {name : String} {value : α} {pair : String × α} :
    ∀ {ms : Members α}, pair ∈ insertNew name value ms →
    pair = (name, value) ∨ pair ∈ ms
  | [], h => by simpa [insertNew] using h
  | (other, found) :: rest, h => by
      unfold insertNew at h
      split at h
      · simpa using h
      · split at h
        · exact .inr h
        · rcases List.mem_cons.mp h with h | h
          · exact .inr (by simp [h])
          · rcases mem_insertNew h with h | h
            · exact .inl h
            · exact .inr (by simp [h])

theorem ascending_insertNew (name : String) (value : α) :
    ∀ {ms : Members α}, Ascending ms → Ascending (insertNew name value ms)
  | [], _ => by simp [insertNew, Ascending]
  | (other, found) :: rest, hAscending => by
      obtain ⟨hHead, hRest⟩ := List.pairwise_cons.mp hAscending
      unfold insertNew
      split
      · next hLt =>
        refine List.pairwise_cons.mpr ⟨fun pair hPair => ?_, hAscending⟩
        rcases List.mem_cons.mp hPair with rfl | hPair
        · exact hLt
        · exact String.lt_trans hLt (hHead pair hPair)
      · split
        · exact hAscending
        · next hNotLt hNe =>
          have hGt : other < name := Decidable.byContradiction fun hNotGt =>
            hNe (String.le_antisymm (String.not_lt.mp hNotGt)
              (String.not_lt.mp hNotLt))
          refine List.pairwise_cons.mpr ⟨fun pair hPair => ?_,
            ascending_insertNew name value hRest⟩
          rcases mem_insertNew hPair with rfl | hPair
          · exact hGt
          · exact hHead pair hPair

theorem mem_ofList {pair : String × α} {pairs : List (String × α)}
    (h : pair ∈ ofList pairs) :
    pair ∈ pairs := by
  induction pairs with
  | nil => exact h
  | cons first rest ih =>
      rcases mem_insertNew h with rfl | h
      · exact List.mem_cons_self ..
      · exact List.mem_cons_of_mem _ (ih h)

theorem ascending_ofList (pairs : List (String × α)) :
    Ascending (ofList pairs) := by
  induction pairs with
  | nil => exact List.Pairwise.nil
  | cons pair rest ih => exact ascending_insertNew pair.1 pair.2 ih

private theorem insertNew_before {name : String} {value : α} {ms : Members α}
    (hBefore : ∀ pair ∈ ms, name < pair.1) :
    insertNew name value ms = (name, value) :: ms := by
  cases ms with
  | nil => rfl
  | cons pair rest =>
      obtain ⟨other, found⟩ := pair
      have hLt : name < other := hBefore (other, found) (by simp)
      simp [insertNew, hLt]

theorem ofList_of_ascending {ms : Members α} (hAscending : Ascending ms) :
    ofList ms = ms := by
  induction ms with
  | nil => rfl
  | cons pair rest ih =>
      obtain ⟨hHead, hRest⟩ := List.pairwise_cons.mp hAscending
      have hStep :
          ofList (pair :: rest) = insertNew pair.1 pair.2 (ofList rest) := rfl
      rw [hStep, ih hRest, insertNew_before hHead]

theorem ascending_filter {ms : Members α} (p : String × α → Bool)
    (hAscending : Ascending ms) :
    Ascending (ms.filter p) :=
  List.Pairwise.sublist List.filter_sublist hAscending

theorem nodup_names {ms : Members α} (hAscending : Ascending ms) :
    (ms.map (·.1)).Nodup := by
  refine List.pairwise_map.mpr (hAscending.imp ?_)
  intro a b hLt hEq
  rw [hEq] at hLt
  exact String.lt_irrefl _ hLt

theorem nodup_of_ascending {ms : Members α} (hAscending : Ascending ms) :
    ms.Nodup := by
  refine hAscending.imp ?_
  rintro a _ hLt rfl
  exact String.lt_irrefl _ hLt

theorem ofList_append_ofList (pairs others : List (String × α)) :
    ofList (pairs ++ ofList others) = ofList (pairs ++ others) := by
  have hAppend : ∀ rest : List (String × α),
      ofList (pairs ++ rest) =
        pairs.foldr (fun pair ms => insertNew pair.1 pair.2 ms) (ofList rest) :=
    fun rest => List.foldr_append
  rw [hAppend, hAppend, ofList_of_ascending (ascending_ofList others)]

/-! ## Look-up -/

theorem mem_of_lookup {name : String} {value : α} {ms : Members α}
    (h : ms.lookup name = some value) : (name, value) ∈ ms := by
  induction ms with
  | nil => cases h
  | cons pair rest ih =>
      obtain ⟨other, found⟩ := pair
      by_cases hName : name = other
      · subst hName
        rw [List.lookup_cons_self] at h
        rw [Option.some.inj h]
        exact List.mem_cons_self ..
      · rw [List.lookup_cons, beq_false_of_ne hName] at h
        exact List.mem_cons_of_mem _ (ih h)

theorem lookup_of_mem {name : String} {value : α} {ms : Members α}
    (hAscending : Ascending ms) (h : (name, value) ∈ ms) :
    ms.lookup name = some value := by
  induction ms with
  | nil => cases h
  | cons pair rest ih =>
      obtain ⟨hHead, hRest⟩ := List.pairwise_cons.mp hAscending
      rcases List.mem_cons.mp h with rfl | h
      · exact List.lookup_cons_self
      · have hNe : name ≠ pair.1 := fun hName =>
          absurd (hHead (name, value) h) (hName ▸ String.lt_irrefl pair.1)
        rw [List.lookup_cons, beq_false_of_ne hNe]
        exact ih hRest h

theorem lookup_eq_some_iff {name : String} {value : α} {ms : Members α}
    (hAscending : Ascending ms) :
    ms.lookup name = some value ↔ (name, value) ∈ ms :=
  ⟨mem_of_lookup, lookup_of_mem hAscending⟩

/-- What is found under a name depends on the members of that name only. -/
theorem lookup_congr {name : String} {ms ns : Members α} (hm : Ascending ms)
    (hn : Ascending ns)
    (hMem : ∀ value, (name, value) ∈ ms ↔ (name, value) ∈ ns) :
    ms.lookup name = ns.lookup name := by
  refine Option.ext fun value => ?_
  rw [lookup_eq_some_iff hm, lookup_eq_some_iff hn]
  exact hMem value

/-- Leaving out members of other names does not change what is found. -/
theorem lookup_filter {name : String} {p : String × α → Bool}
    (hp : ∀ value, p (name, value) = true) (ms : Members α) :
    List.lookup name (ms.filter p) = ms.lookup name := by
  induction ms with
  | nil => rfl
  | cons pair rest ih =>
      obtain ⟨other, found⟩ := pair
      by_cases hName : name = other
      · subst hName
        rw [List.filter_cons_of_pos (hp found), List.lookup_cons_self,
          List.lookup_cons_self]
      · rw [List.lookup_cons, beq_false_of_ne hName, ← ih, List.filter_cons]
        split
        · rw [List.lookup_cons, beq_false_of_ne hName]
        · rfl

/-! ## Tables of pairs with different names -/

private theorem mem_insertNew_of_mem {name : String} {value : α}
    {pair : String × α} :
    ∀ {ms : Members α}, pair ∈ ms → pair ∈ insertNew name value ms
  | (other, found) :: rest, h => by
      unfold insertNew
      split
      · exact List.mem_cons_of_mem _ h
      · split
        · exact h
        · rcases List.mem_cons.mp h with rfl | h
          · exact List.mem_cons_self ..
          · exact List.mem_cons_of_mem _ (mem_insertNew_of_mem h)

/-- Only a value that is there already keeps a new one out. -/
private theorem mem_insertNew_self {name : String} {value : α} :
    ∀ {ms : Members α}, name ∉ ms.map (·.1) →
    (name, value) ∈ insertNew name value ms
  | [], _ => List.mem_cons_self ..
  | (other, found) :: rest, hNew => by
      have hNe : name ≠ other := fun h => hNew (h ▸ List.mem_cons_self ..)
      have hRest : name ∉ rest.map (·.1) :=
        fun h => hNew (List.mem_cons_of_mem _ h)
      unfold insertNew
      split
      · exact List.mem_cons_self ..
      · exact List.mem_cons_of_mem _ (mem_insertNew_self hRest)

/-- No name is lost. -/
theorem mem_names_ofList {name : String} {pairs : List (String × α)} :
    name ∈ (ofList pairs).map (·.1) ↔ name ∈ pairs.map (·.1) := by
  constructor
  · intro h
    obtain ⟨pair, hPair, rfl⟩ := List.mem_map.mp h
    exact List.mem_map_of_mem (mem_ofList hPair)
  · intro h
    induction pairs with
    | nil => exact h
    | cons pair rest ih =>
        have hStep :
            ofList (pair :: rest) = insertNew pair.1 pair.2 (ofList rest) := rfl
        rw [hStep]
        by_cases hThere : name ∈ (ofList rest).map (·.1)
        · obtain ⟨found, hFound, hName⟩ := List.mem_map.mp hThere
          exact List.mem_map.mpr ⟨found, mem_insertNew_of_mem hFound, hName⟩
        · rcases List.mem_cons.mp h with rfl | h
          · exact List.mem_map.mpr ⟨pair, mem_insertNew_self hThere, rfl⟩
          · exact absurd (ih h) hThere

theorem mem_ofList_iff {pair : String × α} {pairs : List (String × α)}
    (hDistinct : (pairs.map (·.1)).Nodup) :
    pair ∈ ofList pairs ↔ pair ∈ pairs := by
  refine ⟨mem_ofList, fun h => ?_⟩
  induction pairs with
  | nil => exact h
  | cons first rest ih =>
      obtain ⟨hFirst, hRest⟩ := List.nodup_cons.mp hDistinct
      have hStep :
          ofList (first :: rest) = insertNew first.1 first.2 (ofList rest) :=
        rfl
      rw [hStep]
      rcases List.mem_cons.mp h with rfl | h
      · exact mem_insertNew_self fun hThere =>
          hFirst (mem_names_ofList.mp hThere)
      · exact mem_insertNew_of_mem (ih hRest h)

/-! ## Equality of tables -/

theorem eq_of_mem_iff {ms ns : Members α} (hm : Ascending ms)
    (hn : Ascending ns) (hMem : ∀ pair, pair ∈ ms ↔ pair ∈ ns) : ms = ns := by
  have hPerm : ms.Perm ns :=
    (List.perm_ext_iff_of_nodup (nodup_of_ascending hm)
      (nodup_of_ascending hn)).mpr hMem
  exact hPerm.eq_of_pairwise
    (fun a b _ _ hab hba =>
      absurd (String.lt_trans hab hba) (String.lt_irrefl a.1)) hm hn

/-- Tables in which the same is found are equal. -/
theorem eq_of_lookup_eq {ms ns : Members α} (hm : Ascending ms)
    (hn : Ascending ns) (hLookup : ∀ name, ms.lookup name = ns.lookup name) :
    ms = ns := by
  refine eq_of_mem_iff hm hn fun pair => ?_
  rw [← lookup_eq_some_iff hm, ← lookup_eq_some_iff hn, hLookup]

/-- The order of a table is that of its names. -/
theorem ascending_iff_names {ms : Members α} :
    Ascending ms ↔ (ms.map (·.1)).Pairwise (· < ·) :=
  List.pairwise_map.symm

/-- Pairs become the table to which they can be put in order. -/
theorem ofList_of_perm {pairs ms : Members α} (hPerm : pairs.Perm ms)
    (hAscending : Ascending ms) :
    ofList pairs = ms := by
  have hDistinct : (pairs.map (·.1)).Nodup :=
    (hPerm.map (·.1)).nodup_iff.mpr (nodup_names hAscending)
  refine eq_of_mem_iff (ascending_ofList pairs) hAscending fun pair => ?_
  rw [mem_ofList_iff hDistinct, hPerm.mem_iff]

end Members
end SealedGraph
