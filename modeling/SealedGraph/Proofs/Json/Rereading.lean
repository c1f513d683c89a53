import SealedGraph.Proofs.Json.Numbers

/-!
# Values with numbers that are read back

The text of a value says everything about it, but for the rounding of its
numbers.  What it is read as is the value with each of its numbers read again.
That is the value itself exactly if all of its numbers are read back.

## Main results

* `reread?_eq_self_iff`: a value is reread as itself if its numbers are.
* `readsBack_array`, `readsBack_object`: a container has the numbers of its
  contents.
* `ReadsBack.normalize`: the order of members does not matter.
* `reread?_drifting`: two numbers that are read as each other.
-/

namespace SealedGraph.Json

/-! ## Values read again -/

mutual
/-- The value with its numbers read again; none if one of them is read as
beyond every number. -/
def reread? : Json → Option Json
  | .null => some .null
  | .bool value => some (.bool value)
  | .number n => n.reread?.map .number
  | .string text => some (.string text)
  | .array items => (rereadItems? items).map .array
  | .object members => (rereadMembers? members).map .object

def rereadItems? : List Json → Option (List Json)
  | [] => some []
  | item :: rest => do
      let value ← reread? item
      let values ← rereadItems? rest
      some (value :: values)

def rereadMembers? : List (String × Json) → Option (List (String × Json))
  | [] => some []
  | (name, item) :: rest => do
      let value ← reread? item
      let values ← rereadMembers? rest
      some ((name, value) :: values)
end

mutual
/-- The numbers of a value, in the order of its text. -/
def numbers : Json → List Number
  | .null => []
  | .bool _ => []
  | .number n => [n]
  | .string _ => []
  | .array items => numbersOfItems items
  | .object members => numbersOfMembers members

def numbersOfItems : List Json → List Number
  | [] => []
  | item :: rest => numbers item ++ numbersOfItems rest

def numbersOfMembers : List (String × Json) → List Number
  | [] => []
  | (_, value) :: rest => numbers value ++ numbersOfMembers rest
end

/-- All numbers of a value are read back from their texts. -/
def ReadsBack (v : Json) : Prop := ∀ n ∈ v.numbers, n.reread? = some n

instance (v : Json) : Decidable v.ReadsBack :=
  inferInstanceAs (Decidable (∀ n ∈ v.numbers, n.reread? = some n))

/-! ## Values whose numbers are read back -/

theorem readsBack_null : ReadsBack .null := List.forall_mem_nil _

theorem readsBack_bool (value : Bool) : ReadsBack (.bool value) :=
  List.forall_mem_nil _

theorem readsBack_string (text : String) : ReadsBack (.string text) :=
  List.forall_mem_nil _

theorem readsBack_number {n : Number} :
    ReadsBack (.number n) ↔ n.reread? = some n :=
  List.forall_mem_singleton

theorem readsBack_integer (n : Integer) :
    ReadsBack (.number (.integer n)) :=
  readsBack_number.mpr (Number.reread?_integer n)

theorem readsBack_ofWord (n : UInt64) : ReadsBack (ofWord n) :=
  readsBack_integer _

theorem numbersOfItems_eq (items : List Json) :
    numbersOfItems items = items.flatMap numbers := by
  induction items with
  | nil => rfl
  | cons item rest ih => rw [numbersOfItems, ih, List.flatMap_cons]

theorem numbersOfMembers_eq (members : List (String × Json)) :
    numbersOfMembers members = members.flatMap fun member =>
      numbers member.2 := by
  induction members with
  | nil => rfl
  | cons member rest ih => rw [numbersOfMembers, ih, List.flatMap_cons]

theorem readsBack_array {items : List Json} :
    ReadsBack (.array items) ↔ ∀ item ∈ items, ReadsBack item := by
  rw [ReadsBack, numbers, numbersOfItems_eq, List.forall_mem_flatMap]
  rfl

theorem ReadsBack.perm {items others : List Json}
    (h : ReadsBack (.array items)) (hPerm : others.Perm items) :
    ReadsBack (.array others) :=
  readsBack_array.mpr fun item hItem =>
    readsBack_array.mp h item (hPerm.mem_iff.mp hItem)

theorem readsBack_object {members : List (String × Json)} :
    ReadsBack (.object members) ↔ ∀ member ∈ members, ReadsBack member.2 := by
  rw [ReadsBack, numbers, numbersOfMembers_eq, List.forall_mem_flatMap]
  rfl

mutual
/-- A value is reread as itself if its numbers are, and only then. -/
theorem reread?_eq_self_iff : ∀ {v : Json}, v.reread? = some v ↔ v.ReadsBack
  | .null => iff_of_true rfl readsBack_null
  | .bool value => iff_of_true rfl (readsBack_bool value)
  | .string text => iff_of_true rfl (readsBack_string text)
  | .number n => by simp [reread?, readsBack_number]
  | .array items => by
      rw [readsBack_array, ← rereadItems?_eq_self_iff]
      simp [reread?]
  | .object members => by
      rw [readsBack_object, ← rereadMembers?_eq_self_iff]
      simp [reread?]

theorem rereadItems?_eq_self_iff : ∀ {items : List Json},
    rereadItems? items = some items ↔ ∀ item ∈ items, ReadsBack item
  | [] => iff_of_true rfl nofun
  | item :: rest => by
      have hRest : rereadItems? rest = some rest ↔ _ := rereadItems?_eq_self_iff
      rw [List.forall_mem_cons, ← reread?_eq_self_iff, ← hRest, rereadItems?]
      simp [Option.bind_eq_some_iff]

theorem rereadMembers?_eq_self_iff : ∀ {members : List (String × Json)},
    rereadMembers? members = some members ↔
      ∀ member ∈ members, ReadsBack member.2
  | [] => iff_of_true rfl nofun
  | (_, value) :: rest => by
      have hRest : rereadMembers? rest = some rest ↔ _ :=
        rereadMembers?_eq_self_iff
      rw [List.forall_mem_cons, ← reread?_eq_self_iff, ← hRest, rereadMembers?]
      simp [Option.bind_eq_some_iff]
end

/-! ## Normal forms -/

mutual
/-- A normal form has no other numbers than the value. -/
theorem ReadsBack.normalize : ∀ {v : Json}, v.ReadsBack → v.normalize.ReadsBack
  | .null, h => h
  | .bool _, h => h
  | .number _, h => h
  | .string _, h => h
  | .array _, h =>
      readsBack_array.mpr (readsBack_normalizeItems (readsBack_array.mp h))
  | .object _, h =>
      readsBack_object.mpr fun member hMember =>
        readsBack_normalizeMembers (readsBack_object.mp h) member
          (Members.mem_ofList hMember)

theorem readsBack_normalizeItems : ∀ {items : List Json},
    (∀ item ∈ items, ReadsBack item) →
      ∀ item ∈ normalizeItems items, ReadsBack item
  | [], _ => nofun
  | _ :: _, h => by
      obtain ⟨hItem, hRest⟩ := List.forall_mem_cons.mp h
      exact List.forall_mem_cons.mpr
        ⟨hItem.normalize, readsBack_normalizeItems hRest⟩

theorem readsBack_normalizeMembers : ∀ {members : List (String × Json)},
    (∀ member ∈ members, ReadsBack member.2) →
      ∀ member ∈ normalizeMembers members, ReadsBack member.2
  | [], _ => nofun
  | (_, _) :: _, h => by
      obtain ⟨hValue, hRest⟩ := List.forall_mem_cons.mp h
      exact List.forall_mem_cons.mpr
        ⟨hValue.normalize, readsBack_normalizeMembers hRest⟩
end

/-! ## Numbers that are not read back -/

/-- The number written `1.2e+31`, or the next greater one, which is written
`1.2000000000000001e+31`. -/
def drifting (next : Bool) : Number :=
  .float ⟨false, 1126 * Binary64.binade + 825470890830255 + next.toNat,
    by cases next <;> decide⟩

set_option maxRecDepth 100000 in
/-- Each of the two is read as the other one. -/
theorem reread?_drifting (next : Bool) :
    (drifting next).reread? = some (drifting !next) := by
  cases next <;> decide +kernel

end SealedGraph.Json
