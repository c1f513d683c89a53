import SealedGraph.Proofs.Json.Records

/-!
# What writing amends

A value that is read and written again comes out as it was, except where the
record says otherwise: a default that was left out is added, a member that
stands for none is dropped, and the parts of a member are amended in turn.

A table of rules says what an object becomes.  It names the members that may
change, and what each becomes depends on what was given for it.  All other
members stay as they are.  A record is written by the rules if each of its
fields is, a field that no rule names being written as it was read.

## Main results

* `lookup_amendMembers`: the rules say what is found under each name.
* `amends_listOf?`, `amends_tableOf?`: what becomes of lists and tables.
* `kept_optional`, `kept_required`, `kept_defaulted`: how fields are written.
* `ofNullKeeping_eq_amend`, `ofOpen_eq_amend`: how records are.
-/

namespace SealedGraph.Json

/-! ## Rules -/

/-- What becomes of a member, from its value, if there is one. -/
abbrev Rule := Option Json → Option Json

/-- A value that was given is changed. -/
def changed (f : Json → Json) : Rule := Option.map f

/-- A default takes the place of a value that was not given; either is
changed. -/
def added (default : Json) (f : Json → Json) : Rule :=
  fun given => some (f (given.getD default))

/-- A value that stands for none is taken away. -/
def dropped (blank : Json → Bool) : Rule := Option.filter fun v => !blank v

/-- The rule for a name; a member without a rule stays as it is. -/
def ruleOf (rules : List (String × Rule)) (name : String) : Rule :=
  (rules.lookup name).getD id

theorem ruleOf_of_mem {rules : List (String × Rule)}
    (hRules : (rules.map (·.1)).Nodup) {rule : String × Rule}
    (h : rule ∈ rules) : ruleOf rules rule.1 = rule.2 := by
  unfold ruleOf
  cases hFound : rules.lookup rule.1 with
  | some found =>
      have hSame :=
        List.inj_on_of_nodup_map hRules (Members.mem_of_lookup hFound) h rfl
      exact congrArg Prod.snd hSame
  | none =>
      exact absurd rfl
        (bne_iff_ne.mp (List.lookup_eq_none_iff.mp hFound rule h))

theorem ruleOf_of_notMem {rules : List (String × Rule)} {name : String}
    (h : name ∉ rules.map (·.1)) :
    ruleOf rules name = id := by
  have hNone : rules.lookup name = none := by
    refine List.lookup_eq_none_iff.mpr fun rule hRule =>
      bne_iff_ne.mpr fun hName => h ?_
    exact hName ▸ List.mem_map_of_mem hRule
  rw [ruleOf, hNone]
  rfl

/-- The members that the rules make of given ones. -/
def amendMembers (rules : List (String × Rule)) (members : Members Json) :
    Members Json :=
  Members.ofList
    (present (rules.map fun rule => (rule.1, rule.2 (members.lookup rule.1))) ++
      others (rules.map (·.1)) members)

/-- The object that the rules make of an object. -/
def amend (rules : List (String × Rule)) : Json → Json
  | .object members => .object (amendMembers rules members)
  | v => v

/-- Changes every item of an array. -/
def inItems (f : Json → Json) : Json → Json
  | .array items => .array (items.map f)
  | v => v

/-- Changes every member's value of an object. -/
def inValues (f : Json → Json) : Json → Json
  | .object members =>
      .object (members.map fun member => (member.1, f member.2))
  | v => v

theorem changed_id : changed id = id := Option.map_id

theorem inItems_id : inItems id = id := by
  funext v
  cases v with
  | array items => exact congrArg array (List.map_id items)
  | _ => rfl

theorem amend_eq_null {rules : List (String × Rule)} {v : Json} :
    amend rules v = .null ↔ v = .null := by
  cases v <;> simp [amend]

theorem inItems_eq_null {f : Json → Json} {v : Json} :
    inItems f v = .null ↔ v = .null := by
  cases v <;> simp [inItems]

theorem inValues_eq_null {f : Json → Json} {v : Json} :
    inValues f v = .null ↔ v = .null := by
  cases v <;> simp [inValues]

/-! ## Amended members -/

section Members

variable {rules : List (String × Rule)} {members : Members Json}

theorem recorded_rules (hRules : (rules.map (·.1)).Nodup)
    (hAscending : members.Ascending) :
    Recorded (rules.map (·.1)) [] (rules.map fun rule =>
      (rule.1, rule.2 (members.lookup rule.1)))
      (others (rules.map (·.1)) members) := by
  rw [others_eq_othersAndNulls]
  refine recorded_beside ?_ ?_ (fun _ _ h => absurd h List.not_mem_nil)
    hAscending
  · rw [List.map_map]
    exact hRules
  · intro field hField
    obtain ⟨rule, hRule, rfl⟩ := List.mem_map.mp hField
    exact List.mem_map_of_mem hRule

/-- Under each name is found what its rule makes of what was found there. -/
theorem lookup_amendMembers (hRules : (rules.map (·.1)).Nodup)
    (hAscending : members.Ascending) (name : String) :
    (amendMembers rules members).lookup name =
      ruleOf rules name (members.lookup name) := by
  have hRecorded := recorded_rules hRules hAscending
  -- No null is kept beside what the rules make, so none is shadowed.
  have hWritten : amendMembers rules members = written
      (rules.map fun rule => (rule.1, rule.2 (members.lookup rule.1)))
      (others (rules.map (·.1)) members) := by
    rw [written, hRecorded.unshadowed_eq_self]
    rfl
  rw [hWritten]
  by_cases hName : name ∈ rules.map (·.1)
  · obtain ⟨rule, hRule, rfl⟩ := List.mem_map.mp hName
    rw [hRecorded.lookup_written (List.mem_map_of_mem hRule),
      lookup_others_of_mem hName, Option.or_none, ruleOf_of_mem hRules hRule]
  · rw [hRecorded.lookup_written_of_free, lookup_others _ hName,
      ruleOf_of_notMem hName]
    · rfl
    · intro v hField
      obtain ⟨rule, hRule, hSame⟩ := List.mem_map.mp hField
      exact hName (List.mem_map.mpr ⟨rule, hRule, (Prod.mk.inj hSame).1⟩)

end Members

/-! ## Readers and writers -/

/-- What is read of a value in normal form is written as `f` of the value. -/
structure Amends {α : Type} (read : Json → Option α) (write : α → Json)
    (f : Json → Json) : Prop where
  write_eq : ∀ {v x}, v.normalize = v → read v = some x → write x = f v
  eq_null : ∀ {v}, f v = .null ↔ v = .null

section Amends

variable {α : Type} {read : Json → Option α} {write : α → Json}
  {f : Json → Json}

/-- A view of one kind of values is written as it was read. -/
theorem amends_of_inverse (h : ∀ {v x}, read v = some x → write x = v) :
    Amends read write id :=
  ⟨fun _ hRead => h hRead, Iff.rfl⟩

theorem amends_some : Amends some id id :=
  amends_of_inverse fun h => (Option.some.inj h).symm

theorem amends_string? : Amends string? .string id :=
  amends_of_inverse string_of_string?

theorem amends_array? : Amends array? .array id :=
  amends_of_inverse array_of_array?

theorem amends_members? : Amends members? .object id :=
  amends_of_inverse object_of_members?

/-- What is written for things that were read one by one. -/
theorem map_eq_of_mapM {β γ : Type} {get : β → Option α} {put : α → γ}
    {make : β → γ} {xs : List β} {ys : List α}
    (h : ∀ x ∈ xs, ∀ y, get x = some y → put y = make x)
    (hRead : xs.mapM get = some ys) : ys.map put = xs.map make := by
  induction xs generalizing ys with
  | nil =>
      cases hRead
      rfl
  | cons x xs ih =>
      simp only [List.mapM_cons, Option.bind_eq_bind, Option.bind_eq_some_iff]
        at hRead
      obtain ⟨y, hy, rest, hRest, hSame⟩ := hRead
      cases hSame
      obtain ⟨hFirst, hOthers⟩ := List.forall_mem_cons.mp h
      rw [List.map_cons, List.map_cons, hFirst y hy, ih hOthers hRest]

theorem amends_listOf? (h : Amends read write f) :
    Amends (listOf? read) (fun xs => .array (xs.map write)) (inItems f) := by
  constructor
  · intro v xs hNormal hRead
    obtain ⟨items, hItems, hxs⟩ := Option.bind_eq_some_iff.mp hRead
    cases array_of_array? hItems
    rw [normalize, array.injEq, normalizeItems_eq_self] at hNormal
    apply congrArg array
    exact map_eq_of_mapM
      (fun item hItem _ => h.write_eq (hNormal item hItem)) hxs
  · exact inItems_eq_null

theorem amends_tableOf? (h : Amends read write f) :
    Amends (tableOf? read)
      (fun xs => .object (xs.map fun x => (x.1, write x.2))) (inValues f) := by
  constructor
  · intro v xs hNormal hRead
    obtain ⟨members, hMembers, hxs⟩ := Option.bind_eq_some_iff.mp hRead
    cases object_of_members? hMembers
    have hValues := (normalize_object_eq_self.mp hNormal).2
    apply congrArg object
    refine map_eq_of_mapM (fun member hMember x hx => ?_) hxs
    obtain ⟨y, hy, rfl⟩ := Option.map_eq_some_iff.mp hx
    exact congrArg (Prod.mk member.1) (h.write_eq (hValues member hMember) hy)
  · exact inValues_eq_null

end Amends

/-! ## Fields -/

/-- A field that is written as a rule says, with the null that is parked in its
place, if any. -/
structure Kept (names nullable : List String) (members : Members Json)
    (rule : Rule) (field : String × Option Json) : Prop where
  told : field.2.or ((othersAndNulls names nullable members).lookup field.1) =
    rule (members.lookup field.1)
  filled : field.1 ∈ nullable → field.2 ≠ some .null

section Fields

variable {names nullable : List String} {members : Members Json} {name : String}
  {α : Type} {read : Json → Option α} {write : α → Json} {f : Json → Json}

/-- A value that is always written, under a name of which no null is kept. -/
theorem kept_some {rule : Rule} {v : Json} (hName : name ∉ nullable)
    (hRule : rule (members.lookup name) = some v) :
    Kept names nullable members rule (name, some v) :=
  ⟨hRule.symm, fun h => absurd h hName⟩

/-- Nothing but a null is found in the place of a field that was not given. -/
theorem lookup_of_optional_none (h : optional members name read = some none) :
    members.lookup name = none ∨ members.lookup name = some .null := by
  unfold optional at h
  split at h
  · next hNone => exact .inl hNone
  · next hNull => exact .inr hNull
  · next v _ _ =>
    obtain ⟨_, _, hSame⟩ := Option.map_eq_some_iff.mp h
    cases hSame

variable (hNormal : (object members).normalize = object members)

include hNormal

/-- A null that was given for an optional field is kept. -/
theorem lookup_parked (hName : name ∈ nullable)
    (h : members.lookup name = none ∨ members.lookup name = some .null) :
    (othersAndNulls names nullable members).lookup name =
      members.lookup name := by
  have hAscending := (normalize_object_eq_self.mp hNormal).1
  refine Members.lookup_congr (Members.ascending_filter _ hAscending) hAscending
    fun v => ?_
  rw [← Members.lookup_eq_some_iff hAscending, mem_othersAndNulls,
    ← Members.lookup_eq_some_iff hAscending]
  refine ⟨And.left, fun hLookup => ⟨hLookup, fun _ => ⟨hName, ?_⟩⟩⟩
  rcases h with h | h
  · rw [h] at hLookup
    cases hLookup
  · rw [h] at hLookup
    exact (Option.some.inj hLookup).symm

/-- Any other value that was given is not. -/
theorem lookup_unparked (hName : name ∈ names) {v : Json}
    (hLookup : members.lookup name = some v) (hv : v ≠ .null) :
    (othersAndNulls names nullable members).lookup name = none := by
  cases hParked : (othersAndNulls names nullable members).lookup name with
  | none => rfl
  | some u =>
      obtain ⟨hThere, hApart⟩ :=
        mem_othersAndNulls.mp (Members.mem_of_lookup hParked)
      have hSame :=
        Members.lookup_of_mem (normalize_object_eq_self.mp hNormal).1 hThere
      rw [hLookup] at hSame
      exact absurd ((Option.some.inj hSame).trans (hApart hName).2) hv

theorem normalize_of_lookup {v : Json} (h : members.lookup name = some v) :
    v.normalize = v :=
  (normalize_object_eq_self.mp hNormal).2 _ (Members.mem_of_lookup h)

/-- A field that was not given stays out by a rule that makes nothing of
nothing. -/
theorem kept_none {rule : Rule} (hName : name ∈ nullable)
    (hRead : optional members name read = some none) (hNone : rule none = none)
    (hNull : rule (some .null) = some .null) :
    Kept names nullable members rule (name, none) := by
  have hLookup := lookup_of_optional_none hRead
  refine ⟨(lookup_parked hNormal hName hLookup).trans ?_, fun _ => nofun⟩
  rcases hLookup with hGiven | hGiven
  · rw [hGiven, hNone]
  · rw [hGiven, hNull]

/-- A field that may be left out is changed if it was given; a null stays a
null. -/
theorem kept_optional (h : Amends read write f) (hName : name ∈ nullable)
    {x : Option α} (hRead : optional members name read = some x) :
    Kept names nullable members (changed f) (name, x.map write) := by
  cases x with
  | none =>
      have hNull : changed f (some .null) = some .null :=
        congrArg some (h.eq_null.mpr rfl)
      exact kept_none hNormal hName hRead rfl hNull
  | some x =>
      obtain ⟨v, hLookup, hv, hx⟩ := exists_of_optional hRead
      have hWritten := h.write_eq (normalize_of_lookup hNormal hLookup) hx
      constructor
      · show some (write x) = (members.lookup name).map f
        rw [hLookup, hWritten]
        rfl
      · intro _ hNull
        rw [Option.map_some, hWritten] at hNull
        exact hv (h.eq_null.mp (Option.some.inj hNull))

/-- The same for a field that is written as it was read. -/
theorem kept_optional_same (h : Amends read write id) (hName : name ∈ nullable)
    {x : Option α} (hRead : optional members name read = some x) :
    Kept names nullable members id (name, x.map write) := by
  rw [← changed_id]
  exact kept_optional hNormal h hName hRead

/-- The same for a field that holds any value. -/
theorem kept_value (hName : name ∈ nullable) {x : Option Json}
    (hRead : optional members name some = some x) :
    Kept names nullable members id (name, x) := by
  have hKept : Kept names nullable members id (name, x.map id) :=
    kept_optional_same hNormal amends_some hName hRead
  rw [Option.map_id] at hKept
  exact hKept

/-- A field that must be there is written as it was read. -/
theorem kept_required (h : Amends read write id) (hName : name ∉ nullable)
    {x : α} (hRead : required members name read = some x) :
    Kept names nullable members id (name, some (write x)) := by
  obtain ⟨v, hLookup, hx⟩ := Option.bind_eq_some_iff.mp hRead
  apply kept_some hName
  rw [hLookup, h.write_eq (normalize_of_lookup hNormal hLookup) hx]
  rfl

/-- A field that has a default is added if it was left out. -/
theorem kept_defaulted (h : Amends read write f) (hName : name ∉ nullable)
    {v : Json} {default x : α} (hDefault : v.normalize = v)
    (hReadDefault : read v = some default)
    (hRead : defaulted members name read default = some x) :
    Kept names nullable members (added v f) (name, some (write x)) := by
  apply kept_some hName
  unfold defaulted at hRead
  split at hRead
  · next hNone =>
    cases hRead
    rw [hNone, h.write_eq hDefault hReadDefault]
    rfl
  · next given hLookup =>
    rw [hLookup, h.write_eq (normalize_of_lookup hNormal hLookup) hRead]
    rfl

end Fields

/-! ## Records -/

section Records

variable {fields : List (String × Option Json)} {names nullable : List String}
  {members extra : Members Json} {rules : List (String × Rule)}

/-- Members that belong to the fields that they were read as. -/
theorem recorded_of_kept (hOrder : (fields.map (·.1)).Perm names)
    (hDistinct : names.Nodup)
    (hNormal : (object members).normalize = object members)
    (hKept :
      ∀ field ∈ fields,
        Kept names nullable members (ruleOf rules field.1) field)
    (hExtra : othersAndNulls names nullable members = extra) :
    Recorded names nullable fields extra := by
  subst hExtra
  refine recorded_beside (hOrder.nodup_iff.mpr hDistinct) ?_
    (fun field hField => (hKept field hField).filled)
      (normalize_object_eq_self.mp hNormal).1
  intro field hField
  exact hOrder.mem_iff.mp (List.mem_map_of_mem hField)

/-- A record that keeps nulls is written by the rules by which its fields
are. -/
theorem ofNullKeeping_eq_amend (order : List String)
    (hOrder : fields.map (·.1) = order) (hPerm : order.Perm names)
    (hDistinct : names.Nodup) (hRules : (rules.map (·.1)).Nodup)
    (hNamed : ∀ name ∈ rules.map (·.1), name ∈ names)
    (hNormal : (object members).normalize = object members)
    (hKept :
      ∀ field ∈ fields,
        Kept names nullable members (ruleOf rules field.1) field)
    (hExtra : othersAndNulls names nullable members = extra) :
    ofNullKeeping fields extra = amend rules (.object members) := by
  have hNames : (fields.map (·.1)).Perm names := hOrder ▸ hPerm
  have hRecorded := recorded_of_kept hNames hDistinct hNormal hKept hExtra
  have hAscending := (normalize_object_eq_self.mp hNormal).1
  apply congrArg object
  apply Members.eq_of_lookup_eq (Members.ascending_ofList _)
    (Members.ascending_ofList _)
  intro name
  show (written fields extra).lookup name =
      (amendMembers rules members).lookup name
  rw [lookup_amendMembers hRules hAscending]
  -- What is found is told by a field, or stands in a member that no rule and no
  -- field takes up.
  by_cases hName : name ∈ fields.map (·.1)
  · obtain ⟨field, hField, rfl⟩ := List.mem_map.mp hName
    rw [hRecorded.lookup_written hField, ← hExtra]
    exact (hKept field hField).told
  · have hOther : name ∉ names := fun h => hName (hNames.mem_iff.mpr h)
    rw [hRecorded.lookup_written_of_free fun v h =>
      hName (List.mem_map_of_mem h), ← hExtra, lookup_othersAndNulls hOther,
      ruleOf_of_notMem fun h => hOther (hNamed name h)]
    rfl

/-- So is a record that keeps other members but no nulls. -/
theorem ofOpen_eq_amend (names : List String)
    (hOrder : fields.map (·.1) = names) (hDistinct : names.Nodup)
    (hRules : (rules.map (·.1)).Nodup)
    (hNamed : ∀ name ∈ rules.map (·.1), name ∈ names)
    (hNormal : (object members).normalize = object members)
    (hKept :
      ∀ field ∈ fields, Kept names [] members (ruleOf rules field.1) field)
    (hExtra : others names members = extra) :
    ofOpen fields extra = amend rules (.object members) := by
  rw [others_eq_othersAndNulls] at hExtra
  have hRecorded :=
    recorded_of_kept (hOrder ▸ .refl _) hDistinct hNormal hKept hExtra
  rw [← ofNullKeeping_eq_amend names hOrder (.refl _)
    hDistinct hRules hNamed hNormal hKept hExtra,
    ofNullKeeping, hRecorded.unshadowed_eq_self]

/-- Without rules an object stays as it is. -/
theorem amend_nil (hNormal : (object members).normalize = object members) :
    amend [] (.object members) = .object members := by
  have hAscending := (normalize_object_eq_self.mp hNormal).1
  apply congrArg object
  apply Members.eq_of_lookup_eq (Members.ascending_ofList _) hAscending
  exact lookup_amendMembers List.nodup_nil hAscending

end Records
end SealedGraph.Json
