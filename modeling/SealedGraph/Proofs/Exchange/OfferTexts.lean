import SealedGraph.Exchange.Offer
import SealedGraph.Proofs.Account.HexTexts
import SealedGraph.Proofs.Json.Layouts

/-!
# Texts of offers and commitments

A commitment is written with its key and read as an offer, which passes over
the key.  Without the member of the key it is the offer.

## Main results

* `Offer.ofJson?_of_lookup`: an offer is read from its members, whatever stands
  beside them.
* `Commitment.json_without_key`: without its key a commitment is its offer.
* `Commitment.readFrom_json`, `Commitment.readFrom_json_without_key`: a
  commitment is read as its offer, with its key or without.
* `Commitment.length_encoded_le`: how many masked nodes a text can hold.
-/

namespace SealedGraph

theorem Word.length_text (word : Word) : word.text.length = 66 := by
  have hMarker : "0x".length = 2 := rfl
  have hHex : word.toHex.length = 64 := by
    rw [toHex, Hex.encode, String.length_ofList, Hex.length_digits,
      word.length_bytes]
  rw [text, String.length_append, hMarker, hHex]

namespace Json

theorem word?_ofWord (n : UInt64) : word? (ofWord n) = some n := by
  have hPos : 0 ≤ (Integer.ofWord n).value := Int.natCast_nonneg n.toNat
  rw [word?, ofWord, nat?, if_pos hPos, Option.map_some]
  exact congrArg some UInt64.ofNat_toNat

theorem listOf?_map {α : Type} {read : Json → Option α} {write : α → Json}
    (hRead : ∀ x, read (write x) = some x) (xs : List α) :
    listOf? read (.array (xs.map write)) = some xs := by
  have hSame : read ∘ write = fun x => pure (id x) := funext hRead
  rw [listOf?, array?, Option.bind_some, List.mapM_map, hSame, List.mapM_pure,
    List.map_id]
  rfl

/-- A value without a member. -/
def without (name : String) : Json → Json
  | .object members =>
      .object (members.filter fun member => !(member.1 == name))
  | v => v

theorem Tidy.without {room : Nat} {v : Json} (h : Tidy room v) (name : String) :
    Tidy room (v.without name) := by
  cases v with
  | object members =>
      obtain ⟨inner, rfl⟩ := h.exists_room_object
      obtain ⟨hAscending, hMembers⟩ := tidy_object.mp h
      exact tidy_object.mpr ⟨Members.ascending_filter _ hAscending,
        fun member hMember =>
        hMembers member (List.mem_filter.mp hMember).1⟩
  | _ => exact h

theorem ReadsBack.without {v : Json} (h : v.ReadsBack) (name : String) :
    (v.without name).ReadsBack := by
  cases v with
  | object members =>
      exact readsBack_object.mpr fun member hMember =>
        readsBack_object.mp h member (List.mem_filter.mp hMember).1
  | _ => exact h

end Json

namespace Offer

/-- The members of an offer. -/
def parts (o : Offer) : List (String × Json) :=
  [("private_data_original_length", Json.ofWord o.length),
    ("private_data_array_length", Json.ofWord o.count),
    ("encoded_data", wordsJson o.encoded),
    ("private_data_root_hash", o.privateRoot.json),
    ("encoded_data_root_hash", o.encodedRoot.json)]

theorem names_parts (o : Offer) : o.parts.map (·.1) = fields.map (·.1) := rfl

theorem nodup_parts (o : Offer) : (o.parts.map (·.1)).Nodup := by
  rw [names_parts]
  decide

theorem json_eq (o : Offer) : o.json = .object (Members.ofList o.parts) := rfl

theorem shape_eq : shape = .closed (Json.plainFields (fields.map (·.1))) := rfl

/-- An offer is read from its members; others may stand beside them. -/
theorem ofJson?_of_lookup {o : Offer} {members : Members Json}
    (h : ∀ part ∈ o.parts, members.lookup part.1 = some part.2) :
    ofJson? (.object members) = some o := by
  have hLength :=
    h ("private_data_original_length", Json.ofWord o.length) (by simp [parts])
  have hCount :=
    h ("private_data_array_length", Json.ofWord o.count) (by simp [parts])
  have hEncoded := h ("encoded_data", wordsJson o.encoded) (by simp [parts])
  have hPrivate :=
    h ("private_data_root_hash", o.privateRoot.json) (by simp [parts])
  have hRoot :=
    h ("encoded_data_root_hash", o.encodedRoot.json) (by simp [parts])
  have hWords :
      Json.listOf? Word.ofJson? (wordsJson o.encoded) = some o.encoded :=
    Json.listOf?_map Word.ofJson?_json o.encoded
  simp only [ofJson?, Json.closed?, Json.required, hLength, hCount, hEncoded,
    hPrivate, hRoot, Json.word?_ofWord, hWords, Word.ofJson?_json,
    Option.bind_eq_bind, Option.bind_some]

/-- A text from which an offer is read, both as a value and as an offer. -/
structure ReadFrom (o : Offer) (v : Json) (text : String) : Prop where
  value : Json.parse? text = some v
  ofJson : ofJson? v = some o
  record : (Json.parseAs? shape text).bind ofJson? = some o

/-- However they are laid out, members among which are those of an offer are
read as the offer. -/
theorem readFrom_of_laid {o : Offer} {members : Members Json}
    (hTidy : Json.Tidy Json.maxDepth (.object members))
    (hNumbers : Json.ReadsBack (.object members))
    (hParts : ∀ part ∈ o.parts, members.lookup part.1 = some part.2)
    {text : String} (hText : Json.Laid (.object members) text) :
    ReadFrom o (.object members) text := by
  have hValue : Json.parse? text = some (.object members) := by
    rw [Json.parse?_of_laid hTidy hText, Json.reread?_eq_self_iff.mpr hNumbers]
  refine ⟨hValue, ofJson?_of_lookup hParts, ?_⟩
  rw [shape_eq, Json.parseAs?_closed_of_laid _ hTidy hNumbers hText,
    Option.bind_some]
  refine ofJson?_of_lookup fun part hPart => ?_
  have hName : part.1 ∈ fields.map (·.1) :=
    o.names_parts ▸ List.mem_map_of_mem hPart
  rw [Json.lookup_picked (by decide) hName, hParts part hPart]

end Offer

namespace Commitment

/-- The members of a commitment. -/
def parts (c : Commitment) : List (String × Json) :=
  [("private_data_original_length", Json.ofWord c.length),
    ("private_data_array_length", Json.ofWord c.count),
    ("key", c.key.json),
    ("encoded_data", wordsJson c.encoded),
    ("private_data_root_hash", c.privateRoot.json),
    ("encoded_data_root_hash", c.encodedRoot.json)]

theorem json_eq (c : Commitment) : c.json = .object (Members.ofList c.parts) :=
  rfl

theorem nodup_parts (c : Commitment) : (c.parts.map (·.1)).Nodup := by
  have hNames : c.parts.map (·.1) = fields.map (·.1) := rfl
  rw [hNames]
  decide

theorem lookup_of_mem_parts (c : Commitment) : ∀ part ∈ c.parts,
    (Members.ofList c.parts).lookup part.1 = some part.2 := fun _ hPart =>
  Members.lookup_of_mem (Members.ascending_ofList _)
    ((Members.mem_ofList_iff c.nodup_parts).mpr hPart)

theorem mem_parts_of_offer (c : Commitment) :
    ∀ part ∈ c.offer.parts, part ∈ c.parts := by
  intro part hPart
  simp only [Offer.parts, offer, parts, List.mem_cons, List.not_mem_nil,
    or_false] at hPart ⊢
  rcases hPart with h | h | h | h | h <;> simp only [h, true_or, or_true]

/-- Inside a commitment stands one array. -/
theorem tidy_json (c : Commitment) : Json.Tidy Json.maxDepth c.json := by
  have hWords : Json.Tidy 126 (wordsJson c.encoded) := by
    refine Json.tidy_array.mpr fun item hItem => ?_
    obtain ⟨word, _, rfl⟩ := List.mem_map.mp hItem
    exact .string 125 word.text
  refine Json.tidy_object.mpr ⟨Members.ascending_ofList _,
    fun member hMember => ?_⟩
  have hPart := Members.mem_ofList hMember
  simp only [List.mem_cons, List.not_mem_nil, or_false] at hPart
  rcases hPart with rfl | rfl | rfl | rfl | rfl | rfl
  · exact .number 126 _
  · exact .number 126 _
  · exact .string 126 c.key.text
  · exact hWords
  · exact .string 126 c.privateRoot.text
  · exact .string 126 c.encodedRoot.text

/-- A commitment has no numbers but its length and its count. -/
theorem readsBack_json (c : Commitment) : c.json.ReadsBack := by
  have hWords : (wordsJson c.encoded).ReadsBack := by
    refine Json.readsBack_array.mpr fun item hItem => ?_
    obtain ⟨word, _, rfl⟩ := List.mem_map.mp hItem
    exact Json.readsBack_string word.text
  refine Json.readsBack_object.mpr fun member hMember => ?_
  have hPart := Members.mem_ofList hMember
  simp only [List.mem_cons, List.not_mem_nil, or_false] at hPart
  rcases hPart with rfl | rfl | rfl | rfl | rfl | rfl
  · exact Json.readsBack_ofWord c.length
  · exact Json.readsBack_ofWord c.count
  · exact Json.readsBack_string c.key.text
  · exact hWords
  · exact Json.readsBack_string c.privateRoot.text
  · exact Json.readsBack_string c.encodedRoot.text

/-- Without its key, a commitment is its offer. -/
theorem json_without_key (c : Commitment) :
    c.json.without "key" = c.offer.json := by
  rw [json_eq, Offer.json_eq, Json.without]
  congr 1
  refine Members.eq_of_mem_iff
    (Members.ascending_filter _ (Members.ascending_ofList _))
    (Members.ascending_ofList _) fun member => ?_
  have hParts : c.offer.parts = c.parts.filter fun part => !(part.1 == "key") :=
    rfl
  rw [List.mem_filter, Members.mem_ofList_iff c.nodup_parts,
    Members.mem_ofList_iff c.offer.nodup_parts, hParts,
    List.mem_filter]

/-- A commitment is read as its offer. -/
theorem readFrom_json (c : Commitment) {text : String}
    (hText : Json.Laid c.json text) :
    Offer.ReadFrom c.offer c.json text :=
  Offer.readFrom_of_laid c.tidy_json c.readsBack_json
    (fun part hPart =>
      c.lookup_of_mem_parts part (c.mem_parts_of_offer part hPart)) hText

/-- So is a commitment without its key. -/
theorem readFrom_json_without_key (c : Commitment) {text : String}
    (hText : Json.Laid (c.json.without "key") text) :
    Offer.ReadFrom c.offer (c.json.without "key") text := by
  have hTidy := c.tidy_json.without "key"
  have hNumbers := c.readsBack_json.without "key"
  rw [json_without_key, Offer.json_eq] at hTidy hNumbers hText ⊢
  refine Offer.readFrom_of_laid hTidy hNumbers (fun part hPart => ?_) hText
  exact Members.lookup_of_mem (Members.ascending_ofList _)
    ((Members.mem_ofList_iff c.offer.nodup_parts).mpr hPart)

/-- A text has more characters than 32 times the masked nodes of the commitment
in it. -/
theorem length_encoded_le (c : Commitment) {text : String}
    (hText : Json.Laid c.json text) :
    32 * c.encoded.length ≤ text.length := by
  obtain ⟨b, cs, b', _, hSpells, _, hChars⟩ := hText
  have hMember :
      ("encoded_data", wordsJson c.encoded) ∈ Members.ofList c.parts :=
    (Members.mem_ofList_iff c.nodup_parts).mpr (by simp [parts])
  obtain ⟨ds, hWords, hLength⟩ := Json.exists_spells_of_mem hSpells hMember
  have hItems : ∀ item ∈ c.encoded.map Word.json, ∀ es, Json.Spells item es →
      32 ≤ es.length := by
    intro item hItem es hes
    obtain ⟨word, _, rfl⟩ := List.mem_map.mp hItem
    rw [show es = Json.renderString word.text from hes]
    have hText := Json.length_le_renderString word.text
    have hDigits := word.length_text
    omega
  have hNodes := Json.length_items_le hItems hWords
  have hTotal : text.length = b.length + (cs.length + b'.length) := by
    rw [← String.length_toList, hChars, List.length_append, List.length_append]
  rw [List.length_map] at hNodes
  omega

end Commitment
end SealedGraph
