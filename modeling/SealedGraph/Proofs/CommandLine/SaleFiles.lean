import Mathlib
import SealedGraph.CommandLine.Outcome
import SealedGraph.Proofs.Exchange.OfferTexts
import SealedGraph.Proofs.Exchange.Opening
import SealedGraph.Proofs.Json.Records
import SealedGraph.Proofs.Json.Unambiguous

/-!
# Files of a sale

A seller runs the program on the file of a private entry and gets the text of a
commitment.  The buyer runs it on that text: it is accepted as an offer, and
opened with the key that stands in it or with any spelling of the key among
the arguments.  Without the member of the key the text is still accepted, and
opened with the key among the arguments.  Neither the format in which the
commitment was written nor the layout of the text makes a difference.  What the
buyer gets are the seller's data, but for the rounding of their numbers.

## Main results

* `result_encode`: what a seller's run found and made.
* `answers_verifyOffer`, `answers_decode`: runs on the text of an offer.
* `sells_received`: a seller's text serves its buyers.
* `sells_encoded`: they get the data if the numbers of these are read back.
* `bought_as_neighbour`: a number that is sold, and another one that is bought.
-/

namespace SealedGraph.CommandLine

/-! ## Runs -/

/-- On a file with a text, under some settings, a command gives a result,
whatever else surrounds it and however it is asked for. -/
def Answers (settings : Settings) (text : String) (command : String → Command)
    (result : Json) : Prop :=
  ∀ (s : Surroundings) (secret : Option String) (arguments : List String)
    (i : Invocation) (name : String),
    Invocation.read secret arguments = .ok i → i.command = command name →
    CommandLine.settings s i.settingsFile = .ok settings →
    s.file name = .text text →
    run s secret arguments = { code := 0, output := i.format.write result }

theorem causing_eq_ok {α : Type} {x : Except Error α} {a : α} :
    causing x = .ok a ↔ x = .ok a := by
  cases x <;> simp [causing, Except.mapError]

theorem Fault.code_outcome_ne_zero (fault : Fault) :
    fault.outcome.code ≠ 0 := by
  unfold outcome
  split <;> exact nofun

section Runs

variable {s : Surroundings} {secret : Option String} {arguments : List String}
  {i : Invocation} {settings : Settings}

theorem run_of_result (hRead : Invocation.read secret arguments = .ok i)
    (hSettings : CommandLine.settings s i.settingsFile = .ok settings)
    {result : Json} (hResult : i.command.result s settings = .ok result) :
    run s secret arguments =
      { code := 0, output := i.format.write result } := by
  have hAll : i.result s = .ok result :=
    bind_eq_ok.mpr ⟨settings, hSettings, hResult⟩
  simp only [run, hRead, Invocation.outcome, hAll]

/-- A run that succeeds has a result. -/
theorem exists_result_of_code (hRead : Invocation.read secret arguments = .ok i)
    (hSettings : CommandLine.settings s i.settingsFile = .ok settings)
    (hCode : (run s secret arguments).code = 0) :
    ∃ result, i.command.result s settings = .ok result ∧
      run s secret arguments =
        { code := 0, output := i.format.write result } := by
  simp only [run, hRead, Invocation.outcome] at hCode
  cases hAll : i.result s with
  | error fault =>
      rw [hAll] at hCode
      exact absurd hCode fault.code_outcome_ne_zero
  | ok result =>
      obtain ⟨_, hFound, hResult⟩ := bind_eq_ok.mp hAll
      cases hSettings.symm.trans hFound
      exact ⟨result, hResult, run_of_result hRead hSettings hResult⟩

/-- What a seller's run found and made. -/
theorem result_encode {input keyText : String} {entry : PrivateEntry}
    {result : Json}
    (hEntry :
      readValue s input PrivateEntry.shape PrivateEntry.ofJson? = .ok entry)
    (h : (Command.encode input (some keyText)).result s settings = .ok result) :
    ∃ committer key commitment,
      Committer.ofSettings settings.privacy = .ok committer ∧
      ExchangeKey.ofText keyText = .ok key ∧
      committer.encode entry key = .ok commitment ∧
      result = commitment.json := by
  obtain ⟨committer, hCommitter, h⟩ := bind_eq_ok.mp h
  obtain ⟨_, hFound, h⟩ := bind_eq_ok.mp h
  obtain ⟨key, hKey, h⟩ := bind_eq_ok.mp h
  cases hEntry.symm.trans hFound
  obtain ⟨commitment, hCommitment, h⟩ := bind_eq_ok.mp h
  cases h
  exact ⟨committer, key, commitment, causing_eq_ok.mp hCommitter,
    causing_eq_ok.mp hKey, causing_eq_ok.mp hCommitment, rfl⟩

theorem readText_eq_ok {name text : String} (h : s.file name = .text text) :
    readText s name = .ok text := by
  rw [readText, h]

end Runs

/-! ## A buyer's runs -/

section Buyer

variable {settings : Settings} {committer : Committer} {offer : Offer}
  {value : Json} {text : String}
  (hCommitter : Committer.ofSettings settings.privacy = .ok committer)
  (hText : offer.ReadFrom value text)

include hCommitter hText

theorem answers_verifyOffer (hVerify : committer.verify offer = .ok ()) :
    Answers settings text .verifyOffer (offerResult offer) := by
  intro s secret arguments i name hRead hCommand hSettings hFile
  have hValue : readValue s name Offer.shape Offer.ofJson? = .ok offer := by
    simp only [readValue, readText_eq_ok hFile, hText.record, bind, Except.bind,
      pure, Except.pure]
  refine run_of_result hRead hSettings ?_
  rw [hCommand]
  simp only [Command.result, causing, hCommitter, hValue, hVerify,
    Except.mapError, bind, Except.bind, pure, Except.pure]

theorem answers_decode {keyText : Option String} {key : ExchangeKey}
    {data : Json} (hKey : ∀ name, openingKey name value keyText = .ok key)
    (hOpen : committer.decodeOffer offer key = .ok data) :
    Answers settings text (.decode · keyText) (dataResult data) := by
  intro s secret arguments i name hRead hCommand hSettings hFile
  have hParsed : (Json.parseAs? .any text).bind some = some value := by
    rw [show Json.parseAs? .any text = some value from hText.value]
    rfl
  have hValue : readValue s name .any some = .ok value := by
    simp only [readValue, readText_eq_ok hFile, hParsed, bind, Except.bind,
      pure, Except.pure]
  refine run_of_result hRead hSettings ?_
  rw [hCommand]
  simp only [Command.result, causing, hCommitter, hValue, hKey name,
    hText.ofJson, hOpen, Except.mapError, bind, Except.bind, pure, Except.pure]

end Buyer

/-- A text serves buyers: it is accepted as an offer, and opened with every
spelling of the key. -/
structure Sells (settings : Settings) (offer : Offer) (key : ExchangeKey)
    (data : Json) (text : String) : Prop where
  accepted : Answers settings text .verifyOffer (offerResult offer)
  opened : ∀ keyText, Hex.Spells ["", "0x", "0X"] keyText key.word.bytes →
    Answers settings text (.decode · (some keyText)) (dataResult data)

section Texts

variable {settings : Settings} {committer : Committer} {offer : Offer}
  {value data : Json} {key : ExchangeKey} {text : String}

theorem sells_of_readFrom
    (hCommitter : Committer.ofSettings settings.privacy = .ok committer)
    (hText : offer.ReadFrom value text)
    (hVerify : committer.verify offer = .ok ())
    (hOpen : committer.decodeOffer offer key = .ok data) :
    Sells settings offer key data text := by
  constructor
  · exact answers_verifyOffer hCommitter hText hVerify
  · intro keyText hKey
    have hRead := causing_eq_ok.mpr (ExchangeKey.ofText_eq_ok.mpr hKey)
    exact answers_decode hCommitter hText (fun _ => hRead) hOpen

/-- The key stands in the file of a commitment. -/
theorem openingKey_json (commitment : Commitment) (name : String) :
    openingKey name commitment.json none = .ok commitment.key := by
  have hMember :
      (commitment.json.get? "key").bind Json.string? =
        some commitment.key.text := by
    have hLookup := commitment.lookup_of_mem_parts ("key", commitment.key.json)
      (by simp [Commitment.parts])
    rw [commitment.json_eq, Json.get?, Json.members?, Option.bind_some, hLookup]
    rfl
  simp only [openingKey, hMember, commitment.key.ofText_text, causing,
    Except.mapError]

end Texts

/-! ## A seller's text -/

/-- The data of an entry are in normal form, since they were read. -/
theorem normalize_of_readValue {s : Surroundings} {input : String}
    {entry : PrivateEntry} {v : Json}
    (hEntry :
      readValue s input PrivateEntry.shape PrivateEntry.ofJson? = .ok entry)
    (hPayload : entry.payload? = some v) : v.normalize = v := by
  obtain ⟨content, _, hEntry⟩ := bind_eq_ok.mp hEntry
  split at hEntry
  · next found hFound =>
    cases hEntry
    obtain ⟨json, hParsed, hFields⟩ := Option.bind_eq_some_iff.mp hFound
    simp only [PrivateEntry.ofJson?, Option.bind_eq_bind,
      Option.bind_eq_some_iff] at hFields
    obtain ⟨members, hMembers, _, _, data, hData, _, _, hSame⟩ := hFields
    cases hSame
    cases Json.object_of_members? hMembers
    obtain ⟨hValue, _⟩ := Option.filter_eq_some_iff.mp hPayload
    cases hValue
    obtain ⟨_, hLookup, _, hSame⟩ := Json.exists_of_optional hData
    cases hSame
    have hNormal := Json.normalize_of_parseAs? hParsed
    exact (Json.normalize_object_eq_self.mp hNormal).2 _
      (Members.mem_of_lookup hLookup)
  · cases hEntry

theorem laid_write {v : Json} (hNormal : v.normalize = v) (format : Format) :
    Json.Laid v (format.write v) := by
  cases format with
  | json =>
      rw [Format.write, Json.canonicalText, hNormal]
      exact Json.laid_line (Json.spells_render v)
  | text =>
      rw [Format.write, Json.indentedText, hNormal]
      exact Json.laid_line (Json.spells_renderIndented v 0)

section Seller

variable {s : Surroundings} {secret : Option String} {arguments : List String}
  {i : Invocation} {settings : Settings} {input keyText : String}
  {entry : PrivateEntry} {v : Json}
  (hRead : Invocation.read secret arguments = .ok i)
  (hCommand : i.command = .encode input (some keyText))
  (hSettings : CommandLine.settings s i.settingsFile = .ok settings)
  (hEntry :
    readValue s input PrivateEntry.shape PrivateEntry.ofJson? = .ok entry)
  (hPayload : entry.payload? = some v)
  (hCode : (run s secret arguments).code = 0)
  (hMemory : (run s secret arguments).output.length < 2 ^ 64)

include hRead hCommand hSettings hEntry hPayload hCode hMemory

/-- Whatever the payload is received as, the seller's text serves it. -/
theorem sells_received {data : Json}
    (hReceived : Committer.received v = .ok data) :
    ∃ commitment : Commitment,
      Hex.Spells ["", "0x", "0X"] keyText commitment.key.word.bytes ∧
      (run s secret arguments).output = i.format.write commitment.json ∧
      Sells settings commitment.offer commitment.key data
        (run s secret arguments).output ∧
      Answers settings (run s secret arguments).output (.decode · none)
        (dataResult data) ∧
      ∀ text, Json.Laid (commitment.json.without "key") text →
        Sells settings commitment.offer commitment.key data text := by
  obtain ⟨result, hResult, hRun⟩ := exists_result_of_code hRead hSettings hCode
  rw [hCommand] at hResult
  obtain ⟨committer, key, commitment, hCommitter, hKey, hEncode, rfl⟩ :=
    result_encode hEntry hResult
  rw [hRun] at hMemory ⊢
  have hLaid := laid_write commitment.tidy_json.normal i.format
  -- The text holds the masked nodes, of which there are as many as the leaves,
  -- at least.
  have hLength := commitment.length_encoded_le hLaid
  obtain ⟨rfl, hVerify, hDecode⟩ := Committer.opens_of_encode hPayload hEncode
    (Nat.lt_of_le_of_lt hLength hMemory)
  have hOpen := hDecode.trans hReceived
  have hText := commitment.readFrom_json hLaid
  refine ⟨commitment, ExchangeKey.ofText_eq_ok.mp hKey, rfl, ?_, ?_,
    fun text hLaidText => ?_⟩
  · exact sells_of_readFrom hCommitter hText hVerify hOpen
  · exact answers_decode hCommitter hText (openingKey_json commitment) hOpen
  · have hOffer := commitment.readFrom_json_without_key hLaidText
    exact sells_of_readFrom hCommitter hOffer hVerify hOpen

/-- Whenever a run makes a commitment to the data of an entry under a given key,
and the numbers of the data are read back, what it writes in either format is
accepted as an offer, and opened to the data with the key that stands in it and
with every spelling of the key.  So is every text of the commitment without its
key, with every spelling.  A text in memory has less than `2 ^ 64`
characters. -/
theorem sells_encoded (hDepth : v.depth ≤ Json.maxDepth)
    (hNumbers : v.ReadsBack) :
    ∃ commitment : Commitment,
      Hex.Spells ["", "0x", "0X"] keyText commitment.key.word.bytes ∧
      (run s secret arguments).output = i.format.write commitment.json ∧
      Sells settings commitment.offer commitment.key v
        (run s secret arguments).output ∧
      Answers settings (run s secret arguments).output (.decode · none)
        (dataResult v) ∧
      ∀ text, Json.Laid (commitment.json.without "key") text →
        Sells settings commitment.offer commitment.key v text := by
  have hTidy : Json.Tidy Json.maxDepth v :=
    ⟨normalize_of_readValue hEntry hPayload, hDepth⟩
  exact sells_received hRead hCommand hSettings hEntry hPayload hCode hMemory
    ((Committer.received_eq_ok_iff hTidy).mpr hNumbers)

end Seller

/-! ## One sale -/

/-- Settings for one block. -/
def oneBlock : Settings := { privacy := { firstLevelBlocks := 1 } }

/-- Surroundings with these settings and one more file. -/
def deskWith (name content : String) : Surroundings :=
  { file := fun other =>
      if other = "settings.json" then
        .text "\x7b\"private_data\":\x7b\"first_level_blocks\":1\x7d\x7d"
      else if other = name then .text content
      else .absent
    defaultSettings := none
    now := ⟨0⟩
    freshKey := ⟨Word.zero⟩ }

/-- The desk of a seller of a value, which is given by its text. -/
def sellerDesk (data : String) : Surroundings :=
  deskWith "entry.json" ("\x7b\"isPrivate\":true,\"data\":" ++ data ++ "\x7d")

/-- The seller spells the key in mixed digits. -/
def sellerKey : String :=
  "0X0123456789ABCDEF0123456789abcdef0123456789ABCDEF0123456789abcdef"

/-- The buyer spells it in small digits. -/
def buyerKey : String :=
  "0123456789abcdef0123456789abcdef0123456789abcdef0123456789abcdef"

/-- How the seller asks for a commitment. -/
def sellerArguments : List String :=
  ["-c", "settings.json", "-f", "text", "encode", "entry.json", "--key",
    sellerKey]

/-- What the seller writes. -/
def soldText (data : String) : String :=
  (run (sellerDesk data) none sellerArguments).output

private theorem settings_deskWith (name content : String) :
    settings (deskWith name content) (some "settings.json") = .ok oneBlock := by
  have hParsed :
      Settings.parse
        "\x7b\"private_data\":\x7b\"first_level_blocks\":1\x7d\x7d" =
      .ok oneBlock := toOption_eq_some.mp (by decide +kernel)
  simp only [settings, readSettings, deskWith, if_true, hParsed,
    Except.mapError]

private theorem read_sellerArguments : Invocation.read none sellerArguments =
    .ok ⟨.text, some "settings.json", .encode "entry.json" (some sellerKey)⟩ :=
  rfl

/-- The payload of an entry is told from its canonical text. -/
private theorem exists_sellerEntry (data : String) {v : Json}
    (hNormal : v.normalize = v)
    (hText : ((readValue (sellerDesk data) "entry.json" PrivateEntry.shape
      PrivateEntry.ofJson?).toOption.bind PrivateEntry.payload?).map
        Json.canonicalText = some v.canonicalText) :
    ∃ entry, readValue (sellerDesk data) "entry.json" PrivateEntry.shape
      PrivateEntry.ofJson? = .ok entry ∧ entry.payload? = some v := by
  obtain ⟨found, hFound, hSame⟩ := Option.map_eq_some_iff.mp hText
  obtain ⟨entry, hEntry, hPayload⟩ := Option.bind_eq_some_iff.mp hFound
  have hRead := toOption_eq_some.mp hEntry
  refine ⟨entry, hRead, hPayload.trans (congrArg some ?_)⟩
  rw [← normalize_of_readValue hRead hPayload, ← hNormal]
  exact Json.eq_of_canonicalText_eq hSame

private theorem code_sold :
    ∀ data ∈ ["true", "12e30"],
      (run (sellerDesk data) none sellerArguments).code = 0 := by
  decide +kernel

/-- The length is that of the characters before they are put into a text. -/
private theorem length_soldText :
    ∀ data ∈ ["true", "12e30"], (soldText data).length < 2 ^ 64 := by
  have hShort : ∀ data ∈ ["true", "12e30"],
      ∀ result ∈ ((Command.encode "entry.json"
        (some sellerKey)).result (sellerDesk data) oneBlock).toOption,
      (Json.renderIndented 0 result.normalize).length < 2 ^ 32 := by
    decide +kernel
  intro data hData
  obtain ⟨result, hResult, hRun⟩ := exists_result_of_code read_sellerArguments
    (settings_deskWith _ _) (code_sold data hData)
  have hLength := hShort data hData result (toOption_eq_some.mpr hResult)
  have hLine : "\n".length = 1 := rfl
  have hOutput : soldText data = result.indentedText ++ "\n" :=
    congrArg Outcome.output hRun
  rw [hOutput, String.length_append, hLine, Json.indentedText,
    String.length_ofList]
  omega

/-- What is sold is accepted, and bought with the key in the file, with the key
among the arguments, and from the offer alone. -/
theorem sells_encoded_true :
    let bought : Outcome := { code := 0, output := "\x7b\"data\":true\x7d\n" }
    (run (deskWith "sale.json" (soldText "true")) none
        ["-c", "settings.json", "verify-offer", "sale.json"]).code = 0 ∧
      run (deskWith "sale.json" (soldText "true")) none
        ["-c", "settings.json", "decode", "sale.json"] = bought ∧
      run (deskWith "sale.json" (soldText "true")) none
        ["-c", "settings.json", "decode", "sale.json", "--key", buyerKey] =
          bought ∧
      ∃ commitment : Commitment,
        soldText "true" = Format.text.write commitment.json ∧
        run (deskWith "offer.json" (Format.json.write commitment.offer.json))
          none
          ["-c", "settings.json", "decode", "-k", buyerKey, "offer.json"] =
            bought := by
  intro bought
  obtain ⟨entry, hEntry, hPayload⟩ :=
    exists_sellerEntry "true" (v := .bool true) rfl (by decide +kernel)
  obtain ⟨commitment, hKey, hOutput, hSells, hOpened, hOffer⟩ :=
    sells_encoded read_sellerArguments rfl (settings_deskWith _ _)
      hEntry hPayload (code_sold "true" (by decide))
      (length_soldText "true" (by decide)) (by decide)
      (Json.readsBack_bool true)
  have hSpelled :
      Hex.Spells ["", "0x", "0X"] buyerKey commitment.key.word.bytes := by
    have hSame : (ExchangeKey.ofText buyerKey).toOption =
        (ExchangeKey.ofText sellerKey).toOption := by
      decide +kernel
    have hRead := ExchangeKey.ofText_eq_ok.mpr hKey
    exact ExchangeKey.ofText_eq_ok.mp
      (toOption_eq_some.mp (hSame.trans (toOption_eq_some.mpr hRead)))
  have hLaid : Json.Laid (commitment.json.without "key")
      (Format.json.write commitment.offer.json) := by
    have hTidy := commitment.tidy_json.without "key"
    rw [commitment.json_without_key] at hTidy ⊢
    exact laid_write hTidy.normal .json
  have hWritten :
      Format.json.write (dataResult (.bool true)) = bought.output := by
    decide +kernel
  have hBought : bought =
      { code := 0, output := Format.json.write (dataResult (.bool true)) } := by
    rw [hWritten]
  rw [hBought]
  refine ⟨?_, ?_, ?_, commitment, hOutput, ?_⟩
  · have hRun := hSells.accepted (deskWith "sale.json" _) none
      ["-c", "settings.json", "verify-offer", "sale.json"]
      ⟨.json, some "settings.json", .verifyOffer "sale.json"⟩ _ rfl rfl
        (settings_deskWith _ _) rfl
    exact congrArg Outcome.code hRun
  · exact hOpened (deskWith "sale.json" _) none _
      ⟨.json, some "settings.json", .decode "sale.json" none⟩ _ rfl rfl
        (settings_deskWith _ _) rfl
  · exact hSells.opened buyerKey hSpelled (deskWith "sale.json" _) none _
      ⟨.json, some "settings.json",
        .decode "sale.json" (some buyerKey)⟩ _ rfl rfl
      (settings_deskWith _ _) rfl
  · exact (hOffer _ hLaid).opened buyerKey hSpelled
      (deskWith "offer.json" _) none _ ⟨.json, some "settings.json",
        .decode "offer.json" (some buyerKey)⟩ _ rfl rfl
      (settings_deskWith _ _) rfl

/-- The number in the file is sold, and another one is bought. -/
theorem bought_as_neighbour :
    let bought : Outcome :=
      { code := 0, output := "\x7b\"data\":1.2e+31\x7d\n" }
    ∃ entry, readValue (sellerDesk "12e30") "entry.json" PrivateEntry.shape
        PrivateEntry.ofJson? = .ok entry ∧
      entry.payload? = some (.number (Json.drifting true)) ∧
      (run (sellerDesk "12e30") none sellerArguments).code = 0 ∧
      run (deskWith "sale.json" (soldText "12e30")) none
        ["-c", "settings.json", "decode", "sale.json"] = bought ∧
      bought.output ≠
        Format.json.write (dataResult (.number (Json.drifting true))) := by
  intro bought
  obtain ⟨entry, hEntry, hPayload⟩ := exists_sellerEntry "12e30"
    (v := .number (Json.drifting true)) rfl (by decide +kernel)
  have hReceived : Committer.received (.number (Json.drifting true)) =
      .ok (.number (Json.drifting false)) := by
    rw [Committer.received_of_tidy (.number Json.maxDepth _), Json.reread?,
      Json.reread?_drifting]
    rfl
  have hCode := code_sold "12e30" (by decide)
  obtain ⟨commitment, _, hOutput, _, hOpened, _⟩ :=
    sells_received read_sellerArguments rfl (settings_deskWith _ _)
      hEntry hPayload hCode (length_soldText "12e30" (by decide)) hReceived
  have hWritten :
      Format.json.write (dataResult (.number (Json.drifting false))) =
        bought.output := by
    decide +kernel
  have hOther : bought.output ≠
      Format.json.write (dataResult (.number (Json.drifting true))) := by
    decide +kernel
  have hBought : bought =
      { code := 0,
        output :=
          Format.json.write (dataResult (.number (Json.drifting false))) } := by
    rw [hWritten]
  refine ⟨entry, hEntry, hPayload, hCode, ?_, hOther⟩
  rw [hBought]
  exact hOpened (deskWith "sale.json" _) none _
    ⟨.json, some "settings.json", .decode "sale.json" none⟩ _ rfl rfl
      (settings_deskWith _ _) rfl

end SealedGraph.CommandLine
