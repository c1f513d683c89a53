import SealedGraph.CommandLine.Command
import SealedGraph.Dataset.Preparation
import SealedGraph.Exchange.Sale

/-!
# Outcomes

What a command gives depends on its arguments and on what surrounds it: the
files, the clock, and a fresh key for a sale.  The outcome is an exit code and
what is written.
-/

namespace SealedGraph.CommandLine

/-- What is found under the name of a file. -/
inductive Content where
  | absent
  /-- There is something that is no text. -/
  | unreadable (reason : String)
  | text (content : String)
deriving DecidableEq

/-- What surrounds a command. -/
structure Surroundings where
  /-- What is found under the names of files. -/
  file : String → Content
  /-- The default file of settings; none if there is no place for it. -/
  defaultSettings : Option Content
  /-- The time. -/
  now : Instant
  /-- The key of a sale for which no key is given. -/
  freshKey : ExchangeKey

/-- What is written, and the exit code. -/
structure Outcome where
  code : UInt32
  output : String := ""
  errors : String := ""
deriving DecidableEq

/-- Why a command fails. -/
inductive Fault where
  | noSettingsPlace
  | defaultSettings (reason : String)
  | settingsFile (name : String)
  | unreadableFile (name : String)
  | notJson (name : String)
  | noKey (name : String)
  | notOffer
  | cause (error : Error)

/-- The wording of a fault, if it has one. -/
def Fault.message : Fault → Option String
  | .noSettingsPlace =>
      some "Configuration error: Could not find config directory"
  | .defaultSettings reason => some ("IO error: " ++ reason)
  | .settingsFile name => some ("Failed to load config from " ++ name)
  | .unreadableFile name => some ("Failed to read " ++ name)
  | .notJson name => some ("Invalid JSON in " ++ name)
  | .noKey name => some ("No key given and none in " ++ name)
  | .notOffer => some diagnosis
  | .cause error => error.message

/-- Takes an error as the fault of a command. -/
def causing {α : Type} (result : Except Error α) : Except Fault α :=
  result.mapError .cause

/-! ## Reading files -/

/-- The settings of the default file, or the default settings. -/
def readDefaultSettings : Option Content → Except Fault Settings
  | none => .error .noSettingsPlace
  | some .absent => .ok {}
  | some (.unreadable reason) => .error (.defaultSettings reason)
  | some (.text content) => causing (Settings.parse content)

/-- The settings of a named file. -/
def readSettings (s : Surroundings) (name : String) : Except Fault Settings :=
  match s.file name with
  | .text content =>
      (Settings.parse content).mapError fun _ => .settingsFile name
  | _ => .error (.settingsFile name)

/-- The settings under which a command runs. -/
def settings (s : Surroundings) : Option String → Except Fault Settings
  | some name => readSettings s name
  | none => readDefaultSettings s.defaultSettings

/-- The text of a file. -/
def readText (s : Surroundings) (name : String) : Except Fault String :=
  match s.file name with
  | .text content => .ok content
  | _ => .error (.unreadableFile name)

/-- The document in a file. -/
def readDocument (s : Surroundings) (name : String) : Except Fault Document :=
  do
  let content ← readText s name
  causing (Document.parse content)

/-- A value in a file, taken under a shape. -/
def readValue {α : Type} (s : Surroundings) (name : String) (shape : Json.Shape)
    (read : Json → Option α) : Except Fault α := do
  let content ← readText s name
  match (Json.parseAs? shape content).bind read with
  | some value => return value
  | none => .error (.notJson name)

/-! ## Results -/

/-- The canonical text of a document with its digest. -/
def canonicalResult (d : Document) : Json :=
  let text := d.canonicalText
  Json.ofFields [("canonical", .string text),
    ("sha3", (sha3 (Bytes.ofText text)).json)]

/-- A root hash, and whether the header agrees with it. -/
def rootResult (root : Word) (verified : Bool) : Json :=
  Json.ofFields [("status", .string "ok"), ("root_hash", root.json),
    ("verified", .bool verified)]

/-- Who signed. -/
def signerResult (signer : Address) : Json :=
  Json.ofFields [("status", .string "ok"), ("signer", signer.json)]

/-- The roots of an offer that was checked. -/
def offerResult (offer : Offer) : Json :=
  Json.ofFields [("status", .string "ok"),
    ("encoded_data_root_hash", offer.encodedRoot.json),
    ("private_data_root_hash", offer.privateRoot.json)]

/-- Data that were opened. -/
def dataResult (data : Json) : Json := Json.ofFields [("data", data)]

/-- The address that signed a document; if one is expected, it must be that. -/
def findSigner (p : Publisher) (d : Document) :
    Option String → Except Error Address
  | none => p.signer d
  | some text => do
      let expected ← Address.parse text
      p.verifySigner d expected
      return expected

/-- The key for a sale: the one given, or a fresh one. -/
def saleKey (s : Surroundings) : Option String → Except Error ExchangeKey
  | some text => ExchangeKey.ofText text
  | none => .ok s.freshKey

/-- The key to open an offer: the one given, or the one that stands in its
file. -/
def openingKey (name : String) (offer : Json) :
    Option String → Except Fault ExchangeKey
  | some text => causing (ExchangeKey.ofText text)
  | none =>
      match (offer.get? "key").bind Json.string? with
      | some text => causing (ExchangeKey.ofText text)
      | none => .error (.noKey name)

/-- The result of a command under settings. -/
def Command.result (s : Surroundings) (settings : Settings) :
    Command → Except Fault Json
  | .format input => do
      let document ← readDocument s input
      return document.format.json
  | .canonicalize input => do
      let document ← readDocument s input
      return canonicalResult document
  | .commit input => do
      let publisher ← causing (Publisher.ofSettings settings)
      let document ← readDocument s input
      let committed ← causing (publisher.commit document)
      return committed.json
  | .strip input keepFlags => do
      let publisher ← causing (Publisher.ofSettings settings)
      let document ← readDocument s input
      let view ← causing (if keepFlags then publisher.hide document
        else publisher.strip document)
      return view.json
  | .rootHash input verify => do
      let publisher ← causing (Publisher.ofSettings settings)
      let document ← readDocument s input
      let root ← causing
        (if verify then publisher.verifyRootHash document
          else publisher.rootHash document)
      return rootResult root verify
  | .prepare input key => do
      let publisher ← causing (Publisher.ofSettings settings)
      let key ← causing (Ecdsa.PrivateKey.parse key)
      let document ← readDocument s input
      let prepared ← causing (publisher.prepare document key s.now)
      return prepared.json
  | .sign input key => do
      let publisher ← causing (Publisher.ofSettings settings)
      let key ← causing (Ecdsa.PrivateKey.parse key)
      let document ← readDocument s input
      let signed ← causing (publisher.sign document key)
      return signed.json
  | .recover input expected => do
      let publisher ← causing (Publisher.ofSettings settings)
      let document ← readDocument s input
      let signer ← causing (findSigner publisher document expected)
      return signerResult signer
  | .encode input key => do
      let committer ← causing (Committer.ofSettings settings.privacy)
      let entry ← readValue s input PrivateEntry.shape PrivateEntry.ofJson?
      let key ← causing (saleKey s key)
      let commitment ← causing (committer.encode entry key)
      return commitment.json
  | .decode input key => do
      let committer ← causing (Committer.ofSettings settings.privacy)
      let value ← readValue s input .any some
      let key ← openingKey input value key
      match Offer.ofJson? value with
      | none => .error .notOffer
      | some offer =>
          let data ← causing (committer.decodeOffer offer key)
          return dataResult data
  | .verifyOffer input => do
      let committer ← causing (Committer.ofSettings settings.privacy)
      let offer ← readValue s input Offer.shape Offer.ofJson?
      causing (committer.verify offer)
      return offerResult offer

/-! ## The program -/

/-- A result as it is written. -/
def Format.write (json : Json) : Format → String
  | .json => json.canonicalText ++ "\n"
  | .text => json.indentedText ++ "\n"

/-- The result of an invocation. -/
def Invocation.result (s : Surroundings) (i : Invocation) : Except Fault Json :=
  do
  let settings ← settings s i.settingsFile
  i.command.result s settings

/-- The outcome of a fault.  One without a wording stops the program; what it
leaves behind then is not kept. -/
def Fault.outcome (fault : Fault) : Outcome :=
  match fault.message with
  | some text => { code := 1, errors := "Error: " ++ text ++ "\n" }
  | none => { code := 101 }

/-- What an invocation writes. -/
def Invocation.outcome (s : Surroundings) (i : Invocation) : Outcome :=
  match i.result s with
  | .ok json => { code := 0, output := i.format.write json }
  | .error fault => fault.outcome

/-- How the program is used. -/
def usage : String :=
  "Usage: otjson [-f json|text] [-c CONFIG] COMMAND FILE\n" ++
  "Commands: " ++ ", ".intercalate Command.names ++ "\n"

/-- What is written when nothing is carried out. -/
def Halt.outcome : Halt → Outcome
  | .misuse => { code := 2, errors := usage }
  | .help => { code := 0, output := usage }
  | .version => { code := 0, output := "otjson 0.1.0\n" }

/-- The outcome of arguments; `secret` is the private key that the environment
gives. -/
def run (s : Surroundings) (secret : Option String) (arguments : List String) :
    Outcome :=
  match Invocation.read secret arguments with
  | .ok invocation => invocation.outcome s
  | .error halt => halt.outcome

end SealedGraph.CommandLine
