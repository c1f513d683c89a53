import SealedGraph.CommandLine.Arguments

/-!
# Commands

What the program can be asked to do, and how it is asked: switches for all
commands, the name of a command, and the arguments of that command.  A private
key may also be given by the environment.
-/

namespace SealedGraph.CommandLine

/-- How results are written. -/
inductive Format where
  /-- On one line. -/
  | json
  /-- Indented. -/
  | text
deriving DecidableEq

/-- A command with its arguments; `input` is the file that it reads. -/
inductive Command where
  | format (input : String)
  | canonicalize (input : String)
  | commit (input : String)
  /-- Makes the public view, or the view of a holder. -/
  | strip (input : String) (keepFlags : Bool)
  /-- Computes a root hash, or compares it with the header. -/
  | rootHash (input : String) (verify : Bool)
  | prepare (input key : String)
  | sign (input key : String)
  | recover (input : String) (expected : Option String)
  | encode (input : String) (key : Option String)
  | decode (input : String) (key : Option String)
  | verifyOffer (input : String)
deriving DecidableEq

/-- The file that a command reads. -/
def Command.input : Command → String
  | .format input => input
  | .canonicalize input => input
  | .commit input => input
  | .strip input _ => input
  | .rootHash input _ => input
  | .prepare input _ => input
  | .sign input _ => input
  | .recover input _ => input
  | .encode input _ => input
  | .decode input _ => input
  | .verifyOffer input => input

/-- A command with the switches that all commands share. -/
structure Invocation where
  format : Format := .json
  /-- The file with the settings, if it is not the default one. -/
  settingsFile : Option String := none
  command : Command
deriving DecidableEq

namespace Command

/-- A file has a name. -/
def isFileName (value : String) : Bool := !value.isEmpty

/-- Any value is accepted. -/
def isAnything (_ : String) : Bool := true

/-- The switches of a command; none if there is no such command. -/
def switches? : String → Option (List Switch)
  | "format" => some []
  | "canonicalize" => some []
  | "commit" => some []
  | "strip" => some [.flag "keep-flags"]
  | "root-hash" => some [.flag "verify"]
  | "prepare" => some [.option "private-key" none isAnything]
  | "sign" => some [.option "private-key" none isAnything]
  | "recover" => some [.option "expected" (some 'e') isAnything]
  | "encode" => some [.option "key" (some 'k') isAnything]
  | "decode" => some [.option "key" (some 'k') isAnything]
  | "verify-offer" => some []
  | _ => none

/-- The names of all commands. -/
def names : List String :=
  ["format", "canonicalize", "commit", "strip", "root-hash", "prepare", "sign",
    "recover", "encode", "decode", "verify-offer"]

/-- The command of a name with the arguments found; `secret` is the private key
that the environment gives. -/
def ofFound? (secret : Option String) (name input : String) (found : Found) :
    Option Command :=
  match name with
  | "format" => some (.format input)
  | "canonicalize" => some (.canonicalize input)
  | "commit" => some (.commit input)
  | "strip" => some (.strip input (found.has "keep-flags"))
  | "root-hash" => some (.rootHash input (found.has "verify"))
  | "prepare" =>
      ((found.options.lookup "private-key").or secret).map (.prepare input)
  | "sign" => ((found.options.lookup "private-key").or secret).map (.sign input)
  | "recover" => some (.recover input (found.options.lookup "expected"))
  | "encode" => some (.encode input (found.options.lookup "key"))
  | "decode" => some (.decode input (found.options.lookup "key"))
  | "verify-offer" => some (.verifyOffer input)
  | _ => none

/-- Reads the name of a command and its arguments. -/
def read (secret : Option String) : List String → Except Halt Command
  | [] => .error .misuse
  | ["help"] => .error .help
  | ["help", name] =>
      .error (if ("help" :: names).contains name then .help else .misuse)
  | name :: arguments =>
      match switches? name with
      | none => .error .misuse
      | some switches => do
          let (found, _) ←
            Grammar.take { switches := switches, operands := 1 } arguments {}
          match found.operands with
          | [input] =>
              match ofFound? secret name input found with
              | some command => return command
              | none => .error .misuse
          | _ => .error .misuse

end Command

namespace Format

/-- The names of the formats. -/
def ofName? : String → Option Format
  | "json" => some .json
  | "text" => some .text
  | _ => none

end Format

namespace Invocation

/-- The arguments before a command. -/
def grammar : Grammar :=
  { switches :=
      [.option "format" (some 'f') fun value => (Format.ofName? value).isSome,
        .option "config" (some 'c') Command.isFileName]
    commands := "help" :: Command.names
    hasVersion := true }

/-- Reads all arguments. -/
def read (secret : Option String) (arguments : List String) :
    Except Halt Invocation := do
  let (found, rest) ← grammar.take arguments {}
  let command ← Command.read secret rest
  return {
    format := ((found.options.lookup "format").bind Format.ofName?).getD .json
    settingsFile := found.options.lookup "config"
    command := command }

/-- The files that are read. -/
def files (i : Invocation) : List String :=
  i.settingsFile.toList ++ [i.command.input]

end Invocation
end SealedGraph.CommandLine
