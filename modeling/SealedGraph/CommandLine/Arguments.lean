/-!
# Arguments

The arguments of a program are switches and operands.  A switch is a flag, or
an option with a value; the value stands in the same argument or in the next
one.  After two dashes everything is an operand.  A grammar says which
switches there are, how many operands are allowed, and which operands are the
names of commands: a command ends the arguments that its grammar reads.
-/

namespace SealedGraph.CommandLine

/-- Why arguments are not carried out. -/
inductive Halt where
  /-- They do not obey the grammar. -/
  | misuse
  /-- They ask for help. -/
  | help
  /-- They ask for the version. -/
  | version
deriving DecidableEq

/-- A switch. -/
inductive Switch where
  | flag (name : String)
  /-- An option with a value, perhaps also known by a letter. -/
  | option (name : String) (letter : Option Char) (accepts : String → Bool)

/-- The long name of a switch. -/
def Switch.name : Switch → String
  | .flag name => name
  | .option name _ _ => name

/-- The letter of a switch. -/
def Switch.letter? : Switch → Option Char
  | .flag _ => none
  | .option _ letter _ => letter

/-- What may stand among the arguments. -/
structure Grammar where
  switches : List Switch := []
  /-- How many operands are allowed. -/
  operands : Nat := 0
  /-- Names at which the arguments of this grammar end. -/
  commands : List String := []
  /-- Whether the version can be asked for. -/
  hasVersion : Bool := false

/-- What was found among the arguments. -/
structure Found where
  flags : List String := []
  options : List (String × String) := []
  operands : List String := []

namespace Found

/-- Whether a switch has been found. -/
def has (f : Found) (name : String) : Bool :=
  f.flags.contains name || (f.options.lookup name).isSome

/-- Adds a flag, which must not have been found before. -/
def addFlag (f : Found) (name : String) : Except Halt Found :=
  if f.has name then .error .misuse else .ok { f with flags := name :: f.flags }

/-- Adds an option, which must not have been found before and must accept its
value. -/
def addOption (f : Found) (name : String) (accepts : String → Bool)
    (value : String) :
    Except Halt Found :=
  if f.has name || !accepts value then .error .misuse
  else .ok { f with options := (name, value) :: f.options }

/-- Adds an operand, if there is room; an empty one names no file. -/
def addOperand (f : Found) (g : Grammar) (value : String) : Except Halt Found :=
  if g.operands ≤ f.operands.length || value.isEmpty then .error .misuse
  else .ok { f with operands := f.operands ++ [value] }

end Found

/-! ## One argument -/

/-- What an argument is by itself. -/
inductive Argument where
  | halt (reason : Halt)
  | flag (name : String)
  /-- An option with its value. -/
  | option (name : String) (accepts : String → Bool) (value : String)
  /-- An option whose value is the next argument. -/
  | awaiting (name : String) (accepts : String → Bool)
  | operand

/-- A switch with the value that stands in its argument. -/
def Argument.ofSwitch : Switch → Option String → Argument
  | .flag name, none => .flag name
  | .flag _, some _ => .halt .misuse
  | .option name _ accepts, some value => .option name accepts value
  | .option name _ accepts, none => .awaiting name accepts

/-- The text after an equals sign, if there is one. -/
def afterEquals : List Char → Option String
  | '=' :: value => some (String.ofList value)
  | _ => none

namespace Grammar

/-- An argument that begins with two dashes. -/
def readLong (g : Grammar) (cs : List Char) : Argument :=
  let name := String.ofList (cs.takeWhile (· ≠ '='))
  let value := afterEquals (cs.dropWhile (· ≠ '='))
  if name = "help" then .halt (if value.isSome then .misuse else .help)
  else if name = "version" && g.hasVersion then
    .halt (if value.isSome then .misuse else .version)
  else
    match g.switches.find? fun s => s.name = name with
    | some s => .ofSwitch s value
    | none => .halt .misuse

/-- An argument of one dash and a letter. -/
def readShort (g : Grammar) (letter : Char) (rest : List Char) : Argument :=
  if letter = 'h' then .halt .help
  else if letter = 'V' && g.hasVersion then .halt .version
  else
    match g.switches.find? fun s => s.letter? = some letter with
    | none => .halt .misuse
    | some s =>
        if rest = [] then .ofSwitch s none
        else .ofSwitch s ((afterEquals rest).or (some (String.ofList rest)))

/-- Reads an argument by itself; a lone dash is an operand. -/
def read (g : Grammar) (argument : String) : Argument :=
  match argument.toList with
  | '-' :: '-' :: rest => g.readLong rest
  | '-' :: letter :: rest => g.readShort letter rest
  | _ => .operand

end Grammar

/-- Whether an argument cannot be the value of the option before it. -/
def looksLikeSwitch (argument : String) : Bool :=
  match argument.toList with
  | '-' :: _ :: _ => true
  | _ => false

/-! ## All arguments -/

/-- Adds operands. -/
def Grammar.takeOperands (g : Grammar) : List String → Found → Except Halt Found
  | [], found => .ok found
  | value :: rest, found => do
      let found ← found.addOperand g value
      g.takeOperands rest found

/-- Takes arguments up to a command; gives what was found, and the rest from the
command on. -/
def Grammar.take (g : Grammar) :
    List String → Found → Except Halt (Found × List String)
  | [], found => .ok (found, [])
  | argument :: rest, found =>
      if argument = "--" then do
        let found ← g.takeOperands rest found
        return (found, [])
      else
        match g.read argument with
        | .halt reason => .error reason
        | .flag name => do
            let found ← found.addFlag name
            g.take rest found
        | .option name accepts value => do
            let found ← found.addOption name accepts value
            g.take rest found
        | .awaiting name accepts =>
            match rest with
            | [] => .error .misuse
            | value :: rest =>
                if looksLikeSwitch value then .error .misuse
                else do
                  let found ← found.addOption name accepts value
                  g.take rest found
        | .operand =>
            if g.commands.contains argument then .ok (found, argument :: rest)
            else do
              let found ← found.addOperand g argument
              g.take rest found

end SealedGraph.CommandLine
