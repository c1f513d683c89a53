import SealedGraph.Bytes
import SealedGraph.Decimal.Shortest
import SealedGraph.Json.Value

/-!
# JSON text

The canonical text of a value has the members of every object in ascending
order and nothing between tokens.  Every hash and signature is taken over it.
The indented text shows the same value to a reader.
-/

namespace SealedGraph.Json

/-- Numbers with a fraction are written without an exponent from `0.00001` on
and below `10 ^ 16`. -/
def layout : Layout := ⟨-5, 15⟩

/-- The text of a number. -/
def Number.render : Number → List Char
  | .integer n =>
      if n.value < 0 then '-' :: Nat.toDigits 10 n.value.natAbs
      else Nat.toDigits 10 n.value.natAbs
  | .float x =>
      let magnitude := layout.write x.shortest.reduce
      if x.negative then '-' :: magnitude else magnitude

/-- A character inside a string: quotes, backslashes and control characters are
escaped. -/
def renderChar (c : Char) : List Char :=
  match c with
  | '"' => ['\\', '"']
  | '\\' => ['\\', '\\']
  | '\x08' => ['\\', 'b']
  | '\x0c' => ['\\', 'f']
  | '\n' => ['\\', 'n']
  | '\r' => ['\\', 'r']
  | '\t' => ['\\', 't']
  | c =>
      if c.toNat < 32 then
        ['\\', 'u', '0', '0', Nat.digitChar (c.toNat / 16),
          Nat.digitChar (c.toNat % 16)]
      else [c]

/-- A string between its quotes. -/
def renderString (text : String) : List Char :=
  '"' :: (text.toList.flatMap renderChar ++ ['"'])

mutual
/-- The text of a value, its members in the order in which they stand. -/
def render : Json → List Char
  | .null => ['n', 'u', 'l', 'l']
  | .bool true => ['t', 'r', 'u', 'e']
  | .bool false => ['f', 'a', 'l', 's', 'e']
  | .number n => n.render
  | .string text => renderString text
  | .array [] => ['[', ']']
  | .array (item :: rest) => '[' :: (render item ++ renderItems rest)
  | .object [] => ['{', '}']
  | .object ((name, value) :: rest) =>
      '{' :: (renderString name ++ ':' :: (render value ++ renderMembers rest))

/-- Further items, each after a comma, and the closing bracket. -/
def renderItems : List Json → List Char
  | [] => [']']
  | item :: rest => ',' :: (render item ++ renderItems rest)

/-- Further members, each after a comma, and the closing brace. -/
def renderMembers : List (String × Json) → List Char
  | [] => ['}']
  | (name, value) :: rest =>
      ',' :: (renderString name ++ ':' :: (render value ++ renderMembers rest))
end

/-- The canonical text. -/
def canonicalText (json : Json) : String :=
  String.ofList (render json.normalize)

/-- The bytes of the canonical text. -/
def canonicalBytes (json : Json) : Bytes := Bytes.ofText json.canonicalText

/-! ## Indented text -/

/-- A new line, indented by two blanks per level. -/
def newLine (level : Nat) : List Char := '\n' :: List.replicate (2 * level) ' '

mutual
/-- The text of a value with one item or member per line; empty containers stay
closed. -/
def renderIndented (level : Nat) : Json → List Char
  | .array (item :: rest) =>
      '[' :: (newLine (level + 1) ++ (renderIndented (level + 1) item ++
        indentedItems level rest))
  | .object ((name, value) :: rest) =>
      '{' :: (newLine (level + 1) ++ (renderString name ++ ':' :: ' ' ::
        (renderIndented (level + 1) value ++ indentedMembers level rest)))
  | .array [] => ['[', ']']
  | .object [] => ['{', '}']
  | .null => render .null
  | .bool value => render (.bool value)
  | .number value => render (.number value)
  | .string value => render (.string value)

def indentedItems (level : Nat) : List Json → List Char
  | [] => newLine level ++ [']']
  | item :: rest =>
      ',' :: (newLine (level + 1) ++ (renderIndented (level + 1) item ++
        indentedItems level rest))

def indentedMembers (level : Nat) : List (String × Json) → List Char
  | [] => newLine level ++ ['}']
  | (name, value) :: rest =>
      ',' :: (newLine (level + 1) ++ (renderString name ++ ':' :: ' ' ::
        (renderIndented (level + 1) value ++ indentedMembers level rest)))
end

/-- The indented text of the normal form. -/
def indentedText (json : Json) : String :=
  String.ofList (renderIndented 0 json.normalize)

end SealedGraph.Json
