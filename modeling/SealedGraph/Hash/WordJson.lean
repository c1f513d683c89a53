import SealedGraph.Hash.Word
import SealedGraph.Json.Record

/-!
# Words in JSON

A word stands in JSON as a string of `0x` and 64 digits; it is read with or
without the marker and in any case.
-/

namespace SealedGraph.Word

def json (word : Word) : Json := .string word.text

def ofJson? (json : Json) : Option Word := do
  let text ← json.string?
  (ofHex text).toOption

end SealedGraph.Word
