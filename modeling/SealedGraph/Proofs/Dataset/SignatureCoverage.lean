import Mathlib
import SealedGraph.Proofs.Dataset.ReceivedSignature
import SealedGraph.Proofs.Graph.CanonicalForm
import SealedGraph.Proofs.Graph.SurvivingViews

/-!
# The signature covers the public document

What is signed is the canonical text of the public view without its signature.
Stripping, taking the signature away and sorting all lead from a document that
survives to one that does; and what survives is told apart by its canonical
text.  So the signed bytes determine all of the public view but its signature
and the order of its graph.

## Main results

* `survives_signed`: the document whose text is signed survives.
* `signedBytes_eq_iff`: when the same is signed of two documents.
-/

namespace SealedGraph.Publisher

open Json

/-- The document whose text is signed survives, as does the one that it was made
of. -/
theorem survives_signed {p : Publisher} {room : Nat} {d view : Document}
    (h : Survives Document.ofNormal? Document.json (room + 4) d)
    (hView : p.strip d = .ok view) :
    Survives Document.ofNormal? Document.json (room + 4)
      view.unsigned.sorted := by
  have hRoom : 2 ≤ room + 2 := Nat.le_add_left 2 room
  obtain ⟨graph, hGraph, rfl⟩ := strip_eq_ok.mp hView
  apply Document.survives_sorted
  apply Document.survives_withoutSignature hRoom
  exact Committer.survives_withView Committer.keeps_stripped hRoom h hGraph

/-- Of two documents that were read the same bytes are signed if, and only if,
their public views without signatures and with sorted graphs are one
document. -/
theorem signedBytes_eq_iff {p p' : Publisher} {v v' : Json}
    {d d' view view' : Document} (hRead : Document.ofJson v = .ok d)
    (hRead' : Document.ofJson v' = .ok d') (hView : p.strip d = .ok view)
    (hView' : p'.strip d' = .ok view') :
    p.signedBytes d = p'.signedBytes d' ↔
      view.unsigned.sorted = view'.unsigned.sorted := by
  have hBytes :
      p.signedBytes d = .ok (Bytes.ofText view.unsigned.canonicalText) :=
    signedBytes_eq_ok.mpr ⟨view, hView, rfl⟩
  have hBytes' :
      p'.signedBytes d' = .ok (Bytes.ofText view'.unsigned.canonicalText) :=
    signedBytes_eq_ok.mpr ⟨view', hView', rfl⟩
  -- Each survives in the room that the value it was read from takes, which may
  -- differ.
  have hSigned := survives_signed (Document.survives_of_ofJson hRead) hView
  have hSigned' := survives_signed (Document.survives_of_ofJson hRead') hView'
  rw [hBytes, hBytes']
  constructor
  · intro hSame
    have hText := Bytes.ofText_injective (Except.ok.inj hSame)
    exact hSigned.eq_of_canonicalText_eq hSigned' hText
  · intro hSame
    have hText : view.unsigned.canonicalText = view'.unsigned.canonicalText :=
      congrArg (fun d : Document => d.json.canonicalText) hSame
    rw [hText]

/-! ## Two documents of which the same is signed -/

/-- A document with a null for its id and an object with a private entry. -/
def firstValue : Json :=
  .object [("@id", .null), ("note", .string "c"), ("@graph", .array [
    .object [("@id", .string "a"), ("label", .null),
      ("properties", .object [("private", .array [
        .object [("data", .bool true), ("isPrivate", .bool true)]])])]])]

/-- The same in another order, with other private data and with a signature. -/
def secondValue : Json :=
  .object
    [("@graph", .array
        [.object
          [("properties", .object
              [("private", .array [.object [("data", .bool false)]])]),
            ("@id", .string "a"), ("label", .null)]]),
      ("signature", .array [.string "0x", .string "none"]),
      ("note", .string "c"), ("@id", .null)]

/-- The document that is read of a value, and its public view. -/
def readAndStripped (v : Json) : Except Error (Document × Document) := do
  let d ← Document.ofJson v
  let view ← plainPublisher.strip d
  return (d, view)

theorem readAndStripped_eq_ok {v : Json} {d view : Document}
    (h : readAndStripped v = .ok (d, view)) :
    Document.ofJson v = .ok d ∧ plainPublisher.strip d = .ok view := by
  obtain ⟨_, hRead, h⟩ := bind_eq_ok.mp h
  obtain ⟨_, hView, h⟩ := bind_eq_ok.mp h
  cases h
  exact ⟨hRead, hView⟩

set_option maxRecDepth 100000 in
theorem signedBytes_eq_iff_secret : ∃ d d' view view',
    Document.ofJson firstValue = .ok d ∧ Document.ofJson secondValue = .ok d' ∧
    plainPublisher.strip d = .ok view ∧ plainPublisher.strip d' = .ok view' ∧
    view.signature.isNone ∧ view'.signature.isSome ∧
    plainPublisher.signedBytes d = plainPublisher.signedBytes d' ∧
    view.unsigned.sorted = view'.unsigned.sorted := by
  have hFirst : (readAndStripped firstValue).toOption.isSome := by
    decide +kernel
  have hSecond : (readAndStripped secondValue).toOption.isSome := by
    decide +kernel
  have hUnsigned : ∀ x ∈ (readAndStripped firstValue).toOption,
      x.2.signature.isNone := by
    decide +kernel
  have hSigned : ∀ x ∈ (readAndStripped secondValue).toOption,
      x.2.signature.isSome := by
    decide +kernel
  have hTexts : ∀ x ∈ (readAndStripped firstValue).toOption,
      ∀ y ∈ (readAndStripped secondValue).toOption,
        x.2.unsigned.canonicalText = y.2.unsigned.canonicalText := by
    decide +kernel
  obtain ⟨⟨d, view⟩, hd⟩ := Option.isSome_iff_exists.mp hFirst
  obtain ⟨⟨d', view'⟩, hd'⟩ := Option.isSome_iff_exists.mp hSecond
  obtain ⟨hRead, hView⟩ := readAndStripped_eq_ok (toOption_eq_some.mp hd)
  obtain ⟨hRead', hView'⟩ := readAndStripped_eq_ok (toOption_eq_some.mp hd')
  have hBytes :
      plainPublisher.signedBytes d = plainPublisher.signedBytes d' := by
    rw [signedBytes_eq_ok.mpr ⟨view, hView, rfl⟩,
      signedBytes_eq_ok.mpr ⟨view', hView', rfl⟩]
    rw [hTexts (d, view) hd (d', view') hd']
  have hSame := (signedBytes_eq_iff hRead hRead' hView hView').mp hBytes
  exact ⟨d, d', view, view', hRead, hRead', hView, hView',
    hUnsigned (d, view) hd, hSigned (d', view') hd', hBytes, hSame⟩

end SealedGraph.Publisher
