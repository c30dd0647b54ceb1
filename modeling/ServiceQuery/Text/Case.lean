import ServiceQuery.Text.CaseTable

/-!
# Letter case

Full upper- and lower-case forms of a text. A character may become several characters, and a
capital sigma that closes a word becomes the final form.
-/

namespace ServiceQuery.Text

/-- Images of a character: the expansion if there is one, else the single image, else itself. -/
def caseImage (expansions : List (Nat × List Nat)) (runs : List CaseRun) (c : Char) : List Char :=
  match expansions.lookup c.toNat with
  | some codes => codes.map Char.ofNat
  | none =>
    match CaseRun.apply? runs c.toNat with
    | some code => [Char.ofNat code]
    | none => [c]

/-- The upper-case form of a text. -/
def upper (text : List Char) : List Char :=
  text.flatMap (caseImage upperExpansions upperRuns)

/-- Whether the first character that is not ignorable is a cased one. -/
def meetsCased (text : List Char) : Bool :=
  match text.dropWhile fun c => CodeRange.covers ignorableRanges c.toNat with
  | c :: _ => CodeRange.covers casedRanges c.toNat
  | [] => false

/-- A sigma closes a word when a cased character precedes it and none follows. `before` is the
preceding text, nearest character first. -/
def closesWord (before after : List Char) : Bool :=
  meetsCased before && !meetsCased after

/-- The lower-case form of `text`, given the characters before it, nearest first. -/
def lowerAfter (before : List Char) : List Char → List Char
  | [] => []
  | c :: rest =>
    let image :=
      if c = 'Σ' then
        if closesWord before rest then ['ς'] else ['σ']
      else caseImage lowerExpansions lowerRuns c
    image ++ lowerAfter (c :: before) rest

/-- The lower-case form of a text. -/
def lower (text : List Char) : List Char := lowerAfter [] text

end ServiceQuery.Text
