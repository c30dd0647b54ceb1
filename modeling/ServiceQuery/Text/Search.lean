/-!
# Searching and cutting text

Texts are lists of characters, so every index counts characters.
-/

namespace ServiceQuery.Text

/-- The least index at which `part` occurs in `text`. -/
def indexOf? (part : List Char) : List Char → Option Nat
  | [] => if part.isEmpty then some 0 else none
  | c :: rest =>
    if part.isPrefixOf (c :: rest) then some 0 else (indexOf? part rest).map (· + 1)

/-- Whether `part` occurs in `text`. -/
def occursIn (part text : List Char) : Bool := (indexOf? part text).isSome

/-- Replaces the occurrences of the non-empty `part`, after skipping `skip` characters that belong
to an occurrence already replaced. -/
def replaceFrom (part substitute : List Char) : Nat → List Char → List Char
  | _, [] => []
  | skip + 1, _ :: rest => replaceFrom part substitute skip rest
  | 0, c :: rest =>
    if part.isPrefixOf (c :: rest) then
      substitute ++ replaceFrom part substitute (part.length - 1) rest
    else c :: replaceFrom part substitute 0 rest

/-- Replaces every occurrence of `part`, from left to right and without overlap. The empty text
occurs before every character and at the end. -/
def replace (part substitute text : List Char) : List Char :=
  if part.isEmpty then substitute ++ text.flatMap fun c => c :: substitute
  else replaceFrom part substitute 0 text

/-- The pieces of a text between the characters that satisfy `isSeparator`; at least one piece. -/
def split (isSeparator : Char → Bool) : List Char → List (List Char)
  | [] => [[]]
  | c :: rest =>
    if isSeparator c then [] :: split isSeparator rest
    else
      match split isSeparator rest with
      | piece :: pieces => (c :: piece) :: pieces
      | [] => [[c]]

/-- The text before and after the first character that satisfies `isSeparator`. -/
def splitOnce (isSeparator : Char → Bool) : List Char → Option (List Char × List Char)
  | [] => none
  | c :: rest =>
    if isSeparator c then some ([], rest)
    else (splitOnce isSeparator rest).map fun (before, after) => (c :: before, after)

/-- The rest of a text that begins with `part`. -/
def afterPart? : List Char → List Char → Option (List Char)
  | [], text => some text
  | p :: part, c :: text => if p = c then afterPart? part text else none
  | _ :: _, [] => none

/-- Pieces put together with `separator` between them. -/
def join (separator : String) (pieces : List String) : String :=
  separator.intercalate pieces

end ServiceQuery.Text
