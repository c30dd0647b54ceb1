import ServiceQuery.Toml.Scalar
import ServiceQuery.Toml.Table

namespace ServiceQuery.Toml

/-- A key as the path to its table and its name there. -/
def splitLast : List String → Option (List String × String)
  | [] => none
  | [name] => some ([], name)
  | part :: rest => (splitLast rest).map fun (path, name) => (part :: path, name)

/-- Reads the items of an array after its bracket or a comma; `fuel` bounds their number. -/
def readItems (item : Reader Toml) : Nat → Reader (List Toml)
  | 0, _ => none
  | fuel + 1, text =>
    match skipLines text.length text with
    | ']' :: rest => some ([], rest)
    | text => do
      let (value, rest) ← item text
      match skipLines rest.length rest with
      | ',' :: rest => do
        let (items, rest) ← readItems item fuel rest
        pure (value :: items, rest)
      | ']' :: rest => pure ([value], rest)
      | _ => none

/-- Reads a key and its value with the blanks around them. -/
def readPair (value : Reader Toml) (text : List Char) :
    Option ((List String × Toml) × List Char) := do
  let (key, rest) ← readKey text
  match rest with
  | '=' :: rest => do
    let (value, rest) ← value (skipBlanks rest)
    pure ((key, value), skipBlanks rest)
  | _ => none

/-- Reads the pairs of an inline table up to its closing brace; `fuel` bounds their number. -/
def readPairs (value : Reader Toml) : Nat → Entries → Reader Entries
  | 0, _, _ => none
  | fuel + 1, entries, text => do
    let ((key, item), rest) ← readPair value text
    let (path, name) ← splitLast key
    let entries ← insertKey path name item entries
    match rest with
    | ',' :: rest => readPairs value fuel entries rest
    | '\x7d' :: rest => pure (entries, rest)
    | _ => none

/-- Reads an inline table after its opening brace. -/
def readInline (value : Reader Toml) (text : List Char) : Option (Toml × List Char) :=
  match skipBlanks text with
  | '\x7d' :: rest => some (.table [], rest)
  | text => do
    let (entries, rest) ← readPairs value (text.length + 1) [] text
    pure (.table (finishEntries entries), rest)

/-- Reads a value; `depth` bounds the nesting of arrays and inline tables. -/
def readValue : Nat → Reader Toml
  | 0, text => readScalar text
  | depth + 1, text =>
    match text with
    | '[' :: rest => do
      let (items, rest) ← readItems (readValue depth) (rest.length + 1) rest
      pure (.array items, rest)
    | '\x7b' :: rest => readInline (readValue depth) rest
    | _ => readScalar text

/-- The table that the last header has opened, and all tables so far. -/
structure Document where
  header : List String := []
  entries : Entries := []

namespace Document

/-- Opens the table of a header. -/
def openHeader (document : Document) (element : Bool) (key : List String) : Option Document := do
  let (path, name) ← splitLast key
  let entries ←
    if element then openElement path name document.entries
    else openTable path name document.entries
  pure ⟨key, entries⟩

/-- Adds a key with its value to the current table. -/
def insert (document : Document) (key : List String) (value : Toml) : Option Document := do
  let (path, name) ← splitLast key
  let entries ← withCurrent (insertKey path name value) document.header document.entries
  pure { document with entries := entries }

/-- Reads a header or a key with its value. -/
def readStatement (document : Document) (text : List Char) : Option (Document × List Char) :=
  match text with
  | '[' :: '[' :: rest => do
    match ← readKey rest with
    | (key, ']' :: ']' :: rest) => (document.openHeader true key).map (·, rest)
    | _ => none
  | '[' :: rest => do
    match ← readKey rest with
    | (key, ']' :: rest) => (document.openHeader false key).map (·, rest)
    | _ => none
  | text => do
    let ((key, value), rest) ← readPair (readValue maxDepth) text
    (document.insert key value).map (·, rest)

/-- Reads line after line; `fuel` bounds their number. -/
def readLines : Nat → Document → List Char → Option Document
  | 0, _, _ => none
  | fuel + 1, document, text =>
    match skipBlanks text with
    | [] => some document
    | text =>
      match lineEnd? text with
      | some rest => readLines fuel document rest
      | none => do
        let (document, rest) ← document.readStatement text
        let rest ← lineEnd? rest
        readLines fuel document rest

end Document

/-- The text without a byte order mark at its start. -/
def skipMark : List Char → List Char
  | '\uFEFF' :: rest => rest
  | text => text

/-- Reads a document. -/
def parse (text : String) : Option Toml := do
  let chars := skipMark text.toList
  let document ← Document.readLines (chars.length + 1) {} chars
  pure (.table (finishEntries document.entries))

end ServiceQuery.Toml
