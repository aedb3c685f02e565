import DurableQueue.Text.Escaped

/-!
Blanks, strings and keys of TOML text.

A `Reader` consumes text from the front and fails on text that is no TOML. A string is basic, with
escapes, or literal, without, and either may span lines.
-/

namespace DurableQueue.Toml

/-- A step over the text; it fails on text that is no TOML. -/
abbrev Reader (α : Type) := StateT (List Char) Option α

namespace Reader

/-- Consumes an expected character. -/
def expect (c : Char) : Reader Unit
  | d :: rest => if d = c then some ((), rest) else none
  | [] => none

/-- The next character, not consumed. -/
def peek : Reader (Option Char) := fun cs => some (cs.head?, cs)

/-- Whether a character is a blank inside a line. -/
def isSpace (c : Char) : Bool := c == ' ' || c == '\t'

/-- Skips blanks inside a line. -/
def skipSpace : Reader Unit := modify fun cs => cs.dropWhile isSpace

/-- Skips a comment, if one is ahead. -/
def skipComment : Reader Unit :=
  modify fun
    | '#' :: rest => rest.dropWhile Text.isPlain
    | cs => cs

/-- The text after a line break, if one is ahead. -/
def afterBreak? : List Char → Option (List Char)
  | '\n' :: rest => some rest
  | '\r' :: '\n' :: rest => some rest
  | _ => none

/-- Consumes the end of a line, or of the text. -/
def endLine : Reader Unit := do
  skipSpace
  skipComment
  fun
    | [] => some ((), [])
    | cs => (afterBreak? cs).map fun rest => ((), rest)

/-- Skips blanks, comments and line breaks; `fuel` bounds the number of lines. -/
def skipLines : Nat → Reader Unit
  | 0 => pure ()
  | fuel + 1 => do
    skipSpace
    skipComment
    let cs ← get
    match afterBreak? cs with
    | some rest =>
      set rest
      skipLines fuel
    | none => pure ()

end Reader

open Text (consRead)

/-- Whether a backslash before this text ends its line for the eye only. -/
def joinsLines (cs : List Char) : Bool := (Reader.afterBreak? (cs.dropWhile Reader.isSpace)).isSome

/-- Reads a basic string of several lines after its opening; while `joining`, blanks and line breaks
are skipped. -/
def longBasic (joining : Bool) : List Char → Option (List Char × List Char)
  | '"' :: '"' :: '"' :: '"' :: '"' :: rest => some (['"', '"'], rest)
  | '"' :: '"' :: '"' :: '"' :: rest => some (['"'], rest)
  | '"' :: '"' :: '"' :: rest => some ([], rest)
  | '\\' :: 'u' :: a :: b :: c :: d :: rest => do
    let x ← Text.ofCodePoint? [a, b, c, d]
    return consRead x (← longBasic false rest)
  | '\\' :: 'U' :: a :: b :: c :: d :: e :: f :: g :: h :: rest => do
    let x ← Text.ofCodePoint? [a, b, c, d, e, f, g, h]
    return consRead x (← longBasic false rest)
  | '\\' :: c :: rest =>
    if joinsLines (c :: rest) then longBasic true rest
    else do
      let x ← Text.escaped? c
      return consRead x (← longBasic false rest)
  | '\r' :: '\n' :: rest => do
    if joining then longBasic true rest else return consRead '\n' (← longBasic false rest)
  | '\n' :: rest => do
    if joining then longBasic true rest else return consRead '\n' (← longBasic false rest)
  | c :: rest => do
    if joining && Reader.isSpace c then longBasic true rest
    else if Text.isPlain c then return consRead c (← longBasic false rest)
    else none
  | [] => none

/-- Reads a literal string after its opening quote. -/
def literal : List Char → Option (List Char × List Char)
  | '\'' :: rest => some ([], rest)
  | c :: rest => do
    if Text.isPlain c then return consRead c (← literal rest) else none
  | [] => none

/-- Reads a literal string of several lines after its opening. -/
def longLiteral : List Char → Option (List Char × List Char)
  | '\'' :: '\'' :: '\'' :: '\'' :: '\'' :: rest => some (['\'', '\''], rest)
  | '\'' :: '\'' :: '\'' :: '\'' :: rest => some (['\''], rest)
  | '\'' :: '\'' :: '\'' :: rest => some ([], rest)
  | '\r' :: '\n' :: rest => do return consRead '\n' (← longLiteral rest)
  | '\n' :: rest => do return consRead '\n' (← longLiteral rest)
  | c :: rest => do
    if Text.isPlain c then return consRead c (← longLiteral rest) else none
  | [] => none

/-- The text of a string of several lines without the line break after its opening. -/
def withoutFirstBreak (cs : List Char) : List Char := (Reader.afterBreak? cs).getD cs

/-- Reads a string, whose opening quote is ahead. -/
def string : Reader String := fun cs =>
  let found := match cs with
    | '"' :: '"' :: '"' :: rest => longBasic false (withoutFirstBreak rest)
    | '\'' :: '\'' :: '\'' :: rest => longLiteral (withoutFirstBreak rest)
    | '"' :: rest => Text.readEscaped rest
    | '\'' :: rest => literal rest
    | _ => none
  found.map fun r => (String.ofList r.1, r.2)

/-- Whether a character may stand in a bare key. -/
def isBareChar (c : Char) : Bool := c.isAlphanum || c == '_' || c == '-'

def keyPart : Reader String := fun cs =>
  match cs with
  | '"' :: rest => (Text.readEscaped rest).map fun r => (String.ofList r.1, r.2)
  | '\'' :: rest => (literal rest).map fun r => (String.ofList r.1, r.2)
  | _ =>
    match cs.takeWhile isBareChar with
    | [] => none
    | name => some (String.ofList name, cs.drop name.length)

/-- How many lists and tables may stand around a value, and how many parts a key may have. -/
def deepest : Nat := 79

/-- Reads at most so many parts of a key, with points between them. -/
def keyParts : Nat → Reader (List String)
  | 0 => failure
  | most + 1 => do
    Reader.skipSpace
    let part ← keyPart
    Reader.skipSpace
    match ← Reader.peek with
    | some '.' =>
      Reader.expect '.'
      return part :: (← keyParts most)
    | _ => return [part]

def key : Reader (List String) := keyParts deepest

end DurableQueue.Toml
