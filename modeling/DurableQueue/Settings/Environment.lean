import DurableQueue.Data.Value
import DurableQueue.Decimal.Binary64
import DurableQueue.Text.Blank
import DurableQueue.Text.Escaped

/-!
Values of environment variables.

`Environment.value` reads a truth value, a number, a text in quotes, a list or a table; whatever is
none of these is a text as it stands. `Environment.layers` puts the values under the names of their
variables; the case of letters in names does not matter.

In a text in quotes the part before the first escape is cut to as many bytes as it has characters.
ASCII keeps its length; a text whose cut goes through a character has no value at all.
-/

namespace DurableQueue.Environment

/-- Why a text has no reading. -/
inductive Obstacle where
  /-- The text is malformed, and stands for itself. -/
  | malformed
  /-- The cut at the first escape goes through a character. -/
  | splitCharacter
deriving DecidableEq

/-- Whether a character is an ASCII blank between the parts of a value. -/
def isSpace (c : Char) : Bool :=
  c == ' ' || c == '\t' || c == '\n' || c == '\r' || c == '\x0c'

/-- Whether a character ends a bare value. -/
def isSeparator (c : Char) : Bool := c == ',' || c == '\x7b' || c == '\x7d' || c == '[' || c == ']'

/-- The number of decimal digits, if there is one and nothing else. -/
def digits? (cs : List Char) : Option Nat :=
  if cs.isEmpty || !cs.all Char.isDigit then none
  else some (cs.foldl (fun n c => 10 * n + (c.toNat - '0'.toNat)) 0)

/-- A whole number that fits 64 bits, without or with a sign. -/
def integer? (cs : List Char) : Option Value :=
  let unsigned (cs : List Char) : Option Value :=
    (digits? cs).bind fun n => if n < UInt64.size then some (.unsigned n) else none
  match cs with
  | '+' :: rest => unsigned rest
  | '-' :: rest =>
    (digits? rest).bind fun n => if n ≤ Nat.pow 2 63 then some (.signed (-n)) else none
  | cs => unsigned cs

/-- The exponent of a number; an empty text is no exponent. -/
def exponent? (cs : List Char) : Option Int :=
  match cs with
  | [] => some 0
  | _ :: '-' :: rest => (digits? rest).map fun n => -n
  | _ :: '+' :: rest => (digits? rest).map fun n => n
  | _ :: rest => (digits? rest).map fun n => n

/-- A number with a point. -/
def float? (cs : List Char) : Option Float :=
  let (negative, cs) := match cs with
    | '-' :: rest => (true, rest)
    | '+' :: rest => (false, rest)
    | cs => (false, cs)
  let isMark (c : Char) : Bool := c == 'e' || c == 'E'
  let mantissa := cs.takeWhile fun c => !isMark c
  let whole := mantissa.takeWhile fun c => c != '.'
  let fraction := (mantissa.drop whole.length).tail
  if mantissa.length = whole.length then none
  else do
    let significand ← digits? (whole ++ fraction)
    let exponent ← exponent? (cs.drop mantissa.length)
    let x := Binary64.ofDecimal significand (exponent - fraction.length)
    return if negative then -x else x

/-- What a bare text stands for. -/
def bare (cs : List Char) : Value :=
  let cs := Text.trim cs
  match float? cs with
  | some x => .float x
  | none =>
    match integer? cs with
    | some v => v
    | none => .text (String.ofList cs)

/-- The text after its blanks. -/
def skip (cs : List Char) : List Char := cs.dropWhile isSpace

/-- Whether a character may stand in a key. -/
def isKeyChar (c : Char) : Bool := c.isAlphanum || c == '_' || c == '-'

/-- The text up to the closing quote, and what follows the quote. A backslash takes the character
after it along. -/
def enclosed? : List Char → Option (List Char × List Char)
  | '"' :: rest => some ([], rest)
  | '\\' :: c :: rest => (enclosed? rest).map fun r => ('\\' :: c :: r.1, r.2)
  | c :: rest => (enclosed? rest).map fun r => (c :: r.1, r.2)
  | [] => none

/-- The characters in the first `size` bytes, if the last byte ends a character. -/
def firstBytes? : Nat → List Char → Option (List Char)
  | 0, _ => some []
  | _ + 1, [] => none
  | size + 1, c :: rest =>
    if c.utf8Size ≤ size + 1 then
      (firstBytes? (size + 1 - c.utf8Size) rest).map (c :: ·)
    else none

/-- Reads a text after its opening quote. -/
def quoted (cs : List Char) : Except Obstacle (List Char × List Char) :=
  match enclosed? cs with
  | none => .error .malformed
  | some (inner, rest) =>
    let plain := inner.takeWhile fun c => c != '\\'
    if !plain.all Text.isPlain then .error .malformed
    else
      match inner.drop plain.length with
      | [] => .ok (inner, rest)
      | escapes =>
        match firstBytes? plain.length plain, Text.readEscaped (escapes ++ ['"']) with
        | none, _ => .error .splitCharacter
        | some _, none => .error .malformed
        | some kept, some (tail, _) => .ok (kept ++ tail, rest)

example : quoted ['é', 'é', '\\', 'n', '"'] = .ok (['é', '\n'], []) := rfl

example : quoted ['é', '\\', 'n', '"'] = .error .splitCharacter := rfl

/-- Reads the key of a field and the equals sign after it. -/
def key (cs : List Char) : Except Obstacle (String × List Char) := do
  let (name, rest) ← match skip cs with
    | '"' :: rest => quoted rest
    | cs =>
      match cs.takeWhile isKeyChar with
      | [] => .error .malformed
      | name => .ok (name, cs.drop name.length)
  match skip rest with
  | '=' :: rest => .ok (String.ofList name, rest)
  | _ => .error .malformed

mutual

/-- Reads a value and the blanks around it; `fuel` bounds its depth and the number of its parts. -/
def read : Nat → List Char → Except Obstacle (Value × List Char)
  | 0, _ => .error .malformed
  | fuel + 1, cs => do
    let (v, rest) ← match skip cs with
      | 't' :: 'r' :: 'u' :: 'e' :: rest => .ok (.bool true, rest)
      | 'f' :: 'a' :: 'l' :: 's' :: 'e' :: rest => .ok (.bool false, rest)
      | '\x7b' :: rest => do
        let (vs, rest) ← fields fuel rest
        .ok (.table vs, rest)
      | '[' :: rest => do
        let (vs, rest) ← items fuel rest
        .ok (.list vs, rest)
      | '"' :: rest => do
        let (text, rest) ← quoted rest
        .ok (.text (String.ofList text), rest)
      | '\'' :: c :: '\'' :: rest => .ok (.character c, rest)
      | '\'' :: _ => .error .malformed
      | cs =>
        let run := cs.takeWhile fun c => !isSeparator c
        .ok (bare run, cs.drop run.length)
    .ok (v, skip rest)

/-- Reads the items of a list after its bracket. -/
def items : Nat → List Char → Except Obstacle (List Value × List Char)
  | 0, _ => .error .malformed
  | _ + 1, ']' :: rest => .ok ([], rest)
  | fuel + 1, cs => do
    let (v, rest) ← read fuel cs
    match rest with
    | ',' :: rest => do
      let (vs, rest) ← items fuel rest
      .ok (v :: vs, rest)
    | ']' :: rest => .ok ([v], rest)
    | _ => .error .malformed

/-- Reads the fields of a table after its brace. -/
def fields : Nat → List Char → Except Obstacle (List (String × Value) × List Char)
  | 0, _ => .error .malformed
  | _ + 1, '\x7d' :: rest => .ok ([], rest)
  | fuel + 1, cs => do
    let (name, rest) ← key cs
    let (v, rest) ← read fuel rest
    match rest with
    | ',' :: rest => do
      let (vs, rest) ← fields fuel rest
      .ok ((name, v) :: vs, rest)
    | '\x7d' :: rest => .ok ([(name, v)], rest)
    | _ => .error .malformed

end

/-- Whether there can be a variable of this name and text: the name is neither empty nor has it an
equals sign, and no NUL is in either. -/
def canHold (name text : String) : Bool :=
  !name.isEmpty && !name.toList.contains '=' && !(name ++ text).toList.contains '\x00'

/-- The value of a variable, unless it has none. -/
def value? (text : String) : Option Value :=
  match read (2 * text.length + 2) text.toList with
  | .ok (v, []) => some v
  | .error .splitCharacter => none
  | _ => some (.text text)

/-- A value under a key of several parts. -/
def nest (path : List String) (v : Value) : Value :=
  path.foldr (fun part v => .table [(part, v)]) v

/-- A text in lower case, as far as it is ASCII. -/
def lower (cs : List Char) : List Char := cs.map Char.toLower

/-- What is left of a name without its beginning. -/
def without? (beginning : String) (name : List Char) : Option (List Char) :=
  let start := beginning.toList
  if lower (name.take start.length) = lower start then some (name.drop start.length) else none

/-- A name, if it is one of these. -/
def among? (names : List String) (name : List Char) : Option (List Char) :=
  if names.any fun n => lower n.toList = lower name then some name else none

/-- The path that a key with points stands for; a part may not be empty. -/
def path? (key : List Char) : Option (List String) :=
  let parts := (String.ofList (lower (Text.trim key))).splitOn "."
  if parts.any String.isEmpty then none else some parts

/-- The tables that variables make under the keys that are picked for their names, unless one of
these variables has no value. -/
def layers (pick : List Char → Option (List Char)) (pairs : List (String × String)) :
    Option (List Value) :=
  pairs.filterMapM fun (name, text) =>
    match (pick (Text.trim name.toList)).bind path? with
    | none => some none
    | some path => (value? text).map fun v => some (nest path v)

end DurableQueue.Environment
