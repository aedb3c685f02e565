/-!
Text in double quotes with escapes.

`Text.readEscaped` reads the text after an opening quote up to the closing one. A backslash stands
before a letter, a quote, a backslash or the hexadecimal digits of a code point; control characters
other than the tabulator have to be escaped.
-/

namespace DurableQueue.Text

/-- The value of a hexadecimal digit. -/
def hexDigit? (c : Char) : Option Nat :=
  if c.isDigit then some (c.toNat - '0'.toNat)
  else if 'a' ≤ c ∧ c ≤ 'f' then some (c.toNat - 'a'.toNat + 10)
  else if 'A' ≤ c ∧ c ≤ 'F' then some (c.toNat - 'A'.toNat + 10)
  else none

/-- The character whose code point these hexadecimal digits are. -/
def ofCodePoint? (digits : List Char) : Option Char := do
  let values ← digits.mapM hexDigit?
  let code := values.foldl (fun n d => 16 * n + d) 0
  if code.isValidChar then some (Char.ofNat code) else none

/-- The character that a letter stands for after a backslash. -/
def escaped? : Char → Option Char
  | 'b' => some '\x08'
  | 't' => some '\t'
  | 'n' => some '\n'
  | 'f' => some '\x0c'
  | 'r' => some '\r'
  | '"' => some '"'
  | '\\' => some '\\'
  | _ => none

/-- Whether a character may stand for itself. -/
def isPlain (c : Char) : Bool := c == '\t' || (0x20 ≤ c.toNat && c.toNat != 0x7f)

/-- Puts a character in front of what was read. -/
def consRead (c : Char) (r : List Char × List Char) : List Char × List Char := (c :: r.1, r.2)

/-- Reads text after its opening quote: the text, and what follows the closing quote. -/
def readEscaped : List Char → Option (List Char × List Char)
  | '"' :: rest => some ([], rest)
  | '\\' :: 'u' :: a :: b :: c :: d :: rest => do
    let x ← ofCodePoint? [a, b, c, d]
    return consRead x (← readEscaped rest)
  | '\\' :: 'U' :: a :: b :: c :: d :: e :: f :: g :: h :: rest => do
    let x ← ofCodePoint? [a, b, c, d, e, f, g, h]
    return consRead x (← readEscaped rest)
  | '\\' :: c :: rest => do
    let x ← escaped? c
    return consRead x (← readEscaped rest)
  | c :: rest => do
    if isPlain c then return consRead c (← readEscaped rest) else none
  | [] => none

example : readEscaped ['a', '\\', 'n', '"', 'b'] = some (['a', '\n'], ['b']) := by decide

end DurableQueue.Text
