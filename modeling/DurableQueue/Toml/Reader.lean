import DurableQueue.Toml.Number
import DurableQueue.Toml.Table

/-!
Reading TOML text.

`Toml.parse` reads a whole document into the values of its keys. It says no more than that a text is
no TOML, since nobody is told where.
-/

namespace DurableQueue.Toml

/-- Consumes an expected word. -/
def word (letters : List Char) : Reader Unit := letters.forM Reader.expect

mutual

/-- Reads a value inside of `depth` lists and tables; `fuel` bounds the number of its parts. -/
def value : Nat → Nat → Reader Value
  | 0, _ => failure
  | fuel + 1, depth => do
    match ← Reader.peek with
    | some '"' => return .text (← string)
    | some '\'' => return .text (← string)
    | some '[' => do
      Reader.expect '['
      guard (depth < deepest)
      return .list (← items fuel (depth + 1))
    | some '{' => do
      Reader.expect '{'
      guard (depth < deepest)
      Reader.skipSpace
      match ← Reader.peek with
      | some '}' => do
        Reader.expect '}'
        return .table []
      | _ => return .table (fieldValues (← fields fuel (depth + 1) []))
    | some 't' => do
      word ['t', 'r', 'u', 'e']
      return .bool true
    | some 'f' => do
      word ['f', 'a', 'l', 's', 'e']
      return .bool false
    | some 'i' => float
    | some 'n' => float
    | _ => number

/-- Reads the items of a list after its bracket. -/
def items : Nat → Nat → Reader (List Value)
  | 0, _ => failure
  | fuel + 1, depth => do
    Reader.skipLines (fuel + 1)
    match ← Reader.peek with
    | some ']' => do
      Reader.expect ']'
      return []
    | _ => do
      let v ← value fuel depth
      Reader.skipLines (fuel + 1)
      match ← Reader.peek with
      | some ',' => do
        Reader.expect ','
        return v :: (← items fuel depth)
      | _ => do
        Reader.expect ']'
        return [v]

/-- Reads the fields of a table on one line after its brace. -/
def fields : Nat → Nat → Fields → Reader Fields
  | 0, _, _ => failure
  | fuel + 1, depth, t => do
    let path ← key
    Reader.expect '='
    Reader.skipSpace
    let v ← value fuel depth
    Reader.skipSpace
    let t ← (t.insert path.dropLast (path.getLastD "") v : Option Fields)
    match ← Reader.peek with
    | some ',' => do
      Reader.expect ','
      fields fuel depth t
    | _ => do
      Reader.expect '}'
      return t

end

/-- A document so far, and the table that was opened last. -/
structure Draft where
  root : Fields
  /-- Where the open table is. -/
  place : List String

/-- Reads a header or a key and its value, up to the end of the line. -/
def statement (fuel : Nat) (d : Draft) : Reader Draft := do
  match ← get with
  | '[' :: '[' :: rest => do
    set rest
    let path ← key
    word [']', ']']
    Reader.endLine
    return ⟨← (d.root.openNextTable path.dropLast (path.getLastD "") : Option Fields), path⟩
  | '[' :: rest => do
    set rest
    let path ← key
    Reader.expect ']'
    Reader.endLine
    return ⟨← (d.root.openTable path.dropLast (path.getLastD "") : Option Fields), path⟩
  | _ => do
    let path ← key
    Reader.expect '='
    Reader.skipSpace
    let v ← value fuel 0
    Reader.endLine
    let insert (t : Fields) : Option Fields := t.insert path.dropLast (path.getLastD "") v
    return { d with root := ← (d.root.changeOpen insert d.place : Option Fields) }

/-- Reads statements until the text ends; `lines` bounds their number. -/
def statements (fuel : Nat) : Nat → Draft → Reader Fields
  | 0, _ => failure
  | lines + 1, d => do
    Reader.skipLines fuel
    match ← get with
    | [] => return d.root
    | _ => statements fuel lines (← statement fuel d)

/-- Reads the values of the keys of a document. -/
def parse (text : String) : Option (List (String × Value)) :=
  let cs := match text.toList with
    | '\uFEFF' :: rest => rest
    | cs => cs
  let fuel := cs.length + 1
  (statements fuel fuel ⟨[], []⟩ cs).map fun r => fieldValues r.1

end DurableQueue.Toml
