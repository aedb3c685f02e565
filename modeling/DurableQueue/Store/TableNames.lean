import DurableQueue.Store.Error

/-!
Names of database tables.

Table names become part of statements, so `TableNames.validate` accepts only plain identifiers:
ASCII letters, digits and underscores, at most 63 of them, no digit in front, and two different
names.
-/

namespace DurableQueue

/-- The tables of the live and of the purged entries. -/
structure TableNames where
  table : String
  history : String
deriving DecidableEq, Repr

/-- Whether a character may stand in an identifier. -/
def isIdentifierChar (c : Char) : Bool := c.isAlphanum || c == '_'

def isIdentifier (name : String) : Bool :=
  match name.toList with
  | [] => false
  | c :: cs => name.utf8ByteSize ≤ 63 && !c.isDigit && (c :: cs).all isIdentifierChar

namespace TableNames

def standard : TableNames := ⟨"spool_entries", "spool_entries_history"⟩

def checkName (name : String) : Except StoreError Unit :=
  if isIdentifier name then .ok ()
  else .error (.invalidInput ("invalid table name: " ++ Text.quoted name))

def validate (t : TableNames) : Except StoreError Unit := do
  checkName t.table
  checkName t.history
  if t.table = t.history then throw (.invalidInput "history table must differ from the entry table")

end TableNames

end DurableQueue
