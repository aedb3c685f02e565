import DurableQueue.Store.TableNames
import Mathlib.Data.String.Basic

/-!
Which table names are accepted.

Names stand unquoted in statements, so a name has to be one identifier (`isIdentifier_iff`), and the database
reads it in small letters (`readAs`). Two names are accepted if they are identifiers that are not spelt alike.
This tells two tables apart, except for names that differ in nothing but the case of letters: they are accepted
as well, although they name one table (`tables_told_apart`).
-/

namespace DurableQueue

variable {name : String} {c : Char} {cs : List Char}

/-- A character with which an identifier may begin. -/
def IsNameStart (c : Char) : Prop := ('a' ≤ c ∧ c ≤ 'z') ∨ ('A' ≤ c ∧ c ≤ 'Z') ∨ c = '_'

/-- A letter or an underscore, and up to 62 letters, digits and underscores after it. -/
def IsPlainName (name : String) : Prop :=
  ∃ c cs, name.toList = c :: cs ∧ IsNameStart c ∧ cs.length ≤ 62 ∧
    ∀ d ∈ cs, IsNameStart d ∨ ('0' ≤ d ∧ d ≤ '9')

/-- A name as the database reads it where it stands without quotes. -/
def readAs (name : String) : List Char := name.toList.map Char.toLower

theorem isIdentifierChar_iff : isIdentifierChar c = true ↔ IsNameStart c ∨ ('0' ≤ c ∧ c ≤ '9') := by
  have hclasses : isIdentifierChar c =
      (((decide ('A' ≤ c ∧ c ≤ 'Z') || (decide ('a' ≤ c) && decide (c ≤ 'z'))) ||
        (decide ('0' ≤ c) && decide (c ≤ '9'))) || c == '_') := rfl
  simp only [hclasses, IsNameStart, Bool.or_eq_true, Bool.and_eq_true, decide_eq_true_eq, beq_iff_eq]
  tauto

theorem isDigit_iff : c.isDigit = true ↔ '0' ≤ c ∧ c ≤ '9' := by
  simp only [Char.isDigit, Bool.and_eq_true, decide_eq_true_eq, ge_iff_le, Char.le_def]

/-- Where letters and the underscore are among all characters. -/
theorem IsNameStart.between (h : IsNameStart c) : 65 ≤ c.val.toNat ∧ c.val.toNat ≤ 122 := by
  have ha : 'a'.val.toNat = 97 := rfl
  have hz : 'z'.val.toNat = 122 := rfl
  have hA : 'A'.val.toNat = 65 := rfl
  have hZ : 'Z'.val.toNat = 90 := rfl
  simp only [IsNameStart, Char.le_def, UInt32.le_iff_toNat_le] at h
  rcases h with h | h | rfl
  · omega
  · omega
  · decide

theorem toNat_le_of_digit (h : '0' ≤ c ∧ c ≤ '9') : c.val.toNat ≤ 57 :=
  UInt32.le_iff_toNat_le.mp (Char.le_def.mp h.2)

/-- No identifier begins with a digit. -/
theorem isNameStart_iff : IsNameStart c ↔ isIdentifierChar c = true ∧ c.isDigit = false := by
  rw [isIdentifierChar_iff, Bool.eq_false_iff, Ne, isDigit_iff]
  refine ⟨fun h => ⟨.inl h, fun hdigit => ?_⟩, fun h => h.1.resolve_right h.2⟩
  have hletter := h.between
  have hlow := toNat_le_of_digit hdigit
  omega

theorem utf8Size_of_isIdentifierChar (h : isIdentifierChar c = true) : c.utf8Size = 1 := by
  have hlimit : UInt32.toNat 127 = 127 := rfl
  rw [Char.utf8Size_eq_one_iff, UInt32.le_iff_toNat_le]
  rcases isIdentifierChar_iff.mp h with hletter | hdigit
  · have hhigh := hletter.between
    omega
  · have hlow := toNat_le_of_digit hdigit
    omega

/-- The characters of an identifier are single bytes. -/
theorem utf8Len_of_isIdentifierChar (h : ∀ c ∈ cs, isIdentifierChar c = true) :
    String.utf8Len cs = cs.length := by
  induction cs with
  | nil => rfl
  | cons c cs ih =>
    obtain ⟨hc, hcs⟩ := List.forall_mem_cons.mp h
    rw [String.utf8Len_cons, ih hcs, utf8Size_of_isIdentifierChar hc, List.length_cons]

theorem isIdentifier_iff : isIdentifier name = true ↔ IsPlainName name := by
  cases hname : name.toList with
  | nil => simp [isIdentifier, IsPlainName, hname]
  | cons c cs =>
    have hsize : String.utf8Len (c :: cs) = name.utf8ByteSize := by
      rw [← hname, String.utf8Len_toList]
    simp only [isIdentifier, IsPlainName, hname, Bool.and_eq_true, decide_eq_true_eq, Bool.not_eq_true',
      List.all_eq_true]
    constructor
    · rintro ⟨⟨hlen, hdigit⟩, hall⟩
      rw [← hsize, utf8Len_of_isIdentifierChar hall, List.length_cons] at hlen
      obtain ⟨hc, hcs⟩ := List.forall_mem_cons.mp hall
      exact ⟨c, cs, rfl, isNameStart_iff.mpr ⟨hc, hdigit⟩, by omega,
        fun d hd => isIdentifierChar_iff.mp (hcs d hd)⟩
    · rintro ⟨_, _, ⟨⟩, hc, hlen, hcs⟩
      obtain ⟨hc, hdigit⟩ := isNameStart_iff.mp hc
      have hall : ∀ d ∈ c :: cs, isIdentifierChar d = true :=
        List.forall_mem_cons.mpr ⟨hc, fun d hd => isIdentifierChar_iff.mpr (hcs d hd)⟩
      refine ⟨⟨?_, hdigit⟩, hall⟩
      rw [← hsize, utf8Len_of_isIdentifierChar hall, List.length_cons]
      omega

instance : Decidable (IsPlainName name) := decidable_of_iff _ isIdentifier_iff

namespace TableNames

/-- The names of two tables. -/
structure AreTwoTables (t : TableNames) : Prop where
  table : IsPlainName t.table
  history : IsPlainName t.history
  apart : readAs t.table ≠ readAs t.history

/-- Two spellings of the name of one table. -/
structure IsOneTableTwice (t : TableNames) : Prop where
  table : IsPlainName t.table
  history : IsPlainName t.history
  spelling : t.table ≠ t.history
  alike : readAs t.table = readAs t.history

theorem checkName_eq (name : String) :
    checkName name = if IsPlainName name then .ok ()
      else .error (.invalidInput ("invalid table name: " ++ Text.quoted name)) := by
  simp only [checkName, isIdentifier_iff]

/-- What is found wrong first: the name of the table, the other name, that they are the same. -/
theorem validate_eq (t : TableNames) :
    t.validate =
      if IsPlainName t.table then
        if IsPlainName t.history then
          if t.table = t.history then .error (.invalidInput "history table must differ from the entry table")
          else .ok ()
        else .error (.invalidInput ("invalid table name: " ++ Text.quoted t.history))
      else .error (.invalidInput ("invalid table name: " ++ Text.quoted t.table)) := by
  simp only [validate, checkName_eq]
  split
  · split
    · split <;> rfl
    · rfl
  · rfl

theorem validate_eq_ok_iff (t : TableNames) :
    t.validate = .ok () ↔ IsPlainName t.table ∧ IsPlainName t.history ∧ t.table ≠ t.history := by
  rw [validate_eq]
  split
  · split
    · split <;> simp [*]
    · simp [*]
  · simp [*]

/-- Names are accepted exactly if they are identifiers of two tables, or of one table that is spelt in two ways. -/
theorem tables_told_apart (t : TableNames) :
    t.validate = .ok () ↔ t.AreTwoTables ∨ t.IsOneTableTwice := by
  rw [validate_eq_ok_iff]
  constructor
  · rintro ⟨htable, hhistory, hspelling⟩
    by_cases halike : readAs t.table = readAs t.history
    · exact .inr ⟨htable, hhistory, hspelling, halike⟩
    · exact .inl ⟨htable, hhistory, halike⟩
  · rintro (h | h)
    · exact ⟨h.table, h.history, fun heq => h.apart (congrArg readAs heq)⟩
    · exact ⟨h.table, h.history, h.spelling⟩

/-- Names that are accepted, although the history would go to the table of the entries. -/
theorem one_table_accepted :
    (TableNames.mk "Entries" "entries").validate = .ok () ∧
      ¬(TableNames.mk "Entries" "entries").AreTwoTables :=
  ⟨by decide, fun h => h.apart (by decide)⟩

end TableNames

end DurableQueue
