import DurableQueue.Proofs.Json.Strings
import DurableQueue.Proofs.Lists
import Mathlib.Data.List.Nodup

/-!
Reading what was written as a JSON object.

A shape is `Legible` if its values are read back from what is written of them. Texts are, and so are records
of legible fields that have distinct names.
-/

namespace DurableQueue.Json

open Scanner

/-- A shape whose values are read back from what is written of them, whatever follows. -/
def Legible (shape : Shape) : Prop :=
  ∀ d text, write shape d = some text → (read shape).Reads (bytesOf text.toList) d

/-- A field of a record, its value and what is written of it. -/
structure WrittenField where
  field : FieldReader
  value : Datum
  text : String

namespace WrittenField

variable {strict : Bool} {fields : List FieldReader} {seen : List (String × Datum)} {w : WrittenField}
  {ws : List WrittenField}

def IsLegible (w : WrittenField) : Prop := w.field.read.Reads (bytesOf w.text.toList) w.value

/-- The bytes of a field under its name. -/
def bytes (w : WrittenField) : List UInt8 :=
  bytesOf (writeText w.field.name).toList ++ 0x3a :: bytesOf w.text.toList

/-- The name and the value of a field. -/
def pair (w : WrittenField) : String × Datum := (w.field.name, w.value)

/-- The bytes of the fields after the first one. -/
def bytesAfter (ws : List WrittenField) : List UInt8 := ws.flatMap fun w => 0x2c :: w.bytes

theorem bytesAfter_cons (w : WrittenField) (ws : List WrittenField) :
    bytesAfter (w :: ws) = 0x2c :: bytesOf (writeText w.field.name).toList ++
      (0x3a :: bytesOf w.text.toList) ++ bytesAfter ws := rfl

theorem bytesAfter_eq_cons (w : WrittenField) (ws : List WrittenField) :
    bytesAfter (w :: ws) = 0x2c :: (bytesAfter (w :: ws)).tail := by
  rw [bytesAfter_cons, List.cons_append, List.cons_append, List.tail_cons]

theorem length_le_bytesAfter (ws : List WrittenField) : ws.length ≤ (bytesAfter ws).length := by
  induction ws with
  | nil => exact Nat.le_refl 0
  | cons w ws ih =>
    simp only [bytesAfter_cons, List.length_append, List.length_cons]
    omega

theorem nextKey_reads (name : String) :
    (nextKey true).Reads (bytesOf (writeText name).toList) (some name) ∧
      (nextKey false).Reads (0x2c :: bytesOf (writeText name).toList) (some name) := by
  rw [bytesOf_writeText]
  have hkey : (do advance; return some (← string) : Scanner (Option String)).Reads
      (0x22 :: (bytesOf (name.toList.flatMap escapedChar) ++ [0x22])) (some name) :=
    (Reads.advance 0x22).bind ((string_reads name).bind_last (.pure _))
  refine ⟨Reads.peekToken_bind rfl hkey, Reads.peekToken_bind rfl ?_⟩
  exact (Reads.advance 0x2c).bind (Reads.peekToken_bind rfl hkey)

theorem colon_reads : colon.Reads [0x3a] () := Reads.peekToken_bind rfl (.advance 0x3a)

/-- Reading a field and then the others. -/
theorem readFieldsByName_cons {fuel : Nat} {first : Bool} {key : List UInt8}
    (hkey : (nextKey first).Reads key (some w.field.name)) (hread : w.IsLegible)
    (hfind : fields.find? (fun f => f.name == w.field.name) = some w.field)
    (hnew : seen.lookup w.field.name = none) (rest : List UInt8) (index : Nat) :
    readFieldsByName strict fields (fuel + 1) first seen
        ⟨key ++ (0x3a :: bytesOf w.text.toList ++ rest), index⟩ =
      readFieldsByName strict fields fuel false (w.pair :: seen)
        ⟨rest, index + (key ++ 0x3a :: bytesOf w.text.toList).length⟩ := by
  rw [readFieldsByName, bind_apply (hkey _ _)]
  simp only [hfind, hnew, Option.isSome_none, Bool.false_eq_true, ↓reduceIte]
  rw [List.cons_append, ← List.singleton_append, bind_apply (colon_reads _ _), bind_apply (hread _ _)]
  simp only [List.length_append, List.length_cons, List.length_nil]
  congr 2
  omega

/-- Reading the fields after the first one, up to the brace. -/
theorem readFieldsByName_bytesAfter (hread : ∀ w ∈ ws, w.IsLegible)
    (hfind : ∀ w ∈ ws, fields.find? (fun f => f.name == w.field.name) = some w.field)
    (hnew : ((ws.map pair).reverse ++ seen).map Prod.fst |>.Nodup) {fuel : Nat} (hfuel : ws.length < fuel)
    (rest : List UInt8) (index : Nat) :
    readFieldsByName strict fields fuel false seen ⟨bytesAfter ws ++ 0x7d :: rest, index⟩ =
      (fields.mapM fun f => fieldOrFallback f ((ws.map pair).reverse ++ seen))
        ⟨0x7d :: rest, index + (bytesAfter ws).length⟩ := by
  induction ws generalizing seen fuel index with
  | nil =>
    obtain ⟨fuel, rfl⟩ : ∃ n, fuel = n + 1 := ⟨fuel - 1, by simp at hfuel; omega⟩
    rfl
  | cons w ws ih =>
    obtain ⟨fuel, rfl⟩ : ∃ n, fuel = n + 1 := ⟨fuel - 1, by rw [List.length_cons] at hfuel; omega⟩
    have hw : seen.lookup w.field.name = none := by
      rw [List.map_append, List.map_cons, List.reverse_cons, List.map_append] at hnew
      have hdisjoint := (List.nodup_append.mp hnew).2.2 w.field.name (by simp [pair])
      exact List.lookup_eq_none_iff.mpr fun p hp => bne_iff_ne.mpr (hdisjoint p.1 (List.mem_map_of_mem hp))
    have hbytes : bytesAfter (w :: ws) ++ 0x7d :: rest = 0x2c :: bytesOf (writeText w.field.name).toList ++
        (0x3a :: bytesOf w.text.toList ++ (bytesAfter ws ++ 0x7d :: rest)) := by
      rw [bytesAfter_cons, List.append_assoc, List.append_assoc]
    rw [hbytes, readFieldsByName_cons (nextKey_reads w.field.name).2 (hread w List.mem_cons_self)
      (hfind w List.mem_cons_self) hw, ih (fun w hw => hread w (List.mem_cons_of_mem _ hw))
      (fun w hw => hfind w (List.mem_cons_of_mem _ hw)) (by simpa using hnew) (Nat.lt_of_succ_lt_succ hfuel)]
    have hlength (l l' : List UInt8) : index + l.length + l'.length = index + (l ++ l').length := by
      rw [List.length_append, Nat.add_assoc]
    rw [hlength, bytesAfter_cons, List.map_cons, List.reverse_cons, ← List.append_cons]

/-- Fields that were all read have their values. -/
theorem mapM_fieldOrFallback (hseen : ∀ w ∈ ws, seen.lookup w.field.name = some w.value) (c : Cursor) :
    (ws.map field).mapM (fun f => fieldOrFallback f seen) c = (.ok (ws.map value), c) := by
  induction ws with
  | nil => rfl
  | cons w ws ih =>
    have hfirst : fieldOrFallback w.field seen c = (.ok w.value, c) := by
      rw [fieldOrFallback, hseen w List.mem_cons_self]
      rfl
    rw [List.map_cons, List.mapM_cons, bind_apply hfirst,
      bind_apply (ih fun w hw => hseen w (List.mem_cons_of_mem _ hw))]
    rfl

/-- Reading an object whose fields are all written, up to the brace. -/
theorem readFieldsByName_bytes (hread : ∀ w ∈ ws, w.IsLegible)
    (hnames : (ws.map fun w => w.field.name).Nodup) {fuel : Nat} (hfuel : ws.length < fuel)
    (rest : List UInt8) (index : Nat) :
    readFieldsByName strict (ws.map field) fuel true []
        ⟨(bytesAfter ws).tail ++ 0x7d :: rest, index⟩ =
      (.ok (ws.map value), ⟨0x7d :: rest, index + (bytesAfter ws).tail.length⟩) := by
  have hfind (w : WrittenField) (hw : w ∈ ws) :
      (ws.map field).find? (fun f => f.name == w.field.name) = some w.field :=
    find?_of_nodup_map (f := FieldReader.name) (by rwa [List.map_map]) (List.mem_map_of_mem hw)
  have hpairs : ((ws.map pair).reverse.map Prod.fst).Nodup := by
    rw [List.map_reverse, List.map_map]
    exact List.nodup_reverse.mpr hnames
  have hlookup : ∀ w ∈ ws, (ws.map pair).reverse.lookup w.field.name = some w.value := fun w hw =>
    lookup_of_nodup_map (p := w.pair) hpairs (List.mem_reverse.mpr (List.mem_map_of_mem hw))
  cases ws with
  | nil =>
    obtain ⟨fuel, rfl⟩ : ∃ n, fuel = n + 1 := ⟨fuel - 1, by rw [List.length_nil] at hfuel; omega⟩
    rfl
  | cons w ws =>
    obtain ⟨fuel, rfl⟩ : ∃ n, fuel = n + 1 := ⟨fuel - 1, by rw [List.length_cons] at hfuel; omega⟩
    have hbytes : (bytesAfter (w :: ws)).tail ++ 0x7d :: rest = bytesOf (writeText w.field.name).toList ++
        (0x3a :: bytesOf w.text.toList ++ (bytesAfter ws ++ 0x7d :: rest)) := by
      rw [bytesAfter_cons, List.cons_append, List.cons_append, List.tail_cons, List.append_assoc,
        List.append_assoc]
    rw [hbytes, readFieldsByName_cons (nextKey_reads w.field.name).1 (hread w List.mem_cons_self)
      (hfind w List.mem_cons_self) rfl,
      readFieldsByName_bytesAfter (fun w hw => hread w (List.mem_cons_of_mem _ hw))
      (fun w hw => hfind w (List.mem_cons_of_mem _ hw))
      (by rwa [List.map_cons, List.reverse_cons] at hpairs) (Nat.lt_of_succ_lt_succ hfuel)]
    rw [List.map_cons, List.reverse_cons] at hlookup
    rw [mapM_fieldOrFallback hlookup, bytesAfter_cons, List.cons_append, List.cons_append, List.tail_cons]
    simp only [List.length_append, Nat.add_assoc]

/-- What is written of an object. -/
theorem bytesOf_writeObject (ws : List WrittenField) :
    bytesOf (writeObject (ws.map fun w => (w.field.name, w.text))).toList =
      0x7b :: ((bytesAfter ws).tail ++ [0x7d]) := by
  have hmembers : ∀ ws : List WrittenField, bytesOf (",".intercalate (ws.map fun w =>
      writeText w.field.name ++ ":" ++ w.text)).toList = (bytesAfter ws).tail := by
    intro ws
    have hone : ∀ w : WrittenField, bytesOf (writeText w.field.name ++ ":" ++ w.text).toList =
        bytesOf (writeText w.field.name).toList ++ (0x3a :: bytesOf w.text.toList) := fun w => by
      rw [String.toList_append, String.toList_append, bytesOf_append, bytesOf_append, List.append_assoc]
      rfl
    induction ws with
    | nil => rfl
    | cons w ws ih =>
      cases ws with
      | nil =>
        rw [List.map_singleton, String.intercalate_singleton, hone, bytesAfter_cons, List.cons_append,
          List.cons_append, List.tail_cons]
        exact (List.append_nil _).symm
      | cons w' ws =>
        have hcomma : bytesOf ",".toList = [0x2c] := rfl
        rw [List.map_cons] at ih
        rw [List.map_cons, List.map_cons, String.intercalate_cons_cons, String.toList_append,
          String.toList_append, bytesOf_append, bytesOf_append, ih, hone, hcomma, List.append_assoc _ [0x2c],
          List.singleton_append,
          ← bytesAfter_eq_cons, bytesAfter_cons w, List.cons_append, List.cons_append, List.tail_cons]
  rw [writeObject, List.map_map, String.toList_append, String.toList_append, bytesOf_append, bytesOf_append]
  exact congrArg (fun l => 0x7b :: (l ++ [0x7d])) (hmembers ws)

/-- The fields of a record that is written. -/
theorem exists_of_writeFields {fields : List (String × Fallback × Shape)}
    (hfields : ∀ f ∈ fields, Legible f.2.2) {values : List Datum} {written : List (String × String)}
    (hwritten : writeFields writeFloat fields values = some written) :
    ∃ ws : List WrittenField, ws.map field = fieldReaders fields ∧ ws.map value = values ∧
      written = ws.map (fun w => (w.field.name, w.text)) ∧ ∀ w ∈ ws, w.IsLegible := by
  induction fields generalizing values written with
  | nil =>
    cases values with
    | nil =>
      rw [writeFields] at hwritten
      cases hwritten
      exact ⟨[], by rw [fieldReaders]; rfl, rfl, rfl, nofun⟩
    | cons d values =>
      rw [writeFields] at hwritten
      · cases hwritten
      all_goals nofun
  | cons f fields ih =>
    obtain ⟨name, fallback, shape⟩ := f
    cases values with
    | nil =>
      rw [writeFields] at hwritten
      · cases hwritten
      all_goals nofun
    | cons d values =>
      rw [writeFields] at hwritten
      obtain ⟨text, htext, hwritten⟩ := Option.bind_eq_some_iff.mp hwritten
      obtain ⟨others, hothers, hwritten⟩ := Option.bind_eq_some_iff.mp hwritten
      cases hwritten
      obtain ⟨ws, hfield, rfl, rfl, hlegible⟩ :=
        ih (fun f hf => hfields f (List.mem_cons_of_mem _ hf)) hothers
      refine ⟨⟨⟨name, fallback, read shape⟩, d, text⟩ :: ws, ?_, rfl, rfl,
        List.forall_mem_cons.mpr ⟨?_, hlegible⟩⟩
      · rw [fieldReaders, List.map_cons, hfield]
      · exact hfields _ List.mem_cons_self d text htext

end WrittenField

theorem legible_text : Legible .text := by
  intro d text hwritten
  obtain ⟨s, rfl, rfl⟩ : ∃ s, d = .text s ∧ text = writeText s := by
    cases d <;> simp_all [write, writeWith]
  rw [read]
  exact readText_reads rfl

theorem name_fieldReaders (fields : List (String × Fallback × Shape)) :
    (fieldReaders fields).map FieldReader.name = fields.map Prod.fst := by
  induction fields with
  | nil =>
    rw [fieldReaders]
    rfl
  | cons f fields ih => rw [fieldReaders, List.map_cons, List.map_cons, ih]

theorem endObject_reads : endObject.Reads [0x7d] () := Reads.peekToken_bind rfl (.advance 0x7d)

/-- Records of legible fields with distinct names are legible. -/
theorem legible_record (title : String) (strict : Bool) {fields : List (String × Fallback × Shape)}
    (hfields : ∀ f ∈ fields, Legible f.2.2) (hnames : (fields.map Prod.fst).Nodup) :
    Legible (.record title strict fields) := by
  intro d text hwritten
  obtain ⟨values, written, rfl, hfieldsWritten, rfl⟩ : ∃ values written, d = .record values ∧
      writeFields writeFloat fields values = some written ∧ text = writeObject written := by
    cases d with
    | record values =>
      rw [write, writeWith] at hwritten
      obtain ⟨written, hfields, heq⟩ := Option.bind_eq_some_iff.mp hwritten
      exact ⟨values, written, rfl, hfields, (Option.some.inj heq).symm⟩
    | _ => simp [write, writeWith] at hwritten
  obtain ⟨ws, hreaders, rfl, rfl, hlegible⟩ := WrittenField.exists_of_writeFields hfields hfieldsWritten
  have hdistinct : (ws.map fun w => w.field.name).Nodup := by
    rw [← name_fieldReaders, ← hreaders, List.map_map] at hnames
    exact hnames
  rw [WrittenField.bytesOf_writeObject, read, ← hreaders]
  refine Reads.settle (Reads.peekValue_bind rfl ((Reads.advance 0x7b).bind (Reads.get_bind fun c hc => ?_)))
  refine Reads.enclosed (fun rest index => ?_) endObject_reads
  have hfuel : ws.length < c.ahead.length + 1 := by
    have hle := WrittenField.length_le_bytesAfter ws
    rw [List.append_eq, List.length_append, List.length_tail, List.length_singleton] at hc
    omega
  rw [List.singleton_append,
    bind_apply (WrittenField.readFieldsByName_bytes hlegible hdistinct hfuel rest index)]
  rfl

end DurableQueue.Json
