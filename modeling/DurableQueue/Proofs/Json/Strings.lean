import DurableQueue.Json.Reader
import DurableQueue.Json.Writer
import Mathlib.Data.List.Basic

/-!
Reading what was written as a JSON string.

`Reads s bytes a` says that a scanner reads exactly these bytes and answers `a`, whatever follows. Each
character of a string is written as it is or as one escape (`escapedChar_cases`), and what is written of a
text is read back as it (`readText_reads`), whatever characters are in it.
-/

namespace DurableQueue.Json

/-- The bytes of characters. -/
def bytesOf (cs : List Char) : List UInt8 := cs.flatMap String.utf8EncodeChar

theorem bytesOf_append (cs cs' : List Char) : bytesOf (cs ++ cs') = bytesOf cs ++ bytesOf cs' :=
  List.flatMap_append

theorem bytesOf_cons (c : Char) (cs : List Char) :
    bytesOf (c :: cs) = String.utf8EncodeChar c ++ bytesOf cs := List.flatMap_cons

theorem toList_byteArray (b : ByteArray) : b.toList = b.data.toList := by
  have hloop : ∀ (i : Nat) (r : List UInt8),
      ByteArray.toList.loop b i r = r.reverse ++ b.data.toList.drop i := by
    intro i r
    induction i, r using ByteArray.toList.loop.induct b with
    | case1 i r hlt ih =>
      have hget : b.get! i = b.data.toList[i] := by
        show b.data[i]! = _
        rw [getElem!_pos b.data i hlt, Array.getElem_toList]
      rw [ByteArray.toList.loop, if_pos hlt, ih, List.reverse_cons, List.append_assoc,
        List.singleton_append, hget, List.getElem_cons_drop]
    | case2 i r hge =>
      rw [ByteArray.toList.loop, if_neg hge, List.drop_eq_nil_of_le (Nat.le_of_not_lt hge), List.append_nil]
  exact (hloop 0 []).trans (List.nil_append _)

/-- The bytes of a text are those of its characters. -/
theorem toList_toUTF8 (s : String) : s.toUTF8.toList = bytesOf s.toList := by
  rw [toList_byteArray, String.toUTF8, ← String.utf8Encode_toList, List.utf8Encode, List.data_toByteArray]
  rfl

theorem fromUTF8?_bytesOf (s : String) : String.fromUTF8? ⟨(bytesOf s.toList).toArray⟩ = some s := by
  have hbytes : (⟨(bytesOf s.toList).toArray⟩ : ByteArray) = s.toByteArray := by
    rw [← String.utf8Encode_toList, List.utf8Encode, bytesOf, ← List.data_toByteArray]
  rw [hbytes]
  exact (dif_pos s.isValidUTF8 : _)

namespace Scanner

variable {α β : Type} {s : Scanner α} {f : α → Scanner β} {a : α} {d : β} {b : UInt8}
  {bytes bytes' : List UInt8}

/-- A scanner reads exactly these bytes, whatever follows them, and answers this. -/
def Reads (s : Scanner α) (bytes : List UInt8) (a : α) : Prop :=
  ∀ rest index, s ⟨bytes ++ rest, index⟩ = (.ok a, ⟨rest, index + bytes.length⟩)

theorem bind_apply {c c' : Cursor} (hs : s c = (.ok a, c')) : (s >>= f) c = f a c' := by
  have hbind : (s >>= f) c = (match s c with
    | (.ok a, c') => f a c'
    | (.error e, c') => (.error e, c')) := by
    show ExceptT.bindCont f (s c).1 (s c).2 = _
    rcases s c with ⟨_ | _, _⟩ <;> rfl
  rw [hbind, hs]

namespace Reads

theorem pure (a : α) : Reads (Pure.pure a) [] a := fun _ _ => rfl

theorem bind (hs : s.Reads bytes a) (hf : (f a).Reads bytes' d) : (s >>= f).Reads (bytes ++ bytes') d := by
  intro rest index
  rw [List.append_assoc, bind_apply (hs _ _), hf, List.length_append, Nat.add_assoc]

/-- What reads nothing more. -/
theorem bind_last (hs : s.Reads bytes a) (hf : (f a).Reads [] d) : (s >>= f).Reads bytes d := by
  have hboth := hs.bind hf
  rwa [List.append_nil] at hboth

theorem advance (b : UInt8) : advance.Reads [b] () := fun _ _ => rfl

/-- What is only looked at is still to be read. -/
theorem peek_bind {f : Option UInt8 → Scanner β} (hf : (f (some b)).Reads (b :: bytes) d) :
    (peek >>= f).Reads (b :: bytes) d := fun rest index =>
  (bind_apply rfl).trans (hf rest index)

theorem get_bind {f : Cursor → Scanner β}
    (hf : ∀ c, bytes.length ≤ c.ahead.length → (f c).Reads bytes d) :
    (get >>= f).Reads bytes d := fun rest index =>
  (bind_apply rfl).trans (hf ⟨bytes ++ rest, index⟩ (by simp) rest index)

theorem takeWhile_bind {p : UInt8 → Bool} {run : List UInt8} {f : List UInt8 → Scanner β}
    (hrun : ∀ b ∈ run, p b = true) (hb : p b = false) (hf : (f run).Reads (b :: bytes) d) :
    (takeWhile p >>= f).Reads (run ++ b :: bytes) d := by
  intro rest index
  have htake : (run ++ b :: bytes ++ rest).takeWhile p = run := by
    rw [List.append_assoc, List.takeWhile_append_of_pos hrun, List.cons_append,
      List.takeWhile_cons_of_neg (by simp [hb]), List.append_nil]
  have hstep : takeWhile p ⟨run ++ b :: bytes ++ rest, index⟩ =
      (.ok run, ⟨b :: bytes ++ rest, index + run.length⟩) := by
    show (Except.ok _, Cursor.mk _ _) = _
    rw [htake, List.append_assoc, List.drop_left]
  rw [bind_apply hstep, hf, List.length_append, Nat.add_assoc]

/-- There are no blanks before what is read. -/
theorem peekToken_bind {f : Option UInt8 → Scanner β} (hb : isBlankByte b = false)
    (hf : (f (some b)).Reads (b :: bytes) d) : (peekToken >>= f).Reads (b :: bytes) d := by
  intro rest index
  have htake : (b :: bytes ++ rest).takeWhile isBlankByte = [] := by
    rw [List.cons_append, List.takeWhile_cons_of_neg (by simp [hb])]
  have hpeek : peekToken ⟨b :: bytes ++ rest, index⟩ = (.ok (some b), ⟨b :: bytes ++ rest, index⟩) := by
    show (Except.ok (List.head? (List.drop _ _)), Cursor.mk (List.drop _ _) _) = _
    rw [htake]
    rfl
  rw [bind_apply hpeek, hf]

theorem peekValue_bind {f : UInt8 → Scanner β} (hb : isBlankByte b = false)
    (hf : (f b).Reads (b :: bytes) d) : (peekValue >>= f).Reads (b :: bytes) d := by
  rw [peekValue, bind_assoc]
  exact peekToken_bind hb hf

theorem settle (hs : s.Reads bytes a) : s.settle.Reads bytes a := by
  intro rest index
  rw [Scanner.settle, hs]

/-- The inner scanner may look at what closes it. -/
theorem enclosed {close : Scanner Unit} (hs : ∀ rest index,
    s ⟨bytes ++ (bytes' ++ rest), index⟩ = (.ok a, ⟨bytes' ++ rest, index + bytes.length⟩))
    (hclose : close.Reads bytes' ()) : (s.enclosed close).Reads (bytes ++ bytes') a := by
  intro rest index
  simp only [Scanner.enclosed, List.append_assoc, hs, hclose _ _, List.length_append, Nat.add_assoc]

end Reads

/-! ### Strings -/

theorem hexEscape_reads {code : Nat} (hcode : code < 0x20) :
    hexEscape.Reads [0x30, 0x30, UInt8.ofNat (Nat.digitChar (code / 16)).toNat,
      UInt8.ofNat (Nat.digitChar (code % 16)).toNat] code := by
  have hdigit : ∀ n < 16, hexValue (UInt8.ofNat (Nat.digitChar n).toNat) = some n := by decide
  intro rest index
  have hhigh := hdigit (code / 16) (by omega)
  have hlow := hdigit (code % 16) (by omega)
  have hzero : hexValue 0x30 = some 0 := rfl
  generalize UInt8.ofNat (Nat.digitChar (code / 16)).toNat = high at hhigh
  generalize UInt8.ofNat (Nat.digitChar (code % 16)).toNat = low at hlow
  have hget : (get : Scanner Cursor) ⟨[0x30, 0x30, high, low] ++ rest, index⟩ =
      (.ok ⟨[0x30, 0x30, high, low] ++ rest, index⟩, ⟨[0x30, 0x30, high, low] ++ rest, index⟩) := rfl
  have hdrop : drop 4 ⟨[0x30, 0x30, high, low] ++ rest, index⟩ = (.ok (), ⟨rest, index + 4⟩) := rfl
  rw [hexEscape, bind_apply hget]
  refine (bind_apply hdrop).trans ?_
  rw [hhigh, hlow, hzero]
  show (Except.ok _, _) = _
  congr 2
  omega

theorem utf8_toNat (c : Char) : utf8 c.toNat = String.utf8EncodeChar c := by
  rw [utf8, Char.ofNat_toNat, toList_toUTF8, String.toList_singleton, bytesOf_cons, bytesOf, List.flatMap_nil,
    List.append_nil]

theorem unicodeEscape_reads {c : Char} (hc : c.toNat < 0x20) :
    unicodeEscape.Reads [0x30, 0x30, UInt8.ofNat (Nat.digitChar (c.toNat / 16)).toNat,
      UInt8.ofNat (Nat.digitChar (c.toNat % 16)).toNat] (String.utf8EncodeChar c) := by
  refine (hexEscape_reads hc).bind_last ?_
  rw [if_neg (by omega), if_pos (by omega), utf8_toNat]
  exact .pure _

theorem isPlainByte_ofNat {n : Nat} (hlt : n < 0x100) (hquote : n ≠ 0x22) (hbackslash : n ≠ 0x5c)
    (hcontrol : 0x20 ≤ n) : isPlainByte (UInt8.ofNat n) = true := by
  have hn : (UInt8.ofNat n).toNat = n := UInt8.toNat_ofNat_of_lt hlt
  simp only [isPlainByte, Bool.and_eq_true, bne_iff_ne, ne_eq, ← UInt8.toNat_inj, decide_eq_true_eq,
    UInt8.le_iff_toNat_le, hn]
  exact ⟨⟨hquote, hbackslash⟩, hcontrol⟩

/-- No byte of a character is escaped if the character is not. -/
theorem isPlainByte_of_mem {c : Char} (hquote : c ≠ '"') (hbackslash : c ≠ '\\')
    (hcontrol : 0x20 ≤ c.toNat) : ∀ b ∈ String.utf8EncodeChar c, isPlainByte b = true := by
  have hne : ∀ d : Char, c ≠ d → c.val.toNat ≠ d.val.toNat := fun d hd heq =>
    hd (Char.ext (UInt32.toNat_inj.mp heq))
  have hquote : c.val.toNat ≠ 0x22 := hne '"' hquote
  have hbackslash : c.val.toNat ≠ 0x5c := hne '\\' hbackslash
  have hcontrol : 0x20 ≤ c.val.toNat := hcontrol
  -- All bytes of a character that takes several are above those that are escaped.
  have hhigh : ∀ n < 0x100, 0x80 ≤ n → isPlainByte (UInt8.ofNat n) = true := fun n hlt hle =>
    isPlainByte_ofNat hlt (by omega) (by omega) (by omega)
  unfold String.utf8EncodeChar
  simp only
  generalize c.val.toNat = n at hquote hbackslash hcontrol
  split
  · simp only [List.forall_mem_cons]
    exact ⟨isPlainByte_ofNat (by omega) hquote hbackslash hcontrol, nofun⟩
  split
  · simp only [List.forall_mem_cons]
    exact ⟨hhigh _ (by omega) (by omega), hhigh _ (by omega) (by omega), nofun⟩
  split
  · simp only [List.forall_mem_cons]
    exact ⟨hhigh _ (by omega) (by omega), hhigh _ (by omega) (by omega), hhigh _ (by omega) (by omega),
      nofun⟩
  · simp only [List.forall_mem_cons]
    exact ⟨hhigh _ (by omega) (by omega), hhigh _ (by omega) (by omega), hhigh _ (by omega) (by omega),
      hhigh _ (by omega) (by omega), nofun⟩

/-- A character is written as it is, or as an escape that is read back as it. -/
theorem escapedChar_cases (c : Char) :
    (escapedChar c = [c] ∧ ∀ b ∈ String.utf8EncodeChar c, isPlainByte b = true) ∨
      ∃ t, escapedChar c = '\\' :: t ∧ escape.Reads (bytesOf t) (String.utf8EncodeChar c) := by
  unfold escapedChar
  split
  · exact .inr ⟨_, rfl, fun _ _ => rfl⟩
  · exact .inr ⟨_, rfl, fun _ _ => rfl⟩
  · exact .inr ⟨_, rfl, fun _ _ => rfl⟩
  · exact .inr ⟨_, rfl, fun _ _ => rfl⟩
  · exact .inr ⟨_, rfl, fun _ _ => rfl⟩
  · exact .inr ⟨_, rfl, fun _ _ => rfl⟩
  · exact .inr ⟨_, rfl, fun _ _ => rfl⟩
  · split
    · rename_i hcontrol
      refine .inr ⟨_, rfl, ?_⟩
      have hdigit : ∀ n < 16,
          String.utf8EncodeChar (Nat.digitChar n) = [UInt8.ofNat (Nat.digitChar n).toNat] := by decide
      have hbytes : bytesOf ['u', '0', '0', Nat.digitChar (c.toNat / 16), Nat.digitChar (c.toNat % 16)] =
          0x75 :: [0x30, 0x30, UInt8.ofNat (Nat.digitChar (c.toNat / 16)).toNat,
            UInt8.ofNat (Nat.digitChar (c.toNat % 16)).toNat] := by
        simp only [bytesOf_cons, hdigit (c.toNat / 16) (by omega), hdigit (c.toNat % 16) (by omega)]
        rfl
      rw [hbytes]
      exact fun rest index => (unicodeEscape_reads hcontrol rest (index + 1)).trans (by simp)
    · exact .inl ⟨rfl, isPlainByte_of_mem ‹_› ‹_› (by omega)⟩

/-- What is written of characters is read back as their bytes; plain bytes may stand before them. -/
theorem stringBytes_reads (cs : List Char) (plain : List UInt8) {fuel : Nat}
    (hplain : ∀ b ∈ plain, isPlainByte b = true) (hfuel : cs.length < fuel) :
    (stringBytes fuel).Reads (plain ++ (bytesOf (cs.flatMap escapedChar) ++ [0x22]))
      (plain ++ bytesOf cs) := by
  induction cs generalizing plain fuel with
  | nil =>
    obtain ⟨fuel, rfl⟩ : ∃ n, fuel = n + 1 := ⟨fuel - 1, by simp at hfuel; omega⟩
    rw [bytesOf, List.flatMap_nil, List.flatMap_nil, List.nil_append, bytesOf, List.flatMap_nil,
      List.append_nil]
    refine Reads.takeWhile_bind hplain rfl (Reads.peek_bind ?_)
    exact (Reads.advance 0x22).bind (.pure plain)
  | cons c cs ih =>
    obtain ⟨fuel, rfl⟩ : ∃ n, fuel = n + 1 := ⟨fuel - 1, by simp at hfuel; omega⟩
    rw [List.flatMap_cons, bytesOf_append, bytesOf_cons]
    rcases escapedChar_cases c with ⟨hsame, hbytes⟩ | ⟨t, hescaped, hread⟩
    · have hplain' : ∀ b ∈ plain ++ String.utf8EncodeChar c, isPlainByte b = true := fun b hb =>
        (List.mem_append.mp hb).elim (hplain b) (hbytes b)
      have hrest := ih _ hplain' (Nat.lt_of_succ_lt hfuel)
      rw [hsame, bytesOf_cons, bytesOf, List.flatMap_nil, List.append_nil, List.append_assoc,
        ← List.append_assoc plain, ← List.append_assoc plain]
      exact hrest
    · have hrest := ih [] nofun (Nat.lt_of_succ_lt_succ hfuel)
      have hbackslash : String.utf8EncodeChar '\\' = [0x5c] := rfl
      rw [hescaped, bytesOf_cons, hbackslash, List.append_assoc, List.append_assoc, List.singleton_append]
      refine Reads.takeWhile_bind hplain rfl (Reads.peek_bind ?_)
      refine (Reads.advance 0x5c).bind (hread.bind (hrest.bind_last ?_))
      rw [List.nil_append, ← List.append_assoc]
      exact .pure _

theorem length_le_escaped (cs : List Char) : cs.length ≤ (bytesOf (cs.flatMap escapedChar)).length := by
  induction cs with
  | nil => exact Nat.le_refl 0
  | cons c cs ih =>
    have hone : 0 < (bytesOf (escapedChar c)).length := by
      rcases escapedChar_cases c with ⟨hsame, -⟩ | ⟨t, hescaped, -⟩
      · rw [hsame, bytesOf_cons, List.length_append]
        have := String.length_utf8EncodeChar c
        have := c.utf8Size_pos
        omega
      · rw [hescaped, bytesOf_cons]
        exact Nat.lt_of_lt_of_le Nat.one_pos (by simp [String.utf8EncodeChar])
    rw [List.flatMap_cons, bytesOf_append, List.length_append, List.length_cons]
    omega

end Scanner

open Scanner

/-- What is written of a text. -/
theorem bytesOf_writeText (s : String) :
    bytesOf (writeText s).toList = 0x22 :: (bytesOf (s.toList.flatMap escapedChar) ++ [0x22]) := by
  rw [writeText, String.toList_ofList, bytesOf_append, bytesOf_cons]
  rfl

theorem string_reads (s : String) : string.Reads (bytesOf (s.toList.flatMap escapedChar) ++ [0x22]) s := by
  refine Reads.get_bind fun c hc => ?_
  have hfuel : s.toList.length < c.ahead.length + 1 := by
    have hle := length_le_escaped s.toList
    rw [List.length_append] at hc
    omega
  refine (stringBytes_reads s.toList [] nofun hfuel).bind_last ?_
  rw [List.nil_append, fromUTF8?_bytesOf]
  exact .pure s

theorem readText_reads {α : Type} {expected : String} {accept : String → Except Mismatch α} {s : String}
    {a : α} (ha : accept s = .ok a) : (readText expected accept).Reads (bytesOf (writeText s).toList) a := by
  rw [bytesOf_writeText]
  refine Reads.settle (Reads.peekValue_bind rfl ?_)
  rw [if_pos rfl]
  refine (Reads.advance 0x22).bind ((string_reads s).bind_last ?_)
  rw [ha]
  exact .pure a

end DurableQueue.Json
