import DurableQueue.Text.Padded
import Mathlib.Algebra.Group.Nat.Defs

/-!
Padded numbers as names.

A padded number determines the number (`padded_injective`), holds digits only, and numbers that fit
the width sort as their texts do (`padded_lt_padded`). A number that does not fit is longer than the
width, and there the order breaks.
-/

namespace DurableQueue.Text

theorem toList_padded (n width : Nat) :
    (padded n width).toList =
      List.replicate (width - (Nat.toDigits 10 n).length) '0' ++ Nat.toDigits 10 n := by
  simp [padded]

theorem ofDigitChars_padded (n width : Nat) :
    Nat.ofDigitChars 10 (padded n width).toList 0 = n := by
  rw [toList_padded, Nat.ofDigitChars_append, Nat.ofDigitChars_replicate_zero, Nat.mul_zero,
    Nat.ofDigitChars_ten_toDigits]

theorem padded_injective {m n width : Nat} (h : padded m width = padded n width) : m = n := by
  rw [← ofDigitChars_padded m width, h, ofDigitChars_padded]

theorem isDigit_of_mem_padded {n width : Nat} {c : Char} (h : c ∈ (padded n width).toList) :
    c.isDigit = true := by
  rw [toList_padded] at h
  rcases List.mem_append.mp h with h | h
  · rw [(List.mem_replicate.mp h).2]
    rfl
  · exact Nat.isDigit_of_mem_toDigits (by decide) (by decide) h

theorem not_mem_padded {n width : Nat} {c : Char} (h : c.isDigit = false) :
    c ∉ (padded n width).toList := by
  intro hc
  rw [isDigit_of_mem_padded hc] at h
  cases h

theorem length_padded {n width : Nat} (hw : 0 < width) (hn : n < 10 ^ width) :
    (padded n width).toList.length = width := by
  have hlen := (Nat.length_toDigits_le_iff (b := 10) (by decide) hw).mpr hn
  rw [toList_padded, List.length_append, List.length_replicate]
  omega

/-- Texts that end in numbers that fit the width are the same only if their starts and numbers are. -/
theorem append_padded_injective {s t : String} {m n width : Nat} (hw : 0 < width) (hm : m < 10 ^ width)
    (hn : n < 10 ^ width) (h : s ++ padded m width = t ++ padded n width) : s = t ∧ m = n := by
  have htexts := congrArg String.toList h
  rw [String.toList_append, String.toList_append] at htexts
  obtain ⟨hstart, hnumber⟩ :=
    List.append_inj' htexts (by rw [length_padded hw hm, length_padded hw hn])
  exact ⟨String.toList_injective hstart, padded_injective (String.toList_injective hnumber)⟩

theorem value_of_isDigit {c : Char} (h : c.isDigit = true) :
    c.toNat - '0'.toNat < 10 ∧ '0'.toNat ≤ c.toNat := by
  simp only [Char.isDigit, ge_iff_le, Bool.and_eq_true, decide_eq_true_eq, UInt32.le_iff_toNat_le] at h
  simp only [Char.toNat] at *
  have h1 : '0'.val.toNat = 48 := rfl
  have h2 : '9'.val.toNat = 57 := rfl
  omega

/-- Digits stand for less than the next power of ten. -/
theorem ofDigitChars_lt {cs : List Char} (h : ∀ c ∈ cs, c.isDigit = true) :
    Nat.ofDigitChars 10 cs 0 < 10 ^ cs.length := by
  induction cs with
  | nil => simp
  | cons c cs ih =>
    have hc := (value_of_isDigit (h c List.mem_cons_self)).1
    have hcs := ih fun d hd => h d (List.mem_cons_of_mem _ hd)
    rw [Nat.ofDigitChars_cons, Nat.ofDigitChars_eq_ofDigitChars_zero, List.length_cons,
      Nat.pow_succ, Nat.mul_zero, Nat.zero_add]
    have hmul := Nat.mul_le_mul_left (10 ^ cs.length) (Nat.le_of_lt_succ hc)
    omega

/-- Texts of digits of one length sort like the numbers they stand for. -/
theorem lt_of_ofDigitChars_lt {cs ds : List Char} (hlen : cs.length = ds.length)
    (hcs : ∀ c ∈ cs, c.isDigit = true) (hds : ∀ d ∈ ds, d.isDigit = true)
    (h : Nat.ofDigitChars 10 cs 0 < Nat.ofDigitChars 10 ds 0) : cs < ds := by
  induction cs generalizing ds with
  | nil =>
    cases ds with
    | nil => simp at h
    | cons d ds => simp at hlen
  | cons c cs ih =>
    cases ds with
    | nil => simp at hlen
    | cons d ds =>
      have hlen' : cs.length = ds.length := Nat.succ.inj hlen
      have hcs' : ∀ x ∈ cs, x.isDigit = true := fun x hx => hcs x (List.mem_cons_of_mem _ hx)
      have hds' : ∀ x ∈ ds, x.isDigit = true := fun x hx => hds x (List.mem_cons_of_mem _ hx)
      have hc := value_of_isDigit (hcs c List.mem_cons_self)
      have hd := value_of_isDigit (hds d List.mem_cons_self)
      have hlow := ofDigitChars_lt hds'
      rw [Nat.ofDigitChars_cons, Nat.ofDigitChars_eq_ofDigitChars_zero, Nat.ofDigitChars_cons,
        Nat.ofDigitChars_eq_ofDigitChars_zero (l := ds), hlen', Nat.mul_zero, Nat.zero_add,
        Nat.zero_add] at h
      rw [List.cons_lt_cons_iff]
      rcases Nat.lt_trichotomy c.toNat d.toNat with hlt | heq | hgt
      · exact .inl hlt
      · refine .inr ⟨Char.toNat_inj.mp heq, ih hlen' hcs' hds' ?_⟩
        rw [heq] at h
        omega
      · have hle : d.toNat - '0'.toNat + 1 ≤ c.toNat - '0'.toNat := by omega
        have hmul := Nat.mul_le_mul_left (10 ^ ds.length) hle
        rw [Nat.mul_add, Nat.mul_one] at hmul
        omega

theorem padded_lt_padded {m n width : Nat} (hw : 0 < width) (hmn : m < n) (hn : n < 10 ^ width) :
    padded m width < padded n width := by
  rw [String.lt_iff]
  refine lt_of_ofDigitChars_lt ?_ (fun _ => isDigit_of_mem_padded) (fun _ => isDigit_of_mem_padded) ?_
  · rw [length_padded hw (Nat.lt_trans hmn hn), length_padded hw hn]
  · rw [ofDigitChars_padded, ofDigitChars_padded]
    exact hmn

end DurableQueue.Text
