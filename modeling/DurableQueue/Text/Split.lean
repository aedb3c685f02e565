/-!
Splitting text at a mark.

`Text.splitLast` splits at the last occurrence of a character, so nothing after the split holds that
character: `splitLast_append`.
-/

namespace DurableQueue.Text

/-- The text before the first occurrence of a mark, and the text after it. -/
def splitFirst (mark : List Char) : List Char → Option (List Char × List Char)
  | [] => none
  | c :: cs =>
    if mark.isPrefixOf (c :: cs) then some ([], (c :: cs).drop mark.length)
    else (splitFirst mark cs).map fun r => (c :: r.1, r.2)

/-- The text before the last occurrence of a character, and the text after it. -/
def splitLast (mark : Char) : List Char → Option (List Char × List Char)
  | [] => none
  | c :: cs =>
    match splitLast mark cs with
    | some r => some (c :: r.1, r.2)
    | none => if c = mark then some ([], cs) else none

theorem splitLast_eq_none {mark : Char} {cs : List Char} (h : mark ∉ cs) :
    splitLast mark cs = none := by
  induction cs with
  | nil => rfl
  | cons c cs ih =>
    have hc : ¬ c = mark := fun e => h (by simp [e])
    have ht : mark ∉ cs := fun hm => h (List.mem_cons_of_mem c hm)
    simp [splitLast, ih ht, hc]

theorem splitLast_append (mark : Char) (before : List Char) {after : List Char} (h : mark ∉ after) :
    splitLast mark (before ++ mark :: after) = some (before, after) := by
  induction before with
  | nil => simp [splitLast, splitLast_eq_none h]
  | cons c cs ih => simp [splitLast, ih]

end DurableQueue.Text
