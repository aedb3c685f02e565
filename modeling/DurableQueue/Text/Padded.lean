/-!
Numbers of a fixed width.
-/

namespace DurableQueue.Text

/-- Decimal digits of `n`, padded with zeros on the left to `width`. -/
def padded (n width : Nat) : String :=
  let digits := Nat.toDigits 10 n
  String.ofList (List.replicate (width - digits.length) '0' ++ digits)

end DurableQueue.Text
