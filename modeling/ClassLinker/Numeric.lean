/-!
Sums of lists and powers of two.
-/

namespace ClassLinker

/-- The sum of a list of numbers. -/
def total : List Nat → Nat
  | [] => 0
  | n :: ns => n + total ns

/-- The sum of two lists put together is the sum of their sums. -/
theorem total_append (ms ns : List Nat) : total (ms ++ ns) = total ms + total ns := by
  induction ms with
  | nil => simp [total]
  | cons m ms ih => simp only [List.cons_append, total, ih]; omega

/-- Two to the power of a number. -/
def twoPow (n : Nat) : Nat := Nat.pow 2 n

end ClassLinker
