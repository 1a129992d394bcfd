/-!
Totals over lists.

`total measure items` adds up a measure of the items. It is zero on the empty list and adds over
concatenation.
-/

namespace TriggerScript

def total {α : Type} (measure : α → Nat) : List α → Nat
  | [] => 0
  | item :: rest => measure item + total measure rest

section

variable {α : Type} (measure : α → Nat)

@[simp] theorem total_nil : total measure [] = 0 := rfl

@[simp] theorem total_cons (item : α) (rest : List α) :
    total measure (item :: rest) = measure item + total measure rest := rfl

@[simp] theorem total_append (left right : List α) :
    total measure (left ++ right) = total measure left + total measure right := by
  induction left with
  | nil => simp
  | cons item rest ih =>
    simp only [List.cons_append, total_cons, ih]
    omega

end

end TriggerScript
