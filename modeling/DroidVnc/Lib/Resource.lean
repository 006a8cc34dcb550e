import Mathlib.Data.Finset.Erase
import Mathlib.Data.Finset.Insert

/-! Resources that are acquired, used and released. A trace is proper when whatever it
uses or releases is held at that moment: then nothing is used before it was acquired or
after it was released, and nothing is released twice for one acquisition. -/

namespace Resource

variable {ρ : Type*}

inductive Event (ρ : Type*)
  | acquire (r : ρ)
  | use (r : ρ)
  | release (r : ρ)

variable [DecidableEq ρ] {held : Finset ρ} {l m : List (Event ρ)}

/-- What is held after a trace. -/
def after (held : Finset ρ) : List (Event ρ) → Finset ρ
  | [] => held
  | .acquire r :: l => after (insert r held) l
  | .use _ :: l => after held l
  | .release r :: l => after (held.erase r) l

def Proper (held : Finset ρ) : List (Event ρ) → Prop
  | [] => True
  | .acquire r :: l => Proper (insert r held) l
  | .use r :: l => r ∈ held ∧ Proper held l
  | .release r :: l => r ∈ held ∧ Proper (held.erase r) l

theorem proper_append : Proper held (l ++ m) ↔ Proper held l ∧ Proper (after held l) m := by
  induction l generalizing held with
  | nil => simp [Proper, after]
  | cons e l ih => cases e <;> simp [Proper, after, ih, and_assoc]

/-- A trace that begins with the use of something not held is not proper. -/
theorem not_proper_use {r : ρ} (h : r ∉ held) : ¬ Proper held (.use r :: l) := fun hp => h hp.1

end Resource
