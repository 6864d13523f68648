import Mathlib.Tactic

namespace Baize.Lib

inductive Fault
  | assertion
  | overflow
  | outOfBounds
  | lengthError
  deriving DecidableEq, Repr

abbrev Checked := Except Fault

def check (p : Prop) [Decidable p] (fault : Fault) : Checked Unit :=
  if p then .ok () else .error fault

def IsInt (x : ℤ) : Prop := -2147483648 ≤ x ∧ x < 2147483648

instance (x : ℤ) : Decidable (IsInt x) := inferInstanceAs (Decidable (_ ∧ _))

/-- The value of a signed 32-bit expression. Overflow is undefined behaviour. -/
def int (x : ℤ) : Checked ℤ := if IsInt x then .ok x else .error .overflow

variable {α β : Type}

@[simp] theorem ok_bind (a : α) (f : α → Checked β) : (Except.ok a : Checked α) >>= f = f a := rfl

@[simp] theorem error_bind (fault : Fault) (f : α → Checked β) :
    (Except.error fault : Checked α) >>= f = .error fault := rfl

@[simp] theorem pure_eq_ok (a : α) : (pure a : Checked α) = .ok a := rfl

theorem check_of {p : Prop} [Decidable p] {fault : Fault} (h : p) : check p fault = .ok () := if_pos h

theorem int_of {x : ℤ} (hl : -2147483648 ≤ x) (hu : x < 2147483648) : int x = .ok x := if_pos ⟨hl, hu⟩

theorem int_overflow {x : ℤ} (hu : 2147483648 ≤ x) : int x = .error .overflow :=
  if_neg fun h ↦ absurd h.2 (not_lt.mpr hu)

theorem int_eq_ok {x y : ℤ} (h : int x = .ok y) : x = y := by
  unfold int at h
  split at h
  · exact Except.ok.inj h
  · cases h

theorem isInt_of_int {x y : ℤ} (h : int x = .ok y) : x < 2147483648 := by
  unfold int at h
  split at h
  · next hx => exact hx.2
  · cases h

theorem check_eq_ok {p : Prop} [Decidable p] {fault : Fault} {u : Unit}
    (h : check p fault = .ok u) : p := by
  unfold check at h
  split at h
  · assumption
  · cases h

theorem bind_eq_ok {x : Checked α} {f : α → Checked β} {b : β} :
    x >>= f = .ok b ↔ ∃ a, x = .ok a ∧ f a = .ok b := by
  cases x <;> simp

theorem map_eq_ok {x : Checked α} {f : α → β} {b : β} : f <$> x = .ok b ↔ ∃ a, x = .ok a ∧ f a = b := by
  cases x <;> simp

theorem bind_congr_of_ok {x : Checked α} {f g : α → Checked β} (h : ∀ a, x = .ok a → f a = g a) :
    x >>= f = x >>= g := by
  cases x with
  | error fault => rfl
  | ok a => exact h a rfl

def andThen : Option (Checked α) → (α → Option (Checked β)) → Option (Checked β)
  | none, _ => none
  | some (.error fault), _ => some (.error fault)
  | some (.ok a), f => f a

theorem andThen_of_ok {x : Option (Checked α)} {f : α → Option (Checked β)} {r : Checked β} {P : α → Prop}
    (h : andThen x f = some r) (hx : ∀ y, x = some y → ∃ a, y = .ok a ∧ P a) : ∃ a, P a ∧ f a = some r := by
  cases x with
  | none => cases h
  | some y =>
    obtain ⟨a, rfl, ha⟩ := hx y rfl
    exact ⟨a, ha, h⟩

end Baize.Lib
