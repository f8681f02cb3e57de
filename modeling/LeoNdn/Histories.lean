import Mathlib.Data.List.Basic

/-!
Lists that grow by one value an epoch, each of which depends on those before it.
-/

namespace LeoNdn.Histories

variable {β : Type} (next : List β → ℕ → β)

def history : ℕ → List β
  | 0 => []
  | epochs + 1 => history epochs ++ [next (history epochs) epochs]

variable {next} {t epochs : ℕ}

theorem length_history (epochs : ℕ) : (history next epochs).length = epochs := by
  induction epochs with
  | zero => rfl
  | succ epochs ih => rw [history, List.length_append, ih, List.length_singleton]

theorem getElem?_history (ht : t < epochs) : (history next epochs)[t]? = some (next (history next t) t) := by
  induction epochs with
  | zero => exact absurd ht (Nat.not_lt_zero t)
  | succ epochs ih =>
    rw [history]
    rcases Nat.lt_succ_iff_lt_or_eq.mp ht with hlt | rfl
    · rw [List.getElem?_append_left (by rw [length_history]; exact hlt)]
      exact ih hlt
    · rw [List.getElem?_append_right (Nat.le_of_eq (length_history t)), length_history, Nat.sub_self]
      rfl

theorem getLast?_history (ht : t + 1 < epochs) : (history next (t + 1)).getLast? = (history next epochs)[t]? := by
  rw [getElem?_history (Nat.lt_of_succ_lt ht), history, List.getLast?_append, List.getLast?_singleton]
  rfl

theorem forall_history (next : List β → ℕ → β) (epochs : ℕ) {P : ℕ → β → Prop}
    (hnext : ∀ t, (∀ u < t, ∀ value, (history next t)[u]? = some value → P u value) → P t (next (history next t) t)) :
    ∀ t < epochs, ∀ value, (history next epochs)[t]? = some value → P t value := by
  intro t ht value hvalue
  rw [getElem?_history ht, Option.some_inj] at hvalue
  subst hvalue
  clear ht
  induction t using Nat.strongRecOn with
  | ind t ih =>
    apply hnext
    intro u hu value hvalue
    rw [getElem?_history hu, Option.some_inj] at hvalue
    rw [← hvalue]
    exact ih u hu

end LeoNdn.Histories
