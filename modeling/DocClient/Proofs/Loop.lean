import Mathlib.Data.List.Basic

/-! Loops in which a round may fail, as it does at a place outside of a list or with a difference below zero. -/
namespace DocClient

/-- A loop: as long as it goes on, a round makes the next state, or fails. -/
structure Loop (σ : Type) where
  goesOn : σ → Bool
  round? : σ → Option σ

namespace Loop

variable {σ : Type} {loop : Loop σ} {s t u : σ}

/-- The loop comes to an end, and no round fails on the way. -/
inductive Ends (loop : Loop σ) : σ → σ → Prop
  | stop {s : σ} (h : loop.goesOn s = false) : Ends loop s s
  | round {s t u : σ} (h : loop.goesOn s = true) (hround : loop.round? s = some t) (rest : Ends loop t u) :
      Ends loop s u

/-- A loop that comes to an end does so in one state. -/
theorem Ends.iff_eq (h : loop.Ends s t) : loop.Ends s u ↔ u = t := by
  constructor
  · intro hu
    induction h with
    | stop hstop =>
      cases hu with
      | stop => rfl
      | round hgoes => cases hstop.symm.trans hgoes
    | round hgoes hround _ ih =>
      cases hu with
      | stop hstop => cases hstop.symm.trans hgoes
      | round _ hround' hrest =>
        obtain rfl := Option.some.inj (hround.symm.trans hround')
        exact ih hrest
  · rintro rfl
    exact h

end Loop

/-! ### What may fail -/

/-- A difference, unless it is below zero. -/
def minus? (m n : Nat) : Option Nat := if n ≤ m then some (m - n) else none

theorem minus?_of_le {m n : Nat} (h : n ≤ m) : minus? m n = some (m - n) := if_pos h

section Places

variable {α : Type} {xs : List α} {start stop : Nat}

/-- The part of a list from one place up to another, unless there is no such part. -/
def slice? (xs : List α) (start stop : Nat) : Option (List α) :=
  if start ≤ stop ∧ stop ≤ xs.length then some ((xs.drop start).take (stop - start)) else none

theorem slice?_of_le (h : start ≤ stop) (h' : stop ≤ xs.length) :
    slice? xs start stop = some ((xs.drop start).take (stop - start)) := if_pos ⟨h, h'⟩

theorem slice?_min_left (xs : List α) (n : Nat) : slice? xs 0 (min n xs.length) = some (xs.take n) := by
  rw [slice?_of_le (Nat.zero_le _) (Nat.min_le_right _ _), List.drop_zero, Nat.sub_zero, ← List.take_eq_take_min]

theorem slice?_min_right (xs : List α) (n : Nat) : slice? xs (min n xs.length) xs.length = some (xs.drop n) := by
  have hdrop : xs.drop (min n xs.length) = xs.drop n := by
    rw [List.drop_eq_drop_iff]
    omega
  rw [slice?_of_le (Nat.min_le_right _ _) (Nat.le_refl _), ← List.length_drop, List.take_length, hdrop]

def overwrite (xs : List α) (start : Nat) (piece : List α) : List α :=
  xs.take start ++ piece ++ xs.drop (start + piece.length)

/-- A list with others in place of the part from one place up to another, unless there is no such part or it is not
as long as they are. -/
def overwrite? (xs : List α) (start stop : Nat) (piece : List α) : Option (List α) :=
  if start + piece.length = stop ∧ stop ≤ xs.length then some (overwrite xs start piece) else none

theorem overwrite?_of_le {piece : List α} (h : start + piece.length = stop) (h' : stop ≤ xs.length) :
    overwrite? xs start stop piece = some (overwrite xs start piece) := if_pos ⟨h, h'⟩

@[simp] theorem overwrite_nil (xs : List α) (start : Nat) : overwrite xs start [] = xs := by
  simp [overwrite]

theorem length_overwrite {piece : List α} (h : start + piece.length ≤ xs.length) :
    (overwrite xs start piece).length = xs.length := by
  simp only [overwrite, List.length_append, List.length_take, List.length_drop]
  omega

/-- What is overwritten piece by piece is overwritten by all the pieces. -/
theorem overwrite_overwrite {piece : List α} (h : start + piece.length ≤ xs.length) (more : List α) :
    overwrite (overwrite xs start piece) (start + piece.length) more = overwrite xs start (piece ++ more) := by
  have hfront : (xs.take start ++ piece).length = start + piece.length := by
    rw [List.length_append, List.length_take]
    omega
  have htake : (overwrite xs start piece).take (start + piece.length) = xs.take start ++ piece := by
    rw [overwrite, ← hfront, List.take_left]
  have hdrop : (overwrite xs start piece).drop (start + piece.length + more.length) =
      xs.drop (start + (piece ++ more).length) := by
    rw [overwrite, ← hfront, List.drop_append, hfront, ← List.drop_drop, ← hfront, List.drop_length]
    simp [hfront, Nat.add_assoc]
  rw [overwrite, htake, hdrop, overwrite, List.append_assoc (xs.take start)]

end Places

end DocClient
