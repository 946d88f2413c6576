import Mathlib.Data.List.Perm.Basic

/-! Removal from a list by putting its last item into the gap. The items before the gap keep
their places.
-/

universe u
variable {α : Type u}

/-- Remove the item at an index and put the last item in its place. -/
def swapRemove (items : List α) (index : Nat) : List α :=
  match items.getLast? with
  | some last => (items.set index last).dropLast
  | none => []

section
variable {items : List α} {index : Nat}

@[simp] theorem length_swapRemove (items : List α) (index : Nat)
    : (swapRemove items index).length = items.length - 1 := by
  rw [swapRemove]
  cases last : items.getLast? with
  | some item => simp
  | none => simp [List.getLast?_eq_none_iff.mp last]

/-- Removal of the last item cuts it off; removal before it moves the last item forward. -/
theorem swapRemove_append_singleton (front : List α) (last : α) (index : Nat)
    : swapRemove (front ++ [last]) index
      = if index < front.length then front.set index last else front := by
  rw [swapRemove, List.getLast?_concat]
  dsimp only
  split
  next inside => rw [List.set_append_left _ _ inside, List.dropLast_concat]
  next outside =>
    rw [List.set_append_right _ _ (Nat.not_lt.mp outside)]
    cases gap : index - front.length with
    | zero => simp
    | succ more => simp

/-- The removed item and the rest are the items. -/
theorem swapRemove_perm (inside : index < items.length)
    : (items[index] :: swapRemove items index).Perm items := by
  obtain ⟨front, last, rfl⟩ := (List.eq_nil_or_concat items).resolve_left
    (List.ne_nil_of_length_pos (Nat.zero_lt_of_lt inside))
  simp only [List.concat_eq_append] at inside ⊢
  rw [swapRemove_append_singleton]
  split
  next earlier =>
    rw [List.getElem_append_left earlier]
    have moved : (front.set index last).Perm (last :: front.eraseIdx index) :=
      List.set_perm_cons_eraseIdx earlier last
    have whole : (front[index] :: front.eraseIdx index).Perm front :=
      List.getElem_cons_eraseIdx_perm earlier
    exact (moved.cons _).trans ((List.Perm.swap ..).trans
      ((whole.cons _).trans (List.perm_append_singleton last front).symm))
  next reached =>
    have own : index = front.length := by
      simp only [List.length_append, List.length_singleton] at inside
      omega
    subst own
    rw [List.getElem_concat_length rfl]
    exact (List.perm_append_singleton last front).symm

/-- The items before the gap keep their places. -/
theorem take_swapRemove (inside : index < items.length)
    : (swapRemove items index).take index = items.take index := by
  obtain ⟨front, last, rfl⟩ := (List.eq_nil_or_concat items).resolve_left
    (List.ne_nil_of_length_pos (Nat.zero_lt_of_lt inside))
  simp only [List.concat_eq_append, List.length_append, List.length_singleton] at inside ⊢
  rw [swapRemove_append_singleton, List.take_append_of_le_length (by omega)]
  split
  next earlier => rw [List.take_set_of_le (Nat.le_refl _)]
  next => rfl

end
