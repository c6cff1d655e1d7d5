import Mathlib.Data.List.Basic
/-!
# One entry of a list in the place of another

Tables here are lists that are changed at one place at a time.  What a map sees of a table
stays when the new entry looks as the old one did (`map_set_of_eq`).  Of the entries that
have a property one is the last (`exists_last`).
-/

namespace Offspring

variable {α β : Type}

/-- What stands before and after a place. -/
theorem exists_around {l : List α} {place : Nat} {x : α} (hx : l[place]? = some x) :
    ∃ front back, l = front ++ x :: back ∧ ∀ y, l.set place y = front ++ y :: back := by
  obtain ⟨hlt, rfl⟩ := List.getElem?_eq_some_iff.mp hx
  refine ⟨l.take place, l.drop (place + 1), ?_, fun y => List.set_eq_take_append_cons_drop.trans ?_⟩
  · rw [List.getElem_cons_drop, List.take_append_drop]
  · rw [if_pos hlt]

/-- An entry in the place of one that looks the same leaves what a map sees. -/
theorem map_set_of_eq {f : α → β} {l : List α} {place : Nat} {x y : α}
    (hx : l[place]? = some x) (hf : f y = f x) : (l.set place y).map f = l.map f := by
  obtain ⟨front, back, hl, hset⟩ := exists_around hx
  rw [hset, hl]
  simp [hf]

/-- If some entry has a property, one of them is the last. -/
theorem exists_last {p : α → Prop} {l : List α} (h : ∃ a ∈ l, p a) :
    ∃ before a after, l = before ++ a :: after ∧ p a ∧ ∀ b ∈ after, ¬ p b := by
  induction l with
  | nil =>
      obtain ⟨a, ha, _⟩ := h
      cases ha
  | cons b l ih =>
      by_cases hlater : ∃ a ∈ l, p a
      · obtain ⟨before, a, after, rfl, ha, hafter⟩ := ih hlater
        exact ⟨b :: before, a, after, rfl, ha, hafter⟩
      · obtain ⟨a, ha, hpa⟩ := h
        have hnone : ∀ c ∈ l, ¬ p c := fun c hc hpc => hlater ⟨c, hc, hpc⟩
        rcases List.mem_cons.mp ha with rfl | ha
        · exact ⟨[], a, l, rfl, hpa, hnone⟩
        · exact absurd hpa (hnone a ha)

/-- What a list has beyond one that begins it. -/
theorem append_drop_length {s t : List α} (h : s <+: t) : s ++ t.drop s.length = t := by
  obtain ⟨new, rfl⟩ := h
  rw [List.drop_left]

end Offspring
