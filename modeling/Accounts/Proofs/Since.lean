import Mathlib.Data.List.Basic

/-! Lists that are read from left to right, as time goes by. What happened in one may be undone
later. -/
namespace Accounts

variable {α : Type} {P Q : α → Prop} {xs : List α} {x : α}

theorem snoc_eq_append_cons {before after : List α} {y : α}
    (h : xs ++ [x] = before ++ y :: after) :
    (xs = before ∧ x = y ∧ after = []) ∨
      ∃ after', after = after' ++ [x] ∧ xs = before ++ y :: after' := by
  rcases List.eq_nil_or_concat' after with rfl | ⟨after', z, rfl⟩
  · obtain ⟨hLeft, hRight⟩ := List.append_inj' h rfl
    exact .inl ⟨hLeft, (List.cons.inj hRight).1, rfl⟩
  · have hAssoc : xs ++ [x] = (before ++ y :: after') ++ [z] := by simpa using h
    obtain ⟨hLeft, hRight⟩ := List.append_inj' hAssoc rfl
    exact .inr ⟨after', by rw [(List.cons.inj hRight).1], hLeft⟩

/-- Something with `P` happened, and nothing with `Q` has happened since. -/
def Since (P Q : α → Prop) (xs : List α) : Prop :=
  ∃ before x after, xs = before ++ x :: after ∧ P x ∧ ∀ y ∈ after, ¬Q y

theorem since_nil : ¬Since P Q [] := by
  rintro ⟨before, x, after, hNil, _⟩
  simp at hNil

theorem since_snoc : Since P Q (xs ++ [x]) ↔ P x ∨ Since P Q xs ∧ ¬Q x := by
  constructor
  · rintro ⟨before, y, after, hSplit, hP, hQ⟩
    rcases snoc_eq_append_cons hSplit with ⟨-, rfl, -⟩ | ⟨after', rfl, rfl⟩
    · exact .inl hP
    · exact .inr ⟨⟨before, y, after', rfl, hP, fun z hz => hQ z (List.mem_append_left _ hz)⟩,
        hQ x (by simp)⟩
  · rintro (hP | ⟨⟨before, y, after, rfl, hP, hQ⟩, hLast⟩)
    · exact ⟨xs, x, [], rfl, hP, by simp⟩
    · refine ⟨before, y, after ++ [x], by simp, hP, fun z hz => ?_⟩
      rcases List.mem_append.mp hz with hz | hz
      · exact hQ z hz
      · rwa [List.mem_singleton.mp hz]

end Accounts
