/-! Cutting a text at a separator: at its first occurrence, or at every one. -/
namespace Accounts.Text

/-- What stands before and after the first `sep`, if there is one. -/
def cut? (sep : Char) : List Char → Option (List Char × List Char)
  | [] => none
  | c :: rest =>
    if c = sep then some ([], rest) else (cut? sep rest).map fun (a, b) => (c :: a, b)

/-- The pieces between separators: one more than there are separators, empty ones included. -/
def pieces (sep : Char) : List Char → List (List Char)
  | [] => [[]]
  | c :: rest =>
    if c = sep then [] :: pieces sep rest
    else match pieces sep rest with
      | [] => [[c]]
      | p :: ps => (c :: p) :: ps

theorem pieces_ne_nil (sep : Char) (s : List Char) : pieces sep s ≠ [] := by
  cases s with
  | nil => simp [pieces]
  | cons c rest =>
    simp only [pieces]
    split
    · simp
    · split <;> simp

/-- A cut is undone by putting the separator back, and the first part does not hold it. -/
theorem cut?_eq_some_iff {sep : Char} {s a b : List Char} :
    cut? sep s = some (a, b) ↔ s = a ++ sep :: b ∧ sep ∉ a := by
  induction s generalizing a with
  | nil => simp [cut?]
  | cons c rest ih =>
    by_cases h : c = sep
    · subst h
      cases a with
      | nil => simp [cut?]
      | cons d a => simp [cut?]; grind
    · cases a with
      | nil => simp [cut?, h]
      | cons d a =>
        simp only [cut?, h, if_false, Option.map_eq_some_iff, Prod.exists, Prod.mk.injEq]
        constructor
        · rintro ⟨x, y, hRest, hCons, rfl⟩
          obtain ⟨rfl, rfl⟩ := List.cons.inj hCons
          obtain ⟨rfl, hNotMem⟩ := ih.1 hRest
          exact ⟨rfl, by simp [hNotMem, Ne.symm h]⟩
        · rintro ⟨hText, hSep⟩
          obtain ⟨rfl, rfl⟩ := List.cons.inj hText
          exact ⟨a, b, ih.2 ⟨rfl, by simp at hSep; exact hSep.2⟩, rfl, rfl⟩

/-- A text is cut at its first separator in one way only. -/
theorem eq_of_append_cons_eq {sep : Char} {a b s t : List Char} (hFirst : sep ∉ a)
    (hSecond : sep ∉ b) (h : a ++ sep :: s = b ++ sep :: t) : a = b ∧ s = t := by
  have hLeft : cut? sep (a ++ sep :: s) = some (a, s) := cut?_eq_some_iff.mpr ⟨rfl, hFirst⟩
  have hRight : cut? sep (b ++ sep :: t) = some (b, t) := cut?_eq_some_iff.mpr ⟨rfl, hSecond⟩
  rw [h, hRight] at hLeft
  simpa [eq_comm] using hLeft

theorem pieces_of_notMem {sep : Char} {s : List Char} (h : sep ∉ s) : pieces sep s = [s] := by
  induction s with
  | nil => rfl
  | cons c rest ih =>
      rw [List.mem_cons, not_or] at h
      simp [pieces, Ne.symm h.1, ih h.2]

/-- A text without separators is the first piece of what it stands in front of. -/
theorem pieces_append {sep : Char} {s : List Char} (rest : List Char) (h : sep ∉ s) :
    pieces sep (s ++ sep :: rest) = s :: pieces sep rest := by
  induction s with
  | nil => simp [pieces]
  | cons c s ih =>
      rw [List.mem_cons, not_or] at h
      simp [pieces, Ne.symm h.1, ih h.2]

/-- The pieces of a text with the separator between them are the text. -/
theorem intercalate_pieces (sep : Char) (s : List Char) :
    [sep].intercalate (pieces sep s) = s := by
  induction s with
  | nil => rfl
  | cons c rest ih =>
      obtain ⟨first, others, hPieces⟩ := List.exists_cons_of_ne_nil (pieces_ne_nil sep rest)
      rw [hPieces] at ih
      by_cases h : c = sep
      · subst h
        simp [pieces, hPieces, List.intercalate_cons_cons, ih]
      · cases others with
        | nil => simp_all [pieces]
        | cons p ps => simp_all [pieces, List.intercalate_cons_cons]

end Accounts.Text
