/-! The lines of a text. A line ends at a line feed, or at a carriage return with a line feed. -/
namespace Accounts.Text

/-- Cut a text into lines. An end of line at the very end opens no further line, and a carriage
return that no line feed follows belongs to its line. -/
def lines : List Char → List (List Char)
  | [] => []
  | '\n' :: rest => [] :: lines rest
  | '\r' :: '\n' :: rest => [] :: lines rest
  | c :: rest => match lines rest with
    | [] => [[c]]
    | l :: ls => (c :: l) :: ls

/-- A character that ends no line belongs to the line that follows. -/
theorem lines_cons {c : Char} {s : List Char} (hFeed : c ≠ '\n')
    (hReturn : c = '\r' → s.head? ≠ some '\n') :
    lines (c :: s) = match lines s with
      | [] => [[c]]
      | l :: ls => (c :: l) :: ls := by
  rw [lines]
  · exact hFeed
  · intro rest hc hs
    exact hReturn hc (by simp [hs])

/-- A line without line feeds is read up to the line feed that ends it. It must not end in a
carriage return, which would be taken for a part of the end of line. -/
theorem lines_append_newline {l : List Char} (rest : List Char) (hFeed : '\n' ∉ l)
    (hReturn : l.getLast? ≠ some '\r') : lines (l ++ '\n' :: rest) = l :: lines rest := by
  induction l with
  | nil => rfl
  | cons c l ih =>
      rw [List.mem_cons, not_or] at hFeed
      have hTail : lines (l ++ '\n' :: rest) = l :: lines rest := by
        apply ih hFeed.2
        cases l with
        | nil => simp
        | cons d l => simpa using hReturn
      have hHead : c = '\r' → (l ++ '\n' :: rest).head? ≠ some '\n' := by
        rintro rfl
        cases l with
        | nil => simp at hReturn
        | cons d l =>
            simp only [List.mem_cons, not_or] at hFeed
            simpa using Ne.symm hFeed.2.1
      rw [List.cons_append, lines_cons (Ne.symm hFeed.1) hHead, hTail]

theorem newline_notMem_of_mem_lines {s l : List Char} (h : l ∈ lines s) : '\n' ∉ l := by
  induction s using lines.induct generalizing l with
  | case1 => simp [lines] at h
  | case2 rest ih =>
      rcases List.mem_cons.mp h with rfl | h
      · simp
      · exact ih h
  | case3 rest ih =>
      rcases List.mem_cons.mp h with rfl | h
      · simp
      · exact ih h
  | case4 c rest hFeed hReturn hRest ih =>
      rw [lines, hRest, List.mem_singleton] at h
      · simpa [h] using Ne.symm hFeed
      · exact hFeed
      · exact hReturn
  | case5 c rest hFeed hReturn first others hRest ih =>
      rw [lines, hRest, List.mem_cons] at h
      · rw [hRest] at ih
        rcases h with rfl | h
        · simpa using ⟨Ne.symm hFeed, ih (List.mem_cons_self ..)⟩
        · exact ih (List.mem_cons_of_mem _ h)
      · exact hFeed
      · exact hReturn

end Accounts.Text
