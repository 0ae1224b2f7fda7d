/-! White space. Trimming removes the characters of the Unicode property White_Space; padding, a
smaller class, is what a key file allows around the parts of a line. -/
namespace Accounts.Text

/-- The characters with the property White_Space. -/
def isSpace (c : Char) : Bool :=
  let n := c.toNat
  (0x9 ≤ n && n ≤ 0xd) || n == 0x20 || n == 0x85 || n == 0xa0 || n == 0x1680 ||
    (0x2000 ≤ n && n ≤ 0x200a) || n == 0x2028 || n == 0x2029 || n == 0x202f || n == 0x205f ||
    n == 0x3000

/-- Padding is a space or a tab. Other white space is data. -/
def isPadding (c : Char) : Bool := c == ' ' || c == '\t'

/-- Drop the longest suffix of characters that satisfy `p`. -/
def dropEndWhile (p : Char → Bool) (s : List Char) : List Char :=
  (s.reverse.dropWhile p).reverse

/-- Remove white space from the end. -/
def trimEnd (s : List Char) : List Char := dropEndWhile isSpace s

/-- Remove white space from both ends. -/
def trim (s : List Char) : List Char := trimEnd (s.dropWhile isSpace)

theorem dropEndWhile_append_of_neg {p : Char → Bool} {c : Char} (s : List Char) (h : p c = false) :
    dropEndWhile p (s ++ [c]) = s ++ [c] := by
  simp [dropEndWhile, h]

theorem dropEndWhile_append_of_pos {p : Char → Bool} {c : Char} (s : List Char) (h : p c = true) :
    dropEndWhile p (s ++ [c]) = dropEndWhile p s := by
  simp [dropEndWhile, h]

theorem dropEndWhile_prefix (p : Char → Bool) (s : List Char) : dropEndWhile p s <+: s := by
  simpa [dropEndWhile] using List.reverse_prefix.mpr (List.dropWhile_suffix (l := s.reverse) p)

/-- Nothing is dropped in front of what does not satisfy `p`. -/
theorem dropWhile_of_head {p : Char → Bool} {s : List Char} (h : ∀ c ∈ s.head?, p c = false) :
    s.dropWhile p = s := by
  cases s with
  | nil => rfl
  | cons c rest => simp [h c rfl]

theorem eq_false_of_mem_head?_dropWhile {p : Char → Bool} {s : List Char} {c : Char}
    (h : c ∈ (s.dropWhile p).head?) : p c = false := by
  have hHead := List.head?_dropWhile_not p s
  rwa [Option.mem_def.mp h] at hHead

theorem dropEndWhile_dropEndWhile (p : Char → Bool) (s : List Char) :
    dropEndWhile p (dropEndWhile p s) = dropEndWhile p s := by
  rw [dropEndWhile, dropEndWhile, List.reverse_reverse,
    dropWhile_of_head fun _ => eq_false_of_mem_head?_dropWhile]

/-- A text that was trimmed has no white space left at its ends. What is removed from the end does
not show at the front. -/
theorem trim_trim (s : List Char) : trim (trim s) = trim s := by
  have hFront : (trim s).dropWhile isSpace = trim s := by
    refine dropWhile_of_head fun c hHead => ?_
    obtain ⟨front, hFront⟩ := List.head?_eq_some_iff.mp hHead
    obtain ⟨rest, hSplit⟩ := dropEndWhile_prefix isSpace (s.dropWhile isSpace)
    rw [trim, trimEnd] at hFront
    rw [hFront] at hSplit
    exact eq_false_of_mem_head?_dropWhile (s := s) (by rw [← hSplit]; rfl)
  rw [trim, hFront]
  exact dropEndWhile_dropEndWhile isSpace _

/-- White space at the end makes no difference to what trimming leaves. -/
theorem trim_append_of_isSpace (s : List Char) {c : Char} (h : isSpace c = true) :
    trim (s ++ [c]) = trim s := by
  rw [trim, trim, List.dropWhile_append]
  split
  case isTrue hEmpty =>
    rw [List.isEmpty_iff.mp hEmpty]
    simp [h]
  case isFalse => exact dropEndWhile_append_of_pos _ h

/-- Trimming leaves a text without white space alone. -/
theorem trim_of_forall_not_isSpace {s : List Char} (h : ∀ c ∈ s, isSpace c = false) :
    trim s = s := by
  rw [trim, dropWhile_of_head fun c hc => h c (List.mem_of_mem_head? hc), trimEnd]
  rcases List.eq_nil_or_concat s with rfl | ⟨front, c, rfl⟩
  · rfl
  · rw [List.concat_eq_append] at h ⊢
    exact dropEndWhile_append_of_neg front (h c (by simp))

/-- All padding is white space, so a text that trimming leaves alone has no padding at its ends. -/
theorem isSpace_of_isPadding {c : Char} (h : isPadding c = true) : isSpace c = true := by
  simp only [isPadding, Bool.or_eq_true, beq_iff_eq] at h
  rcases h with rfl | rfl <;> decide

end Accounts.Text
