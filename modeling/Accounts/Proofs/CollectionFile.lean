import Accounts.CollectionFile

/-! Identifiers of collections. Those that are made up have no white space in them, those that are
remembered have none at their ends, and one that was saved is remembered. -/
namespace Accounts.CollectionFile

variable {s id : String}

/-- The text is not blank and has no white space at its ends. -/
def IsTrimmed (s : String) : Prop := s ≠ "" ∧ Text.trim s.toList = s.toList

/-- The text is not empty and has no white space in it. -/
def IsPlain (s : String) : Prop := s ≠ "" ∧ ∀ c ∈ s.toList, Text.isSpace c = false

theorem IsPlain.isTrimmed (h : IsPlain s) : IsTrimmed s :=
  ⟨h.1, Text.trim_of_forall_not_isSpace h.2⟩

theorem exists_digit_of_mem_toDigits {n : Nat} {c : Char} (h : c ∈ Nat.toDigits 16 n) :
    ∃ d < 16, c = Nat.digitChar d := by
  induction n using Nat.strongRecOn with
  | ind n ih =>
      by_cases hSmall : n < 16
      · rw [Nat.toDigits_of_lt_base hSmall] at h
        exact ⟨n, hSmall, List.mem_singleton.mp h⟩
      · have hLast : n % 16 < 16 := Nat.mod_lt n (by decide)
        have hSplit := Nat.toDigits_append_toDigits (b := 16) (by decide)
          (Nat.div_pos (Nat.le_of_not_lt hSmall) (by decide)) hLast
        rw [Nat.div_add_mod] at hSplit
        rw [← hSplit, List.mem_append] at h
        rcases h with hFront | hBack
        · exact ih (n / 16) (by omega) hFront
        · rw [Nat.toDigits_of_lt_base hLast] at hBack
          exact ⟨n % 16, hLast, List.mem_singleton.mp hBack⟩

/-- What is made up is plain. -/
theorem isPlain_identifier (number : Nat) : IsPlain (identifier number) := by
  constructor
  · intro hEmpty
    have hNil := congrArg String.toList hEmpty
    simp [identifier, idPrefix] at hNil
  · intro c hc
    simp only [identifier, String.toList_ofList, List.mem_append, List.mem_replicate] at hc
    rcases hc with (hName | ⟨_, rfl⟩) | hDigit
    · have hPrefix : idPrefix.all (fun c => Text.isSpace c == false) = true := by decide
      exact eq_of_beq (List.all_eq_true.mp hPrefix c hName)
    · decide
    · have hDigits : ∀ d < 16, Text.isSpace (Nat.digitChar d) = false := by decide
      obtain ⟨d, hd, rfl⟩ := exists_digit_of_mem_toDigits hDigit
      exact hDigits d hd

theorem isTrimmed_of_remembered {saved : Option Content} (h : remembered? saved = .ok (some id)) :
    IsTrimmed id := by
  unfold remembered? at h
  split at h
  · cases h
  · cases h
  next text =>
    by_cases hBlank : Text.trim text.toList = []
    · simp [hBlank] at h
    · simp only [hBlank, if_false, Except.ok.injEq, Option.some.injEq] at h
      rw [← h]
      refine ⟨fun hEmpty => hBlank ?_, by simp [Text.trim_trim]⟩
      simpa using congrArg String.toList hEmpty

/-- An identifier that was saved is remembered. -/
theorem remembered?_content (h : IsPlain id) : remembered? (some (content id)) = .ok (some id) := by
  have hTrim : Text.trim (id ++ "\n").toList = id.toList := by
    rw [String.toList_append]
    exact (Text.trim_append_of_isSpace id.toList (by decide)).trans h.isTrimmed.2
  have hNe : id.toList ≠ [] := fun hNil => h.1 (by simpa using hNil)
  rw [content, remembered?]
  rw [hTrim, if_neg hNe, String.ofList_toList]

/-- Unless a collection is configured, the choice hangs on what is remembered. -/
theorem choose_none (saved : Except String (Option Content)) (fresh : String) :
    choose none saved fresh =
      (saved.bind remembered?).map fun known => (known.getD fresh, known.isNone) := by
  cases saved with
  | error reason => rfl
  | ok file =>
      rw [Except.bind]
      change (remembered? file >>= fun known => _) = _
      cases remembered? file with
      | error reason => rfl
      | ok known => cases known with
        | none => rfl
        | some id => rfl

end Accounts.CollectionFile
