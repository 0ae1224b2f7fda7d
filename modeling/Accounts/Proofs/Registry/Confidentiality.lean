import Accounts.Proofs.Registry.Intact

/-! Confidentiality of the account file. Opening a registry with a secret service moves every secret
out of the file, and no operation puts one back. -/
namespace Accounts.Registry
open Process Accounts.Action

variable {r : Registry} {p : Process} {s : Process × Faults}

/-! ## Migration -/

/-- Every secret of the book is among the listed ones. -/
def SecretsAmong (r : Registry) (es : List (GroupName × String × String)) (book : Book) : Prop :=
  ∀ g key value, r.secrets.isSecretKey key = true → book.value? g key = some value →
    ∃ e ∈ es, e.1 = g ∧ e.2.1 = key

theorem secretsAmong_inlineSecrets (r : Registry) (book : Book) :
    r.SecretsAmong (r.inlineSecrets book) book := by
  intro g key value hSecret hValue
  obtain ⟨a, ha, hGet⟩ := Option.bind_eq_some_iff.mp hValue
  refine ⟨(g, key, value), ?_, rfl, rfl⟩
  simp only [inlineSecrets, List.mem_flatMap, List.mem_map, List.mem_filter]
  exact ⟨(g, a), SortedMap.mem_toList_iff.mpr ha, (key, value),
    ⟨SortedMap.mem_toList_iff.mpr hGet, hSecret⟩, rfl⟩

theorem allKeys_of_secretsAmong_nil {book : Book} (h : r.SecretsAmong [] book)
    (hWritable : book.AllKeys KeyFile.IsWritable) : book.AllKeys r.Allows := by
  rw [Book.allKeys_iff] at hWritable ⊢
  intro g key value hValue
  refine ⟨hWritable g key value hValue, Or.inr ?_⟩
  cases hSecret : r.secrets.isSecretKey key with
  | false => rfl
  | true =>
      obtain ⟨e, he, _⟩ := h g key value hSecret hValue
      contradiction

/-- What is left in the book after a deletion is among what is left of the list. -/
theorem SecretsAmong.delete {g : GroupName} {key value : String}
    {rest : List (GroupName × String × String)} {book : Book}
    (h : r.SecretsAmong ((g, key, value) :: rest) book) :
    r.SecretsAmong rest
      (if (book.value? g key).isSome then book.eraseKey g key else book) := by
  intro g' key' value' hSecret hValue
  have hLeft : book.value? g' key' = some value' ∧ ¬(g' = g ∧ key' = key) := by
    split_ifs at hValue with hThere
    · exact Book.value?_of_eraseKey hValue
    · refine ⟨hValue, ?_⟩
      rintro ⟨rfl, rfl⟩
      exact hThere (by simp [hValue])
  obtain ⟨e, he, hGroup, hKey⟩ := h g' key' value' hSecret hLeft.1
  rcases List.mem_cons.mp he with rfl | hRest
  · exact absurd ⟨hGroup.symm, hKey.symm⟩ hLeft.2
  · exact ⟨e, hRest, hGroup, hKey⟩

theorem keeps_serviceSet (hBackend : r.backend.isInline = false) (g : GroupName)
    (key value : String) (hIntact : s.1.Intact KeyFile.IsWritable) :
    Keeps host (fun s => s.1.Intact KeyFile.IsWritable) (r.backend.set g key value) s
      fun _ s' => s'.1.book = s.1.book := by
  cases hRing : r.backend with
  | inline => simp [hRing, Backend.isInline] at hBackend
  | keyring ring =>
      apply ((atomic_put ring g key value s).keeps hIntact ?_).mono
      · intro _ s' _ hT
        rcases hT with ⟨_, hPut⟩ | ⟨_, hSame | hPut⟩
        · rw [hPut, withVault_book]
        · rw [hSame]
        · rw [hPut, withVault_book]
      · intro _ p hT
        rcases hT with ⟨_, rfl⟩ | ⟨_, rfl | rfl⟩
        · exact ⟨hIntact.load_file, hIntact.allKeys⟩
        · exact hIntact
        · exact ⟨hIntact.load_file, hIntact.allKeys⟩

/-- A secret that was moved is no longer among those of the file. -/
theorem keeps_moveSecret (hBackend : r.backend.isInline = false) (g : GroupName)
    (key value : String) {rest : List (GroupName × String × String)}
    (hIntact : s.1.Intact KeyFile.IsWritable)
    (hAmong : r.SecretsAmong ((g, key, value) :: rest) s.1.book) :
    Keeps host (fun s => s.1.Intact KeyFile.IsWritable) (r.moveSecret g key value) s fun answer s' =>
      answer = .ok () → r.SecretsAmong rest s'.1.book := by
  apply (keeps_serviceSet hBackend g key value hIntact).bind
  · intro _ s' hIntact' hBook
    have hDelete := (closed_writable r).delete g key
    apply ((atomic_delete g key s').within hDelete hIntact').mono
    intro _ s'' _ hT hOk
    rcases hT with ⟨_, hGone⟩ | ⟨⟨e, hFailed⟩, _⟩
    · have hLeft := hAmong.delete
      rw [← hBook] at hLeft
      rw [hGone]
      split_ifs with hThere
      · rwa [if_pos hThere] at hLeft
      · rwa [if_neg hThere] at hLeft
    · rw [hFailed] at hOk
      contradiction
  · intro e s' _ _ hOk
    contradiction

/-- Migration ends well only when no secret is left in the file that belongs into a service. -/
theorem keeps_migrate (hIntact : s.1.Intact KeyFile.IsWritable) :
    Keeps host (fun s => s.1.Intact KeyFile.IsWritable) r.migrate s fun answer s' =>
      answer = .ok () → s'.1.Intact r.Allows := by
  cases hBackend : r.backend.isInline with
  | true =>
      rw [migrate_inline hBackend]
      exact Keeps.pure hIntact fun _ => hIntact.mono fun _ hKey => ⟨hKey, Or.inl hBackend⟩
  | false =>
      rw [migrate_eq hBackend]
      apply keeps_book
      refine Keeps.forM (R := fun rest (s' : Process × Faults) => r.SecretsAmong rest s'.1.book)
        hIntact (r.secretsAmong_inlineSecrets s.1.book) ?_ ?_
      · intro e rest s' hIntact' hAmong
        apply (keeps_moveSecret hBackend e.1 e.2.1 e.2.2 hIntact' hAmong).mono
        intro answer s'' _ h
        cases answer with
        | ok _ => exact h rfl
        | error e =>
            intro hOk
            contradiction
      · intro s' hIntact' hNone _
        exact ⟨hIntact'.load_file, allKeys_of_secretsAmong_nil hNone hIntact'.allKeys⟩

/-- A registry that was opened has no secret in its file that belongs into a service. -/
theorem intact_of_openUp (hIntact : s.1.Intact KeyFile.IsWritable)
    (hOpen : (r.openUp.run.run host s).1 = .ok ()) :
    (r.openUp.run.run host s).2.1.Intact r.Allows := by
  have hBoth : Keeps host (fun s => s.1.Intact KeyFile.IsWritable) r.openUp s fun answer s' =>
      answer = .ok () → s'.1.Intact r.Allows := by
    refine (keeps_migrate hIntact).bind ?_ fun e s' _ _ hOk => by contradiction
    intro _ s' hIntact' hMigrated
    have hClean := (closed_writable r).cleanUp s' hIntact'
    have hCleanAllowed := (closed_allowed r).cleanUp s' (hMigrated rfl)
    exact ⟨hClean.1, fun _ => hCleanAllowed.last⟩
  exact hBoth.2 hOpen

/-- Whatever happened to a readable file before, once a registry with a secret service was opened
no file that its operations save has a secret in any group, pending or not. This holds for the
secrets of that registry, whichever names earlier ones took for secret, and whatever fails. -/
theorem file_has_no_secret {d₀ d : Storage} {book₀ : Book}
    (hFile : AccountFile.load d₀.file = .ok book₀)
    (hEarlier : Relation.ReflTransGen (fun d d' => ∃ r, Storage.Leaves r d d') d₀ d)
    (hBackend : r.backend.isInline = false) :
    ∃ p, d.start = .ok p ∧ ∀ faults opened, r.openUp.run.run host (p, faults) = (.ok (), opened) →
      ∀ ops, ∀ s ∈ (r.work ops).run.cuts host opened, ∃ book,
        AccountFile.load s.1.file = .ok book ∧
          book.AllKeys fun key => r.secrets.isSecretKey key = false := by
  obtain ⟨book, hLoad⟩ := Storage.load_of_leaves hFile hEarlier
  refine ⟨_, start_of_load hLoad, ?_⟩
  intro faults opened hOpen ops s hCut
  have hStart := intact_of_start (start_of_load hLoad)
  have hOpened : opened.1.Intact r.Allows := by
    have hAllowed := intact_of_openUp (r := r) (s := (_, faults)) hStart (by rw [hOpen])
    rw [hOpen] at hAllowed
    exact hAllowed
  have hWork : Respects r.Allows (r.work ops) :=
    respects_work (fun _ h => h.1) (fun _ => allows_of_writes) ops
  have hIntact := (hWork opened hOpened).1 s hCut
  refine ⟨s.1.book, hIntact.load_file, hIntact.allKeys.mono fun _ h => h.2.resolve_left ?_⟩
  simp [hBackend]

/-- A book with a password among the attributes of its group. -/
def bookWithPassword : Book :=
  Book.write ∅ checkGroup [(managerKey, "keeper"), (paramKey "password", "old")]

/-- A registry with a secret service that takes passwords for secret. -/
def ringRegistry : Registry := ⟨.keyring ⟨"keeper", Keyring.defaultTimeout⟩, .default⟩

theorem load_bookWithPassword :
    AccountFile.load (some (AccountFile.content bookWithPassword)) = .ok bookWithPassword := by
  apply AccountFile.load_content
  refine Book.allKeys_empty.write fun e he => KeyFile.isWritable_of_isKey ?_
  rcases List.mem_pair.mp he with rfl | rfl
  · decide
  · decide

/-- The password leaves the file when the registry is opened, and a new one stays out of it. -/
theorem file_has_no_secret_after_migration :
    ∃ p opened, Storage.start ⟨some (AccountFile.content bookWithPassword), ∅⟩ = .ok p ∧
      ringRegistry.openUp.run.run host (p, .none) = (.ok (), opened) ∧
      ∀ s ∈ (ringRegistry.work [.setProperty checkGroup (paramKey "password") (.string "new")]).run.cuts
          host opened, ∃ book, AccountFile.load s.1.file = .ok book ∧
        book.AllKeys fun key => ringRegistry.secrets.isSecretKey key = false := by
  let d : Storage := ⟨some (AccountFile.content bookWithPassword), ∅⟩
  have hFile : AccountFile.load d.file = .ok bookWithPassword := load_bookWithPassword
  obtain ⟨p, hStart, hRun⟩ := file_has_no_secret hFile .refl (r := ringRegistry) rfl
  have hProcess : p = { d with book := bookWithPassword, events := [] } := by
    rw [start_of_load hFile] at hStart
    exact (Except.ok.inj hStart).symm
  have hOpen : (ringRegistry.openUp.run.run host (p, .none)).1 = .ok () := by
    rw [hProcess]
    rfl
  exact ⟨p, _, hStart, Prod.ext hOpen rfl, hRun .none _ (Prod.ext hOpen rfl) _⟩

end Accounts.Registry
