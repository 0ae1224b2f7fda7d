import Accounts.Proofs.Registry.Ledger
import Accounts.Proofs.Registry.Removal

/-! Secrets outlive no group. Whatever is in the collection of a registry belongs to a group in the
book, so the name of a group that is gone can be given again, and nothing is left under it. -/
namespace Accounts

/-- An operation writes to the collection only under keys that a removal goes through. The backend
check does not, where no parameter is secret. -/
def Operation.IsTracked (r : Registry) (op : Operation) : Prop :=
  op = .check → r.checkKey ∈ r.secrets.keys

namespace Process

/-- Every entry in the collection is that of a secret of some group. -/
def Addressed (r : Registry) (ring : Keyring) (p : Process) : Prop :=
  ∀ e, e.collection = ring.collection → p.vault.contains e = true → ∃ g, e ∈ r.entries g

/-- A sound process with nothing in the collection but secrets of its groups. -/
structure Tidy (r : Registry) (ring : Keyring) (p : Process) : Prop where
  sound : p.Sound r
  addressed : p.Addressed r ring

variable {r : Registry} {ring : Keyring} {p : Process} {g : GroupName}

theorem Addressed.put (h : p.Addressed r ring) {e : Entry} (he : e ∈ r.entries g)
    (value : String) : (p.withVault (p.vault.put e value)).Addressed r ring := by
  intro e' hCollection hThere
  by_cases hEq : e = e'
  · exact ⟨g, hEq ▸ he⟩
  · rw [withVault_vault, SortedMap.contains, Vault.put, SortedMap.get?_insert, if_neg hEq] at hThere
    exact h e' hCollection hThere

theorem Addressed.remove (h : p.Addressed r ring) (e : Entry) :
    (p.withVault (p.vault.erase e)).Addressed r ring := by
  intro e' hCollection hThere
  rw [withVault_vault, SortedMap.contains, SortedMap.get?_erase] at hThere
  split_ifs at hThere
  · contradiction
  · exact h e' hCollection hThere

/-- What is in the collection under a group and a key is a secret of a group in the book. -/
theorem Tidy.there (h : p.Tidy r ring) (hBackend : r.backend = .keyring ring) {key : String}
    (hEntry : p.vault.contains (ring.entry g key) = true) :
    r.secrets.isSecretKey key = true ∧ p.book.contains g = true := by
  obtain ⟨g', hMem⟩ := h.addressed (ring.entry g key) rfl hEntry
  obtain ⟨key', hSecret, hEq⟩ := (Registry.mem_entries hBackend).mp hMem
  obtain ⟨rfl, rfl⟩ := Keyring.entry_inj hEq
  refine ⟨hSecret, ?_⟩
  cases hGroup : p.book.get? g' with
  | some a => simp [SortedMap.contains, hGroup]
  | none => simp [SortedMap.contains, h.sound.owned g' hGroup _ hMem] at hEntry

/-- There is nothing in the collection under a group that is not in the book. -/
theorem Tidy.get?_vault (h : p.Tidy r ring) (hBackend : r.backend = .keyring ring)
    (hGone : p.book.get? g = none) (key : String) :
    SortedMap.get? p.vault (ring.entry g key) = none := by
  rw [← Option.not_isSome_iff_eq_none]
  intro hEntry
  have hThere := (h.there hBackend hEntry).2
  rw [SortedMap.contains, hGone] at hThere
  contradiction

end Process

namespace Registry
open Process Accounts.Action

variable {r : Registry} {ring : Keyring} {g : GroupName} {p q : Process} {s : Process × Faults}

theorem closed_addressed (r : Registry) (ring : Keyring) : r.Closed (Addressed r ring) := by
  intro p q hChange h
  cases hChange with
  | write g entries hKeys => exact h
  | eraseKey g key => exact h
  | erase g => exact h
  | put g e hEntry value => exact h.put hEntry value
  | remove g e hEntry => exact h.remove e
  | notify event => exact h

theorem stable_addressed_action {op : Operation} (hOp : op.IsTracked r) :
    Stable (Addressed r ring) (op.action r) := by
  have hClosed := closed_addressed r ring
  by_cases hCheck : op = .check
  · have hKey := hOp hCheck
    subst hCheck
    refine (hClosed.check fun ring' hBackend p h => ?_).map
    have hEntry : ring'.entry checkGroup r.checkKey ∈ r.entries checkGroup := by
      rw [entries_of_keyring hBackend]
      exact List.mem_map_of_mem hKey
    exact h.put hEntry checkValue
  · exact hClosed.action hCheck

theorem stable_tidy_session {ops : List Operation} (hOps : ∀ op ∈ ops, op.IsTracked r) :
    Stable (Tidy r ring) (r.session ops) := by
  intro s hTidy
  have hAddressed : Stable (Addressed r ring) (r.session ops) :=
    (closed_addressed r ring).openUp.bind fun _ => Preserves.forM fun op hOp =>
      (Preserves.attempt (stable_addressed_action (hOps op hOp))).bind fun _ => Preserves.pure _
  have hSound := (stable_sound_session r ops s hTidy.sound).1
  exact ⟨fun s' hCut => ⟨hSound s' hCut, (hAddressed s hTidy.addressed).1 s' hCut⟩, trivial⟩

/-- Processes leave tidy storage to each other. -/
theorem start_of_tidy {d d' : Storage}
    (hStart : ∃ p, d.start = .ok p ∧ p.Tidy r ring)
    (hEarlier : Relation.ReflTransGen (Storage.LeavesUsing r (·.IsTracked r)) d d') :
    ∃ p, d'.start = .ok p ∧ p.Tidy r ring := by
  refine Storage.start_of_chain (fun d d' p hStart hTidy hLeaves => ?_) hStart hEarlier
  obtain ⟨p', ops, faults, s, hOps, hStart', hCut, rfl⟩ := hLeaves
  rw [hStart] at hStart'
  obtain rfl := Except.ok.inj hStart'
  have hLeft := (stable_tidy_session hOps (p, faults) hTidy).1 s hCut
  have hRestart := start_of_load hLeft.sound.intact.load_file
  exact ⟨_, hRestart, ⟨⟨⟨hLeft.sound.intact.load_file, hLeft.sound.intact.allKeys⟩,
    hLeft.sound.owned⟩, hLeft.addressed⟩⟩

/-! ## New accounts -/

/-- Under the entries of a group the vault holds the attributes, and nothing else. -/
def Holds (ring : Keyring) (g : GroupName) (v : Vault) (a : Attributes) : Prop :=
  ∀ key, SortedMap.get? v (ring.entry g key) = a.get? key

theorem Holds.put {v : Vault} {a : Attributes} (h : Holds ring g v a) (key value : String) :
    Holds ring g (v.put (ring.entry g key) value) (a.insert key value) := by
  intro key'
  rw [Vault.put, SortedMap.get?_insert, SortedMap.get?_insert]
  by_cases hKey : key = key'
  · rw [hKey, if_pos rfl, if_pos rfl]
  · rw [if_neg hKey, if_neg fun hEq => hKey (Keyring.entry_inj hEq).2]
    exact h key'

/-- Secrets that are all written come on top of what was there. -/
theorem keeps_putSecrets (hBackend : r.backend = .keyring ring) {a : Attributes}
    (es : List (String × String)) (hHolds : Holds ring g s.1.vault a) :
    Keeps host (fun _ => True) (es.forM fun e => r.backend.set g e.1 e.2) s fun answer s' =>
      answer = .ok () → Holds ring g s'.1.vault (a.insertMany es) := by
  rw [hBackend]
  refine Keeps.forM (R := fun rest (s' : Process × Faults) => ∃ b : Attributes,
      Holds ring g s'.1.vault b ∧ b.insertMany rest = a.insertMany es)
    trivial ⟨a, hHolds, rfl⟩ ?_ ?_
  · rintro e rest s' _ ⟨b, hHolds', hRest⟩
    have hPut := (atomic_put ring g e.1 e.2 s').ends
    refine hPut.mono fun answer s'' _ hT => ?_
    rcases hT with ⟨rfl, hStored⟩ | ⟨⟨_, rfl⟩, _⟩
    · refine ⟨b.insert e.1 e.2, ?_, hRest⟩
      rw [hStored]
      exact hHolds'.put e.1 e.2
    · intro hOk
      contradiction
  · rintro s' _ ⟨b, hHolds', hAll⟩ _
    rw [← hAll]
    exact hHolds'

theorem keeps_publish (hBackend : r.backend = .keyring ring) {a : Attributes}
    (es : List (String × String)) (hHolds : Holds ring g s.1.vault a) :
    Keeps host (fun _ => True) (r.publish g es) s fun answer s' =>
      answer = .ok () → Holds ring g s'.1.vault (a.insertMany es) := by
  refine Keeps.bind (keeps_putSecrets hBackend es hHolds) (fun _ s' _ hHolds' => ?_)
    fun _ _ _ _ hOk => by contradiction
  refine (atomic_delete g pendingKey s').ends.mono fun _ s'' _ hT _ => ?_
  have hVault : s''.1.vault = s'.1.vault := by
    rcases hT with ⟨_, hCleared⟩ | ⟨_, hSame⟩
    · rw [hCleared]
      split_ifs
      · rfl
      · rfl
    · rw [hSame]
  rw [hVault]
  exact hHolds' rfl

/-- Where nothing is left of an earlier group, the new one has its own secrets only. -/
theorem keeps_establish (hBackend : r.backend = .keyring ring) {a : Attributes}
    (es : List (String × String)) (hNone : Holds ring g s.1.vault ∅) :
    Keeps host (fun _ => True) (r.establish g a es) s fun answer s' =>
      ∀ g', answer = .ok g' → g' = g ∧ Holds ring g s'.1.vault (SortedMap.ofList es) := by
  refine Keeps.bind (atomic_setMany g a.toList s).ends (fun _ s' _ hT => ?_)
    fun _ _ _ _ _ hOk => by contradiction
  have hVault : s'.1.vault = s.1.vault := by
    rcases hT with ⟨⟨_, hSaved⟩, _⟩ | ⟨_, hSame⟩
    · rw [hSaved, save_vault]
    · rw [hSame]
  rw [← hVault] at hNone
  -- What is abandoned ends with an error, so nothing needs to be known of it.
  refine (keeps_publish hBackend es hNone).tryCatch_throw.bind
    (fun _ s'' _ hHolds => ?_) fun _ _ _ _ _ hOk => by contradiction
  refine Keeps.bind (R := fun _ s₃ => Holds ring g s₃.1.vault (SortedMap.ofList es))
    (Keeps.emit trivial (hHolds rfl)) (fun _ s₃ _ hHolds₃ => ?_)
    fun _ _ _ _ _ hOk => by contradiction
  exact Keeps.pure trivial fun g' hOk => ⟨(Except.ok.inj hOk).symm, hHolds₃⟩

/-- What a new group keeps in the service is what was secret among its parameters. -/
theorem keeps_create (hBackend : r.backend = .keyring ring) (hTidy : s.1.Tidy r ring)
    (manager protocol : String) (params : SortedMap String Value) :
    Keeps host (fun _ => True) (r.create manager protocol params) s fun answer s' =>
      ∀ g, answer = .ok g → Holds ring g s'.1.vault (SortedMap.ofList (r.secretParams params)) := by
  refine keeps_create_of_establish trivial (fun _ _ hOk => by contradiction) fun g hNew => ?_
  have hNone : Holds ring g s.1.vault ∅ := hTidy.get?_vault hBackend hNew
  refine (keeps_establish hBackend (r.secretParams params) hNone).mono ?_
  rintro _ s' _ hHolds g' rfl
  obtain ⟨rfl, hSecrets⟩ := hHolds g' rfl
  exact hSecrets

theorem get?_ofList_secretParams (r : Registry) (params : SortedMap String Value) (key : String) :
    (SortedMap.ofList (r.secretParams params)).get? key =
      if r.secrets.isSecretKey key then (Ledger.paramAttributes params).get? key else none := by
  have hInsert := Ledger.get?_insertMany_secretParams r params ∅ key
  rw [SortedMap.get?_empty, Option.or_none] at hInsert
  exact hInsert

/-- On an empty account file and an empty collection processes come and go, each cut off somewhere
and each with faults of its own. Then whatever the collection holds is a secret of a group in the
book, at every point of every process, and an account that is created has the secrets among its
parameters and no others, whoever had the name of its group before. -/
theorem no_orphaned_secret (hBackend : r.backend = .keyring ring) {d d' : Storage}
    (hFile : AccountFile.load d.file = .ok ∅)
    (hEmpty : ∀ key, SortedMap.get? d.vault ⟨ring.collection, key⟩ = none)
    (hEarlier : Relation.ReflTransGen (Storage.LeavesUsing r (·.IsTracked r)) d d') :
    ∃ p, d'.start = .ok p ∧ ∀ ops, (∀ op ∈ ops, op.IsTracked r) →
      (∀ faults, ∀ s ∈ (r.session ops).run.cuts host (p, faults), ∀ g key,
        s.1.vault.contains (ring.entry g key) = true →
          r.secrets.isSecretKey key = true ∧ s.1.book.contains g = true) ∧
      ∀ q, (r.session ops).Ends p (.ok ()) q → ∀ manager protocol params g x,
        (r.create manager protocol params).Ends q (.ok g) x → ∀ key,
          SortedMap.get? x.vault (ring.entry g key) =
            if r.secrets.isSecretKey key then (Ledger.paramAttributes params).get? key
            else none := by
  have hTidy : Tidy r ring { d with book := ∅, events := [] } := by
    refine ⟨⟨⟨hFile, Book.allKeys_empty⟩, fun g _ e he => ?_⟩, fun e hCollection hThere => ?_⟩
    · obtain ⟨key, _, rfl⟩ := (mem_entries hBackend).mp he
      exact hEmpty _
    · obtain ⟨collection, key⟩ := e
      obtain rfl : collection = ring.collection := hCollection
      rw [SortedMap.contains, hEmpty] at hThere
      contradiction
  obtain ⟨p, hStart, hTidyP⟩ := start_of_tidy ⟨_, start_of_load hFile, hTidy⟩ hEarlier
  refine ⟨p, hStart, fun ops hOps => ⟨fun faults s hCut g key => ?_, ?_⟩⟩
  · exact ((stable_tidy_session hOps (p, faults) hTidyP).1 s hCut).there hBackend
  · rintro q ⟨faults, faults', hRun⟩ manager protocol params g x ⟨faults₁, faults₂, hCreate⟩ key
    have hTidyQ := (stable_tidy_session hOps (p, faults) hTidyP).last
    rw [hRun] at hTidyQ
    have hHolds := (keeps_create (s := (q, faults₁)) hBackend hTidyQ manager protocol params).2
    rw [hCreate] at hHolds
    rw [hHolds g rfl key, get?_ofList_secretParams]

/-- An account with a password is created and removed again, but the service does not answer when
the password is to go. -/
def neglectedProcess : Process :=
  ((ringRegistry.session [.create "keeper" "health" (.ofList [("password", .string "old")]),
    .remove accountGroup]).run.run host
      ({ Storage.unused with book := ∅, events := [] }, ⟨[], [.works, .fails .timedOut]⟩)).2.1

/-- The process that comes after it, once the registry is open. -/
def tidiedProcess : Process :=
  ((ringRegistry.session []).calm { neglectedProcess with events := [] }).2

/-- The password was still there when the second process started. The account can be created anew,
under the same name, and has no password. -/
theorem recreated_account_has_no_password :
    neglectedProcess.vault.size = 1 ∧
      ∃ p q x, neglectedProcess.toStorage.start = .ok p ∧
        (ringRegistry.session []).Ends p (.ok ()) q ∧
        (ringRegistry.create "keeper" "health" ∅).Ends q (.ok accountGroup) x ∧
        SortedMap.get? x.vault
          (Keyring.entry ⟨"keeper", Keyring.defaultTimeout⟩ accountGroup (paramKey "password")) =
            none := by
  have hLeft : Storage.LeavesUsing ringRegistry (·.IsTracked ringRegistry) Storage.unused
      neglectedProcess.toStorage :=
    ⟨_, _, _, _, by simp [Operation.IsTracked], rfl, Program.run_mem_cuts _ _ _, rfl⟩
  have hBackend : ringRegistry.backend = .keyring ⟨"keeper", Keyring.defaultTimeout⟩ := rfl
  obtain ⟨p, hStart, hRuns⟩ :=
    no_orphaned_secret hBackend (d := Storage.unused) rfl (fun _ => rfl) (.single hLeft)
  have hRestart : neglectedProcess.toStorage.start =
      .ok { neglectedProcess with events := [] } := by decide +kernel
  obtain rfl := Except.ok.inj (hStart.symm.trans hRestart)
  have hOpen : (ringRegistry.session []).Ends { neglectedProcess with events := [] } (.ok ())
      tidiedProcess := by
    refine ⟨.none, .none, (run_eq_calm _ _).trans (Prod.ext ?_ rfl)⟩
    decide +kernel
  have hCreate : (ringRegistry.create "keeper" "health" ∅).Ends tidiedProcess (.ok accountGroup)
      ((ringRegistry.create "keeper" "health" ∅).calm tidiedProcess).2 := by
    refine ⟨.none, .none, (run_eq_calm _ _).trans (Prod.ext ?_ rfl)⟩
    decide +kernel
  refine ⟨by decide +kernel, _, _, _, hStart, hOpen, hCreate, ?_⟩
  have hSecrets := (hRuns [] (List.forall_mem_nil _)).2 _ hOpen _ _ _ _ _ hCreate
  exact hSecrets (paramKey "password")

end Registry
end Accounts
