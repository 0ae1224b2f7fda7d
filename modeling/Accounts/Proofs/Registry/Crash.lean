import Accounts.Proofs.Registry.Settling

/-! Operations that are cut off. Every state that an operation passes through settles to what its
first state settles to, or to what its last state does. -/
namespace Accounts.Registry
open Process Accounts.Action

variable {r : Registry} {g : GroupName} {p q : Process} {s : Process × Faults}

variable {α β : Type}

/-- Secrets stay owned, and every state on the way settles to what the first state settles to or to
what the last one does. -/
def Settles (r : Registry) (a : Program α) (s : Process × Faults) (R : α → Process → Prop) : Prop :=
  Program.Keeps host (fun s' => s'.1.Owned r ∧ (s'.1.settled r = s.1.settled r ∨
    s'.1.settled r = (a.run host s).2.1.settled r)) a s fun x s' => R x s'.1

namespace Settles

variable {R : α → Process → Prop} {R' : β → Process → Prop}

theorem of_keeps {a : Program α} {Q : α → Process × Faults → Prop}
    (h : Program.Keeps host (fun s' => SettlesTo r (s.1.settled r) s'.1) a s Q)
    (hEnd : ∀ x s', Q x s' → R x s'.1) : Settles r a s R :=
  ⟨fun s' hCut => ⟨(h.1 s' hCut).owned, Or.inl (h.1 s' hCut).settled_eq⟩, hEnd _ _ h.2⟩

theorem of_atomic {a : Action α} {R : Except Error α → Process → Prop} (h : Atomic a s R)
    (hOwned : s.1.Owned r) (hEnd : ∀ answer p, R answer p → p.Owned r) : Settles r a.run s R := by
  refine ⟨fun s' hCut => ?_, h.2⟩
  rcases h.1 s' hCut with hOld | hNew
  · rw [hOld]
    exact ⟨hOwned, Or.inl rfl⟩
  · rw [hNew]
    exact ⟨hEnd _ _ h.2, Or.inr rfl⟩

/-- If the first part settles like its start, only the second one can make a difference. -/
theorem bind_left {a : Program α} {f : α → Program β} {Q : α → Process × Faults → Prop}
    (hFirst : Program.Keeps host (fun s' => SettlesTo r (s.1.settled r) s'.1) a s Q)
    (hSecond : ∀ x s', SettlesTo r (s.1.settled r) s'.1 → Q x s' → Settles r (f x) s' R') :
    Settles r (a >>= f) s R' := by
  have hMiddle := hFirst.last
  have hRest := hSecond _ _ hMiddle hFirst.2
  refine ⟨fun s' hCut => ?_, ?_⟩
  · rcases Program.mem_cuts_bind hCut with hCut | hCut
    · exact ⟨(hFirst.1 s' hCut).owned, Or.inl (hFirst.1 s' hCut).settled_eq⟩
    · rw [Program.run_bind, ← hMiddle.settled_eq]
      exact hRest.1 s' hCut
  · rw [Program.run_bind]
    exact hRest.2

/-- If the second part settles like its start, only the first one can make a difference. -/
theorem bind_right {a : Program α} {f : α → Program β} (hFirst : Settles r a s R)
    (hSecond : ∀ x s', s'.1.Owned r → R x s'.1 →
      Program.Keeps host (fun s'' => SettlesTo r (s'.1.settled r) s''.1) (f x) s' fun _ _ => True) :
    Settles r (a >>= f) s fun _ _ => True := by
  have hMiddle := hFirst.1 _ (Program.run_mem_cuts host a s)
  have hRest := hSecond _ _ hMiddle.1 hFirst.2
  have hSame := hRest.last.settled_eq
  refine ⟨fun s' hCut => ?_, trivial⟩
  rw [Program.run_bind]
  rcases Program.mem_cuts_bind hCut with hCut | hCut
  · refine ⟨(hFirst.1 s' hCut).1, (hFirst.1 s' hCut).2.imp_right fun hEq => ?_⟩
    exact hEq.trans hSame.symm
  · have hHere := hRest.1 s' hCut
    exact ⟨hHere.owned, Or.inr (hHere.settled_eq.trans hSame.symm)⟩

variable {a : Action α} {R : Except Error α → Process → Prop}

theorem andThen {f : α → Action β} (hFirst : Settles r a.run s R)
    (hOk : ∀ x s', s'.1.Owned r → R (.ok x) s'.1 →
      Keeps host (fun s'' => SettlesTo r (s'.1.settled r) s''.1) (f x) s' fun _ _ => True) :
    Settles r (a >>= f).run s fun _ _ => True := by
  rw [ExceptT.run_bind]
  refine hFirst.bind_right fun x s' hOwned hR => ?_
  cases x with
  | ok x => exact hOk x s' hOwned hR
  | error e => exact Program.Keeps.done ⟨hOwned, rfl⟩ trivial

theorem tryCatch {handle : Error → Action α} (hBody : Settles r a.run s R)
    (hError : ∀ e s', s'.1.Owned r → R (.error e) s'.1 →
      Keeps host (fun s'' => SettlesTo r (s'.1.settled r) s''.1) (handle e) s' fun _ _ => True) :
    Settles r (tryCatch a handle).run s fun _ _ => True := by
  rw [ExceptT.run_tryCatch]
  refine hBody.bind_right fun x s' hOwned hR => ?_
  cases x with
  | ok x => exact Program.Keeps.done ⟨hOwned, rfl⟩ trivial
  | error e => exact hError e s' hOwned hR

/-- Before the last action nothing happened that opening would not undo. -/
theorem lastly {f : α → Action β} {Q : Except Error α → Process × Faults → Prop}
    {R' : Except Error β → Process → Prop}
    (hFirst : Keeps host (fun s' => SettlesTo r (s.1.settled r) s'.1) a s Q)
    (hOk : ∀ x s', SettlesTo r (s.1.settled r) s'.1 → Q (.ok x) s' → Settles r (f x).run s' R')
    (hError : ∀ e s', Q (.error e) s' → R' (.error e) s'.1) :
    Settles r (a >>= f).run s R' := by
  rw [ExceptT.run_bind]
  refine bind_left hFirst fun x s' hSettles hQ => ?_
  cases x with
  | ok x => exact hOk x s' hSettles hQ
  | error e =>
      have hHere : SettlesTo r (s'.1.settled r) s'.1 := ⟨hSettles.owned, rfl⟩
      exact of_keeps (Program.Keeps.done hHere (hError e s' hQ)) fun _ _ h => h

end Settles

/-! ## The operations -/

theorem keeps_emit {target : Book × Vault} (hSettles : SettlesTo r target s.1) (event : Event) :
    Keeps host (fun s' => SettlesTo r target s'.1) (Action.emit event) s fun _ _ => True :=
  Keeps.emit ⟨hSettles.owned, hSettles.settled_eq⟩ trivial

theorem owned_write (hOwned : p.Owned r) (g : GroupName) (entries : List (String × String)) :
    (p.save (p.book.write g entries)).Owned r := by
  refine hOwned.of_sameOff (sameOff_write p g entries) fun hGone => ?_
  rw [save_book, Book.get?_write, if_pos rfl] at hGone
  contradiction

theorem Settles.book {f : Book → Action α} {R : Except Error α → Process → Prop}
    (h : Settles r (f s.1.book).run s R) : Settles r (Store.book >>= f).run s R := h

theorem Settles.ofExcept {x : α} {f : α → Action β} {R : Except Error β → Process → Prop}
    (h : Settles r (f x).run s R) : Settles r (Action.ofExcept (.ok x) >>= f).run s R := h

theorem Settles.throw {e : Error} (hOwned : s.1.Owned r) :
    Settles r (throw e : Action α).run s fun _ _ => True :=
  of_keeps (Q := fun _ _ => True) (Program.Keeps.done ⟨hOwned, rfl⟩ trivial) fun _ _ _ => trivial

theorem settles_remove (hOwned : s.1.Owned r) (g : GroupName) :
    Settles r (r.remove g).run s fun _ _ => True := by
  apply Settles.book
  split
  · exact Settles.throw hOwned
  · have hMark := atomic_markPending g s
    refine Settles.andThen (Settles.of_atomic hMark hOwned fun _ p hT => ?_) fun _ s' hOwned' hT => ?_
    · rcases hT with ⟨_, _, rfl⟩ | ⟨_, rfl⟩
      · split_ifs
        · exact hOwned
        · exact owned_write hOwned g _
      · exact hOwned
    · have hHidden : s'.1.book.isLive g = false := by
        rcases hT with ⟨_, _, hMarked⟩ | ⟨⟨e, hFailed⟩, _⟩
        · rw [hMarked]
          split_ifs with hPending
          · exact isLive_of_isPending hPending
          · exact isLive_of_isPending (Book.isPending_write_pendingKey s.1.book g "true")
        · contradiction
      refine (keeps_finishRemoval hOwned' hHidden).bind (fun _ s'' hSettles _ => ?_) fun _ _ _ _ =>
        trivial
      exact keeps_emit hSettles _

theorem atomic_ensureLive {f : Unit → Action α} {T : Except Error α → Process → Prop}
    (hLive : s.1.book.isLive g = true → Atomic (f ()) s T)
    (hError : T (.error (.unknownGroup g.sectionName)) s.1) : Atomic (ensureLive g >>= f) s T := by
  rw [ensureLive, bind_assoc]
  apply Atomic.book
  cases hGroup : s.1.book.isLive g with
  | true => exact hLive hGroup
  | false => exact Atomic.throw hError

/-- What writing an attribute of a group may make of a process. -/
inductive Written (r : Registry) (g : GroupName) (p : Process) : Process → Prop
  | file (key value : String) (hKey : key ≠ pendingKey) :
      Written r g p (p.save (p.book.write g [(key, value)]))
  | service (e : Entry) (value : String) (hEntry : e ∈ r.entries g) :
      Written r g p (p.withVault (p.vault.put e value))

theorem atomic_backendSet (key value : String) (hKey : key ≠ pendingKey)
    (hSecret : r.secrets.isSecretKey key = true) (g : GroupName) (s : Process × Faults) :
    Atomic (r.backend.set g key value) s fun _ p => p = s.1 ∨ Written r g s.1 p := by
  cases hBackend : r.backend with
  | inline =>
      refine (atomic_setMany g [(key, value)] s).mono fun _ p hT => ?_
      rcases hT with ⟨⟨_, rfl⟩, _⟩ | ⟨_, rfl⟩
      · exact Or.inr (Written.file key value hKey)
      · exact Or.inl rfl
  | keyring ring =>
      have hEntry : ring.entry g key ∈ r.entries g := (mem_entries hBackend).mpr ⟨key, hSecret, rfl⟩
      refine (atomic_put ring g key value s).mono fun _ p hT => ?_
      rcases hT with ⟨_, rfl⟩ | ⟨_, rfl | rfl⟩
      · exact Or.inr (Written.service _ value hEntry)
      · exact Or.inl rfl
      · exact Or.inr (Written.service _ value hEntry)

theorem atomic_write (g : GroupName) (key : String) (value : Value) (s : Process × Faults) :
    Atomic (r.write g key value) s fun _ p =>
      p = s.1 ∨ (s.1.book.isLive g = true ∧ Written r g s.1 p) := by
  refine atomic_ensureLive (fun hLive => ?_) (Or.inl rfl)
  split_ifs with hReserved hSecret
  · exact Atomic.throw (Or.inl rfl)
  · have hKey : key ≠ pendingKey := fun h => hReserved (Or.inr (Or.inr h))
    refine (atomic_backendSet key _ hKey hSecret g s).mono fun _ p hT => ?_
    exact hT.imp_right fun hWritten => ⟨hLive, hWritten⟩
  · have hKey : key ≠ pendingKey := fun h => hReserved (Or.inr (Or.inr h))
    refine (atomic_setMany g [(key, value.encode)] s).mono fun _ p hT => ?_
    rcases hT with ⟨⟨_, rfl⟩, _⟩ | ⟨_, rfl⟩
    · exact Or.inr ⟨hLive, Written.file key _ hKey⟩
    · exact Or.inl rfl

theorem Written.sameOff (h : Written r g p q) : SameOff r g p q := by
  cases h with
  | file key value _ => exact sameOff_write p g _
  | service e value hEntry => exact sameOff_put hEntry p value

theorem Written.there (h : Written r g p q) (hThere : p.book.get? g ≠ none) :
    q.book.get? g ≠ none := by
  cases h with
  | file key value _ => simp [Book.get?_write]
  | service e value _ => exact hThere

theorem Written.owned (h : Written r g p q) (hThere : p.book.get? g ≠ none)
    (hOwned : p.Owned r) : q.Owned r :=
  hOwned.of_sameOff h.sameOff fun hGone => absurd hGone (h.there hThere)

theorem get?_ne_none_of_isLive {book : Book} (h : book.isLive g = true) : book.get? g ≠ none := by
  obtain ⟨a, ha, _⟩ := Book.isLive_eq_true_iff.mp h
  simp [ha]

/-- A write, after which notice is given. -/
theorem settles_write (hOwned : s.1.Owned r) (g : GroupName) (key : String) (value : Value)
    (event : Event) :
    Settles r (r.write g key value >>= fun _ => Action.emit event).run s fun _ _ => True := by
  refine Settles.andThen (Settles.of_atomic (atomic_write g key value s) hOwned fun _ p hT => ?_)
    fun _ s' hOwned' _ => keeps_emit ⟨hOwned', rfl⟩ event
  rcases hT with rfl | ⟨hLive, hWritten⟩
  · exact hOwned
  · exact hWritten.owned (get?_ne_none_of_isLive hLive) hOwned

/-! ## Creation -/

/-- The group is marked and has a manager, as while its secrets are written. -/
def Begun (g : GroupName) (book : Book) : Prop :=
  ∃ a, book.get? g = some a ∧ a.isPending = true ∧ ∃ manager, a.get? managerKey = some manager

theorem Begun.isLive {book : Book} (h : Begun g book) : book.isLive g = false := by
  obtain ⟨a, ha, hMark, _⟩ := h
  exact isLive_of_isPending (Book.isPending_eq_true_iff.mpr ⟨a, ha, hMark⟩)

theorem Begun.written (h : Begun g p.book) (hWritten : Written r g p q) : Begun g q.book := by
  cases hWritten with
  | service e value _ => exact h
  | file key value hKey =>
      obtain ⟨a, ha, hMark, manager, hManager⟩ := h
      refine ⟨a.insert key value, ?_, ?_, ?_⟩
      · simp [Book.get?_write, Book.attributes, ha]
      · simpa [Attributes.isPending, SortedMap.contains, hKey] using hMark
      · by_cases hEq : key = managerKey
        · exact ⟨value, by simp [hEq]⟩
        · exact ⟨manager, by simp [hEq, hManager]⟩

/-- A secret of a marked group is written, or not, and the group stays marked. -/
theorem keeps_setSecret {target : Book × Vault} {key : String} (value : String)
    (hSettles : SettlesTo r target s.1) (hBegun : Begun g s.1.book)
    (hSecret : r.secrets.isSecretKey key = true) :
    Keeps host (fun s' => SettlesTo r target s'.1) (r.backend.set g key value) s
      fun _ s' => Begun g s'.1.book := by
  have hKey : key ≠ pendingKey := by
    rintro rfl
    rw [SecretNames.isSecretKey_pendingKey] at hSecret
    contradiction
  have hThere : s.1.book.get? g ≠ none := by
    obtain ⟨a, ha, _⟩ := hBegun
    simp [ha]
  have hSet := atomic_backendSet key value hKey hSecret g s
  refine (hSet.keeps hSettles fun _ q hT => ?_).mono fun _ s' _ hT => ?_
  · rcases hT with rfl | hWritten
    · exact hSettles
    · have hAside : Aside r g s.1 q :=
        ⟨hWritten.sameOff, (hBegun.written hWritten).isLive, hWritten.owned hThere hSettles.owned⟩
      rw [← hSettles.settled_eq]
      exact hAside.settlesTo hSettles.owned hBegun.isLive
  · rcases hT with hSame | hWritten
    · rw [hSame]
      exact hBegun
    · exact hBegun.written hWritten

theorem keeps_setSecrets {es : List (String × String)} (hOwned : s.1.Owned r)
    (hBegun : Begun g s.1.book) (hSecret : ∀ e ∈ es, r.secrets.isSecretKey e.1 = true) :
    Keeps host (fun s' => SettlesTo r (s.1.settled r) s'.1)
      (es.forM fun e => r.backend.set g e.1 e.2) s fun _ s' => Begun g s'.1.book := by
  refine Keeps.forM (R := fun rest (s' : Process × Faults) => Begun g s'.1.book ∧ rest ⊆ es)
    ⟨hOwned, rfl⟩ ⟨hBegun, List.Subset.refl es⟩ ?_ fun s' _ hEnd => hEnd.1
  intro e rest s' hSettles ⟨hBegun', hRest⟩
  have hTurn := keeps_setSecret e.2 hSettles hBegun' (hSecret e (hRest List.mem_cons_self))
  apply hTurn.mono
  intro answer s'' _ hAfter
  cases answer with
  | ok _ => exact ⟨hAfter, fun e' he' => hRest (List.mem_cons_of_mem e he')⟩
  | error _ => exact hAfter

/-- The group shows from the moment that its mark is gone. -/
theorem settles_clearPending (hOwned : s.1.Owned r) (hBegun : Begun g s.1.book) :
    Settles r (Store.clearPending g).run s fun answer p =>
      (∃ e, answer = .error e) → p.book.isLive g = false := by
  have hClear := atomic_delete g pendingKey s
  refine (Settles.of_atomic hClear hOwned fun _ p hT => ?_).mono fun answer s' _ hT hFailed => ?_
  · rcases hT with ⟨_, rfl⟩ | ⟨_, rfl⟩
    · split_ifs
      · obtain ⟨a, ha, _, manager, hManager⟩ := hBegun
        apply hOwned.of_sameOff (sameOff_eraseKey s.1 g pendingKey)
        intro hGone
        rw [save_book, Book.get?_eraseKey_of_ne ha hManager (by decide)] at hGone
        contradiction
      · exact hOwned
    · exact hOwned
  · rcases hT with ⟨hOk, _⟩ | ⟨_, hSame⟩
    · obtain ⟨e, hError⟩ := hFailed
      rw [hOk] at hError
      contradiction
    · rw [hSame]
      exact hBegun.isLive

theorem settles_publish {es : List (String × String)} (hOwned : s.1.Owned r)
    (hBegun : Begun g s.1.book) (hSecret : ∀ e ∈ es, r.secrets.isSecretKey e.1 = true) :
    Settles r (r.publish g es).run s fun answer p =>
      (∃ e, answer = .error e) → p.book.isLive g = false := by
  apply Settles.lastly (keeps_setSecrets hOwned hBegun hSecret)
  · intro _ s' hSettles hBegun'
    exact settles_clearPending hSettles.owned hBegun'
  · intro _ s' hBegun' _
    exact hBegun'.isLive

theorem begun_write {book : Book} (h : book.get? g = none) (r : Registry) (manager protocol : String)
    (params : SortedMap String Value) :
    Begun g (book.write g (r.initialAttributes manager protocol params).toList) := by
  refine ⟨r.initialAttributes manager protocol params, ?_, ?_, manager, ?_⟩
  · simp [Book.write_toList book h]
  · simp [Attributes.isPending, SortedMap.contains, get?_initialAttributes_pendingKey]
  · exact get?_initialAttributes_managerKey r manager protocol params

/-- The attributes of a new group are written with its mark, or not at all. -/
theorem keeps_begin (hOwned : s.1.Owned r) (hNew : s.1.book.get? g = none)
    (manager protocol : String) (params : SortedMap String Value) :
    Keeps host (fun s' => SettlesTo r (s.1.settled r) s'.1)
      (Store.setMany g (r.initialAttributes manager protocol params).toList) s
      fun answer s' => answer = .ok () → Begun g s'.1.book := by
  have hBegun := begun_write hNew r manager protocol params
  have hAside : Aside r g s.1 (s.1.save (s.1.book.write g
      (r.initialAttributes manager protocol params).toList)) :=
    ⟨sameOff_write s.1 g _, hBegun.isLive, owned_write hOwned g _⟩
  have hWrite := atomic_setMany g (r.initialAttributes manager protocol params).toList s
  refine (hWrite.keeps (J := SettlesTo r (s.1.settled r)) ⟨hOwned, rfl⟩ fun _ p hT => ?_).mono
    fun answer s' _ hT hOk => ?_
  · rcases hT with ⟨⟨_, rfl⟩, _⟩ | ⟨_, rfl⟩
    · exact hAside.settlesTo hOwned (isLive_of_get?_eq_none hNew)
    · exact ⟨hOwned, rfl⟩
  · rcases hT with ⟨⟨_, hSaved⟩, _⟩ | ⟨⟨e, hError⟩, _⟩
    · rw [hSaved]
      exact hBegun
    · rw [hError] at hOk
      contradiction

theorem settles_establish (hOwned : s.1.Owned r) (hNew : s.1.book.get? g = none)
    (manager protocol : String) (params : SortedMap String Value) :
    Settles r (r.establish g (r.initialAttributes manager protocol params)
      (r.secretParams params)).run s fun _ _ => True := by
  apply Settles.lastly (keeps_begin hOwned hNew manager protocol params)
  · intro _ s' hSettles hBegun
    have hSecret : ∀ e ∈ r.secretParams params, r.secrets.isSecretKey e.1 = true := by
      intro e he
      exact isSecretKey_of_mem_secretParams he
    have hPublish := settles_publish hSettles.owned (hBegun rfl) hSecret
    apply Settles.andThen (Settles.tryCatch hPublish ?_)
    · intro _ s'' hOwned' _
      have hHere : SettlesTo r (s''.1.settled r) s''.1 := ⟨hOwned', rfl⟩
      exact (keeps_emit hHere _).bind (fun _ _ hSettles' _ => Keeps.pure hSettles' trivial)
        fun _ _ _ _ => trivial
    · intro e s'' hOwned' hHidden
      exact (keeps_abandon hOwned' (hHidden ⟨e, rfl⟩)).bind
        (fun _ _ hSettles' _ => Keeps.throw hSettles' trivial) fun _ _ _ _ => trivial
  · intro _ _ _
    trivial

theorem settles_create (hOwned : s.1.Owned r) (manager protocol : String)
    (params : SortedMap String Value) :
    Settles r (r.create manager protocol params).run s fun _ _ => True := by
  rw [create_eq]
  apply Settles.book
  cases r.equivalent? s.1.book manager protocol (r.plainParams params) with
  | some existing => exact Settles.throw hOwned
  | none =>
      apply Settles.book
      cases hName : allocate s.1.book manager protocol (r.identity params) with
      | error e => exact Settles.throw (e := e) hOwned
      | ok g =>
          apply Settles.ofExcept
          exact settles_establish hOwned (get?_eq_none_of_allocate hName) manager protocol params

/-! ## Mutations -/

theorem Settles.map {α β : Type} {a : Action α} {f : α → β}
    (h : Settles r a.run s fun _ _ => True) : Settles r (f <$> a).run s fun _ _ => True := by
  rw [← bind_pure_comp]
  exact h.andThen fun _ s' hOwned _ => Keeps.pure ⟨hOwned, rfl⟩ trivial

theorem settles_mutation (hOwned : s.1.Owned r) {op : Operation} (hOp : op.isMutation = true) :
    Settles r (op.action r).run s fun _ _ => True := by
  cases op, hOp using Operation.mutation_cases with
  | create manager protocol params => exact (settles_create hOwned manager protocol params).map
  | setProperty g key value => exact (settles_write hOwned g key value _).map
  | setEnabled g enabled => exact (settles_write hOwned g enabledKey _ _).map
  | remove g => exact (settles_remove hOwned g).map

end Accounts.Registry
