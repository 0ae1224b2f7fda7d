import Accounts.Proofs.Registry.Alike
import Accounts.Proofs.Registry.LiveView
import Accounts.Proofs.Relational

/-! Actions that do the same whatever the secrets are. Started in processes that differ only in the
values of secrets, with the same failures to come, they give the same answer and leave processes
that again differ in nothing else. -/
namespace Accounts

namespace Registry
open Process Accounts.Action

variable {r : Registry} {g : GroupName} {α γ : Type}

/-- Processes that differ only in the values of secrets, and for which the same goes wrong. -/
def Alike (r : Registry) (s s' : Process × Faults) : Prop := s.1.Alike r s'.1 ∧ s.2 = s'.2

/-- The actions cannot be told apart by what they do to anything but the values of secrets. -/
abbrev Twins (r : Registry) (a a' : Action α) : Prop := Matches host r.Alike a a'

/-- The action does not depend on the values of secrets. -/
abbrev Blind (r : Registry) (a : Action α) : Prop := r.Twins a a

/-! ## Single effects -/

theorem Twins.book {f f' : Book → Action α}
    (h : ∀ b b', b.Alike r.Hides b' → r.Twins (f b) (f' b')) :
    r.Twins (Store.book >>= f) (Store.book >>= f') :=
  fun s s' hAlike => h s.1.book s'.1.book hAlike.1.book s s' hAlike

theorem twins_commit {b b' : Book} (h : b.Alike r.Hides b') :
    r.Twins (Store.commit b) (Store.commit b') := by
  rintro ⟨p, saves, calls⟩ ⟨p', _⟩ ⟨hAlike, rfl⟩
  cases saves with
  | nil => exact ⟨rfl, hAlike.save h, rfl⟩
  | cons fate rest =>
      cases fate with
      | none => exact ⟨rfl, hAlike.save h, rfl⟩
      | some reason => exact ⟨rfl, hAlike, rfl⟩

theorem blind_emit (event : Event) : r.Blind (Action.emit event) :=
  fun _ _ hAlike => ⟨rfl, hAlike.1.notify event, hAlike.2⟩

/-- Calls that the two vaults serve alike are answered alike, as far as `f` shows the answers. -/
theorem call_alike {s s' : Process × Faults} (hAlike : r.Alike s s') (request request' : Request)
    (f : String → γ)
    (hFate : ∀ fate, CallFate.forRequest request fate = CallFate.forRequest request' fate)
    (hAnswer : (s.1.vault.serve request).1.map f = (s'.1.vault.serve request').1.map f)
    (hVault : (s.1.vault.serve request).2.Alike (fun e => ∃ g, e ∈ r.entries g)
      (s'.1.vault.serve request').2) :
    (call s request).1.map f = (call s' request').1.map f ∧
      r.Alike (call s request).2 (call s' request').2 := by
  obtain ⟨p, faults⟩ := s
  obtain ⟨p', _⟩ := s'
  obtain ⟨hAlike, rfl⟩ := hAlike
  have hRefused : ∀ answer : Except ServiceError String,
      (answer.mapError CallFailure.refused).map f = (answer.map f).mapError CallFailure.refused := by
    intro answer
    cases answer with
    | ok value => rfl
    | error e => rfl
  simp only [call, hFate]
  cases CallFate.forRequest request' (faults.calls.head?.getD .works) with
  | works => exact ⟨by rw [hRefused, hRefused, hAnswer], hAlike.withVault hVault, rfl⟩
  | fails cause => exact ⟨rfl, hAlike, rfl⟩
  | lands cause => exact ⟨rfl, hAlike.withVault hVault, rfl⟩

/-- The values may differ if they are those of a secret. -/
theorem twins_put {ring : Keyring} (hBackend : r.backend = .keyring ring) (g : GroupName)
    {key value value' : String} (h : value = value' ∨ r.secrets.isSecretKey key = true) :
    r.Twins (ring.set g key value) (ring.set g key value') := by
  intro s s' hAlike
  have hVault := hAlike.1.vault.insert (ring.entry g key) value value' fun hShown =>
    h.resolve_right fun hSecret => hShown ⟨g, (mem_entries hBackend).mpr ⟨key, hSecret, rfl⟩⟩
  have hCall := call_alike hAlike (.put (ring.entry g key) value) (.put (ring.entry g key) value')
    (fun _ => ()) (fun _ => rfl) rfl hVault
  obtain ⟨hAnswer, hState⟩ : (host.put (ring.entry g key) value s).1 =
    (host.put (ring.entry g key) value' s').1 ∧ _ := hCall
  simp only [MatchesAt, Keyring.set, ExceptT.run_mk, Program.run]
  rw [hAnswer]
  cases (host.put (ring.entry g key) value' s').1 with
  | ok _ => exact ⟨rfl, hState⟩
  | error cause => exact ⟨rfl, hState⟩

theorem blind_remove (ring : Keyring) (g : GroupName) (key : String) :
    r.Blind (ring.delete g key) := by
  intro s s' hAlike
  have hServe : ∀ v : Vault, v.serve (.delete (ring.entry g key)) = _ := fun v => v.serve_delete _
  have hCall := call_alike hAlike (.delete (ring.entry g key)) (.delete (ring.entry g key))
    (fun _ => ()) (fun _ => rfl)
    (by rw [hServe, hServe, hAlike.1.vault.contains_eq])
    (by rw [hServe, hServe]; exact hAlike.1.vault.erase _)
  obtain ⟨hAnswer, hState⟩ : (host.delete (ring.entry g key) s).1 =
    (host.delete (ring.entry g key) s').1 ∧ _ := hCall
  simp only [MatchesAt, Keyring.delete, ExceptT.run_mk, Program.run]
  rw [hAnswer]
  -- The service may say that there was no such entry, which counts as success.
  cases (host.delete (ring.entry g key) s').1 with
  | ok _ => exact ⟨rfl, hState⟩
  | error cause => split <;> exact ⟨rfl, hState⟩

/-! ## The store -/

theorem twins_setMany (g : GroupName) {entries entries' : List (String × String)}
    (h : List.Forall₂ (SortedMap.Agree r.Hides) entries entries') :
    r.Twins (Store.setMany g entries) (Store.setMany g entries') := by
  have hFind : ∀ es : List (String × String), (es.find? fun e => !KeyFile.isKey e.1).map Prod.fst =
      (es.map Prod.fst).find? fun key => !KeyFile.isKey key := fun es => by
    rw [List.find?_map]
    rfl
  have hFirst := (hFind entries).trans (SortedMap.map_fst_eq_of_agree h ▸ (hFind entries').symm)
  cases hBad : entries.find? fun e => !KeyFile.isKey e.1 with
  | none =>
      rw [hBad, Option.map_none] at hFirst
      rw [Store.setMany, hBad, Store.setMany, Option.map_eq_none_iff.mp hFirst.symm]
      exact Twins.book fun _ _ hBook => twins_commit (hBook.write g h)
  | some e =>
      rw [hBad, Option.map_some] at hFirst
      obtain ⟨e', hBad', hKey⟩ := Option.map_eq_some_iff.mp hFirst.symm
      rw [setMany_of_find hBad, setMany_of_find hBad', hKey]
      exact .throw _

/-- The values may differ if they are those of a secret that the account file holds. -/
theorem twins_set (g : GroupName) {key value value' : String}
    (h : ¬r.Hides key → value = value') : r.Twins (Store.set g key value) (Store.set g key value') :=
  twins_setMany g (.cons ⟨rfl, h⟩ .nil)

theorem blind_delete (g : GroupName) (key : String) : r.Blind (Store.delete g key) := by
  refine Twins.book fun b b' hBook => ?_
  rw [hBook.isSome_value?_eq]
  split_ifs
  · exact twins_commit (hBook.eraseKey g key)
  · exact .pure ()

theorem blind_deleteGroup (g : GroupName) : r.Blind (Store.deleteGroup g) := by
  refine Twins.book fun b b' hBook => ?_
  rw [hBook.contains_eq]
  split_ifs
  · exact (twins_commit (hBook.erase g)).bind fun _ => .pure true
  · exact .pure false

theorem blind_markPending (g : GroupName) : r.Blind (Store.markPending g) := by
  refine Twins.book fun b b' hBook => ?_
  rw [hBook.contains_eq, hBook.isPending_eq]
  split_ifs
  · exact .throw _
  · exact .pure ()
  · exact twins_set g fun _ => rfl

/-! ## The backend -/

theorem twins_backendSet (g : GroupName) {key value value' : String}
    (h : value = value' ∨ r.secrets.isSecretKey key = true) :
    r.Twins (r.backend.set g key value) (r.backend.set g key value') := by
  cases hBackend : r.backend with
  | inline =>
      have hInline : r.backend.isInline = true := by rw [hBackend]; rfl
      exact twins_set g fun hShown => h.resolve_right fun hSecret => hShown ⟨hInline, hSecret⟩
  | keyring ring => exact twins_put hBackend g h

theorem blind_backendDelete (g : GroupName) (key : String) : r.Blind (r.backend.delete g key) := by
  cases r.backend with
  | inline => exact blind_delete g key
  | keyring ring => exact blind_remove ring g key

/-- Both are there or none is, and `f` shows them alike. -/
theorem found_of_map_eq {f : String → γ} {x x' : Option String} (h : x.map f = x'.map f) :
    (x = none ∧ x' = none) ∨ ∃ v v', x = some v ∧ x' = some v' ∧ f v = f v' := by
  cases x with
  | none => exact .inl ⟨rfl, Option.map_eq_none_iff.mp h.symm⟩
  | some v =>
      obtain ⟨v', rfl, hShown⟩ := Option.map_eq_some_iff.mp h.symm
      exact .inr ⟨v, v', rfl, rfl, hShown.symm⟩

/-- A read is answered alike as far as `f` shows alike what is there. -/
theorem run_storeGet {s s' : Process × Faults} (hAlike : r.Alike s s') {key : String}
    {f : String → γ} (h : (s.1.book.value? g key).map f = (s'.1.book.value? g key).map f) :
    ((Store.get g key).run.run host s).1.map f = ((Store.get g key).run.run host s').1.map f ∧
      r.Alike ((Store.get g key).run.run host s).2 ((Store.get g key).run.run host s').2 := by
  have hBook : ∀ t : Process × Faults, Store.book.run.run host t = (.ok t.1.book, t) := fun _ => rfl
  rw [Store.get, run_bind, run_bind, hBook, hBook]
  dsimp only
  rcases found_of_map_eq h with ⟨hNone, hNone'⟩ | ⟨v, v', hSome, hSome', hShown⟩
  · rw [hNone, hNone']
    exact ⟨rfl, hAlike⟩
  · rw [hSome, hSome']
    exact ⟨congrArg Except.ok hShown, hAlike⟩

theorem run_keyringGet {s s' : Process × Faults} (hAlike : r.Alike s s') (ring : Keyring)
    {key : String} {f : String → γ}
    (h : (SortedMap.get? s.1.vault (ring.entry g key)).map f =
      (SortedMap.get? s'.1.vault (ring.entry g key)).map f) :
    ((ring.get g key).run.run host s).1.map f = ((ring.get g key).run.run host s').1.map f ∧
      r.Alike ((ring.get g key).run.run host s).2 ((ring.get g key).run.run host s').2 := by
  have hServe : (s.1.vault.read (ring.entry g key)).map f =
      (s'.1.vault.read (ring.entry g key)).map f := by
    rw [Vault.read, Vault.read]
    rcases found_of_map_eq h with ⟨hNone, hNone'⟩ | ⟨v, v', hSome, hSome', hShown⟩
    · rw [hNone, hNone']
    · rw [hSome, hSome']
      exact congrArg Except.ok hShown
  have hCall := call_alike hAlike (.get (ring.entry g key)) (.get (ring.entry g key)) f
    (fun _ => rfl) hServe hAlike.1.vault
  obtain ⟨hAnswer, hState⟩ : (host.get (ring.entry g key) s).1.map f =
      (host.get (ring.entry g key) s').1.map f ∧
    r.Alike (host.get (ring.entry g key) s).2 (host.get (ring.entry g key) s').2 := hCall
  simp only [Keyring.get, ExceptT.run_mk, Program.run]
  generalize host.get (ring.entry g key) s = result at hAnswer hState ⊢
  generalize host.get (ring.entry g key) s' = result' at hAnswer hState ⊢
  obtain ⟨answer, t⟩ := result
  obtain ⟨answer', t'⟩ := result'
  cases answer with
  | ok v => cases answer' with
    | ok v' => exact ⟨congrArg Except.ok (Except.ok.inj hAnswer), hState⟩
    | error cause => contradiction
  | error cause => cases answer' with
    | ok v' => contradiction
    | error cause' =>
        obtain rfl := Except.error.inj hAnswer
        cases cause with
        | refused e => cases e with
          | noEntry => exact ⟨rfl, hState⟩
          | unavailable reason => exact ⟨rfl, hState⟩
        | timedOut => exact ⟨rfl, hState⟩
        | crashed => exact ⟨rfl, hState⟩

/-- A read is answered alike as far as `f` shows alike what the backend holds. -/
theorem run_backendGet {s s' : Process × Faults} (hAlike : r.Alike s s') {key : String}
    {f : String → γ} (h : (s.1.held? r g key).map f = (s'.1.held? r g key).map f) :
    ((r.backend.get g key).run.run host s).1.map f =
        ((r.backend.get g key).run.run host s').1.map f ∧
      r.Alike ((r.backend.get g key).run.run host s).2 ((r.backend.get g key).run.run host s').2 := by
  unfold held? at h
  cases hBackend : r.backend with
  | inline =>
      rw [hBackend] at h
      exact run_storeGet hAlike h
  | keyring ring =>
      rw [hBackend] at h
      exact run_keyringGet hAlike ring h

theorem held?_eq_of_alike {p p' : Process} (h : p.Alike r p') (g : GroupName) {key : String}
    (hPlain : r.secrets.isSecretKey key = false) : p.held? r g key = p'.held? r g key := by
  rw [held?, held?]
  cases hBackend : r.backend with
  | inline => exact h.book.value?_eq g (not_hides hPlain)
  | keyring ring =>
      refine h.vault.get?_eq _ ?_
      rintro ⟨g', he⟩
      obtain ⟨key', hSecret, hEntry⟩ := (mem_entries hBackend).mp he
      obtain ⟨_, rfl⟩ := Keyring.entry_inj hEntry
      rw [hPlain] at hSecret
      contradiction

/-- Whether there is a secret can be told. -/
theorem isSome_held?_eq_of_alike {p p' : Process} (h : p.Alike r p') (g : GroupName)
    (key : String) : (p.held? r g key).isSome = (p'.held? r g key).isSome := by
  rw [held?, held?]
  cases r.backend with
  | inline => exact h.book.isSome_value?_eq g key
  | keyring ring => exact h.vault.contains_eq _

theorem blind_backendGet (g : GroupName) {key : String}
    (hPlain : r.secrets.isSecretKey key = false) : r.Blind (r.backend.get g key) := by
  intro s s' hAlike
  have hRun := run_backendGet hAlike (f := id)
    (congrArg (Option.map id) (held?_eq_of_alike hAlike.1 g hPlain))
  rwa [Except.map_id] at hRun

/-- Of a secret it is only seen whether it could be read. -/
theorem blind_backendGet_discard {β : Type} (x : β) (g : GroupName) (key : String) :
    r.Blind ((fun _ => x) <$> r.backend.get g key) := by
  intro s s' hAlike
  have hThere := isSome_held?_eq_of_alike hAlike.1 g key
  have hRun := run_backendGet hAlike (SortedMap.map_const_eq_of_isSome_eq hThere x)
  rwa [MatchesAt, run_map, run_map]

/-- What was just written is what is read, so it may be looked at even if it is a secret. -/
theorem keeps_backendSet_held (r : Registry) (g : GroupName) (key value : String)
    (s : Process × Faults) :
    Keeps host (fun _ => True) (r.backend.set g key value) s fun answer s' =>
      answer = .ok () → s'.1.held? r g key = some value := by
  cases hBackend : r.backend with
  | inline =>
      refine (atomic_setMany g [(key, value)] s).ends.mono fun answer s' _ hT hOk => ?_
      rcases hT with ⟨⟨_, hSaved⟩, _⟩ | ⟨⟨e, hError⟩, _⟩
      · simp [held?, hBackend, hSaved, Book.value?_write]
      · rw [hOk] at hError
        contradiction
  | keyring ring =>
      refine (atomic_put ring g key value s).ends.mono fun answer s' _ hT hOk => ?_
      rcases hT with ⟨_, hPut⟩ | ⟨⟨e, hError⟩, _⟩
      · simp [held?, hBackend, hPut, Vault.put]
      · rw [hOk] at hError
        contradiction

/-! ## Reads -/

theorem blind_ensureLive (g : GroupName) : r.Blind (ensureLive g) := by
  refine Twins.book fun b b' hBook => ?_
  rw [hBook.isLive_eq]
  split_ifs
  · exact .pure ()
  · exact .throw _

theorem blind_storeGet (g : GroupName) {key : String}
    (hPlain : r.secrets.isSecretKey key = false) : r.Blind (Store.get g key) := by
  refine Twins.book fun b b' hBook => ?_
  rw [hBook.value?_eq g (not_hides hPlain)]
  cases b'.value? g key with
  | some value => exact .pure value
  | none => exact .throw _

theorem blind_read (g : GroupName) {key : String} (hPlain : r.secrets.isSecretKey key = false) :
    r.Blind (r.read g key) := by
  refine (blind_ensureLive g).bind fun _ => ?_
  rw [hPlain]
  exact blind_storeGet g hPlain

theorem blind_read_discard {β : Type} (x : β) (g : GroupName) {key : String}
    (hSecret : r.secrets.isSecretKey key = true) : r.Blind ((fun _ => x) <$> r.read g key) := by
  rw [read, map_bind]
  refine (blind_ensureLive g).bind fun _ => ?_
  rw [hSecret]
  exact blind_backendGet_discard x g key

theorem blind_getSecret (g : GroupName) {key : String}
    (hPlain : r.secrets.isSecretKey key = false) : r.Blind (r.getSecret g key) :=
  (blind_ensureLive g).bind fun _ => blind_backendGet g hPlain

theorem blind_getSecret_discard {β : Type} (x : β) (g : GroupName) (key : String) :
    r.Blind ((fun _ => x) <$> r.getSecret g key) := by
  rw [getSecret, map_bind]
  exact (blind_ensureLive g).bind fun _ => blind_backendGet_discard x g key

theorem blind_list : r.Blind Registry.list := by
  refine Twins.book fun b b' hBook => ?_
  rw [hBook.liveGroups_eq]
  exact .pure _

theorem blind_dump : r.Blind r.dump := by
  refine Twins.book fun b b' hBook => ?_
  rw [visible_eq_of_alike hBook]
  exact .pure _

theorem blind_account (g : GroupName) : r.Blind (r.account g) := by
  refine (blind_ensureLive g).bind fun _ => ?_
  rw [Store.entries, bind_assoc]
  refine Twins.book fun b b' hBook => ?_
  rcases hBook.cases g with ⟨hGet, hGet'⟩ | ⟨a, a', hGet, hGet', hAttributes⟩
  · rw [hGet, hGet']
    exact .throw _
  · rw [hGet, hGet']
    change r.Twins (pure (Account.ofAttributes g a r.secrets))
      (pure (Account.ofAttributes g a' r.secrets))
    rw [ofAttributes_eq_of_alike hAttributes]
    exact .pure _

/-! ## Writes -/

/-- The values may differ if the key is that of a secret. -/
theorem twins_write (g : GroupName) {key : String} {value value' : Value}
    (h : value = value' ∨ r.secrets.isSecretKey key = true) :
    r.Twins (r.write g key value) (r.write g key value') := by
  refine (blind_ensureLive g).bind fun _ => ?_
  split_ifs with _ hSecret
  · exact .throw _
  · exact twins_backendSet g (.inr hSecret)
  · obtain rfl := h.resolve_right hSecret
    exact twins_set g fun _ => rfl

theorem twins_setProperty (g : GroupName) {key : String} {value value' : Value}
    (h : value = value' ∨ r.secrets.isSecretKey key = true) :
    r.Twins (r.setProperty g key value) (r.setProperty g key value') :=
  (twins_write g h).bind fun _ => blind_emit _

theorem blind_setEnabled (g : GroupName) (enabled : Bool) : r.Blind (r.setEnabled g enabled) :=
  (twins_write g (.inl rfl)).bind fun _ => blind_emit _

theorem blind_finishRemoval (g : GroupName) : r.Blind (r.finishRemoval g) := by
  rw [finishRemoval_eq]
  refine .tryCatch (.bind (.forM_same (blind_backendDelete g) _) fun _ => ?_) fun e => .throw _
  exact (blind_deleteGroup g).bind fun _ => .pure ()

theorem blind_abandon (g : GroupName) : r.Blind (r.abandon g) :=
  .tryCatch (blind_finishRemoval g) fun _ => .pure ()

theorem blind_remove_account (g : GroupName) : r.Blind (r.remove g) := by
  refine Twins.book fun b b' hBook => ?_
  rw [hBook.contains_eq]
  split_ifs
  · exact .throw _
  · exact (blind_markPending g).bind fun _ => (blind_finishRemoval g).bind fun _ => blind_emit _

/-- The secret parameters may have other values. -/
theorem twins_publish (g : GroupName) {entries entries' : List (String × String)}
    (h : List.Forall₂ (fun e e' => e.1 = e'.1 ∧ r.secrets.isSecretKey e.1 = true) entries entries') :
    r.Twins (r.publish g entries) (r.publish g entries') := by
  refine .bind (.forM h fun e e' hEntry => ?_) fun _ => blind_delete g pendingKey
  rw [← hEntry.1]
  exact twins_backendSet g (.inr hEntry.2)

theorem twins_create (manager protocol : String) {params params' : SortedMap String Value}
    (h : params.Alike (r.secrets.isSecret · = true) params') :
    r.Twins (r.create manager protocol params) (r.create manager protocol params') := by
  -- What is compared, named and first written is made of the plain parameters.
  rw [create_eq, create_eq, ← plainParams_eq_of_alike h, ← identity_eq_of_alike h,
    ← initialAttributes_eq_of_alike h]
  refine Twins.book fun b b' hBook => ?_
  rw [equivalent?_eq_of_alike hBook]
  cases r.equivalent? b' manager protocol (r.plainParams params) with
  | some existing => exact .throw _
  | none =>
      refine Twins.book fun b b' hBook => ?_
      rw [allocate_eq hBook.contains_eq]
      refine .bind (.ofExcept _) fun g => ?_
      refine .bind (twins_setMany g (SortedMap.forall₂_agree_refl _)) fun _ => ?_
      refine .bind (.tryCatch (twins_publish g (forall₂_secretParams h)) fun e => ?_) fun _ => ?_
      · exact (blind_abandon g).bind fun _ => .throw e
      · exact (blind_emit _).bind fun _ => .pure g

/-! ## The backend check and openings -/

theorem blind_roundTrip (key : String) : r.Blind (r.roundTrip key) := by
  intro s s' hAlike
  have hHeld := (keeps_backendSet_held r checkGroup key checkValue s).2
  have hHeld' := (keeps_backendSet_held r checkGroup key checkValue s').2
  obtain ⟨answer, t, t', hRun, hRun', hState⟩ :=
    (twins_backendSet checkGroup (.inl rfl) s s' hAlike).ends
  rw [hRun] at hHeld
  rw [hRun'] at hHeld'
  rw [roundTrip, MatchesAt, run_bind, run_bind, hRun, hRun']
  cases answer with
  | error e => exact ⟨rfl, hState⟩
  | ok _ =>
      -- The key may be that of a secret, but both processes have just written the same under it.
      have hSame : t.1.held? r checkGroup key = t'.1.held? r checkGroup key :=
        (hHeld rfl).trans (hHeld' rfl).symm
      have hGet := run_backendGet hState (f := id) (congrArg (Option.map id) hSame)
      rw [Except.map_id] at hGet
      refine MatchesAt.bind hGet fun value => ?_
      split_ifs
      · exact .pure ()
      · exact .throw _

theorem blind_check : r.Blind r.check := by
  refine Twins.book fun b b' hBook => ?_
  rw [hBook.isLive_eq]
  split_ifs
  · exact .throw _
  · refine .bind (twins_setMany checkGroup (SortedMap.forall₂_agree_refl _)) fun _ => ?_
    refine .bind (Matches.attempt (blind_roundTrip r.checkKey)) fun outcome => ?_
    refine .bind (Matches.attempt (blind_finishRemoval checkGroup)) fun cleanup => ?_
    cases outcome with
    | ok _ => exact .ofExcept cleanup
    | error e => exact .throw e

theorem blind_migrate : r.Blind r.migrate := by
  cases hInline : r.backend.isInline with
  | true =>
      rw [migrate_inline hInline]
      exact .pure ()
  | false =>
      rw [migrate_eq hInline]
      -- The file is not where secrets are kept, so what is still in it is the same.
      refine Twins.book fun b b' hBook => ?_
      obtain rfl := eq_of_alike hBook hInline
      refine .forM_same (fun e => ?_) _
      exact (twins_backendSet e.1 (.inl rfl)).bind fun _ => blind_delete e.1 e.2.1

theorem blind_openUp : r.Blind r.openUp := by
  refine blind_migrate.bind fun _ => Twins.book fun b b' hBook => ?_
  rw [hBook.pendingGroups_eq]
  exact .forM_same blind_abandon _

end Registry
end Accounts
