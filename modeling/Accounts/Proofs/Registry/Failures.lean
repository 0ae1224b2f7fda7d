import Accounts.Proofs.Registry.Change

/-! How a creation may fail. Whatever goes wrong with the file or the backend while an account is
created, the error is another one than that there is such an account already. -/
namespace Accounts

/-- The error does not say that there is such an account already. -/
def Error.IsFailure : Error → Prop
  | .duplicateAccount _ => False
  | _ => True

/-- The errors that the action may end with have the property. -/
def Action.FailsWith {α : Type} (E : Error → Prop) (a : Action α) : Prop :=
  ∀ (s : Process × Faults) e, (a.run.run Process.host s).1 = .error e → E e

namespace Action.FailsWith

variable {α β : Type} {E : Error → Prop}

theorem pure (x : α) : FailsWith E (pure x) := by
  intro s e h
  contradiction

theorem throw {e : Error} (h : E e) : FailsWith E (throw e : Action α) := by
  intro s e' h'
  obtain rfl := Except.error.inj h'
  exact h

theorem bind {a : Action α} {f : α → Action β} (hFirst : FailsWith E a)
    (hRest : ∀ x, FailsWith E (f x)) : FailsWith E (a >>= f) := by
  intro s e h
  rw [Action.run_bind] at h
  cases hRun : a.run.run Process.host s with
  | mk answer s' =>
      cases answer with
      | ok x =>
          rw [hRun] at h
          exact hRest x s' e h
      | error e' =>
          rw [hRun] at h
          obtain rfl : e' = e := Except.error.inj h
          exact hFirst s e' (by rw [hRun])

theorem forM {f : β → Action Unit} {xs : List β} (h : ∀ x ∈ xs, FailsWith E (f x)) :
    FailsWith E (xs.forM f) := by
  induction xs with
  | nil => exact pure ()
  | cons x rest ih =>
      obtain ⟨hHere, hLater⟩ := List.forall_mem_cons.mp h
      exact bind hHere fun _ => ih hLater

/-- What is done about an error may fail in its turn. -/
theorem tryCatch {E' : Error → Prop} {a : Action α} {handle : Error → Action α}
    (hBody : FailsWith E' a) (hHandle : ∀ e, E' e → FailsWith E (handle e)) :
    FailsWith E (tryCatch a handle) := by
  intro s e h
  rw [Action.run_tryCatch] at h
  cases hRun : a.run.run Process.host s with
  | mk answer s' =>
      cases answer with
      | ok x =>
          rw [hRun] at h
          contradiction
      | error e' =>
          rw [hRun] at h
          exact hHandle e' (hBody s e' (by rw [hRun])) s' e h

theorem any (a : Action α) : FailsWith (fun _ => True) a := fun _ _ _ => trivial

end Action.FailsWith

theorem Keyring.isFailure_failure (ring : Keyring) (cause : CallFailure) :
    (ring.failure "set" cause).IsFailure := by
  cases cause with
  | refused answer =>
      cases answer with
      | noEntry => trivial
      | unavailable reason => trivial
  | timedOut => trivial
  | crashed => trivial

namespace Registry
open Process Accounts.Action

variable {r : Registry} {manager protocol : String} {params : SortedMap String Value}
variable {s : Process × Faults} {b : Book} {e : Error}

theorem failsWith_commit (b : Book) : FailsWith Error.IsFailure (Store.commit b) := by
  intro s e h
  rcases (atomic_commit b s).2 with ⟨hOk, _⟩ | ⟨⟨reason, hError⟩, _⟩
  · rw [hOk] at h
    contradiction
  · rw [hError] at h
    obtain rfl := Except.error.inj h
    trivial

theorem failsWith_setMany (g : GroupName) (entries : List (String × String)) :
    FailsWith Error.IsFailure (Store.setMany g entries) := by
  cases hFind : entries.find? fun e => !KeyFile.isKey e.1 with
  | some e =>
      rw [setMany_of_find hFind]
      exact FailsWith.throw trivial
  | none =>
      rw [Store.setMany, hFind]
      intro s
      exact failsWith_commit _ s

theorem failsWith_delete (g : GroupName) (key : String) :
    FailsWith Error.IsFailure (Store.delete g key) := by
  have hBody : ∀ b : Book, FailsWith Error.IsFailure
      (if (b.value? g key).isSome then Store.commit (b.eraseKey g key) else Pure.pure ()) := by
    intro b
    split_ifs
    · exact failsWith_commit _
    · exact FailsWith.pure ()
  intro s
  exact hBody s.1.book s

theorem failsWith_backendSet (backend : Backend) (g : GroupName) (key value : String) :
    FailsWith Error.IsFailure (backend.set g key value) := by
  cases backend with
  | inline => exact failsWith_setMany g _
  | keyring ring =>
      intro s e h
      cases hAnswer : (host.put (ring.entry g key) value s).1 with
      | ok _ => simp [Backend.set, Keyring.set, Program.run, hAnswer] at h
      | error cause =>
          have hError : ring.failure "set" cause = e := by
            simpa [Backend.set, Keyring.set, Program.run, hAnswer] using h
          rw [← hError]
          exact ring.isFailure_failure cause

theorem failsWith_publish (r : Registry) (g : GroupName) (es : List (String × String)) :
    FailsWith Error.IsFailure (r.publish g es) :=
  (FailsWith.forM fun e _ => failsWith_backendSet r.backend g e.1 e.2).bind
    fun _ => failsWith_delete g pendingKey

/-- What is undone after a failure does not fail. -/
theorem failsWith_abandon {E : Error → Prop} (r : Registry) (g : GroupName) :
    FailsWith E (r.abandon g) :=
  (FailsWith.any _).tryCatch fun _ _ => FailsWith.pure ()

theorem failsWith_establish (r : Registry) (g : GroupName) (a : Attributes)
    (es : List (String × String)) : FailsWith Error.IsFailure (r.establish g a es) := by
  apply (failsWith_setMany g a.toList).bind
  intro _
  apply FailsWith.bind
  · exact (failsWith_publish r g es).tryCatch fun e hFailure =>
      (failsWith_abandon r g).bind fun _ => FailsWith.throw hFailure
  · intro _
    have hEmit : FailsWith Error.IsFailure (Action.emit (.created g)) := by
      intro s e hError
      contradiction
    exact hEmit.bind fun _ => FailsWith.pure g

/-- No name can be made, or there are no serial numbers left. -/
theorem isFailure_of_allocateAmong {identity : String} {among : List Nat}
    (h : allocateAmong b manager protocol identity among = .error e) : e.IsFailure := by
  induction among with
  | nil =>
      obtain rfl := Except.error.inj h
      trivial
  | cons serial rest ih =>
      rw [allocateAmong] at h
      cases hName : GroupName.allocate manager protocol identity serial with
      | ok name =>
          simp only [hName] at h
          split_ifs at h
          exact ih h
      | error e' =>
          rw [hName] at h
          obtain rfl := Except.error.inj h
          unfold GroupName.allocate GroupName.ofComponents at hName
          split_ifs at hName
          obtain rfl := Except.error.inj hName
          trivial

/-- A creation that finds no equivalent account does not report one. -/
theorem isFailure_of_create
    (hNone : r.equivalent? s.1.book manager protocol (r.plainParams params) = none)
    (hError : ((r.create manager protocol params).run.run host s).1 = .error e) : e.IsFailure := by
  have hKeeps : Keeps host (fun _ => True) (r.create manager protocol params) s
      fun answer _ => ∀ e, answer = .error e → e.IsFailure := by
    apply keeps_create_of_allocate trivial
    · intro existing hFound
      rw [hNone] at hFound
      contradiction
    · intro e' hName e'' hEq
      obtain rfl := Except.error.inj hEq
      exact isFailure_of_allocateAmong hName
    · intro _ g _
      exact ⟨fun _ _ => trivial, failsWith_establish r g _ _ s⟩
  exact hKeeps.2 e hError

end Registry
end Accounts
