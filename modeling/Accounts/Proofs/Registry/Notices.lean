import Accounts.Proofs.Registry.LiveView

/-! Which operations give notice. An operation that changes an account gives notice when it is done,
once, and not if it fails. Nothing else gives notice. -/
namespace Accounts

/-- The notices that the process gave. -/
def Process.HasGiven (events : List Event) (p : Process) : Prop := p.events = events

/-- The notice that an operation gives when it has answered. -/
def Operation.notice : Operation → Except Error Reply → Option Event
  | .create .., .ok (.group g) => some (.created g)
  | .setProperty g key _, .ok _ => some (.altered g key)
  | .setEnabled g enabled, .ok _ => some (.toggled g enabled)
  | .remove g, .ok _ => some (.removed g)
  | _, _ => none

namespace Registry
open Process Accounts.Action

variable {r : Registry} {g : GroupName} {p q : Process} {s : Process × Faults} {α β : Type}
  {events : List Event}

/-! ## What gives no notice -/

theorem stable_given_setMany (g : GroupName) (entries : List (String × String)) :
    Stable (HasGiven events) (Store.setMany g entries) := by
  refine Stable.of_atomic (atomic_setMany g entries) fun s _ p hGiven hT => ?_
  rcases hT with ⟨⟨_, rfl⟩, _⟩ | ⟨_, rfl⟩
  · exact hGiven
  · exact hGiven

theorem stable_given_delete (g : GroupName) (key : String) :
    Stable (HasGiven events) (Store.delete g key) := by
  refine Stable.of_atomic (atomic_delete g key) fun s _ p hGiven hT => ?_
  rcases hT with ⟨_, rfl⟩ | ⟨_, rfl⟩
  · split_ifs
    · exact hGiven
    · exact hGiven
  · exact hGiven

theorem stable_given_deleteGroup (g : GroupName) :
    Stable (HasGiven events) (Store.deleteGroup g) := by
  refine Stable.of_atomic (atomic_deleteGroup g) fun s _ p hGiven hT => ?_
  rcases hT with ⟨_, rfl⟩ | ⟨_, rfl⟩
  · split_ifs
    · exact hGiven
    · exact hGiven
  · exact hGiven

theorem stable_given_markPending (g : GroupName) :
    Stable (HasGiven events) (Store.markPending g) := by
  refine Stable.of_atomic (atomic_markPending g) fun s _ p hGiven hT => ?_
  rcases hT with ⟨_, _, rfl⟩ | ⟨_, rfl⟩
  · split_ifs
    · exact hGiven
    · exact hGiven
  · exact hGiven

theorem stable_given_backendSet (backend : Backend) (g : GroupName) (key value : String) :
    Stable (HasGiven events) (backend.set g key value) := by
  cases backend with
  | inline => exact stable_given_setMany g _
  | keyring ring =>
      refine Stable.of_atomic (atomic_put ring g key value) fun s _ p hGiven hT => ?_
      rcases hT with ⟨_, rfl⟩ | ⟨_, rfl | rfl⟩
      · exact hGiven
      · exact hGiven
      · exact hGiven

theorem stable_given_backendDelete (backend : Backend) (g : GroupName) (key : String) :
    Stable (HasGiven events) (backend.delete g key) := by
  cases backend with
  | inline => exact stable_given_delete g key
  | keyring ring =>
      refine Stable.of_atomic (atomic_remove ring g key) fun s _ p hGiven hT => ?_
      rcases hT with ⟨_, rfl⟩ | ⟨_, rfl | rfl⟩
      · exact hGiven
      · exact hGiven
      · exact hGiven

theorem stable_given_finishRemoval (r : Registry) (g : GroupName) :
    Stable (HasGiven events) (r.finishRemoval g) := by
  rw [finishRemoval_eq]
  refine Preserves.tryCatch (Preserves.bind ?_ fun _ => ?_) fun _ => Preserves.throw _
  · exact Preserves.forM fun key _ => stable_given_backendDelete r.backend g key
  · exact (stable_given_deleteGroup g).bind fun _ => Preserves.pure _

theorem stable_given_abandon (r : Registry) (g : GroupName) :
    Stable (HasGiven events) (r.abandon g) :=
  (stable_given_finishRemoval r g).tryCatch fun _ => Preserves.pure _

theorem stable_given_publish (r : Registry) (g : GroupName) (secrets : List (String × String)) :
    Stable (HasGiven events) (r.publish g secrets) :=
  (Preserves.forM fun e _ => stable_given_backendSet r.backend g e.1 e.2).bind
    fun _ => stable_given_delete g pendingKey

theorem stable_given_write (r : Registry) (g : GroupName) (key : String) (value : Value) :
    Stable (HasGiven events) (r.write g key value) := by
  refine (stable_ensureLive g).bind fun _ => ?_
  split_ifs
  · exact Preserves.throw _
  · exact stable_given_backendSet r.backend g key _
  · exact stable_given_setMany g _

theorem stable_given_roundTrip (r : Registry) (key : String) :
    Stable (HasGiven events) (r.roundTrip key) := by
  refine (stable_given_backendSet r.backend checkGroup key checkValue).bind fun _ =>
    (stable_backendGet r.backend checkGroup key).bind fun value => ?_
  split_ifs
  · exact Preserves.pure _
  · exact Preserves.throw _

theorem stable_given_check (r : Registry) : Stable (HasGiven events) r.check := by
  refine Stable.book fun b => ?_
  split_ifs
  · exact Preserves.throw _
  · refine (stable_given_setMany checkGroup _).bind fun _ =>
      (stable_given_roundTrip r r.checkKey).attempt.bind fun outcome =>
        (stable_given_finishRemoval r checkGroup).attempt.bind fun cleanup => ?_
    cases outcome with
    | ok _ => exact Preserves.ofExcept cleanup
    | error e => exact Preserves.throw e

theorem stable_given_openUp (r : Registry) : Stable (HasGiven events) r.openUp := by
  refine Preserves.bind (stable_migrate fun g key value _ => ?_) fun _ => ?_
  · exact (stable_given_backendSet r.backend g key value).bind fun _ => stable_given_delete g key
  · exact Stable.book fun b => Preserves.forM fun g _ => stable_given_abandon r g

/-! ## What gives notice -/

theorem keeps_given {a : Action α} (hQuiet : Stable (HasGiven s.1.events) a) :
    Keeps host (fun _ => True) a s fun _ s' => s'.1.events = s.1.events :=
  ⟨fun _ _ => trivial, (hQuiet s rfl).last⟩

/-- An action that is followed by a notice gives it when it succeeds. -/
theorem keeps_notice {a : Action Unit} (hQuiet : Stable (HasGiven s.1.events) a) (event : Event) :
    Keeps host (fun _ => True) (a >>= fun _ => Action.emit event) s fun answer s' =>
      s'.1.events = s.1.events ++ (answer.toOption.map fun _ => event).toList := by
  refine (keeps_given hQuiet).bind (fun _ s' _ hSame => Keeps.emit trivial ?_) fun e s' _ hSame => ?_
  · change s'.1.events ++ [event] = _
    rw [hSame]
    rfl
  · rw [hSame]
    exact (List.append_nil _).symm

theorem keeps_establish_notice (r : Registry) (g : GroupName) (a : Attributes)
    (secrets : List (String × String)) (s : Process × Faults) :
    Keeps host (fun _ => True) (r.establish g a secrets) s fun answer s' =>
      s'.1.events = s.1.events ++ (answer.toOption.map Event.created).toList := by
  have hWritten : Stable (HasGiven s.1.events) (do
      Store.setMany g a.toList
      tryCatch (r.publish g secrets) fun e => do
        r.abandon g
        throw e) :=
    (stable_given_setMany g a.toList).bind fun _ =>
      (stable_given_publish r g secrets).tryCatch fun e =>
        (stable_given_abandon r g).bind fun _ => Preserves.throw e
  have hEstablish : r.establish g a secrets = (fun _ => g) <$> ((do
      Store.setMany g a.toList
      tryCatch (r.publish g secrets) fun e => do
        r.abandon g
        throw e) >>= fun _ => Action.emit (.created g)) := by
    rw [establish]
    simp only [bind_assoc, map_eq_pure_bind]
  rw [hEstablish]
  refine ((keeps_notice hWritten (.created g)).mono fun answer s' _ hGiven => ?_).map
  rw [hGiven]
  cases answer with
  | ok _ => rfl
  | error e => rfl

theorem keeps_create_notice (r : Registry) (manager protocol : String)
    (params : SortedMap String Value) (s : Process × Faults) :
    Keeps host (fun _ => True) (r.create manager protocol params) s fun answer s' =>
      s'.1.events = s.1.events ++ (answer.toOption.map Event.created).toList := by
  refine keeps_create_of_establish trivial (fun e => ?_) fun g _ => keeps_establish_notice r g _ _ s
  exact (List.append_nil _).symm

theorem keeps_remove_notice (r : Registry) (g : GroupName) (s : Process × Faults) :
    Keeps host (fun _ => True) (r.remove g) s fun answer s' =>
      s'.1.events = s.1.events ++ (answer.toOption.map fun _ => Event.removed g).toList := by
  apply keeps_book
  split_ifs
  · exact Keeps.throw trivial (List.append_nil _).symm
  · have hRemoved : Stable (HasGiven s.1.events) (do
        Store.markPending g
        r.finishRemoval g) :=
      (stable_given_markPending g).bind fun _ => stable_given_finishRemoval r g
    have hNotice := keeps_notice hRemoved (.removed g)
    rwa [bind_assoc] at hNotice

/-- What an operation makes of the answer is nothing to the notice. -/
theorem keeps_map_notice {a : Action α} {f : α → Reply} {note : α → Event} {op : Operation}
    (h : Keeps host (fun _ => True) a s fun answer s' =>
      s'.1.events = s.1.events ++ (answer.toOption.map note).toList)
    (hOk : ∀ x, op.notice (.ok (f x)) = some (note x))
    (hError : ∀ e, op.notice (.error e) = none) :
    Keeps host (fun _ => True) (f <$> a) s fun answer s' =>
      s'.1.events = s.1.events ++ (op.notice answer).toList := by
  refine (h.mono fun answer s' _ hGiven => ?_).map
  rw [hGiven]
  cases answer with
  | ok x => rw [Except.map, hOk]; rfl
  | error e => rw [Except.map, hError]; rfl

/-- An operation gives the notice that belongs to its answer, and no other. -/
theorem events_of_ends {op : Operation} {answer : Except Error Reply}
    (hEnds : (op.action r).Ends p answer q) :
    q.events = p.events ++ (op.notice answer).toList := by
  refine hEnds.of_keeps (R := fun answer q => q.events = p.events ++ (op.notice answer).toList)
    fun faults => ?_
  rcases op.isMutation_or_isRead with hMutation | rfl | hRead
  · cases op, hMutation using Operation.mutation_cases with
    | create manager protocol params =>
        exact keeps_map_notice (keeps_create_notice r manager protocol params _) (fun _ => rfl)
          fun _ => rfl
    | setProperty g key value =>
        exact keeps_map_notice (keeps_notice (stable_given_write r g key value) _) (fun _ => rfl)
          fun _ => rfl
    | setEnabled g enabled =>
        exact keeps_map_notice (keeps_notice (stable_given_write r g enabledKey _) _) (fun _ => rfl)
          fun _ => rfl
    | remove g => exact keeps_map_notice (keeps_remove_notice r g _) (fun _ => rfl) fun _ => rfl
  · exact (keeps_given (stable_given_check r).map).mono fun _ _ _ hSame =>
      hSame.trans (List.append_nil _).symm
  · refine (keeps_given (stable_action hRead)).mono fun answer _ _ hSame => ?_
    have hNone : op.notice answer = none := by
      cases op with
      | create => contradiction
      | setProperty => contradiction
      | setEnabled => contradiction
      | remove => contradiction
      | _ => rfl
    rw [hSame, hNone]
    exact (List.append_nil _).symm

theorem exists_group_of_create {manager protocol : String} {params : SortedMap String Value}
    {reply : Reply}
    (hEnds : ((Operation.create manager protocol params).action r).Ends p (.ok reply) q) :
    ∃ g, reply = .group g := by
  have hAll : ∀ faults, Keeps host (fun _ => True) (.group <$> r.create manager protocol params)
      (p, faults) fun answer _ => ∀ reply : Reply, answer = .ok reply → ∃ g, reply = .group g := by
    refine fun faults => Keeps.map ⟨fun _ _ => trivial, fun reply hOk => ?_⟩
    cases hCreated : ((r.create manager protocol params).run.run host (p, faults)).1 with
    | ok g =>
        rw [hCreated] at hOk
        exact ⟨g, (Except.ok.inj hOk).symm⟩
    | error e =>
        rw [hCreated] at hOk
        contradiction
  exact hEnds.of_keeps (R := fun answer _ => ∀ reply : Reply, answer = .ok reply →
    ∃ g, reply = .group g) hAll reply rfl

/-- There is a notice for those operations that change an account and succeed. -/
theorem isSome_notice_iff {op : Operation} {answer : Except Error Reply}
    (hEnds : (op.action r).Ends p answer q) :
    (op.notice answer).isSome = true ↔ op.isMutation = true ∧ ∃ reply, answer = .ok reply := by
  cases answer with
  | error e => cases op <;> simp [Operation.notice]
  | ok reply =>
      cases op with
      | create manager protocol params =>
          obtain ⟨g, rfl⟩ := exists_group_of_create hEnds
          simp [Operation.notice, Operation.isMutation]
      | _ => simp [Operation.notice, Operation.isMutation]

end Registry
end Accounts
