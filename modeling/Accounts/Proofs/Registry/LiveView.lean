import Accounts.Proofs.Registry.Pending
import Accounts.Proofs.Registry.Undisturbed

/-! What the user of a registry sees: the listed groups with their attributes and their secrets. An
operation that fails changes nothing there, since whatever it did before it failed it did within a
group that does not show. Only a removal may fail and have an effect, and that is to hide its own
group. -/
namespace Accounts

namespace Process

/-- What the backend holds for a group under a key. -/
def held? (r : Registry) (p : Process) (g : GroupName) (key : String) : Option String :=
  match r.backend with
  | .inline => p.book.value? g key
  | .keyring ring => SortedMap.get? p.vault (ring.entry g key)

/-- The listed groups, each with all its attributes and with what the backend holds for it. -/
def liveView (r : Registry) (p : Process) (g : GroupName) :
    Option (Attributes × (String → Option String)) :=
  if g ∈ p.book.liveGroups then some (p.book.attributes g, p.held? r g) else none

/-- The processes have the same attributes in every other group, and their backends hold the same
for every other group. -/
structure Apart (r : Registry) (g : GroupName) (p q : Process) : Prop where
  book : ∀ h, h ≠ g → q.book.get? h = p.book.get? h
  held : ∀ h, h ≠ g → q.held? r h = p.held? r h

variable {r : Registry} {g : GroupName} {p q x : Process}

theorem Apart.refl : Apart r g p p := ⟨fun _ _ => rfl, fun _ _ => rfl⟩

theorem Apart.trans (hFirst : Apart r g p q) (hSecond : Apart r g q x) : Apart r g p x :=
  ⟨fun h hNe => (hSecond.book h hNe).trans (hFirst.book h hNe),
    fun h hNe => (hSecond.held h hNe).trans (hFirst.held h hNe)⟩

theorem SameOff.apart (hSame : SameOff r g p q) : Apart r g p q := by
  refine ⟨hSame.book, fun h hNe => ?_⟩
  funext key
  unfold held?
  cases hBackend : r.backend with
  | inline => rw [Book.value?, Book.value?, hSame.book h hNe]
  | keyring ring =>
      refine hSame.vault _ fun hEntry => hNe ?_
      obtain ⟨key', _, hEq⟩ := (Registry.mem_entries hBackend).mp hEntry
      exact (Keyring.entry_inj hEq).1.symm

/-- What happens within one group, and leaves it hidden, takes that group out of the view. -/
theorem liveView_of_apart (hApart : Apart r g p q) (hHidden : q.book.isLive g = false) :
    q.liveView r = Function.update (p.liveView r) g none := by
  funext h
  by_cases hEq : h = g
  · subst hEq
    rw [Function.update_self, liveView, if_neg]
    simp [Book.mem_liveGroups, hHidden]
  · have hGroup := hApart.book h hEq
    rw [Function.update_of_ne hEq, liveView, liveView, hApart.held h hEq, Book.attributes, hGroup]
    simp only [Book.mem_liveGroups, Book.isLive, hGroup]
    rfl

/-- What happens within one group, hidden before and after, is invisible. -/
theorem liveView_eq_of_apart (hApart : Apart r g p q) (hBefore : p.book.isLive g = false)
    (hAfter : q.book.isLive g = false) : q.liveView r = p.liveView r := by
  have hNone : p.liveView r g = none := by
    rw [liveView, if_neg]
    simp [Book.mem_liveGroups, hBefore]
  rw [liveView_of_apart hApart hAfter, ← hNone, Function.update_eq_self]

end Process

namespace Registry
open Process Accounts.Action

variable {r : Registry} {g : GroupName} {p q : Process} {s : Process × Faults} {α : Type}

/-! ## Writes -/

theorem keeps_ends (a : Action α) (s : Process × Faults) :
    Keeps host (fun _ => True) a s fun answer s' => a.Ends s.1 answer s'.1 :=
  ⟨fun _ _ => trivial, s.2, _, rfl⟩

/-- The group is hidden from before its secrets are written until all of them are. -/
theorem keeps_publish_failed {es : List (String × String)} (hMark : s.1.Marked g)
    (hSame : SameOff r g p s.1) (hSecret : ∀ e ∈ es, r.secrets.isSecretKey e.1 = true) :
    Keeps host (fun _ => True) (r.publish g es) s fun answer s' =>
      (∃ e, answer = .error e) → s'.1.Marked g ∧ SameOff r g p s'.1 := by
  have hSecrets : Keeps host (fun _ => True) (es.forM fun e => r.backend.set g e.1 e.2) s
      fun _ s' => s'.1.Marked g ∧ SameOff r g p s'.1 := by
    have hMarked : Stable (Marked g) (es.forM fun e => r.backend.set g e.1 e.2) :=
      Preserves.forM fun e _ => stable_marked_backendSet r g g e.1 e.2
    exact ⟨fun _ _ => trivial, (hMarked s hMark).last, (stable_sameOff_secrets hSecret s hSame).last⟩
  refine hSecrets.bind (fun _ s' _ hHidden => ?_) fun _ _ _ hHidden _ => hHidden
  refine (atomic_delete g pendingKey s').ends.mono fun answer s'' _ hT ⟨e, hError⟩ => ?_
  rcases hT with ⟨rfl, _⟩ | ⟨_, hSame'⟩
  · contradiction
  · rw [hSame']
    exact hHidden

/-- How a creation may fail: before anything is written, or when its group is there and hidden. Then
it ends with an attempt to remove the group again. -/
inductive CreationFailure (r : Registry) (p : Process) : Process → Prop
  | early : CreationFailure r p p
  | late {g : GroupName} (hNew : p.book.get? g = none) {m q : Process} (hMark : m.Marked g)
      (hSame : SameOff r g p m) {cleanup : Except Error Unit}
      (hCleanup : (r.finishRemoval g).Ends m cleanup q) : CreationFailure r p q

theorem keeps_abandon_ends (r : Registry) (g : GroupName) (e : Error) (s : Process × Faults) :
    Keeps host (fun _ => True) (r.abandon g >>= fun _ => (throw e : Action Unit)) s
      fun _ s' => ∃ cleanup, (r.finishRemoval g).Ends s.1 cleanup s'.1 := by
  have hAbandon : Keeps host (fun _ => True) (r.abandon g) s fun _ s' =>
      ∃ cleanup, (r.finishRemoval g).Ends s.1 cleanup s'.1 :=
    (keeps_ends (r.finishRemoval g) s).tryCatch (fun x _ _ hEnds => ⟨.ok x, hEnds⟩)
      fun e _ _ hEnds => Keeps.pure trivial ⟨.error e, hEnds⟩
  exact hAbandon.bind (fun _ _ _ hEnds => Keeps.throw trivial hEnds) fun _ _ _ hEnds => hEnds

/-- Once the attributes of the group are written, a failure ends with the attempt to remove it. -/
theorem keeps_unveil_failed (hNew : p.book.get? g = none) (hMark : s.1.Marked g)
    (hSame : SameOff r g p s.1) {es : List (String × String)}
    (hSecret : ∀ e ∈ es, r.secrets.isSecretKey e.1 = true) :
    Keeps host (fun _ => True) (tryCatch (r.publish g es) fun e => do
        r.abandon g
        throw e) s
      fun answer s' => (∃ e, answer = .error e) → CreationFailure r p s'.1 := by
  refine (keeps_publish_failed hMark hSame hSecret).tryCatch (fun _ _ _ _ ⟨e, hError⟩ => ?_)
    fun e s' _ hFailed => ?_
  · contradiction
  · obtain ⟨hMark', hSame'⟩ := hFailed ⟨e, rfl⟩
    refine (keeps_abandon_ends r g e s').mono fun _ s'' _ ⟨cleanup, hCleanup⟩ _ => ?_
    exact .late hNew hMark' hSame' hCleanup

theorem keeps_establish_failed (hNew : s.1.book.get? g = none) (manager protocol : String)
    (params : SortedMap String Value) :
    Keeps host (fun _ => True)
      (r.establish g (r.initialAttributes manager protocol params) (r.secretParams params)) s
      fun answer s' => (∃ e, answer = .error e) → CreationFailure r s.1 s'.1 := by
  have hBegin := (atomic_setMany g (r.initialAttributes manager protocol params).toList s).ends
  refine hBegin.bind (fun _ s' _ hT => ?_) fun e s' _ hT _ => ?_
  · rcases hT with ⟨⟨_, hSaved⟩, _⟩ | ⟨⟨e, hError⟩, _⟩
    · have hMark : s'.1.Marked g := by
        obtain ⟨a, ha, hMark, _⟩ := begun_write hNew r manager protocol params
        rw [hSaved]
        exact Book.isPending_eq_true_iff.mpr ⟨a, ha, hMark⟩
      have hSame : SameOff r g s.1 s'.1 := by
        rw [hSaved]
        exact sameOff_write s.1 g _
      refine (keeps_unveil_failed hNew hMark hSame fun e he =>
        isSecretKey_of_mem_secretParams he).bind (fun _ s'' _ _ => ?_)
          fun e _ _ hFailed _ => hFailed ⟨e, rfl⟩
      have hEmit : Keeps host (fun _ => True) (Action.emit (.created g)) s'' fun answer _ =>
          answer = .ok () := Keeps.emit trivial rfl
      exact hEmit.bind (fun _ _ _ _ => Keeps.pure trivial fun ⟨_, hError⟩ => by contradiction)
        fun _ _ _ hOk => by contradiction
    · contradiction
  · rcases hT with ⟨⟨hOk, _⟩, _⟩ | ⟨_, hSame⟩
    · contradiction
    · rw [hSame]
      exact .early

theorem keeps_create_failed (r : Registry) (manager protocol : String)
    (params : SortedMap String Value) (s : Process × Faults) :
    Keeps host (fun _ => True) (r.create manager protocol params) s fun answer s' =>
      (∃ e, answer = .error e) → CreationFailure r s.1 s'.1 :=
  keeps_create_of_establish trivial (fun _ _ => .early) fun _ hNew =>
    keeps_establish_failed hNew manager protocol params

/-- What is left of a creation that failed: nothing of its group, if the group could be removed
again, and else the hidden group with secrets of its own. -/
theorem CreationFailure.leaves (h : CreationFailure r p q) :
    q = p ∨ ∃ g m cleanup, p.book.get? g = none ∧ m.book.isPending g = true ∧ SameOff r g p m ∧
      (r.finishRemoval g).Ends m cleanup q ∧
      ((cleanup = .ok () ∧ q.book = p.book ∧ q.vault = p.vault.without (r.entries g)) ∨
        ((∃ e, cleanup = .error e) ∧ q.book.isPending g = true ∧ SameOff r g p q)) := by
  cases h with
  | early => exact .inl rfl
  | @late g hNew m q hMark hSame cleanup hCleanup =>
      refine .inr ⟨g, m, cleanup, hNew, hMark, hSame, hCleanup, ?_⟩
      rcases purge_of_ends hCleanup with ⟨rfl, rfl⟩ | ⟨⟨reason, rfl⟩, hStripped⟩
      · refine .inl ⟨rfl, ?_, ?_⟩
        · rw [drop_book, hSame.erase_book, SortedMap.erase_eq_self hNew]
        · rw [drop_vault, hSame.vault_without]
      · refine .inr ⟨⟨_, rfl⟩, ?_, hSame.trans hStripped.sameOff⟩
        rw [hStripped.book_eq]
        exact hMark

/-- A group that was not there is not shown, however far its creation got. -/
theorem CreationFailure.liveView_eq (h : CreationFailure r p q) :
    q.liveView r = p.liveView r := by
  rcases h.leaves with rfl | ⟨g, m, cleanup, hNew, _, hSame, _, hEnd⟩
  · rfl
  · have hBefore := isLive_of_get?_eq_none hNew
    rcases hEnd with ⟨_, hBook, hVault⟩ | ⟨_, hMark, hSame'⟩
    · have hApart : SameOff r g p q := by
        refine ⟨fun _ _ => by rw [hBook], fun e he => ?_⟩
        rw [hVault, Vault.get?_without, if_neg he]
      exact liveView_eq_of_apart hApart.apart hBefore (hBook ▸ hBefore)
    · exact liveView_eq_of_apart hSame'.apart hBefore (isLive_of_isPending hMark)

/-! ## Removals -/

theorem RemovalEnd.liveView_eq {e : Error} (h : RemovalEnd r g p (.error e) q)
    (hPartial : ∀ group reason, e ≠ .partialRemoval group reason) : q.liveView r = p.liveView r := by
  cases h with
  | unknown => rfl
  | unmarked => rfl
  | partly => exact absurd rfl (hPartial _ _)

/-- The check works within its own group, even if its key is not that of a secret. -/
theorem stable_apart_check (r : Registry) (p : Process) :
    Stable (Apart r checkGroup p) r.check := by
  refine ClosedAt.check (closedAt_of_sameOff fun _ _ hSame hApart => hApart.trans hSame.apart) ?_
  intro ring hBackend q hApart
  refine hApart.trans ⟨fun _ _ => rfl, fun h hNe => ?_⟩
  funext key
  have hEntry : ring.entry checkGroup r.checkKey ≠ ring.entry h key :=
    fun hEq => hNe (Keyring.entry_inj hEq).1.symm
  simp [held?, hBackend, Vault.put, hEntry]

theorem keeps_check_hidden (hHidden : s.1.book.isLive checkGroup = false) :
    Keeps host (fun _ => True) r.check s fun _ s' => s'.1.book.isLive checkGroup = false := by
  rw [check_eq]
  apply keeps_book
  rw [hHidden]
  refine (atomic_setMany checkGroup [(pendingKey, "true")] s).ends.bind (fun _ s' _ hT => ?_)
    fun e s' _ hT => ?_
  · have hMark : s'.1.Marked checkGroup := by
      rcases hT with ⟨⟨_, hSaved⟩, _⟩ | ⟨⟨e, hError⟩, _⟩
      · rw [hSaved]
        exact Book.isPending_write_pendingKey s.1.book checkGroup "true"
      · contradiction
    exact ⟨fun _ _ => trivial, isLive_of_withheld (keeps_withheld_checkMarked (r := r) hMark).last⟩
  · rcases hT with ⟨⟨hOk, _⟩, _⟩ | ⟨_, hSame⟩
    · contradiction
    · rw [hSame]
      exact hHidden

theorem keeps_check_liveView (r : Registry) (s : Process × Faults) :
    Keeps host (fun _ => True) r.check s fun _ s' => s'.1.liveView r = s.1.liveView r := by
  cases hLive : s.1.book.isLive checkGroup with
  | true =>
      rw [check_eq]
      apply keeps_book
      rw [hLive]
      exact Keeps.throw trivial rfl
  | false =>
      refine ⟨fun _ _ => trivial, liveView_eq_of_apart ?_ hLive (keeps_check_hidden hLive).2⟩
      exact (stable_apart_check r s.1 s Apart.refl).last

/-! ## All operations -/

/-- The service answers neither when a password is to be kept nor when it is to go again. -/
def silentFaults : Faults := ⟨[], [.fails .timedOut, .fails .timedOut]⟩

end Registry
end Accounts
