import Accounts.Proofs.Registry.History
import Accounts.Proofs.Registry.Retention

/-! How groups come to show. A creation gives its group all that the account is known by before the
group shows, and no other effect of a registry makes a hidden group show. -/
namespace Accounts

/-- The keys of the attributes that a new group is written with, its mark aside. -/
def Registry.IsPlainKey (r : Registry) (key : String) : Prop :=
  key ≠ pendingKey ∧ r.secrets.isSecretKey key = false

/-- The creation of an account made the group. It found no account like the new one, and the group
has what it was founded with. -/
structure Registry.Founds (r : Registry) (manager protocol : String)
    (params : SortedMap String Value) (g : GroupName) (b b' : Book) : Prop where
  unique : r.equivalent? b manager protocol (r.plainParams params) = none
  name : Registry.allocate b manager protocol (r.identity params) = .ok g
  value : ∀ key, r.IsPlainKey key →
    b'.value? g key = (r.initialAttributes manager protocol params).get? key

/-- What may become of a process that uses some of the operations only. -/
inductive Process.BecomesUsing (r : Registry) (allowed : Operation → Prop) (p : Process) :
    Process → Prop
  | operation (op : Operation) (hOp : allowed op) (faults : Faults) {s : Process × Faults}
      (hCut : s ∈ (op.action r).run.cuts host (p, faults)) : BecomesUsing r allowed p s.1
  | opening {p₀ : Process} (hStart : p.toStorage.start = .ok p₀) (faults : Faults)
      {s : Process × Faults} (hCut : s ∈ r.openUp.run.cuts host (p₀, faults)) :
      BecomesUsing r allowed p s.1

namespace Registry
open Process Accounts.Action

variable {r : Registry} {g : GroupName} {p q : Process} {s : Process × Faults}

/-! ## Creations -/

theorem spares_isPlainKey (r : Registry) : r.Spares r.IsPlainKey := by
  constructor
  · intro hPlain
    exact hPlain.1 rfl
  · intro key hSecret hPlain
    rw [hPlain.2] at hSecret
    contradiction

/-- The group as it is once its first attributes are written. -/
theorem value?_of_written {b : Book} (hNew : b.get? g = none) (a : Attributes) (key : String) :
    (b.write g a.toList).value? g key = a.get? key := by
  rw [Book.write_toList b hNew, Book.value?_insert_self]

/-- Publishing adds secrets and takes the mark away. -/
theorem keeps_retains_publish {K : String → Prop} {b : Book} (hSpares : r.Spares K)
    (hStart : s.1.RetainsWith K g b g) {es : List (String × String)}
    (hSecret : ∀ e ∈ es, r.secrets.isSecretKey e.1 = true) :
    Keeps host (fun s' => s'.1.Retains K g b) (r.publish g es) s fun _ _ => True := by
  have hSecrets : Stable (Process.RetainsWith K g b g)
      (es.forM fun e => r.backend.set g e.1 e.2) :=
    Preserves.forM fun e he =>
      stable_retainsWith_backendSet (hSpares.secrets e.1 (hSecret e he)) e.2
  apply ((hSecrets s hStart).imp fun _ hKept => hKept.1).bind
  · intro _ s' hKept _
    exact stable_retains_delete g hSpares.mark s' hKept
  · intros
    trivial

/-- A group is begun in one stroke, so it is as it was before or has all that it is begun with. -/
theorem keeps_setMany {J W : Process → Prop} {entries : List (String × String)} (hStart : J s.1)
    (hWritten : W (s.1.save (s.1.book.write g entries))) (hKeep : ∀ p, W p → J p) :
    Keeps host (fun s' => J s'.1) (Store.setMany g entries) s
      fun answer s' => answer = .ok () → W s'.1 := by
  have hSet := (atomic_setMany g entries s).keeps hStart (J := J) ?_
  · apply hSet.mono
    intro answer s' _ hT hOk
    rcases hT with ⟨⟨_, hSaved⟩, _⟩ | ⟨⟨e, hError⟩, _⟩
    · rw [hSaved]
      exact hWritten
    · rw [hError] at hOk
      contradiction
  · intro _ p hT
    rcases hT with ⟨⟨_, rfl⟩, _⟩ | ⟨_, rfl⟩
    · exact hKeep _ hWritten
    · exact hStart

/-- However far the group gets, it has nothing but what it was written with and its secrets. -/
theorem keeps_retains_establish {K : String → Prop} (hSpares : r.Spares K)
    (hNew : s.1.book.contains g = false) {a : Attributes} {es : List (String × String)}
    (hSecret : ∀ e ∈ es, r.secrets.isSecretKey e.1 = true) :
    Keeps host (fun s' => s'.1.Retains K g (s.1.book.write g a.toList)) (r.establish g a es) s
      fun _ _ => True := by
  have hAbsent : s.1.Retains K g (s.1.book.write g a.toList) := by
    intro hThere
    rw [hNew] at hThere
    contradiction
  have hWritten : (s.1.save (s.1.book.write g a.toList)).RetainsWith K g
      (s.1.book.write g a.toList) g :=
    ⟨Book.Retains.refl, by rw [save_book, Book.contains_write, if_pos rfl]⟩
  apply (keeps_setMany hAbsent hWritten fun _ hKept => hKept.1).bind
  · intro _ s' _ hBegun
    have hPublish := keeps_retains_publish hSpares (hBegun rfl) hSecret
    have hUndone : Keeps host (fun s'' => s''.1.Retains K g (s.1.book.write g a.toList))
        (tryCatch (r.publish g es) fun e => do
          r.abandon g
          throw e) s' fun _ _ => True := by
      apply hPublish.tryCatch
      · intros
        trivial
      · intro e s'' hKept _
        exact ((stable_retains_abandon r g).bind fun _ => Preserves.throw e) s'' hKept
    apply hUndone.bind
    · intro _ s'' hKept _
      exact ((stable_retains_emit (.created g)).bind fun _ => Preserves.pure g) s'' hKept
    · intros
      trivial
  · intros
    trivial

/-- A group that was not there and is there while an account is created was founded with it. -/
theorem keeps_create_founds (hNew : s.1.book.contains g = false) (manager protocol : String)
    (params : SortedMap String Value) :
    Keeps host (fun s' => s'.1.book.contains g = true →
        r.Founds manager protocol params g s.1.book s'.1.book)
      (r.create manager protocol params) s fun _ _ => True := by
  apply keeps_create_of_allocate
  · intro hThere
    rw [hNew] at hThere
    contradiction
  · intros
    trivial
  · intros
    trivial
  · intro hUnique h hName
    have hSecret : ∀ e ∈ r.secretParams params, r.secrets.isSecretKey e.1 = true :=
      fun _ he => isSecretKey_of_mem_secretParams he
    by_cases hEq : h = g
    · subst hEq
      apply (keeps_retains_establish r.spares_isPlainKey hNew hSecret).imp
      intro s' hKept hThere
      obtain ⟨-, hSame⟩ := hKept hThere
      apply Founds.mk hUnique hName
      intro key hPlain
      rw [hSame key hPlain, value?_of_written (get?_eq_none_of_allocate hName)]
    -- The creation is of another group, and `g` is still not there.
    · have hOther : r.ClosedAt h (Process.Retains (fun _ => False) g s.1.book) :=
        closedAt_of_sameOff fun _ _ => retains_of_sameOff hEq
      have hPlain : ∀ key ∈ (r.initialAttributes manager protocol params).keys,
          r.secrets.isSecretKey key = false :=
        fun _ hKey => isSecretKey_of_mem_initialAttributes hKey
      apply (hOther.establish hPlain hSecret s Book.Retains.refl).imp
      intro s' hKept hThere
      rw [(hKept hThere).1] at hNew
      contradiction

theorem Founds.manager {manager protocol : String} {params : SortedMap String Value} {b b' : Book}
    (h : r.Founds manager protocol params g b b') : b'.value? g managerKey = some manager := by
  have hPlain : r.IsPlainKey managerKey := ⟨by decide, r.secrets.isSecretKey_managerKey⟩
  rw [h.value managerKey hPlain, get?_initialAttributes_managerKey]

theorem Founds.protocol {manager protocol : String} {params : SortedMap String Value} {b b' : Book}
    (h : r.Founds manager protocol params g b b') : b'.value? g protocolKey = some protocol := by
  have hPlain : r.IsPlainKey protocolKey := ⟨by decide, r.secrets.isSecretKey_protocolKey⟩
  rw [h.value protocolKey hPlain, get?_initialAttributes_protocolKey]

/-! ## Hidden groups -/

theorem spares_nothing (r : Registry) : r.Spares fun _ => False := ⟨id, fun _ _ => id⟩

/-- A group that is not there does not show as long as nothing brings it into being. -/
theorem isLive_eq_false_of_retains {b b' : Book} (hKept : b.Retains (fun _ => False) g b')
    (hNew : b.contains g = false) : b'.isLive g = false := by
  rw [Bool.eq_false_iff]
  intro hLive
  rw [(hKept (contains_of_isLive hLive)).1] at hNew
  contradiction

/-- A hidden group is pending or not there. -/
theorem isPending_or_not_contains {b : Book} (hHidden : b.isLive g = false) :
    b.isPending g = true ∨ b.contains g = false := by
  rw [Book.isLive_eq, Bool.and_eq_false_iff, Bool.not_eq_false'] at hHidden
  exact hHidden.symm

theorem keeps_hidden_check (hHidden : s.1.book.isLive g = false) :
    Keeps host (fun s' => s'.1.book.isLive g = false) r.check s fun _ _ => True := by
  by_cases hEq : g = checkGroup
  · subst hEq
    rw [check_eq]
    apply keeps_book
    rw [hHidden]
    have hMark := Book.isPending_write_pendingKey s.1.book checkGroup "true"
    have hBegin := keeps_setMany (J := fun p => p.book.isLive checkGroup = false)
      (W := fun p => p.Marked checkGroup) hHidden hMark fun _ => isLive_of_isPending
    apply hBegin.bind
    · intro _ s' _ hMarked
      exact (keeps_withheld_checkMarked (r := r) (hMarked rfl)).imp fun _ => isLive_of_withheld
    · intros
      trivial
  · apply (stable_apart_check r s.1 s Apart.refl).imp
    intro s' hApart
    rw [Book.isLive, hApart.book g hEq]
    exact hHidden

/-- Nothing but a creation makes a group show. -/
theorem keeps_hidden_action (hHidden : s.1.book.isLive g = false) {op : Operation}
    (hCreate : ∀ manager protocol params, op ≠ .create manager protocol params) :
    Keeps host (fun s' => s'.1.book.isLive g = false) (op.action r) s fun _ _ => True := by
  rcases isPending_or_not_contains hHidden with hMark | hNew
  · exact (keeps_withheld_action r hMark op).imp fun _ => isLive_of_withheld
  · by_cases hCheck : op = .check
    · subst hCheck
      exact (keeps_hidden_check hHidden).map
    · have hSpares : op.Spares fun _ => False :=
        Operation.spares_of id fun _ _ _ _ => False.elim
      have hKept := stable_retains_action r.spares_nothing hSpares hCreate hCheck (g := g) s
        Book.Retains.refl
      exact hKept.imp fun _ hKept' => isLive_eq_false_of_retains hKept' hNew

theorem keeps_hidden_openUp (hHidden : s.1.book.isLive g = false) :
    Keeps host (fun s' => s'.1.book.isLive g = false) r.openUp s fun _ _ => True := by
  rcases isPending_or_not_contains hHidden with hMark | hNew
  · exact (keeps_withheld_openUp r hMark).imp fun _ => isLive_of_withheld
  · have hKept := stable_retains_openUp r.spares_nothing (g := g) s Book.Retains.refl
    exact hKept.imp fun _ hKept' => isLive_eq_false_of_retains hKept' hNew

end Registry

namespace Process
open Registry

variable {r : Registry} {allowed : Operation → Prop} {g : GroupName} {p q : Process}

/-! ## Processes over time -/

theorem BecomesUsing.becomes (h : p.BecomesUsing r allowed q) : p.Becomes r q := by
  cases h with
  | operation op _ faults hCut => exact .operation op faults hCut
  | opening hStart faults hCut => exact .opening hStart faults hCut

theorem Becomes.using (h : p.Becomes r q) : p.BecomesUsing r (fun _ => True) q := by
  cases h with
  | operation op faults hCut => exact .operation op trivial faults hCut
  | opening hStart faults hCut => exact .opening hStart faults hCut

/-- A group that is there keeps what it is known by, as far as the operations spare it. -/
theorem BecomesUsing.retains {K : String → Prop} (h : p.BecomesUsing r allowed q)
    (hIntact : p.Intact KeyFile.IsWritable) (hSpares : r.Spares K)
    (hAllowed : ∀ op, allowed op → op.Spares K) (hThere : p.book.contains g = true)
    (hKey : p.book.isLive g = true ∨ ¬K r.checkKey) : p.book.Retains K g q.book := by
  cases h with
  | operation op hOp faults hCut =>
      have hKept := keeps_retains_action (s := (p, faults)) hSpares (hAllowed op hOp) hThere hKey
      exact hKept.1 _ hCut
  | opening hStart faults hCut =>
      rw [start_of_intact hIntact] at hStart
      obtain rfl := Except.ok.inj hStart
      have hKept := stable_retains_openUp (b := p.book) (g := g) hSpares
        ({ p with events := [] }, faults) Book.Retains.refl
      exact hKept.1 _ hCut

/-- A group that shows showed before, or the one account that is being created was founded in it. If
none is, it does not matter which account is named. -/
theorem BecomesUsing.live_or_founded (h : p.BecomesUsing r allowed q)
    (hIntact : p.Intact KeyFile.IsWritable) :
    ∃ manager protocol params, ∀ g, q.book.isLive g = true →
      p.book.isLive g = true ∨ r.Founds manager protocol params g p.book q.book := by
  -- All but a creation leaves hidden groups hidden.
  have hLasting : (∀ g, p.book.isLive g = false → q.book.isLive g = false) →
      ∃ manager protocol params, ∀ g, q.book.isLive g = true →
        p.book.isLive g = true ∨ r.Founds manager protocol params g p.book q.book := by
    intro hHidden
    refine ⟨"", "", ∅, fun g hLive => Or.inl ?_⟩
    by_contra hBefore
    rw [hHidden g (Bool.eq_false_iff.mpr hBefore)] at hLive
    contradiction
  cases h with
  | @operation op hOp faults s hCut =>
      by_cases hCreate : ∃ manager protocol params, op = .create manager protocol params
      · obtain ⟨manager, protocol, params, rfl⟩ := hCreate
        refine ⟨manager, protocol, params, fun g hLive => ?_⟩
        cases hBefore : p.book.isLive g with
        | true => exact Or.inl rfl
        | false =>
            right
            rcases isPending_or_not_contains hBefore with hMark | hNew
            · have hHeld := (keeps_withheld_action (s := (p, faults)) r hMark _).1 s hCut
              rw [isLive_of_withheld hHeld] at hLive
              contradiction
            · have hFounds := (keeps_create_founds (r := r) (s := (p, faults)) hNew manager protocol
                params).map (f := Reply.group) (Q := fun _ _ => True)
              exact hFounds.1 s hCut (contains_of_isLive hLive)
      · apply hLasting
        intro g hHidden
        have hOther : ∀ manager protocol params, op ≠ .create manager protocol params :=
          fun manager protocol params hEq => hCreate ⟨manager, protocol, params, hEq⟩
        exact (keeps_hidden_action (r := r) (s := (p, faults)) hHidden hOther).1 s hCut
  | opening hStart faults hCut =>
      rw [start_of_intact hIntact] at hStart
      obtain rfl := Except.ok.inj hStart
      apply hLasting
      intro g hHidden
      exact (keeps_hidden_openUp (r := r) (s := ({ p with events := [] }, faults)) hHidden).1 _ hCut

end Process

/-- A process that starts from storage that was never used. -/
def unusedProcess : Process := { Storage.unused with book := ∅, events := [] }

end Accounts
