import Accounts.Proofs.Registry.Notices
import Accounts.Proofs.Since

/-! Notices and listed groups. Whoever follows the notices from the groups that are listed when the
registry is open knows the listed groups later, but for one thing: no notice is given when a removal
hides its group and does not complete. -/
namespace Accounts

/-- The groups that a reader of notices knows of, after one more notice. -/
def Event.replay (groups : List GroupName) : Event → List GroupName
  | .created g => groups.insert g
  | .removed g => groups.filter (· ≠ g)
  | _ => groups

/-- The groups that are listed once an operation has answered, if these were listed before. -/
def Operation.relist : Operation → Except Error Reply → List GroupName → List GroupName
  | .create .., .ok (.group g), groups => groups.insert g
  | .remove g, .ok _, groups => groups.filter (· ≠ g)
  | .remove g, .error (.partialRemoval ..), groups => groups.filter (· ≠ g)
  | _, _, groups => groups

/-- An operation and its answer, and the groups that were listed before and after. -/
structure Exchange where
  op : Operation
  answer : Except Error Reply
  before : List GroupName
  after : List GroupName

namespace Exchange

/-- The notice that is given. -/
def notice (x : Exchange) : Option Event := x.op.notice x.answer

/-- A removal hides the group and does not complete. -/
def Withdraws (g : GroupName) (x : Exchange) : Prop :=
  x.op = .remove g ∧ (∃ group reason, x.answer = .error (.partialRemoval group reason)) ∧
    g ∈ x.before ∧ g ∉ x.after

/-- The group is removed, or it is created. -/
def Settles (g : GroupName) (x : Exchange) : Prop :=
  (x.op = .remove g ∧ ∃ reply, x.answer = .ok reply) ∨
    ((∃ manager protocol params, x.op = .create manager protocol params) ∧
      x.answer = .ok (.group g))

variable {g h : GroupName} {before after : List GroupName}

theorem settles_create {manager protocol : String} {params : SortedMap String Value} :
    Settles g ⟨.create manager protocol params, .ok (.group h), before, after⟩ ↔ g = h := by
  simp [Settles, eq_comm]

theorem settles_remove {reply : Reply} :
    Settles g ⟨.remove h, .ok reply, before, after⟩ ↔ g = h := by
  simp [Settles, eq_comm]

theorem not_settles_of_error {op : Operation} {e : Error} :
    ¬Settles g ⟨op, .error e, before, after⟩ := by
  simp [Settles]

theorem withdraws_partly {group reason : String} :
    Withdraws g ⟨.remove h, .error (.partialRemoval group reason), before, after⟩ ↔
      g = h ∧ g ∈ before ∧ g ∉ after := by
  simp [Withdraws, eq_comm]

theorem not_withdraws_of_ok {op : Operation} {reply : Reply} :
    ¬Withdraws g ⟨op, .ok reply, before, after⟩ := by
  simp [Withdraws]

end Exchange

/-- A removal hid the group, and it was neither removed nor created since. -/
def Withdrawn (g : GroupName) (log : List Exchange) : Prop :=
  Since (Exchange.Withdraws g) (Exchange.Settles g) log

/-- With some faults, the registry answers the operations of the log one after the other. -/
inductive Process.Logs (r : Registry) (p : Process) : List Exchange → Process → Prop
  | nil : Logs r p [] p
  | snoc {log : List Exchange} {q q' : Process} {op : Operation} {answer : Except Error Reply}
      (hLog : Logs r p log q) (hEnds : (op.action r).Ends q answer q') :
      Logs r p (log ++ [⟨op, answer, q.book.liveGroups, q'.book.liveGroups⟩]) q'

namespace Registry
open Process Accounts.Action

variable {r : Registry} {g h : GroupName} {p q : Process} {s : Process × Faults} {α : Type}

/-! ## What is listed after one operation -/

theorem SameOff.isLive_eq (hSame : SameOff r g p q) (hNe : h ≠ g) :
    q.book.isLive h = p.book.isLive h := by
  rw [Book.isLive, Book.isLive, hSame.book h hNe]

theorem mem_liveGroups_insert (hSame : SameOff r g p q) (hLive : q.book.isLive g = true) :
    h ∈ q.book.liveGroups ↔ h ∈ p.book.liveGroups.insert g := by
  rw [List.mem_insert_iff, Book.mem_liveGroups, Book.mem_liveGroups]
  by_cases hEq : h = g
  · rw [hEq]
    exact iff_of_true hLive (Or.inl rfl)
  · rw [SameOff.isLive_eq hSame hEq, or_iff_right hEq]

theorem mem_liveGroups_filter (hSame : SameOff r g p q) (hHidden : q.book.isLive g = false) :
    h ∈ q.book.liveGroups ↔ h ∈ p.book.liveGroups.filter (· ≠ g) := by
  rw [List.mem_filter, decide_eq_true_eq, Book.mem_liveGroups, Book.mem_liveGroups]
  by_cases hEq : h = g
  · rw [hEq, hHidden]
    simp
  · rw [SameOff.isLive_eq hSame hEq, and_iff_left hEq]

/-- Who sees the same sees the same groups. -/
theorem mem_liveGroups_of_liveView_eq (hView : q.liveView r = p.liveView r) :
    h ∈ q.book.liveGroups ↔ h ∈ p.book.liveGroups := by
  have hSome : ∀ x : Process, (x.liveView r h).isSome = true ↔ h ∈ x.book.liveGroups := by
    intro x
    rw [liveView]
    split_ifs with hListed
    · exact iff_of_true rfl hListed
    · exact iff_of_false Bool.false_ne_true hListed
  rw [← hSome q, ← hSome p, hView]

theorem Written.isLive_eq (hWritten : Written r g p q) (hLive : p.book.isLive g = true)
    (h : GroupName) : q.book.isLive h = p.book.isLive h := by
  cases hWritten with
  | service => rfl
  | file key value hKey =>
      rw [Book.isLive_eq] at hLive
      rw [save_book, Book.isLive_eq, Book.isLive_eq, Book.contains_write,
        Book.isPending_write _ _ _ _ hKey]
      split_ifs with hEq
      · subst hEq
        rw [(Bool.and_eq_true_iff.mp hLive).1]
      · rfl

theorem keeps_setAttribute_live (g : GroupName) (key : String) (value : Value) (event : Event)
    (s : Process × Faults) :
    Keeps host (fun _ => True) (r.write g key value >>= fun _ => Action.emit event) s
      fun _ s' => ∀ h, s'.1.book.isLive h = s.1.book.isLive h := by
  have hWrite : Keeps host (fun _ => True) (r.write g key value) s
      fun _ s' => ∀ h, s'.1.book.isLive h = s.1.book.isLive h := by
    refine (atomic_write g key value s).ends.mono fun _ s' _ hT h => ?_
    rcases hT with hSame | ⟨hLive, hWritten⟩
    · rw [hSame]
    · exact hWritten.isLive_eq hLive h
  exact hWrite.bind (fun _ _ _ hLive => Keeps.emit trivial hLive) fun _ _ _ hLive => hLive

/-- The new group has its manager as long as its secrets are written. -/
theorem stable_begun_secrets {es : List (String × String)}
    (hSecret : ∀ e ∈ es, r.secrets.isSecretKey e.1 = true) :
    Stable (fun p => Begun g p.book) (es.forM fun e => r.backend.set g e.1 e.2) := by
  refine Preserves.forM fun e he => ?_
  refine Stable.of_atomic (J := fun p => Begun g p.book) (atomic_backendSet e.1 e.2
    (isSecretKey_ne_pendingKey (hSecret e he)) (hSecret e he) g) fun s _ q hBegun hT => ?_
  rcases hT with rfl | hWritten
  · exact hBegun
  · exact hBegun.written hWritten

/-- The group shows once it is published. -/
theorem keeps_publish_shown {es : List (String × String)} (hBegun : Begun g s.1.book)
    (hSame : SameOff r g p s.1) (hSecret : ∀ e ∈ es, r.secrets.isSecretKey e.1 = true) :
    Keeps host (fun _ => True) (r.publish g es) s fun answer s' =>
      answer = .ok () → SameOff r g p s'.1 ∧ s'.1.book.isLive g = true := by
  have hSecrets : Keeps host (fun _ => True) (es.forM fun e => r.backend.set g e.1 e.2) s
      fun _ s' => Begun g s'.1.book ∧ SameOff r g p s'.1 :=
    ⟨fun _ _ => trivial, (stable_begun_secrets hSecret s hBegun).last,
      (stable_sameOff_secrets hSecret s hSame).last⟩
  refine hSecrets.bind (fun _ s' _ hBefore => ?_) fun e _ _ _ hOk => by contradiction
  obtain ⟨⟨a, ha, hMark, manager, hManager⟩, hSame'⟩ := hBefore
  refine (atomic_delete g pendingKey s').ends.mono fun answer s'' _ hT hOk => ?_
  rcases hT with ⟨_, hCleared⟩ | ⟨⟨e, hError⟩, _⟩
  · have hThere : (s'.1.book.value? g pendingKey).isSome = true := by
      rw [Book.value?, ha]
      exact hMark
    rw [if_pos hThere] at hCleared
    rw [hCleared]
    refine ⟨hSame'.trans (sameOff_eraseKey s'.1 g pendingKey), ?_⟩
    rw [save_book, Book.isLive_eq, Book.isPending_eraseKey, SortedMap.contains,
      Book.get?_eraseKey_of_ne ha hManager (by decide)]
    rfl
  · rw [hError] at hOk
    contradiction

theorem keeps_establish_shown (hNew : s.1.book.get? g = none) (manager protocol : String)
    (params : SortedMap String Value) :
    Keeps host (fun _ => True)
      (r.establish g (r.initialAttributes manager protocol params) (r.secretParams params)) s
      fun answer s' => ∀ g', answer = .ok g' →
        g' = g ∧ SameOff r g s.1 s'.1 ∧ s'.1.book.isLive g = true := by
  have hSecret : ∀ e ∈ r.secretParams params, r.secrets.isSecretKey e.1 = true :=
    fun e he => isSecretKey_of_mem_secretParams he
  have hBegin := (atomic_setMany g (r.initialAttributes manager protocol params).toList s).ends
  refine hBegin.bind (fun _ s' _ hT => ?_) fun e _ _ _ g' hOk => by contradiction
  rcases hT with ⟨⟨_, hSaved⟩, _⟩ | ⟨⟨e, hError⟩, _⟩
  · have hBegun : Begun g s'.1.book := by
      rw [hSaved]
      exact begun_write hNew r manager protocol params
    have hSame : SameOff r g s.1 s'.1 := by
      rw [hSaved]
      exact sameOff_write s.1 g _
    refine (keeps_publish_shown hBegun hSame hSecret).tryCatch_throw.bind
      (fun _ s'' _ hShown => ?_) fun e _ _ _ g' hOk => by contradiction
    obtain ⟨hSame', hLive⟩ := hShown rfl
    have hEmit : Keeps host (fun _ => True) (Action.emit (.created g)) s'' fun _ s₃ =>
        SameOff r g s.1 s₃.1 ∧ s₃.1.book.isLive g = true :=
      Keeps.emit trivial ⟨hSame'.notify _, hLive⟩
    refine hEmit.bind (fun _ s₃ _ hEnd => ?_) fun e _ _ _ g' hOk => by contradiction
    exact Keeps.pure trivial fun g' hOk => ⟨(Except.ok.inj hOk).symm, hEnd⟩
  · contradiction

/-- A creation that succeeds shows its group and leaves the others alone. -/
theorem keeps_create_shown (r : Registry) (manager protocol : String)
    (params : SortedMap String Value) (s : Process × Faults) :
    Keeps host (fun _ => True) (r.create manager protocol params) s fun answer s' =>
      ∀ g, answer = .ok g → SameOff r g s.1 s'.1 ∧ s'.1.book.isLive g = true := by
  refine keeps_create_of_establish trivial (fun e g hOk => by contradiction) fun g hNew => ?_
  refine (keeps_establish_shown hNew manager protocol params).mono fun answer s' _ hShown g' hOk => ?_
  obtain ⟨rfl, hEnd⟩ := hShown g' hOk
  exact hEnd

theorem listed_after_create {manager protocol : String} {params : SortedMap String Value}
    {answer : Except Error Reply}
    (hEnds : ((Operation.create manager protocol params).action r).Ends p answer q) :
    h ∈ q.book.liveGroups ↔
      h ∈ (Operation.create manager protocol params).relist answer p.book.liveGroups := by
  refine hEnds.of_keeps (R := fun answer q => h ∈ q.book.liveGroups ↔
    h ∈ (Operation.create manager protocol params).relist answer p.book.liveGroups) fun faults => ?_
  have hBoth : Keeps host (fun _ => True) (r.create manager protocol params) (p, faults)
      fun answer s' => (∀ g, answer = .ok g → SameOff r g p s'.1 ∧ s'.1.book.isLive g = true) ∧
        ((∃ e, answer = .error e) → CreationFailure r p s'.1) :=
    ⟨fun _ _ => trivial, (keeps_create_shown r manager protocol params (p, faults)).2,
      (keeps_create_failed r manager protocol params (p, faults)).2⟩
  refine (hBoth.mono fun answer s' _ hEnd => ?_).map
  cases answer with
  | ok g =>
      obtain ⟨hSame, hLive⟩ := hEnd.1 g rfl
      exact mem_liveGroups_insert hSame hLive
  | error e => exact mem_liveGroups_of_liveView_eq (hEnd.2 ⟨e, rfl⟩).liveView_eq

theorem RemovalEnd.listed {answer : Except Error Unit} (hEnd : RemovalEnd r g p answer q) :
    h ∈ q.book.liveGroups ↔
      h ∈ (Operation.remove g).relist (answer.map fun _ => .done) p.book.liveGroups := by
  have hSame := hEnd.sameOff
  cases hEnd with
  | unknown => exact Iff.rfl
  | unmarked => exact Iff.rfl
  | partly _ _ hStripped =>
      refine mem_liveGroups_filter hSame (isLive_of_isPending ?_)
      rw [hStripped.book_eq]
      exact isPending_mark p g
  | complete =>
      refine mem_liveGroups_filter hSame (isLive_of_get?_eq_none ?_)
      rw [notify_book, drop_book, SortedMap.get?_erase, if_pos rfl]

/-- What is listed after an operation depends only on what was listed before it and on its answer. -/
theorem listed_of_ends {op : Operation} {answer : Except Error Reply}
    (hEnds : (op.action r).Ends p answer q) (h : GroupName) :
    h ∈ q.book.liveGroups ↔ h ∈ op.relist answer p.book.liveGroups := by
  rcases op.isMutation_or_isRead with hMutation | rfl | hRead
  · cases op, hMutation using Operation.mutation_cases with
    | create manager protocol params => exact listed_after_create hEnds
    | setProperty g key value =>
        refine hEnds.of_keeps (R := fun _ q => h ∈ q.book.liveGroups ↔ h ∈ p.book.liveGroups)
          fun faults => Keeps.map ((keeps_setAttribute_live g key value _ _).mono ?_)
        intro _ s' _ hLive
        rw [Book.mem_liveGroups, Book.mem_liveGroups, hLive h]
    | setEnabled g enabled =>
        refine hEnds.of_keeps (R := fun _ q => h ∈ q.book.liveGroups ↔ h ∈ p.book.liveGroups)
          fun faults => Keeps.map ((keeps_setAttribute_live g enabledKey _ _ _).mono ?_)
        intro _ s' _ hLive
        rw [Book.mem_liveGroups, Book.mem_liveGroups, hLive h]
    | remove g =>
        refine hEnds.of_keeps (R := fun answer q => h ∈ q.book.liveGroups ↔
          h ∈ (Operation.remove g).relist answer p.book.liveGroups) fun faults => ?_
        exact Keeps.map ((keeps_remove r g (p, faults)).mono fun _ _ _ hEnd => hEnd.listed)
  · refine hEnds.of_keeps (R := fun _ q => h ∈ q.book.liveGroups ↔ h ∈ p.book.liveGroups)
      fun faults => Keeps.map ((keeps_check_liveView r (p, faults)).mono ?_)
    exact fun _ _ _ hView => mem_liveGroups_of_liveView_eq hView
  · have hSame : q = p := by
      refine hEnds.of_keeps (R := fun _ q => q = p) fun faults => ?_
      exact ⟨fun _ _ => trivial, (stable_action (J := fun q => q = p) hRead (p, faults) rfl).last⟩
    have hRelist : op.relist answer p.book.liveGroups = p.book.liveGroups := by
      cases op with
      | create => contradiction
      | setProperty => contradiction
      | setEnabled => contradiction
      | remove => contradiction
      | _ => rfl
    rw [hSame, hRelist]

/-! ## What a reader of notices knows -/

/-- Only creations and removals that succeed tell the reader of notices anything. -/
theorem replay_notice_eq_self {op : Operation} {answer : Except Error Reply}
    (hCreate : ∀ manager protocol params g, op = .create manager protocol params →
      answer = .ok (.group g) → False)
    (hRemove : ∀ g reply, op = .remove g → answer = .ok reply → False) (known : List GroupName) :
    (op.notice answer).toList.foldl Event.replay known = known := by
  fun_cases Operation.notice op answer with
  | case1 manager protocol params g => exact (hCreate manager protocol params g rfl rfl).elim
  | case2 => rfl
  | case3 => rfl
  | case4 g reply => exact (hRemove g reply rfl rfl).elim
  | case5 => rfl

/-- What does not concern the group leaves it listed, hidden or withdrawn as it was. -/
theorem mem_replay_of_same {known known' : List GroupName} {x : Exchange} {Hidden : Prop}
    (hKnown : g ∈ known ↔ g ∈ x.before ∨ Hidden) (hListed : g ∈ x.after ↔ g ∈ x.before)
    (hSame : g ∈ known' ↔ g ∈ known) (hUnsettled : ¬x.Settles g) :
    g ∈ known' ↔ g ∈ x.after ∨ x.Withdraws g ∨ Hidden ∧ ¬x.Settles g := by
  have hShown : ¬x.Withdraws g := fun ⟨_, _, hBefore, hGone⟩ => hGone (hListed.mpr hBefore)
  rw [hSame, hKnown, hListed, or_iff_right hShown, and_iff_left hUnsettled]

/-- A reader who knows the listed groups and those withdrawn knows them after one more exchange. -/
theorem mem_replay_notice {known : List GroupName} {x : Exchange} {Hidden : Prop}
    (hListed : g ∈ x.after ↔ g ∈ x.op.relist x.answer x.before)
    (hKnown : g ∈ known ↔ g ∈ x.before ∨ Hidden) :
    g ∈ x.notice.toList.foldl Event.replay known ↔
      g ∈ x.after ∨ x.Withdraws g ∨ Hidden ∧ ¬x.Settles g := by
  obtain ⟨op, answer, before, after⟩ := x
  dsimp only at hListed hKnown
  fun_cases Operation.relist op answer before with
  | case1 manager protocol params h =>
      change g ∈ after ↔ g ∈ before.insert h at hListed
      change g ∈ known.insert h ↔ _
      rw [List.mem_insert_iff] at hListed ⊢
      by_cases hEq : g = h
      · exact iff_of_true (.inl hEq) (.inl (hListed.mpr (.inl hEq)))
      · rw [or_iff_right hEq] at hListed ⊢
        exact mem_replay_of_same hKnown hListed Iff.rfl fun hSettles =>
          hEq (Exchange.settles_create.mp hSettles)
  | case2 h reply =>
      change g ∈ after ↔ g ∈ before.filter (· ≠ h) at hListed
      change g ∈ known.filter (· ≠ h) ↔ _
      rw [List.mem_filter, decide_eq_true_eq] at hListed ⊢
      by_cases hEq : g = h
      · refine iff_of_false (fun hStays => hStays.2 hEq) ?_
        rintro (hAfter | hWithdraws | ⟨_, hUnsettled⟩)
        · exact (hListed.mp hAfter).2 hEq
        · exact Exchange.not_withdraws_of_ok hWithdraws
        · exact hUnsettled (Exchange.settles_remove.mpr hEq)
      · rw [and_iff_left hEq] at hListed ⊢
        exact mem_replay_of_same hKnown hListed Iff.rfl fun hSettles =>
          hEq (Exchange.settles_remove.mp hSettles)
  | case3 h group reason =>
      change g ∈ after ↔ g ∈ before.filter (· ≠ h) at hListed
      change g ∈ known ↔ _
      rw [List.mem_filter, decide_eq_true_eq] at hListed
      by_cases hEq : g = h
      · have hGone : g ∉ after := fun hAfter => (hListed.mp hAfter).2 hEq
        rw [hKnown, or_iff_right hGone, and_iff_left Exchange.not_settles_of_error,
          Exchange.withdraws_partly, and_iff_right hEq, and_iff_left hGone]
      · rw [and_iff_left hEq] at hListed
        exact mem_replay_of_same hKnown hListed Iff.rfl Exchange.not_settles_of_error
  | case4 =>
      rename_i hCreate hRemove hPartly
      rw [Operation.relist] at hListed
      · refine mem_replay_of_same hKnown hListed ?_ ?_
        · rw [Exchange.notice, replay_notice_eq_self hCreate hRemove]
        · rintro (⟨hOp, reply, hAnswer⟩ | ⟨⟨_, _, _, hOp⟩, hAnswer⟩)
          · exact hRemove _ _ hOp hAnswer
          · exact hCreate _ _ _ _ hOp hAnswer
      · exact hCreate
      · exact hRemove
      · exact hPartly

/-- What the notices are once the log is complete. -/
theorem events_of_logs {log : List Exchange} (hLog : p.Logs r log q) :
    q.events = p.events ++ log.filterMap Exchange.notice := by
  induction hLog with
  | nil => exact (List.append_nil _).symm
  | snoc _ hEnds ih =>
      rw [events_of_ends hEnds, ih, List.append_assoc, List.filterMap_append]
      congr 1

theorem events_of_opening {d : Storage} {p₀ : Process} (hStart : d.start = .ok p₀)
    (hOpen : r.openUp.Ends p₀ (.ok ()) p) : p.events = [] :=
  hOpen.of_keeps (R := fun _ p => p.events = []) fun faults =>
    ⟨fun _ _ => trivial, (stable_given_openUp r (p₀, faults) (events_of_start hStart)).last⟩

/-- Whoever knows the listed groups at first knows those listed and those withdrawn at last. -/
theorem mem_replay_of_logs {log : List Exchange} (hLog : p.Logs r log q) (g : GroupName) :
    g ∈ (log.filterMap Exchange.notice).foldl Event.replay p.book.liveGroups ↔
      g ∈ q.book.liveGroups ∨ Withdrawn g log := by
  induction hLog with
  | nil => exact (or_iff_left since_nil).symm
  | @snoc log q q' op answer _ hEnds ih =>
      have hNext := mem_replay_notice (x := ⟨op, answer, q.book.liveGroups, q'.book.liveGroups⟩)
        (listed_of_ends hEnds g) ih
      rw [Withdrawn, since_snoc, List.filterMap_append, List.foldl_append]
      exact hNext

theorem isSome_notice_of_logs {log : List Exchange} (hLog : p.Logs r log q) :
    ∀ x ∈ log, x.notice.isSome = true ↔
      x.op.isMutation = true ∧ ∃ reply, x.answer = .ok reply := by
  induction hLog with
  | nil => simp
  | snoc _ hEnds ih =>
      intro x hx
      rcases List.mem_append.mp hx with hx | hx
      · exact ih x hx
      · obtain rfl := List.mem_singleton.mp hx
        exact isSome_notice_iff hEnds

/-- The groups that are listed are those that are live, whatever goes wrong. -/
theorem run_list (p : Process) (faults : Faults) :
    Registry.list.run.run host (p, faults) = (.ok p.book.liveGroups, p, faults) := rfl

/-- An open registry gives one notice for each operation that changes an account and succeeds, in
order, and no other. Who replays them over the groups listed when it was opened comes to the groups
that are listed now, and to those that a removal hid without completing, unless they were removed or
created since. -/
theorem notices_tell_listed {d : Storage} {p₀ : Process} (hStart : d.start = .ok p₀)
    (hOpen : r.openUp.Ends p₀ (.ok ()) p) {log : List Exchange} (hLog : p.Logs r log q) :
    q.events = log.filterMap Exchange.notice ∧
      (∀ x ∈ log, x.notice.isSome = true ↔
        x.op.isMutation = true ∧ ∃ reply, x.answer = .ok reply) ∧
      (∀ g, g ∈ q.events.foldl Event.replay p.book.liveGroups ↔
        g ∈ q.book.liveGroups ∨ Withdrawn g log) ∧
      (∀ faults, Registry.list.run.run host (p, faults) = (.ok p.book.liveGroups, p, faults)) ∧
      ∀ faults, Registry.list.run.run host (q, faults) = (.ok q.book.liveGroups, q, faults) := by
  have hEvents : q.events = log.filterMap Exchange.notice := by
    rw [events_of_logs hLog, events_of_opening hStart hOpen, List.nil_append]
  refine ⟨hEvents, isSome_notice_of_logs hLog, ?_, run_list p, run_list q⟩
  rw [hEvents]
  exact mem_replay_of_logs hLog

/-- The account is created, and the service does not answer when it is to be removed. -/
def stalledLog : List Exchange :=
  [⟨.create "keeper" "health" (.ofList [("password", .string "old")]), .ok (.group accountGroup), [],
      [accountGroup]⟩,
    ⟨.remove accountGroup, .error (.partialRemoval accountGroup.sectionName
      (Keyring.failure ⟨"keeper", Keyring.defaultTimeout⟩ "delete" .timedOut).message),
      [accountGroup], []⟩]

/-- A reader of notices knows of the account, which is not listed any more. -/
theorem notices_tell_listed_of_stall :
    ∃ p, ringRegistry.openUp.Ends { Storage.unused with book := ∅, events := [] } (.ok ()) p ∧
      p.Logs ringRegistry stalledLog stalledProcess ∧
      stalledProcess.events = [.created accountGroup] ∧
      (∀ faults, Registry.list.run.run host (stalledProcess, faults) =
        (.ok [], stalledProcess, faults)) ∧
      accountGroup ∈ stalledProcess.events.foldl Event.replay p.book.liveGroups := by
  let p : Process := { Storage.unused with book := ∅, events := [] }
  have hOpen : ringRegistry.openUp.Ends p (.ok ()) p := by
    refine ⟨.none, .none, (run_eq_calm ..).trans (Prod.ext ?_ (Prod.ext ?_ rfl))⟩
    · decide +kernel
    · decide +kernel
  have hCreated : ((Operation.create "keeper" "health" (.ofList [("password", .string "old")])).action
      ringRegistry).Ends p (.ok (.group accountGroup)) accountProcess := by
    refine ⟨.none, .none, (run_eq_calm ..).trans (Prod.ext ?_ (Prod.ext ?_ rfl))⟩
    · decide +kernel
    · decide +kernel
  have hStalled : ((Operation.remove accountGroup).action ringRegistry).Ends accountProcess
      (.error (.partialRemoval accountGroup.sectionName
        (Keyring.failure ⟨"keeper", Keyring.defaultTimeout⟩ "delete" .timedOut).message))
      stalledProcess := by
    refine ⟨stalledFaults, .none, Prod.ext ?_ (Prod.ext ?_ ?_)⟩
    · decide +kernel
    · decide +kernel
    · decide +kernel
  have hListed : accountProcess.book.liveGroups = [accountGroup] := by decide +kernel
  have hNone : stalledProcess.book.liveGroups = [] := by decide +kernel
  have hLog : p.Logs ringRegistry stalledLog stalledProcess := by
    have hBoth := Logs.snoc (.snoc .nil hCreated) hStalled
    rw [hListed, hNone] at hBoth
    exact hBoth
  obtain ⟨hEvents, _, hKnown, _, hAnswer⟩ :=
    notices_tell_listed (d := Storage.unused) rfl hOpen hLog
  rw [hNone] at hAnswer
  have hWithdrawn : Withdrawn accountGroup stalledLog := by
    refine ⟨[_], _, [], rfl, ?_, by simp⟩
    exact Exchange.withdraws_partly.mpr ⟨rfl, by simp, by simp⟩
  exact ⟨p, hOpen, hLog, hEvents, hAnswer, (hKnown accountGroup).mpr (.inr hWithdrawn)⟩

end Registry
end Accounts
