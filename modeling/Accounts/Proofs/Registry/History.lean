import Accounts.Proofs.Registry.Pending

/-! Processes and what becomes of them over time. A pending group comes back in no history of
operations and openings: it stays pending until nothing is left of it, and meanwhile it can be
neither used nor listed nor created. -/
namespace Accounts

/-- What may become of a process. It uses the registry for one more operation, or the registry is
opened on what the process leaves. Either may be cut off, and anything may fail. -/
inductive Process.Becomes (r : Registry) (p : Process) : Process → Prop
  | operation (op : Operation) (faults : Faults) {s : Process × Faults}
      (hCut : s ∈ (op.action r).run.cuts host (p, faults)) : Becomes r p s.1
  | opening {p₀ : Process} (hStart : p.toStorage.start = .ok p₀) (faults : Faults)
      {s : Process × Faults} (hCut : s ∈ r.openUp.run.cuts host (p₀, faults)) : Becomes r p s.1

/-- What became of a process in turn, each time with some registry. -/
inductive Process.History : Process → List (Registry × Process) → Prop
  | nil (p : Process) : History p []
  | cons {r : Registry} {p q : Process} {rest : List (Registry × Process)} (h : Becomes r p q)
      (hRest : History q rest) : History p ((r, q) :: rest)

/-- A process that started from storage that could be read, or what became of it. -/
def Process.Arises (p : Process) : Prop :=
  ∃ d p₀, Storage.start d = .ok p₀ ∧
    Relation.ReflTransGen (fun x y => ∃ r, Process.Becomes r x y) p₀ p

/-- The operations that use the account of a group, to look at it or to write it. -/
def Operation.Uses (g : GroupName) : Operation → Prop
  | .read h _ | .getParam h .. | .getSecret h _ | .account h | .setProperty h .. | .setEnabled h _ =>
    h = g
  | _ => False

namespace Process

variable {r : Registry} {g : GroupName} {p q : Process}

theorem intact_of_becomes (hIntact : p.Intact KeyFile.IsWritable) (h : p.Becomes r q) :
    q.Intact KeyFile.IsWritable := by
  cases h with
  | operation op faults hCut =>
      have hKeeps := Registry.respects_action (fun _ h => h)
        (fun _ h => KeyFile.isWritable_of_isKey h.1) op (r := r)
      exact (hKeeps (p, faults) hIntact).1 _ hCut
  | opening hStart faults hCut =>
      exact ((Registry.closed_writable r).openUp (_, faults) (intact_of_start hStart)).1 _ hCut

theorem Arises.intact (h : p.Arises) : p.Intact KeyFile.IsWritable := by
  obtain ⟨d, p₀, hStart, hSteps⟩ := h
  induction hSteps with
  | refl => exact intact_of_start hStart
  | tail _ hLast ih =>
      obtain ⟨r, hBecomes⟩ := hLast
      exact intact_of_becomes ih hBecomes

/-- A process that starts from what another one leaves has the book of that one. -/
theorem start_of_intact {P : String → Prop} (hIntact : p.Intact P) :
    p.toStorage.start = .ok { p with events := [] } :=
  start_of_load hIntact.load_file

/-- A step takes the mark of a group away only if nothing is left of the group then. -/
theorem withheld_of_becomes (hIntact : p.Intact KeyFile.IsWritable) (hMark : p.Marked g)
    (h : p.Becomes r q) : q.Withheld r g := by
  cases h with
  | operation op faults hCut =>
      exact (Registry.keeps_withheld_action (s := (p, faults)) r hMark op).1 _ hCut
  | opening hStart faults hCut =>
      rw [start_of_intact hIntact] at hStart
      obtain rfl := Except.ok.inj hStart
      exact (Registry.keeps_withheld_openUp r hMark).1 _ hCut

/-- The group stays pending to the end, or until it is gone. -/
theorem marked_until_gone {run : List (Registry × Process)} (hRun : p.History run)
    (hIntact : p.Intact KeyFile.IsWritable) (hMark : p.Marked g) :
    (∀ x ∈ run, x.2.Marked g) ∨ ∃ before x after, run = before ++ x :: after ∧
      (∀ y ∈ before, y.2.Marked g) ∧ x.2.Gone x.1 g := by
  induction hRun with
  | nil => exact .inl (by simp)
  | @cons r p q rest hBecomes _ ih =>
      rcases withheld_of_becomes hIntact hMark hBecomes with hMark' | hGone
      · rcases ih (intact_of_becomes hIntact hBecomes) hMark' with hAll | ⟨before, x, after, hUntil⟩
        · exact .inl (List.forall_mem_cons.mpr ⟨hMark', hAll⟩)
        · obtain ⟨rfl, hBefore, hGone⟩ := hUntil
          exact .inr ⟨(r, q) :: before, x, after, rfl, List.forall_mem_cons.mpr ⟨hMark', hBefore⟩,
            hGone⟩
      · exact .inr ⟨[], (r, q), rest, rfl, by simp, hGone⟩

/-- Before the group is live again there is a time at which nothing is left of it. -/
theorem gone_before_live {run : List (Registry × Process)} (hRun : p.History run)
    (hIntact : p.Intact KeyFile.IsWritable) (hMark : p.Marked g)
    {before after : List (Registry × Process)} {x : Registry × Process}
    (hSplit : run = before ++ x :: after) (hLive : x.2.book.isLive g = true) :
    ∃ y ∈ before, y.2.Gone y.1 g := by
  induction hRun generalizing before with
  | nil => simp at hSplit
  | @cons r p q rest hBecomes _ ih =>
      have hHeld := withheld_of_becomes hIntact hMark hBecomes
      cases before with
      | nil =>
          obtain ⟨rfl, rfl⟩ := List.cons.inj hSplit
          rw [Registry.isLive_of_withheld hHeld] at hLive
          contradiction
      | cons y before =>
          obtain ⟨rfl, hRest⟩ := List.cons.inj hSplit
          rcases hHeld with hMark' | hGone
          · obtain ⟨z, hz, hGone⟩ := ih (intact_of_becomes hIntact hBecomes) hMark' hRest
            exact ⟨z, List.mem_cons_of_mem _ hz, hGone⟩
          · exact ⟨_, List.mem_cons_self, hGone⟩

end Process

namespace Registry
open Process Accounts.Action

variable {r : Registry} {g : GroupName} {p : Process} {s : Process × Faults} {α : Type}

/-- An action for which the group has to be live ends without an effect if it is not. -/
theorem refused_of_not_isLive (f : Unit → Action α) (hHidden : s.1.book.isLive g = false) :
    (ensureLive g >>= f).run.run host s = (.error (.unknownGroup g.sectionName), s) ∧
      (ensureLive g >>= f).run.cuts host s = [s] := by
  have hBody : (ensureLive g >>= f) = Store.book >>= fun b =>
      (if b.isLive g then pure () else throw (.unknownGroup g.sectionName)) >>= f := by
    rw [ensureLive, bind_assoc]
  rw [hBody]
  change ((if s.1.book.isLive g then pure () else throw _ : Action Unit) >>= f).run.run host s = _ ∧
    ((if s.1.book.isLive g then pure () else throw _ : Action Unit) >>= f).run.cuts host s = _
  rw [hHidden]
  exact ⟨rfl, rfl⟩

/-- Whoever uses an account asks first whether its group is live. -/
theorem action_of_uses {op : Operation} (h : op.Uses g) :
    ∃ f, op.action r = ensureLive g >>= f := by
  cases op with
  | read h key =>
      obtain rfl := h
      exact ⟨_, map_bind ..⟩
  | getParam h name kind =>
      obtain rfl := h
      rw [Operation.action, getParam, read, bind_assoc, map_bind]
      exact ⟨_, rfl⟩
  | getSecret h key =>
      obtain rfl := h
      exact ⟨_, map_bind ..⟩
  | account h =>
      obtain rfl := h
      exact ⟨_, map_bind ..⟩
  | setProperty h key value =>
      obtain rfl := h
      rw [Operation.action, setProperty, write, bind_assoc, map_bind]
      exact ⟨_, rfl⟩
  | setEnabled h enabled =>
      obtain rfl := h
      rw [Operation.action, setEnabled, write, bind_assoc, map_bind]
      exact ⟨_, rfl⟩
  | create manager protocol params => exact h.elim
  | remove h' => exact h.elim
  | list => exact h.elim
  | dump => exact h.elim
  | check => exact h.elim

/-- The group of a new account was not in the book. -/
theorem keeps_create_new (r : Registry) (manager protocol : String)
    (params : SortedMap String Value) (s : Process × Faults) :
    Keeps host (fun _ => True) (r.create manager protocol params) s fun answer _ =>
      ∀ g, answer = .ok g → s.1.book.get? g = none := by
  have hAny : ∀ {β : Type} (a : Action β) s', Keeps host (fun _ => True) a s' fun _ _ => True :=
    fun _ _ => ⟨fun _ _ => trivial, trivial⟩
  have hFailed : ∀ (e : Error) (s' : Process × Faults), True → True →
      ∀ g, (.error e : Except Error GroupName) = .ok g → s.1.book.get? g = none := by
    intro _ _ _ _ g hOk
    contradiction
  refine keeps_create_of_establish trivial (fun e g hOk => by contradiction) fun g hNew => ?_
  refine (hAny _ s).bind (fun _ s' _ _ => ?_) hFailed
  refine (hAny _ s').bind (fun _ s'' _ _ => ?_) hFailed
  refine (hAny _ s'').bind (fun _ _ _ _ => Keeps.pure trivial fun g' hOk => ?_) hFailed
  obtain rfl := Except.ok.inj hOk
  exact hNew

/-- A pending group stays pending until nothing is left of it, so it is never shown again before it
is completely gone. As long as it is pending, whoever asks to use it is told that there is no such
group, without a look at the file or the backend, the group is not listed, and no new account takes
its name. All this is so whatever registries are at work, whatever fails, and wherever processes
are cut off. -/
theorem pending_until_gone (hArises : p.Arises) (hMark : p.book.isPending g = true)
    {run : List (Registry × Process)} (hRun : p.History run) :
    ((∀ x ∈ run, x.2.book.isPending g = true) ∨
      ∃ before x after, run = before ++ x :: after ∧
        (∀ y ∈ before, y.2.book.isPending g = true) ∧ x.2.Gone x.1 g) ∧
    (∀ before x after, run = before ++ x :: after → x.2.book.isLive g = true →
      ∃ y ∈ before, y.2.Gone y.1 g) ∧
    ∀ r faults,
      (∀ op : Operation, op.Uses g →
        (op.action r).run.run host (p, faults) =
          (.error (.unknownGroup g.sectionName), p, faults) ∧
        (op.action r).run.cuts host (p, faults) = [(p, faults)]) ∧
      (∃ gs, (Operation.list.action r).run.run host (p, faults) = (.ok (.groups gs), p, faults) ∧
        g ∉ gs) ∧
      ∀ manager protocol params q faults',
        ((Operation.create manager protocol params).action r).run.run host (p, faults) ≠
          (.ok (.group g), q, faults') := by
  have hUntil := marked_until_gone hRun hArises.intact hMark
  have hHidden := isLive_of_isPending hMark
  refine ⟨hUntil, fun before x after hSplit hLive => ?_, fun r faults => ⟨fun op hUses => ?_, ?_, ?_⟩⟩
  · exact gone_before_live hRun hArises.intact hMark hSplit hLive
  · obtain ⟨f, hAction⟩ := action_of_uses (r := r) hUses
    rw [hAction]
    exact refused_of_not_isLive (s := (p, faults)) f hHidden
  · refine ⟨p.book.liveGroups, rfl, fun hListed => ?_⟩
    rw [Book.mem_liveGroups, hHidden] at hListed
    contradiction
  · intro manager protocol params q faults' hAnswer
    have hNew : Keeps host (fun _ => True) ((Operation.create manager protocol params).action r)
        (p, faults) fun answer _ => answer = .ok (.group g) → p.book.get? g = none := by
      refine ((keeps_create_new r manager protocol params (p, faults)).mono ?_).map
      intro answer _ _ hNew hOk
      cases answer with
      | ok g' => exact hNew g (by simpa [Except.map] using hOk)
      | error e => contradiction
    have hGone := hNew.2
    rw [hAnswer] at hGone
    obtain ⟨a, ha, _⟩ := Book.isPending_eq_true_iff.mp hMark
    rw [hGone rfl] at ha
    contradiction

/-- The process after one operation. -/
def after (r : Registry) (op : Operation) (p : Process) (faults : Faults) : Process :=
  ((op.action r).run.run host (p, faults)).2.1

theorem becomes_after (r : Registry) (op : Operation) (p : Process) (faults : Faults) :
    p.Becomes r (r.after op p faults) :=
  .operation op faults (Program.run_mem_cuts host _ _)

/-- The removal that stalled is retried, and the account is created anew, without a password. -/
def renewal : List (Registry × Process) :=
  let removed := ringRegistry.after (.remove accountGroup) stalledProcess .none
  [(ringRegistry, removed),
    (ringRegistry, ringRegistry.after (.create "keeper" "health" ∅) removed .none)]

/-- The name is in use again at the end, and between the two accounts nothing was left of it. -/
theorem pending_until_gone_of_renewal :
    stalledProcess.book.isPending accountGroup = true ∧ stalledProcess.History renewal ∧
      (∃ x ∈ renewal, x.2.book.isLive accountGroup = true) ∧
      ∃ y ∈ renewal, y.2.Gone y.1 accountGroup := by
  have hCreated : Process.Becomes ringRegistry { Storage.unused with book := ∅, events := [] }
      accountProcess := by
    have hEq : accountProcess = ringRegistry.after
        (.create "keeper" "health" (.ofList [("password", .string "old")]))
        { Storage.unused with book := ∅, events := [] } .none := by decide +kernel
    rw [hEq]
    exact becomes_after ..
  have hRemoved : accountProcess.Becomes ringRegistry stalledProcess := by
    have hEq : stalledProcess = ringRegistry.after (.remove accountGroup) accountProcess
        stalledFaults := by decide +kernel
    rw [hEq]
    exact becomes_after ..
  have hArises : stalledProcess.Arises :=
    ⟨Storage.unused, _, rfl, (Relation.ReflTransGen.single ⟨_, hCreated⟩).tail ⟨_, hRemoved⟩⟩
  have hRun : stalledProcess.History renewal :=
    .cons (becomes_after ..) (.cons (becomes_after ..) (.nil _))
  have hMark : stalledProcess.book.isPending accountGroup = true := by decide +kernel
  have hLive : (ringRegistry.after (.create "keeper" "health" ∅)
      (ringRegistry.after (.remove accountGroup) stalledProcess .none) .none).book.isLive
        accountGroup = true := by decide +kernel
  obtain ⟨_, hBefore, _⟩ := pending_until_gone hArises hMark hRun
  obtain ⟨y, hy, hGone⟩ := hBefore [_] _ [] rfl hLive
  refine ⟨hMark, hRun, ⟨_, List.mem_cons_of_mem _ List.mem_cons_self, hLive⟩, y, ?_, hGone⟩
  rw [List.mem_singleton.mp hy]
  exact List.mem_cons_self

end Registry
end Accounts
