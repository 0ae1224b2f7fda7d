import Accounts.Proofs.Command
import Accounts.Proofs.Registry.Blind
import Accounts.Proofs.Registry.History

/-! Secrets are seen by nobody who does not read them. Two runs that do the same, but give other
values to secrets, cannot be told apart by what they answer, show, dump or give notice of, nor by
the account file if that is not where the secrets are kept. -/
namespace Accounts

/-- What can be done with an account directory. -/
inductive Use where
  /-- The process that is there uses the registry. -/
  | operation (op : Operation)
  /-- A new process takes over and opens the registry. -/
  | opening
  /-- A command is given, and a new process carries it out. -/
  | invocation (path : String) (c : Command)

/-- Whether a command opens the registry. -/
def Command.needsRegistry : Command → Bool
  | .configInit | .version => false
  | _ => true

/-- What may be seen of the answer to an operation. Of a secret that is read it is seen whether it
could be read, and of one that is read as a value of a kind nothing, since that depends on its
text. -/
def Operation.shown (secrets : SecretNames) :
    Operation → Except Error Reply → Option (Except Error Reply)
  | .read _ key, answer | .getSecret _ key, answer =>
    some (if secrets.isSecretKey key then answer.map fun _ => .done else answer)
  | .getParam _ name _, answer => if secrets.isSecret name then none else some answer
  | _, answer => some answer

namespace Use

/-- The like for every use. -/
def shown (secrets : SecretNames) : Use → Except Error Reply → Option (Except Error Reply)
  | .operation op, answer => op.shown secrets answer
  | .invocation _ (.get _ key), answer =>
    some (if secrets.isSecretKey key then answer.map fun _ => .done else answer)
  | _, answer => some answer

/-- The uses are the same but for the values given to secrets. -/
inductive Alike (secrets : SecretNames) : Use → Use → Prop
  | refl (use : Use) : Alike secrets use use
  | create (manager protocol : String) {params params' : SortedMap String Value}
      (h : params.Alike (secrets.isSecret · = true) params') :
      Alike secrets (.operation (.create manager protocol params))
        (.operation (.create manager protocol params'))
  | setProperty (g : GroupName) {key : String} (h : secrets.isSecretKey key = true)
      (value value' : Value) :
      Alike secrets (.operation (.setProperty g key value)) (.operation (.setProperty g key value'))
  | createCommand (path manager protocol : String) {params params' : List (String × String)}
      (h : List.Forall₂ (SortedMap.Agree (secrets.isSecret · = true)) params params') :
      Alike secrets (.invocation path (.create manager protocol params))
        (.invocation path (.create manager protocol params'))
  | setCommand (path group : String) {key : String} (h : secrets.isSecretKey key = true)
      (value value' : String) :
      Alike secrets (.invocation path (.set group key value))
        (.invocation path (.set group key value'))

end Use

namespace Process

/-- Have a new process take over, and do something in it. -/
def takeOver {α : Type} (a : Action α) (s : Process × Faults) : Except Error α × Process × Faults :=
  match s.1.toStorage.start with
  | .ok p => a.run.run host (p, s.2)
  | .error e => (.error e, s)

end Process

open Process

/-- Carry out a use. -/
def Use.perform (r : Registry) : Use → Process × Faults → Except Error Reply × Process × Faults
  | .operation op, s => (op.action r).run.run host s
  | .opening, s => takeOver ((fun _ => .done) <$> r.openUp) s
  | .invocation path c, s =>
    if c.needsRegistry then takeOver (do r.openUp; .text <$> c.run r path) s else (.ok .done, s)

/-- A use with its answer and the process that it left. -/
structure Stage where
  use : Use
  answer : Except Error Reply
  process : Process

/-- Carry out uses in turn, whether they fail or not. -/
def Registry.trace (r : Registry) : List Use → Process × Faults → List Stage
  | [], _ => []
  | use :: rest, s =>
    let (answer, s') := use.perform r s
    ⟨use, answer, s'.1⟩ :: r.trace rest s'

/-- What can be seen of a process without reading secrets. -/
structure PublicView where
  groups : Except Error (List GroupName)
  account : GroupName → Except Error Account
  text : Except Error String
  json : Except Error String
  events : List Event
  /-- The account file, unless that is where the secrets are kept. -/
  file : Option (Option Content)

/-- What the registry shows of a process when nothing fails. -/
def Process.publicView (r : Registry) (p : Process) : PublicView where
  groups := (Registry.list.run.run host (p, .none)).1
  account g := ((r.account g).run.run host (p, .none)).1
  text := ((Book.dumpText <$> r.dump).run.run host (p, .none)).1
  json := ((Book.dumpJson <$> r.dump).run.run host (p, .none)).1
  events := p.events
  file := if r.backend.isInline then none else some p.file

/-- What can be seen of a use and after it. -/
def Stage.public (r : Registry) (x : Stage) : Option (Except Error Reply) × PublicView :=
  (x.use.shown r.secrets x.answer, x.process.publicView r)

namespace Registry
open Process Accounts.Action

variable {r : Registry} {s s' : Process × Faults} {p p' : Process}

/-! ## What a process shows -/

theorem publicView_eq_of_alike (h : p.Alike r p') : p.publicView r = p'.publicView r := by
  have hAlike : r.Alike (p, .none) (p', .none) := ⟨h, rfl⟩
  have hFile : (if r.backend.isInline then none else some p.file) =
      if r.backend.isInline then none else some p'.file := by
    split_ifs with hInline
    · rfl
    · rw [h.file (by simpa using hInline)]
  unfold publicView
  rw [(blind_list _ _ hAlike).1, (blind_dump.map _ _ hAlike).1, (blind_dump.map _ _ hAlike).1,
    funext fun g => (blind_account g _ _ hAlike).1, h.events, hFile]

/-! ## One operation -/

/-- What can be seen of the answers is the same, and the processes stay alike. -/
def Covert (r : Registry) (view : Except Error Reply → Option (Except Error Reply))
    (x x' : Except Error Reply × Process × Faults) : Prop :=
  view x.1 = view x'.1 ∧ r.Alike x.2 x'.2

theorem covert_of_twins {a a' : Action Reply} (h : r.Twins a a') (hAlike : r.Alike s s')
    (view : Except Error Reply → Option (Except Error Reply)) :
    r.Covert view (a.run.run host s) (a'.run.run host s') :=
  ⟨congrArg view (h s s' hAlike).1, (h s s' hAlike).2⟩

theorem covert_of_discard {a : Action Reply} (h : r.Blind ((fun _ => Reply.done) <$> a))
    (hAlike : r.Alike s s') {view : Except Error Reply → Option (Except Error Reply)}
    (hView : ∀ answer, view answer = some (answer.map fun _ => .done)) :
    r.Covert view (a.run.run host s) (a.run.run host s') := by
  have hEnd := h s s' hAlike
  rw [MatchesAt, run_map, run_map] at hEnd
  exact ⟨by rw [hView, hView]; exact congrArg some hEnd.1, hEnd.2⟩

/-- One operation, carried out in each of two processes that are alike. -/
theorem covert_operation (hAlike : r.Alike s s') (op : Operation) :
    r.Covert (op.shown r.secrets) ((op.action r).run.run host s)
      ((op.action r).run.run host s') := by
  have hDiscard : ∀ {a : Action String}, r.Blind ((fun _ => Reply.done) <$> a) →
      r.Blind ((fun _ => Reply.done) <$> Reply.text <$> a) := by
    intro a hBlind
    rwa [Functor.map_map]
  cases op with
  | create manager protocol params =>
      exact covert_of_twins (twins_create manager protocol (.refl _)).map hAlike _
  | setProperty g key value => exact covert_of_twins (twins_setProperty g (.inl rfl)).map hAlike _
  | setEnabled g enabled => exact covert_of_twins (blind_setEnabled g enabled).map hAlike _
  | remove g => exact covert_of_twins (blind_remove_account g).map hAlike _
  | list => exact covert_of_twins blind_list.map hAlike _
  | account g => exact covert_of_twins (blind_account g).map hAlike _
  | dump => exact covert_of_twins blind_dump.map hAlike _
  | check => exact covert_of_twins blind_check.map hAlike _
  | read g key =>
      cases hKey : r.secrets.isSecretKey key with
      | true =>
          refine covert_of_discard (hDiscard (blind_read_discard _ g hKey)) hAlike fun _ => ?_
          simp [Operation.shown, hKey]
      | false => exact covert_of_twins (blind_read g hKey).map hAlike _
  | getSecret g key =>
      cases hKey : r.secrets.isSecretKey key with
      | true =>
          refine covert_of_discard (hDiscard (blind_getSecret_discard _ g key)) hAlike fun _ => ?_
          simp [Operation.shown, hKey]
      | false => exact covert_of_twins (blind_getSecret g hKey).map hAlike _
  | getParam g name kind =>
      cases hName : r.secrets.isSecret name with
      | true =>
          have hKey : r.secrets.isSecretKey (paramKey name) = true := by simpa using hName
          have hRead := (blind_read_discard () g hKey).parallel_of_map
          refine ⟨by simp [Operation.shown, hName], ?_⟩
          exact hRead.bind_ofExcept.map s s' hAlike
      | false =>
          have hKey : r.secrets.isSecretKey (paramKey name) = false := by simpa using hName
          exact covert_of_twins ((blind_read g hKey).bind fun _ => .ofExcept _).map hAlike _

/-! ## One use -/

/-- Texts given on the command line are values as they are. -/
theorem forall₂_string {hides : String → Prop} {params params' : List (String × String)}
    (h : List.Forall₂ (SortedMap.Agree hides) params params') :
    List.Forall₂ (SortedMap.Agree hides) (params.map fun p => (p.1, Value.string p.2))
      (params'.map fun p => (p.1, Value.string p.2)) := by
  rw [List.forall₂_map_left_iff, List.forall₂_map_right_iff]
  exact h.imp fun _ _ hEntry => ⟨hEntry.1, fun hShown => congrArg Value.string (hEntry.2 hShown)⟩

theorem twins_createCommand (path manager protocol : String)
    {params params' : List (String × String)}
    (h : List.Forall₂ (SortedMap.Agree (r.secrets.isSecret · = true)) params params') :
    r.Twins (Command.run r path (.create manager protocol params))
      (Command.run r path (.create manager protocol params')) :=
  (twins_create manager protocol (.ofList (forall₂_string h))).bind fun _ => .pure _

theorem twins_setCommand (path group : String) {key value value' : String}
    (h : value = value' ∨ r.secrets.isSecretKey key = true) :
    r.Twins (Command.run r path (.set group key value))
      (Command.run r path (.set group key value')) :=
  (Matches.ofExcept _).bind fun g =>
    (twins_setProperty g (h.imp_left (congrArg Value.string))).bind fun _ => .pure _

theorem blind_command (path : String) {c : Command}
    (hPlain : ∀ group key, c = .get group key → r.secrets.isSecretKey key = false) :
    r.Blind (c.run r path) := by
  cases c with
  | list => exact blind_list.bind fun _ => .pure _
  | create manager protocol params =>
      exact twins_createCommand path manager protocol (SortedMap.forall₂_agree_refl params)
  | set group key value => exact twins_setCommand path group (.inl rfl)
  | get group key => exact (Matches.ofExcept _).bind fun g => blind_read g (hPlain group key rfl)
  | remove group =>
      exact (Matches.ofExcept _).bind fun g => (blind_remove_account g).bind fun _ => .pure _
  | dump json => exact blind_dump.bind fun _ => .pure _
  | health => exact blind_check.bind fun _ => .pure _
  | configInit => exact .pure _
  | version => exact .pure _

theorem takeOver_eq {α : Type} {P : String → Prop} (hIntact : s.1.Intact P) (a : Action α) :
    takeOver a s = a.run.run host ({ s.1 with events := [] }, s.2) := by
  rw [takeOver, start_of_intact hIntact]

/-- A use breaks the account file as little as an operation does. -/
theorem intact_of_perform (hIntact : s.1.Intact KeyFile.IsWritable) (use : Use) :
    (use.perform r s).2.1.Intact KeyFile.IsWritable := by
  have hOperation : ∀ op : Operation, Respects KeyFile.IsWritable (op.action r) :=
    respects_action (fun _ h => h) fun _ h => KeyFile.isWritable_of_isKey h.1
  have hOpen : Respects KeyFile.IsWritable r.openUp := (closed_writable r).openUp
  have hRestart : Process.Intact KeyFile.IsWritable { s.1 with events := [] } :=
    ⟨hIntact.load_file, hIntact.allKeys⟩
  cases use with
  | operation op => exact (hOperation op s hIntact).last
  | opening =>
      rw [Use.perform, takeOver_eq hIntact]
      exact (hOpen.map (_, s.2) hRestart).last
  | invocation path c =>
      have hCommand : Respects KeyFile.IsWritable (c.run r path) := by
        rw [Command.run_eq]
        refine (Preserves.ofExcept _).bind fun op? => ?_
        cases op? with
        | some op => exact (hOperation op).map
        | none => exact Preserves.pure _
      rw [Use.perform]
      split_ifs
      · rw [takeOver_eq hIntact]
        exact (hOpen.bind (fun _ => hCommand.map) (_, s.2) hRestart).last
      · exact hIntact

/-- The new processes do the same if the actions do. -/
theorem covert_takeOver {a a' : Action Reply} (hIntact : s.1.Intact KeyFile.IsWritable)
    (hIntact' : s'.1.Intact KeyFile.IsWritable) (hAlike : r.Alike s s')
    {view : Except Error Reply → Option (Except Error Reply)}
    (h : ∀ t t', r.Alike t t' → r.Covert view (a.run.run host t) (a'.run.run host t')) :
    r.Covert view (takeOver a s) (takeOver a' s') := by
  rw [takeOver_eq hIntact, takeOver_eq hIntact']
  exact h _ _ ⟨hAlike.1.restart, hAlike.2⟩

theorem covert_invocation {c c' : Command} {path : String} (hAlike : r.Alike s s')
    (h : r.Twins (c.run r path) (c'.run r path))
    (view : Except Error Reply → Option (Except Error Reply)) :
    r.Covert view ((r.openUp >>= fun _ => Reply.text <$> c.run r path).run.run host s)
      ((r.openUp >>= fun _ => Reply.text <$> c'.run r path).run.run host s') :=
  covert_of_twins (blind_openUp.bind fun _ => h.map) hAlike view

/-- One use, carried out in each of two processes that are alike. -/
theorem covert_perform_same (hIntact : s.1.Intact KeyFile.IsWritable)
    (hIntact' : s'.1.Intact KeyFile.IsWritable) (hAlike : r.Alike s s') (use : Use) :
    r.Covert (use.shown r.secrets) (use.perform r s) (use.perform r s') := by
  cases use with
  | operation op => exact covert_operation hAlike op
  | opening =>
      exact covert_takeOver hIntact hIntact' hAlike fun t t' hAlike =>
        covert_of_twins blind_openUp.map hAlike _
  | invocation path c =>
      rw [Use.perform, Use.perform]
      split_ifs
      · refine covert_takeOver hIntact hIntact' hAlike fun t t' hAlike => ?_
        by_cases hPlain : ∀ group key, c = .get group key → r.secrets.isSecretKey key = false
        · exact covert_invocation hAlike (blind_command path hPlain) _
        · -- The command shows a secret.
          push Not at hPlain
          obtain ⟨group, key, rfl, hKey⟩ := hPlain
          refine covert_of_discard ?_ hAlike fun answer => ?_
          · rw [map_bind]
            refine blind_openUp.bind fun _ => ?_
            rw [Functor.map_map, Command.run, map_bind]
            exact (Matches.ofExcept _).bind fun g => blind_read_discard _ g (by simpa using hKey)
          · simp [Use.shown, hKey]
      · exact ⟨rfl, hAlike⟩

/-- The values given to secrets may differ. -/
theorem covert_perform (hIntact : s.1.Intact KeyFile.IsWritable)
    (hIntact' : s'.1.Intact KeyFile.IsWritable) (hAlike : r.Alike s s') {use use' : Use}
    (h : use.Alike r.secrets use') :
    r.Covert (use.shown r.secrets) (use.perform r s) (use'.perform r s') := by
  cases h with
  | refl => exact covert_perform_same hIntact hIntact' hAlike use
  | create manager protocol hParams =>
      exact covert_of_twins (twins_create manager protocol hParams).map hAlike _
  | setProperty g hKey value value' =>
      exact covert_of_twins (twins_setProperty g (.inr hKey)).map hAlike _
  | createCommand path manager protocol hParams =>
      exact covert_takeOver hIntact hIntact' hAlike fun t t' hAlike =>
        covert_invocation hAlike (twins_createCommand path manager protocol hParams) _
  | setCommand path group hKey value value' =>
      exact covert_takeOver hIntact hIntact' hAlike fun t t' hAlike =>
        covert_invocation hAlike (twins_setCommand path group (.inr hKey)) _

theorem shown_eq_of_alike {use use' : Use} {secrets : SecretNames} (h : use.Alike secrets use') :
    use.shown secrets = use'.shown secrets := by
  cases h <;> rfl

/-! ## All uses -/

theorem trace_public_eq {uses uses' : List Use}
    (hUses : List.Forall₂ (Use.Alike r.secrets) uses uses')
    (hIntact : s.1.Intact KeyFile.IsWritable) (hIntact' : s'.1.Intact KeyFile.IsWritable)
    (hAlike : r.Alike s s') :
    (r.trace uses s).map (Stage.public r) = (r.trace uses' s').map (Stage.public r) := by
  induction hUses generalizing s s' with
  | nil => rfl
  | @cons use use' rest rest' hUse _ ih =>
      obtain ⟨hShown, hAlike'⟩ := covert_perform hIntact hIntact' hAlike hUse
      have hHead : Stage.public r ⟨use, (use.perform r s).1, (use.perform r s).2.1⟩ =
          Stage.public r ⟨use', (use'.perform r s').1, (use'.perform r s').2.1⟩ := by
        refine Prod.ext ?_ (publicView_eq_of_alike hAlike'.1)
        exact hShown.trans (congrFun (shown_eq_of_alike hUse) _)
      have hTail := ih (intact_of_perform hIntact use) (intact_of_perform hIntact' use') hAlike'
      exact congrArg₂ List.cons hHead hTail

/-- What can be seen does not depend on the values of secrets. Two runs from one process that do the
same, but give other values to secrets, show the same step by step, if the same saves and calls
fail: the same groups are named, the same operations fail for the same reasons, the same accounts
are listed, shown and dumped, the same notices are given, and the account file is the same unless
that is where the secrets are kept. -/
theorem secrets_unseen (hArises : p.Arises) (faults : Faults) {uses uses' : List Use}
    (hUses : List.Forall₂ (Use.Alike r.secrets) uses uses') :
    (r.trace uses (p, faults)).map (Stage.public r) =
      (r.trace uses' (p, faults)).map (Stage.public r) :=
  trace_public_eq hUses hArises.intact hArises.intact ⟨.refl p, rfl⟩

/-- An account is created with a password, after a first attempt that fails, and the password is
read and changed. -/
def passwordUses (password next : String) : List Use :=
  let params := SortedMap.ofList [("password", Value.string password)]
  let creation := Use.operation (.create "keeper" "health" params)
  [creation, creation, .opening, .operation (.read accountGroup (paramKey "password")),
    .invocation "accounts.cfg" (.set "keeper/health/account0" (paramKey "password") next)]

/-- The passwords are not the same, and nothing of that is seen. -/
theorem secrets_unseen_of_passwords :
    ∃ p : Process, p.Arises ∧
      List.Forall₂ (Use.Alike ringRegistry.secrets) (passwordUses "old" "new")
        (passwordUses "other" "next") ∧
      (ringRegistry.trace (passwordUses "old" "new") (p, ⟨[], [.fails .timedOut]⟩)).map
          (fun x => (x.answer.isOk, x.process.vault.toList.map Prod.snd)) =
        [(false, []), (true, ["old"]), (true, ["old"]), (true, ["old"]), (true, ["new"])] ∧
      (ringRegistry.trace (passwordUses "other" "next") (p, ⟨[], [.fails .timedOut]⟩)).map
          (fun x => (x.answer.isOk, x.process.vault.toList.map Prod.snd)) =
        [(false, []), (true, ["other"]), (true, ["other"]), (true, ["other"]), (true, ["next"])] ∧
      (ringRegistry.trace (passwordUses "old" "new") (p, ⟨[], [.fails .timedOut]⟩)).map
          (Stage.public ringRegistry) =
        (ringRegistry.trace (passwordUses "other" "next") (p, ⟨[], [.fails .timedOut]⟩)).map
          (Stage.public ringRegistry) := by
  let p : Process := { Storage.unused with book := ∅, events := [] }
  have hArises : p.Arises := ⟨Storage.unused, p, rfl, .refl⟩
  have hSecret : ringRegistry.secrets.isSecretKey (paramKey "password") = true := by decide
  have hParams : (SortedMap.ofList [("password", Value.string "old")]).Alike
      (ringRegistry.secrets.isSecret · = true)
      (SortedMap.ofList [("password", Value.string "other")]) :=
    .ofList (.cons ⟨rfl, fun hShown => absurd (by decide) hShown⟩ .nil)
  have hUses : List.Forall₂ (Use.Alike ringRegistry.secrets) (passwordUses "old" "new")
      (passwordUses "other" "next") :=
    .cons (.create _ _ hParams) (.cons (.create _ _ hParams) (.cons (.refl _) (.cons (.refl _)
      (.cons (.setCommand _ _ hSecret _ _) .nil))))
  exact ⟨p, hArises, hUses, by decide +kernel, by decide +kernel,
    secrets_unseen hArises ⟨[], [.fails .timedOut]⟩ hUses⟩

end Registry
end Accounts
