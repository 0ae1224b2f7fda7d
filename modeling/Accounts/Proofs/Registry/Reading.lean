import Accounts.Proofs.Registry.View

/-! What it means to answer as a ledger does, and reads, which do. -/
namespace Accounts.Registry
open Process Accounts.Action

variable {r : Registry} {p : Process} {m : Book} {g : GroupName} {key : String}
variable {α β : Type}

/-- The action does what the ledger does, and the process then shows the ledger that is left. An
action that fails has done nothing. -/
def Follows (r : Registry) (p : Process) (a : Action α) : Except Error (α × Book) → Prop
  | .ok (answer, m) => ∃ q, a.calm p = (.ok answer, q) ∧ q.Shows r m ∧ Ledger.Proper m
  | .error e => a.calm p = (.error e, p)

/-- The action answers what the ledger tells, and the process then shows the ledger that is left. An
action that the ledger refuses has done nothing. -/
def Obeys (r : Registry) (p : Process) (a : Action Reply) :
    Except Error (Ledger.Answer × Book) → Prop
  | .ok (told, m) => ∃ reply q, a.calm p = (reply, q) ∧ Ledger.Tells r.secrets (.ok told) reply ∧
      q.Shows r m ∧ Ledger.Proper m
  | .error e => a.calm p = (.error e, p)

/-- What an action does that does what the ledger does is told by the ledger. -/
theorem Follows.obeys {a : Action α} {x : Except Error (α × Book)} (h : Follows r p a x)
    {f : α → Reply} {told : α → Ledger.Answer}
    (hTells : ∀ y, Ledger.Tells r.secrets (.ok (told y)) (.ok (f y))) :
    Obeys r p (f <$> a) (x.map fun y => (told y.1, y.2)) := by
  cases x with
  | ok y =>
      obtain ⟨q, hRun, hShows, hProper⟩ := h
      refine ⟨.ok (f y.1), q, ?_, hTells y.1, hShows, hProper⟩
      rw [calm_map, hRun]
      rfl
  | error e =>
      change (f <$> a).calm p = _
      rw [calm_map, show a.calm p = (.error e, p) from h]
      rfl

theorem Follows.emit {a : Action Unit} {x : Except Error (Unit × Book)} (h : Follows r p a x)
    (event : Event) : Follows r p (a >>= fun _ => Action.emit event) x := by
  cases x with
  | ok y =>
      obtain ⟨q, hRun, hShows, hProper⟩ := h
      refine ⟨q.notify event, ?_, hShows.notify event, hProper⟩
      rw [calm_bind_ok hRun]
      rfl
  | error e => exact calm_bind_error h

theorem Follows.congr {a b : Action α} {x : Except Error (α × Book)} (h : Follows r p b x)
    (hRun : a.calm p = b.calm p) : Follows r p a x := by
  cases x with
  | ok y =>
      obtain ⟨q, hRunB, hAfter⟩ := h
      exact ⟨q, hRun.trans hRunB, hAfter⟩
  | error e => exact hRun.trans h

/-- An action that only changes the ledger. -/
theorem Follows.done {a : Action Unit} {x : Except Error Book} (h : Follows r p a (x.map ((), ·))) :
    Obeys r p ((fun _ => Reply.done) <$> a) (x.map fun m' => (.done, m')) := by
  have hDone := h.obeys (f := fun _ => .done) fun _ => .done
  cases x with
  | ok m' => exact hDone
  | error e => exact hDone

/-- An action that only looks at the ledger. -/
theorem Obeys.look (h : p.Shows r m) (hProper : Ledger.Proper m) {a : Action α}
    {answer : Except Error α} (hRun : a.calm p = (answer, p)) {f : α → Reply} {x : Except Error β}
    {told : β → Ledger.Answer} (hTells : Ledger.Tells r.secrets (x.map told) (answer.map f)) :
    Obeys r p (f <$> a) (x.map fun y => (told y, m)) := by
  have hMap : (f <$> a).calm p = (answer.map f, p) := by
    rw [calm_map, hRun]
  cases x with
  | ok y => exact ⟨_, p, hMap, hTells, h, hProper⟩
  | error e =>
      generalize answer.map f = reply at hMap hTells
      cases hTells with
      | error e => exact hMap

/-! ## What is live -/

theorem isPending_eq_false (h : p.Shows r m) (hProper : Ledger.Proper m) (g : GroupName) :
    p.book.isPending g = false := by
  have hPlace := slot_of_not_secret (r := r) r.secrets.isSecretKey_pendingKey g
  rw [Book.isPending_eq_isSome, h.book_value hPlace, hProper.unmarked]
  rfl

theorem isLive_eq_contains (h : p.Shows r m) (hProper : Ledger.Proper m) (g : GroupName) :
    p.book.isLive g = m.contains g := by
  rw [← h.contains, Book.isLive_eq, isPending_eq_false h hProper g, Bool.not_false, Bool.and_true]

/-- An action for live groups goes on if the ledger has the group. -/
theorem calm_ensureLive_bind (h : p.Shows r m) (hProper : Ledger.Proper m) (g : GroupName)
    (f : Unit → Action α) :
    (ensureLive g >>= f).calm p =
      if m.contains g then (f ()).calm p else (.error (.unknownGroup g.sectionName), p) := by
  have hLive := calm_ensureLive g p
  rw [isLive_eq_contains h hProper] at hLive
  cases hThere : m.contains g with
  | true =>
      rw [hThere] at hLive
      exact calm_bind_ok hLive
  | false =>
      rw [hThere] at hLive
      exact calm_bind_error hLive

theorem liveGroups_eq_keys (h : p.Shows r m) (hProper : Ledger.Proper m) :
    p.book.liveGroups = m.keys := by
  rw [Book.liveGroups_eq, SortedMap.keys_eq_of_contains_eq h.contains, List.filter_eq_self]
  intro g hg
  obtain ⟨a, ha⟩ := SortedMap.mem_keys_iff.mp hg
  rw [isLive_eq_contains h hProper, SortedMap.contains, ha]
  rfl

theorem withoutSecrets_eq (h : p.Shows r m) (g : GroupName) :
    (p.book.attributes g).withoutSecrets r.secrets = (m.attributes g).withoutSecrets r.secrets := by
  apply SortedMap.ext_get?
  intro key
  rw [Attributes.get?_withoutSecrets, Attributes.get?_withoutSecrets]
  cases hSecret : r.secrets.isSecretKey key with
  | true => rfl
  | false =>
      rw [if_neg Bool.false_ne_true, if_neg Bool.false_ne_true, Book.get?_attributes,
        Book.get?_attributes, h.book_value (slot_of_not_secret hSecret g)]

/-! ## Reading -/

/-- A value is looked up where the registry keeps it. -/
theorem calm_lookup (p : Process) (g : GroupName) (key : String) :
    (if r.secrets.isSecretKey key then r.backend.get g key else Store.get g key).calm p =
      match p.value? r g key with
      | some text => (.ok text, p)
      | none => (.error (.notFound g.sectionName key), p) := by
  cases hSecret : r.secrets.isSecretKey key with
  | false =>
      rw [if_neg Bool.false_ne_true, value?_of_slot_eq_none (slot_of_not_secret hSecret g)]
      exact Store.calm_get key p
  | true =>
      rw [if_pos rfl]
      cases hBackend : r.backend with
      | inline =>
          rw [value?_of_slot_eq_none (slot_of_inline hBackend g key)]
          exact Store.calm_get key p
      | keyring ring =>
          rw [value?_of_slot_eq_some (slot_of_keyring hBackend hSecret g)]
          exact ring.calm_get key p

/-- A value is found where it was put. -/
theorem calm_fetch (h : p.Shows r m) (g : GroupName) (key : String) :
    (if r.secrets.isSecretKey key then r.backend.get g key else Store.get g key).calm p =
      match m.value? g key with
      | some text => (.ok text, p)
      | none => (.error (.notFound g.sectionName key), p) := by
  rw [calm_lookup, h.value]

theorem calm_read (h : p.Shows r m) (hProper : Ledger.Proper m) (g : GroupName) (key : String) :
    (r.read g key).calm p = (Ledger.read m g key, p) := by
  have hText : Ledger.text? m g key = m.value? g key := rfl
  rw [read, Ledger.read, hText, calm_ensureLive_bind h hProper]
  cases m.contains g with
  | false => rfl
  | true =>
      rw [if_pos rfl, calm_fetch h]
      cases m.value? g key with
      | some text => rfl
      | none => rfl

theorem calm_getSecret (h : p.Shows r m) (hProper : Ledger.Proper m)
    (hSecret : r.secrets.isSecretKey key = true) (g : GroupName) :
    (r.getSecret g key).calm p = (Ledger.read m g key, p) := by
  rw [← calm_read h hProper, read, hSecret]
  rfl

theorem calm_getParam (h : p.Shows r m) (hProper : Ledger.Proper m) (g : GroupName)
    (name : String) (kind : Value.Kind) :
    (r.getParam g name kind).calm p =
      ((Ledger.read m g (paramKey name)).bind (Value.decode kind), p) := by
  rw [getParam, calm_bind, calm_read h hProper]
  cases Ledger.read m g (paramKey name) with
  | ok text => rfl
  | error e => rfl

/-- What is read is told as it is. -/
theorem tells_text (secrets : SecretNames) (x : Except Error String) :
    Ledger.Tells secrets (x.map .text) (x.map Reply.text) := by
  cases x with
  | ok text => exact .text text
  | error e => exact .error e

/-- A value is shown just if the text spells it. -/
theorem tells_decode (secrets : SecretNames) (kind : Value.Kind) (x : Except Error String) :
    Ledger.Tells secrets (x.map (.typed kind ·))
      ((x.bind (Value.decode kind)).map Reply.value) := by
  cases x with
  | error e => exact .error e
  | ok text =>
      change Ledger.Tells secrets (.ok (.typed kind text))
        ((Value.decode kind text).map Reply.value)
      cases hRead : Value.decode kind text with
      | ok v =>
          obtain ⟨hKind, hText⟩ := Value.decode_eq_ok_iff.mp hRead
          exact .value hKind hText
      | error e =>
          obtain ⟨rfl, hNone⟩ := Value.decode_eq_error_iff.mp hRead
          exact .mistyped hNone

/-- An account shows what it was made of, but for secrets. -/
theorem presents_ofAttributes (g : GroupName) {a : Attributes} (secrets : SecretNames)
    (hOwned : ∀ key ∈ Ledger.ownerKeys, ∃ owner, a.get? key = some owner) :
    Ledger.Presents secrets (.ofAttributes g a secrets) a := by
  have hReflects := Account.reflects_ofAttributes g a secrets
  obtain ⟨manager, hManager⟩ := hOwned managerKey (by simp [Ledger.ownerKeys])
  obtain ⟨protocol, hProtocol⟩ := hOwned protocolKey (by simp [Ledger.ownerKeys])
  constructor
  · rw [hReflects.manager, Attributes.get?_withoutSecrets, secrets.isSecretKey_managerKey, hManager]
    rfl
  · rw [hReflects.protocol, Attributes.get?_withoutSecrets, secrets.isSecretKey_protocolKey,
      hProtocol]
    rfl
  · intro name text
    rw [hReflects.params, Attributes.get?_withoutSecrets, secrets.isSecretKey_paramKey]
    cases secrets.isSecret name with
    | true => simp
    | false => simp
  · intro key text
    rw [hReflects.properties, Attributes.get?_withoutSecrets]
    split_ifs with hProperty hSecret
    · simp [SecretNames.isSecretKey, hProperty.2.2] at hSecret
    · simp [hProperty]
    · simp [hProperty]

theorem calm_account (h : p.Shows r m) (hProper : Ledger.Proper m) (g : GroupName) :
    ∃ answer, (r.account g).calm p = (answer, p) ∧
      Ledger.Tells r.secrets ((Ledger.account m g).map (.attributes g ·))
        (answer.map Reply.account) := by
  rw [account, Ledger.account, calm_ensureLive_bind h hProper]
  have hThere := h.contains g
  cases hGroup : m.get? g with
  | none =>
      have hNone : m.contains g = false := by simp [SortedMap.contains, hGroup]
      rw [hNone]
      exact ⟨_, rfl, .error _⟩
  | some b =>
      have hSome : m.contains g = true := by simp [SortedMap.contains, hGroup]
      obtain ⟨a, ha⟩ := Option.isSome_iff_exists.mp (hThere.trans hSome)
      have hEntries : (Store.entries g).calm p = (.ok (p.book.attributes g), p) := by
        rw [Store.entries, calm_book, Book.attributes, ha]
        rfl
      have hSame : Account.ofAttributes g (p.book.attributes g) r.secrets =
          .ofAttributes g b r.secrets := by
        rw [Account.ofAttributes, withoutSecrets_eq h, Book.attributes, hGroup]
        rfl
      have hOwned : ∀ key ∈ Ledger.ownerKeys, ∃ owner, b.get? key = some owner := by
        intro key hKey
        simpa [Book.value?, hGroup] using hProper.owned g hSome key hKey
      refine ⟨.ok (.ofAttributes g b r.secrets), ?_,
        .account (Account.group_ofAttributes g b r.secrets) (presents_ofAttributes g _ hOwned)⟩
      rw [hSome, if_pos rfl, calm_bind_ok hEntries, hSame]
      rfl

theorem visible_eq (h : p.Shows r m) (hProper : Ledger.Proper m) :
    p.book.visible r.secrets = m.map fun _ a => a.withoutSecrets r.secrets := by
  apply SortedMap.ext_get?
  intro g
  have hThere := h.contains g
  have hSame := withoutSecrets_eq h g
  have hPending := isPending_eq_false h hProper g
  rw [SortedMap.contains, SortedMap.contains] at hThere
  rw [Book.attributes, Book.attributes] at hSame
  rw [Book.isPending] at hPending
  rw [Book.visible, SortedMap.get?_map, SortedMap.get?_map, SortedMap.get?_filter]
  cases hBook : p.book.get? g with
  | none =>
      rw [hBook] at hThere
      cases hLedger : m.get? g with
      | none => rfl
      | some b =>
          rw [hLedger] at hThere
          contradiction
  | some a =>
      rw [hBook] at hThere hSame hPending
      cases hLedger : m.get? g with
      | none =>
          rw [hLedger] at hThere
          contradiction
      | some b =>
          rw [hLedger] at hSame
          rw [Option.any_some] at hPending
          rw [Option.filter_some, hPending]
          exact congrArg some hSame

theorem publishes_visible (h : p.Shows r m) (hProper : Ledger.Proper m) :
    Ledger.Publishes r.secrets (p.book.visible r.secrets) m := by
  rw [visible_eq h hProper]
  refine ⟨SortedMap.keys_map _ _, fun g key text => ?_⟩
  rw [Ledger.text?, Ledger.text?, SortedMap.get?_map]
  cases m.get? g with
  | none => simp
  | some a =>
      rw [Option.map_some, Option.bind_some, Option.bind_some, Attributes.get?_withoutSecrets]
      split_ifs with hSecret
      · simp [hSecret]
      · simp [hSecret]

end Accounts.Registry
