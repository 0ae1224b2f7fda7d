import Accounts.Proofs.Registry.History
import Accounts.Proofs.Registry.Reopening

/-! Secrets on their way from the account file to a service. An opening moves them one by one and may
be cut off between any two effects. A secret stays in the file until it is in the service, so no
opening loses one, and the next opening goes on where the last one ended. -/
namespace Accounts

namespace Process
open Accounts.Action

variable {r : Registry} {ring : Keyring} {g h : GroupName} {p q x : Process}
  {s : Process × Faults} {key value : String} {e : Entry}

/-- The value of a group under a key while secrets move: that in the book, or else the one that has
arrived in the service. -/
def kept? (r : Registry) (p : Process) (g : GroupName) (key : String) : Option String :=
  (p.book.value? g key).or ((r.slot g key).bind (SortedMap.get? p.vault))

theorem kept?_of_slot_eq_none (h : r.slot g key = none) (p : Process) :
    p.kept? r g key = p.book.value? g key := by
  rw [kept?, h]
  exact Option.or_none

theorem kept?_of_slot_eq_some (h : r.slot g key = some e) (p : Process) :
    p.kept? r g key = (p.book.value? g key).or (SortedMap.get? p.vault e) := by
  rw [kept?, h]
  rfl

/-- Where the book has nothing that belongs into the service, a value is where it should be. -/
theorem kept?_eq_value? (hAllowed : p.book.AllKeys r.Allows) (g : GroupName) (key : String) :
    p.kept? r g key = p.value? r g key := by
  cases hPlace : r.slot g key with
  | none => rw [kept?_of_slot_eq_none hPlace, value?_of_slot_eq_none hPlace]
  | some e =>
      rw [kept?_of_slot_eq_some hPlace, value?_of_slot_eq_some hPlace,
        book_value?_eq_none hAllowed hPlace, Option.none_or]

/-- Both places together hold the same for the group. -/
structure SameIn (r : Registry) (g : GroupName) (p q : Process) : Prop where
  blank : q.book.IsBlank g ↔ p.book.IsBlank g
  kept : ∀ key, q.kept? r g key = p.kept? r g key

namespace SameIn

theorem refl : SameIn r g p p := ⟨Iff.rfl, fun _ => rfl⟩

theorem trans (hFirst : SameIn r g p q) (hSecond : SameIn r g q x) : SameIn r g p x :=
  ⟨hSecond.blank.trans hFirst.blank, fun key => (hSecond.kept key).trans (hFirst.kept key)⟩

/-- A key that is not secret has its value in the book. -/
theorem value? (hSame : SameIn r g p q) (hPlain : r.secrets.isSecretKey key = false) :
    q.book.value? g key = p.book.value? g key := by
  have hPlace := Registry.slot_of_not_secret hPlain g
  rw [← kept?_of_slot_eq_none hPlace, hSame.kept, kept?_of_slot_eq_none hPlace]

theorem isPending (hSame : SameIn r g p q) : q.book.isPending g = p.book.isPending g := by
  rw [Book.isPending_eq_isSome, Book.isPending_eq_isSome,
    hSame.value? r.secrets.isSecretKey_pendingKey]

end SameIn

/-- What becomes of one group is nothing to another. -/
theorem Untouched.sameIn (h : Untouched r g p q) : SameIn r g p q := by
  refine ⟨by rw [Book.IsBlank, Book.IsBlank, h.book], fun key => ?_⟩
  have hValue : q.book.value? g key = p.book.value? g key := by
    rw [Book.value?, Book.value?, h.book]
  cases hPlace : r.slot g key with
  | none => rw [kept?_of_slot_eq_none hPlace, kept?_of_slot_eq_none hPlace, hValue]
  | some e =>
      rw [kept?_of_slot_eq_some hPlace, kept?_of_slot_eq_some hPlace, hValue,
        h.vault e (Registry.mem_entries_of_slot hPlace)]

/-! ## Moving secrets -/

/-- Some secrets of the book are in the service, and some of those are no longer in the book. -/
structure Moving (r : Registry) (p q : Process) : Prop where
  sameIn : ∀ g, SameIn r g p q
  book : ∀ g key value, q.book.value? g key = some value → p.book.value? g key = some value

namespace Moving

theorem refl : Moving r p p := ⟨fun _ => SameIn.refl, fun _ _ _ => id⟩

/-- A secret of the book may be put into the service. -/
theorem put (hMoving : Moving r p q) (hPlace : r.slot g key = some e)
    (hValue : p.book.value? g key = some value) :
    Moving r p (q.withVault (q.vault.put e value)) := by
  refine ⟨fun g' => ⟨(hMoving.sameIn g').blank, fun key' => ?_⟩, hMoving.book⟩
  rw [← (hMoving.sameIn g').kept]
  cases hPlace' : r.slot g' key' with
  | none => rw [kept?_of_slot_eq_none hPlace', kept?_of_slot_eq_none hPlace', withVault_book]
  | some e' =>
      by_cases hEntry : e = e'
      · subst hEntry
        obtain ⟨rfl, rfl⟩ := Registry.slot_inj hPlace hPlace'
        have hKept : p.kept? r g key = some value := by
          rw [kept?_of_slot_eq_some hPlace, hValue]
          rfl
        rw [(hMoving.sameIn g).kept, hKept, kept?_of_slot_eq_some hPlace, withVault_vault,
          withVault_book, Vault.put, SortedMap.get?_insert_self]
        cases hLeft : q.book.value? g key with
        | none => rfl
        | some value' =>
            have hSame := hMoving.book g key value' hLeft
            rw [hValue] at hSame
            exact hSame.symm
      · rw [kept?_of_slot_eq_some hPlace', kept?_of_slot_eq_some hPlace', withVault_vault,
          withVault_book, Vault.put, SortedMap.get?_insert, if_neg hEntry]

/-- A secret that has arrived in the service may go from the book. -/
theorem eraseKey (hMoving : Moving r p q) (hPlace : r.slot g key = some e)
    (hValue : p.book.value? g key = some value) (hArrived : SortedMap.get? q.vault e = some value)
    (hThere : (q.book.value? g key).isSome = true) :
    Moving r p (q.save (q.book.eraseKey g key)) := by
  obtain ⟨left, hLeft⟩ := Option.isSome_iff_exists.mp hThere
  refine ⟨fun g' => ⟨?_, fun key' => ?_⟩, fun g' key' value' hLeft' => ?_⟩
  · rw [save_book, Book.isBlank_eraseKey hLeft]
    exact (hMoving.sameIn g').blank
  · by_cases hSame : g = g' ∧ key = key'
    · obtain ⟨rfl, rfl⟩ := hSame
      rw [kept?_of_slot_eq_some hPlace, kept?_of_slot_eq_some hPlace, save_book, save_vault,
        Book.value?_eraseKey, if_pos ⟨rfl, rfl⟩, hArrived, hValue]
      rfl
    · rw [← (hMoving.sameIn g').kept, kept?, kept?, save_book, save_vault, Book.value?_eraseKey,
        if_neg hSame]
  · exact hMoving.book g' key' value' (Book.value?_of_eraseKey hLeft').1

end Moving

end Process

namespace Registry
open Process Accounts.Action

variable {r : Registry} {ring : Keyring} {g h : GroupName} {p q x : Process}
  {s : Process × Faults} {key value : String}

theorem keeps_moving_moveSecret (hBackend : r.backend = .keyring ring)
    (hSecret : r.secrets.isSecretKey key = true) (hValue : p.book.value? g key = some value)
    (hMoving : Moving r p s.1) :
    Keeps host (fun s' => Moving r p s'.1) (r.moveSecret g key value) s fun _ _ => True := by
  have hPlace := slot_of_keyring hBackend hSecret g
  have hArrives := hMoving.put hPlace hValue
  rw [moveSecret, hBackend]
  refine Keeps.bind ((atomic_put ring g key value s).keeps hMoving fun _ q hT => ?_)
    (fun _ s' hMoving' hT => ?_) fun _ _ _ _ => trivial
  · rcases hT with ⟨_, rfl⟩ | ⟨_, rfl | rfl⟩
    · exact hArrives
    · exact hMoving
    · exact hArrives
  · have hArrived : SortedMap.get? s'.1.vault (ring.entry g key) = some value := by
      rcases hT with ⟨_, hPut⟩ | ⟨⟨e, hError⟩, _⟩
      · rw [hPut, withVault_vault, Vault.put, SortedMap.get?_insert_self]
      · contradiction
    refine ((atomic_delete g key s').keeps hMoving' fun _ q hT' => ?_).mono fun _ _ _ _ => trivial
    rcases hT' with ⟨_, rfl⟩ | ⟨_, rfl⟩
    · split_ifs with hThere
      · exact hMoving'.eraseKey hPlace hValue hArrived hThere
      · exact hMoving'
    · exact hMoving'

/-- Wherever a migration is cut off, every secret is in one of the two places. -/
theorem keeps_moving_migrate (r : Registry) (s : Process × Faults) :
    Keeps host (fun s' => Moving r s.1 s'.1) r.migrate s fun _ _ => True := by
  cases hBackend : r.backend with
  | inline =>
      rw [migrate_inline (by rw [hBackend]; rfl)]
      exact Keeps.pure Moving.refl trivial
  | keyring ring =>
      rw [migrate_eq (by rw [hBackend]; rfl)]
      apply keeps_book
      refine Preserves.forM (fun e he => ?_) s Moving.refl
      obtain ⟨hSecret, hValue⟩ := value?_of_mem_inlineSecrets he
      exact fun s' hMoving => keeps_moving_moveSecret hBackend hSecret hValue hMoving

/-! ## Openings -/

/-- Cleaning up is nothing to a group that is not pending. -/
theorem keeps_sameIn_cleanUp (hUnmarked : s.1.book.isPending g = false) :
    Keeps host (fun s' => SameIn r g s.1 s'.1) r.cleanUp s fun _ _ => True := by
  apply keeps_book
  refine Preserves.forM (fun h hMem => ?_) s SameIn.refl
  have hNe : h ≠ g := by
    rintro rfl
    rw [Book.mem_pendingGroups, hUnmarked] at hMem
    contradiction
  have hClosed : r.ClosedAt h (SameIn r g s.1) :=
    closedAt_of_sameOff fun _ _ hSame hIn => hIn.trans (hSame.untouched hNe).sameIn
  exact hClosed.abandon

theorem keeps_sameIn_openUp (hUnmarked : s.1.book.isPending g = false) :
    Keeps host (fun s' => SameIn r g s.1 s'.1) r.openUp s fun _ _ => True := by
  have hMigrate := (keeps_moving_migrate r s).imp fun _ hMoving => hMoving.sameIn g
  refine hMigrate.bind (fun _ s' hSame _ => ?_) fun _ _ _ _ => trivial
  exact (keeps_sameIn_cleanUp (by rw [hSame.isPending, hUnmarked])).imp fun _ hRest =>
    hSame.trans hRest

/-- What openings may make of a process, however many there were and however far they got. -/
structure Opening (r : Registry) (p q : Process) : Prop where
  withheld : ∀ g, p.Marked g → q.Withheld r g
  sameIn : ∀ g, p.book.isPending g = false → SameIn r g p q
  elsewhere : ∀ e, (∀ g, e ∉ r.entries g) → SortedMap.get? q.vault e = SortedMap.get? p.vault e

theorem closed_elsewhere (r : Registry) (p : Process) :
    r.Closed fun q => ∀ e, (∀ g, e ∉ r.entries g) →
      SortedMap.get? q.vault e = SortedMap.get? p.vault e := by
  intro q q' hChange hSame e hOwner
  rw [← hSame e hOwner]
  cases hChange with
  | write | eraseKey | erase | notify => rfl
  | put g e' hEntry value =>
      have hNe : e' ≠ e := fun hEq => hOwner g (hEq ▸ hEntry)
      rw [withVault_vault, Vault.put, SortedMap.get?_insert, if_neg hNe]
  | remove g e' hEntry =>
      have hNe : e' ≠ e := fun hEq => hOwner g (hEq ▸ hEntry)
      rw [withVault_vault, SortedMap.get?_erase, if_neg hNe]

theorem keeps_opening (r : Registry) (s : Process × Faults) :
    Keeps host (fun s' => Opening r s.1 s'.1) r.openUp s fun _ _ => True := by
  refine ⟨fun s' hCut => ⟨fun g hMark => ?_, fun g hUnmarked => ?_, ?_⟩, trivial⟩
  · exact (keeps_withheld_openUp r hMark).1 s' hCut
  · exact (keeps_sameIn_openUp hUnmarked).1 s' hCut
  · exact ((closed_elsewhere r s.1).openUp s fun _ _ => rfl).1 s' hCut

theorem slot_of_mem_entries {e : Entry} (he : e ∈ r.entries g) : ∃ key, r.slot g key = some e := by
  cases hBackend : r.backend with
  | inline => simp [entries_of_inline hBackend] at he
  | keyring ring =>
      obtain ⟨key, hSecret, rfl⟩ := (mem_entries hBackend).mp he
      exact ⟨key, slot_of_keyring hBackend hSecret g⟩

/-- Where nothing is left of a group, nothing of it comes back. -/
theorem Gone.of_sameIn (hSame : SameIn r g p q) (hGone : p.Gone r g) : q.Gone r g := by
  have hBook := Book.value?_eq_none_of_not_contains hGone.group
  have hKept : ∀ key, q.kept? r g key = none := by
    intro key
    rw [hSame.kept]
    cases hPlace : r.slot g key with
    | none => rw [kept?_of_slot_eq_none hPlace, hBook]
    | some e =>
        rw [kept?_of_slot_eq_some hPlace, hBook, hGone.secrets e (mem_entries_of_slot hPlace)]
        rfl
  refine ⟨Bool.eq_false_iff.mpr fun hThere => ?_, fun e he => ?_⟩
  · rcases Book.contains_iff.mp hThere with hBlank | ⟨key, value, hValue⟩
    · have hBefore := Book.contains_iff.mpr (Or.inl (hSame.blank.mp hBlank))
      rw [hGone.group] at hBefore
      contradiction
    · have hNone := hKept key
      rw [kept?, hValue] at hNone
      contradiction
  · obtain ⟨key, hPlace⟩ := slot_of_mem_entries he
    have hNone := hKept key
    rw [kept?_of_slot_eq_some hPlace, Option.or_eq_none_iff] at hNone
    exact hNone.2

namespace Opening

theorem refl : Opening r p p :=
  ⟨fun _ hMark => Or.inl hMark, fun _ _ => SameIn.refl, fun _ _ => rfl⟩

theorem trans (hFirst : Opening r p q) (hSecond : Opening r q x) : Opening r p x := by
  refine ⟨fun g hMark => ?_, fun g hUnmarked => ?_, fun e hOwner => ?_⟩
  · rcases hFirst.withheld g hMark with hMark' | hGone
    · exact hSecond.withheld g hMark'
    · have hUnmarked : q.book.isPending g = false := by
        rw [Book.isPending_eq_isSome, Book.value?_eq_none_of_not_contains hGone.group]
        rfl
      exact Or.inr (Gone.of_sameIn (hSecond.sameIn g hUnmarked) hGone)
  · have hSame := hFirst.sameIn g hUnmarked
    exact hSame.trans (hSecond.sameIn g (by rw [hSame.isPending, hUnmarked]))
  · rw [hSecond.elsewhere e hOwner, hFirst.elsewhere e hOwner]

/-- At the end of an opening, nothing is left of a group that was pending. -/
theorem gone (hOpening : Opening r p q) (hDone : q.book.pendingGroups = []) (hMark : p.Marked g) :
    q.Gone r g := by
  refine (hOpening.withheld g hMark).resolve_left fun hLeft => ?_
  rw [Marked, Book.pendingGroups_eq_nil_iff.mp hDone g] at hLeft
  contradiction

/-- At the end of an opening, the book has the value of every key that is not secret. -/
theorem value?_eq (hOpening : Opening r p q) (hAllowed : q.book.AllKeys r.Allows)
    (hUnmarked : p.book.isPending g = false) (key : String) :
    q.book.value? g key = if (r.slot g key).isSome then none else p.book.value? g key := by
  cases hPlace : r.slot g key with
  | none =>
      have hKept := (hOpening.sameIn g hUnmarked).kept key
      rwa [kept?_of_slot_eq_none hPlace, kept?_of_slot_eq_none hPlace] at hKept
  | some e => exact book_value?_eq_none hAllowed hPlace

/-- At the end of an opening, the service has every secret. -/
theorem get?_vault_eq (hOpening : Opening r p q) (hAllowed : q.book.AllKeys r.Allows)
    (hUnmarked : p.book.isPending g = false) {e : Entry} (hPlace : r.slot g key = some e) :
    SortedMap.get? q.vault e = p.kept? r g key := by
  rw [← (hOpening.sameIn g hUnmarked).kept, kept?_of_slot_eq_some hPlace,
    book_value?_eq_none hAllowed hPlace]
  rfl

/-- How an opening ends depends only on where openings began. -/
theorem unique (hOpening : Opening r p q) (hOpening' : Opening r p x)
    (hDone : q.book.pendingGroups = []) (hDone' : x.book.pendingGroups = [])
    (hAllowed : q.book.AllKeys r.Allows) (hAllowed' : x.book.AllKeys r.Allows) :
    x.book = q.book ∧ x.vault = q.vault := by
  constructor
  · apply Book.ext_value?
    · intro g
      cases hMark : p.book.isPending g with
      | false => exact (hOpening'.sameIn g hMark).blank.trans (hOpening.sameIn g hMark).blank.symm
      | true =>
          have hNone : ∀ {y : Process}, y.Gone r g → ¬y.book.IsBlank g := by
            intro y hGone hBlank
            have hThere := Book.contains_iff.mpr (Or.inl hBlank)
            rw [hGone.group] at hThere
            contradiction
          exact iff_of_false (hNone (hOpening'.gone hDone' hMark)) (hNone (hOpening.gone hDone hMark))
    · intro g key
      cases hMark : p.book.isPending g with
      | false => rw [hOpening'.value?_eq hAllowed' hMark, hOpening.value?_eq hAllowed hMark]
      | true =>
          rw [Book.value?_eq_none_of_not_contains (hOpening'.gone hDone' hMark).group,
            Book.value?_eq_none_of_not_contains (hOpening.gone hDone hMark).group]
  · apply SortedMap.ext_get?
    intro e
    by_cases hOwner : ∃ g, e ∈ r.entries g
    · obtain ⟨g, he⟩ := hOwner
      cases hMark : p.book.isPending g with
      | false =>
          obtain ⟨key, hPlace⟩ := slot_of_mem_entries he
          rw [hOpening'.get?_vault_eq hAllowed' hMark hPlace,
            hOpening.get?_vault_eq hAllowed hMark hPlace]
      | true =>
          rw [(hOpening'.gone hDone' hMark).secrets e he, (hOpening.gone hDone hMark).secrets e he]
    · have hNobody : ∀ g, e ∉ r.entries g := fun g he => hOwner ⟨g, he⟩
      rw [hOpening'.elsewhere e hNobody, hOpening.elsewhere e hNobody]

end Opening

/-- Opening a registry with nothing in the way works. -/
theorem launch_eq_ok (hBackend : r.backend = .keyring ring) {d : Storage} {p : Process}
    (hStart : d.start = .ok p) :
    ∃ q, r.launch d = .ok q ∧ Opening r p q ∧ q.book.pendingGroups = [] ∧ q.Intact r.Allows := by
  have hClean : r.openUp.calm p = r.cleanUp.calm ((r.inlineSecrets p.book).foldl (move ring) p) := by
    rw [openUp, calm_bind_ok (calm_migrate hBackend p)]
  have hOk : (r.openUp.calm p).1 = .ok () := by rw [hClean, calm_cleanUp]
  have hOpen : r.openUp.calm p = (.ok (), (r.openUp.calm p).2) := Prod.ext hOk rfl
  refine ⟨(r.openUp.calm p).2, ?_, (keeps_opening r (p, .none)).last, ?_, ?_⟩
  · rw [launch, hStart]
    dsimp only
    rw [hOpen]
  · rw [hClean]
    exact pendingGroups_calm_cleanUp _
  · exact intact_of_openUp (s := (p, .none)) (intact_of_start hStart) hOk

/-- What openings leave that were cut off. -/
theorem start_of_leavesOpening {d d' : Storage} {p : Process} (hStart : d.start = .ok p)
    (hOpens : Relation.ReflTransGen (Storage.LeavesOpening r) d d') :
    ∃ q, d'.start = .ok q ∧ Opening r p q := by
  refine Storage.start_of_chain (fun d d' q hStart hOpening hLeaves => ?_) ⟨p, hStart, Opening.refl⟩
    hOpens
  obtain ⟨q', faults, s, hStart', hCut, rfl⟩ := hLeaves
  rw [hStart] at hStart'
  obtain rfl := Except.ok.inj hStart'
  have hNext := hOpening.trans ((keeps_opening r (q, faults)).1 s hCut)
  have hIntact := ((closed_writable r).openUp (q, faults) (intact_of_start hStart)).1 s hCut
  refine ⟨_, start_of_intact hIntact, fun g hMark => ?_, fun g hUnmarked => ?_, hNext.elsewhere⟩
  · exact (hNext.withheld g hMark).imp id fun hGone => ⟨hGone.group, hGone.secrets⟩
  · exact ⟨(hNext.sameIn g hUnmarked).blank, (hNext.sameIn g hUnmarked).kept⟩

/-- Openings may be cut off anywhere, and anything may fail during them. Every attribute of a group
that was not pending is still in the file, or it is secret and in the service under its group and
its key. The next opening that nothing disturbs ends with the book and the secrets with which an
opening would have ended that nothing had disturbed from the start. -/
theorem secrets_survive_openings (hBackend : r.backend = .keyring ring) {d d' : Storage}
    {book : Book} (hFile : AccountFile.load d.file = .ok book)
    (hOpens : Relation.ReflTransGen (Storage.LeavesOpening r) d d') :
    ∃ book', AccountFile.load d'.file = .ok book' ∧
      (∀ g key value, book.isPending g = false → book.value? g key = some value →
        book'.value? g key = some value ∨
          (r.secrets.isSecretKey key = true ∧
            SortedMap.get? d'.vault (ring.entry g key) = some value)) ∧
      ∃ q q', r.launch d = .ok q ∧ r.launch d' = .ok q' ∧
        AccountFile.load q.file = .ok q.book ∧ AccountFile.load q'.file = .ok q'.book ∧
        q'.book = q.book ∧ q'.vault = q.vault := by
  have hStart := start_of_load hFile
  obtain ⟨p', hStart', hOpening⟩ := start_of_leavesOpening hStart hOpens
  obtain ⟨q, hLaunch, hEnd, hDone, hIntact⟩ := launch_eq_ok hBackend hStart
  obtain ⟨q', hLaunch', hEnd', hDone', hIntact'⟩ := launch_eq_ok hBackend hStart'
  have hSame := hEnd.unique (hOpening.trans hEnd') hDone hDone' hIntact.allKeys hIntact'.allKeys
  obtain rfl := toStorage_of_start hStart'
  refine ⟨p'.book, (intact_of_start hStart').load_file, fun g key value hUnmarked hValue => ?_, q, q',
    hLaunch, hLaunch', hIntact.load_file, hIntact'.load_file, hSame⟩
  have hKept : p'.kept? r g key = some value := by
    rw [(hOpening.sameIn g hUnmarked).kept, kept?, hValue]
    rfl
  cases hSecret : r.secrets.isSecretKey key with
  | false =>
      rw [kept?_of_slot_eq_none (slot_of_not_secret hSecret g)] at hKept
      exact Or.inl hKept
  | true =>
      rw [kept?_of_slot_eq_some (slot_of_keyring hBackend hSecret g), Option.or_eq_some_iff] at hKept
      exact hKept.imp_right fun hArrived => ⟨rfl, hArrived.2⟩

/-- Storage with a password in the account file. -/
def storageWithPassword : Storage := ⟨some (AccountFile.content bookWithPassword), ∅⟩

/-- A process that has just started there. -/
def processWithPassword : Process :=
  { storageWithPassword with book := bookWithPassword, events := [] }

/-- An opening is cut off when the password is in the service and still in the file. The next one
ends as if there had been none before. -/
theorem secrets_survive_openings_of_interrupted_move :
    ∃ d', Storage.LeavesOpening ringRegistry storageWithPassword d' ∧ d'.vault.size = 1 ∧
      AccountFile.load d'.file = .ok bookWithPassword ∧
      ∃ q q', ringRegistry.launch storageWithPassword = .ok q ∧ ringRegistry.launch d' = .ok q' ∧
        AccountFile.load q.file = .ok q.book ∧ AccountFile.load q'.file = .ok q'.book ∧
        q'.book = q.book ∧ q'.vault = q.vault := by
  have hFile : AccountFile.load storageWithPassword.file = .ok bookWithPassword :=
    load_bookWithPassword
  have hLength : 1 < (ringRegistry.openUp.run.cuts host (processWithPassword, .none)).length := by
    decide +kernel
  have hCut := List.getElem_mem hLength
  rw [List.getElem_eq_getD (processWithPassword, .none)] at hCut
  obtain ⟨_, _, _, hAgain⟩ := secrets_survive_openings rfl hFile
    (.single ⟨_, .none, _, start_of_load hFile, hCut, rfl⟩)
  refine ⟨_, ⟨_, .none, _, start_of_load hFile, hCut, rfl⟩, by decide +kernel, ?_, hAgain⟩
  refine Eq.trans (congrArg AccountFile.load ?_) hFile
  decide +kernel

end Registry
end Accounts
