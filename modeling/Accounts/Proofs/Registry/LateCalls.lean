import Accounts.Proofs.Registry.CleanUp
import Accounts.Proofs.Registry.Indifferent
import Accounts.Proofs.Registry.Orphans
import Accounts.Proofs.Relational

/-! Calls that outlast their limits, and what they leave behind. The keyring of a registry makes its
calls in turn, so a write that was given up has ended before a later removal is made. A registry
that is opened anew does not wait for the calls of the one before it, and a write among them may
come after everything that is done to clean up. Main statement: `nothing_left_but_loose`. -/
namespace Accounts

namespace Registry

open Process in
theorem stable_tidy_mutation {r : Registry} {ring : Keyring} {op : Operation}
    (h : op.isMutation = true) : Stable (Tidy r ring) (op.action r) := by
  have hTracked : op.IsTracked r := by
    rintro rfl
    contradiction
  intro s hTidy
  have hSound := (stable_sound_action op s hTidy.sound).1
  have hAddressed := (stable_addressed_action hTracked s hTidy.addressed).1
  exact ⟨fun s' hCut => ⟨hSound s' hCut, hAddressed s' hCut⟩, trivial⟩

open Process in
theorem stable_tidy_openUp (r : Registry) {ring : Keyring} : Stable (Tidy r ring) r.openUp := by
  intro s hTidy
  have hSound := (stable_sound_openUp r s hTidy.sound).1
  have hAddressed := ((closed_addressed r ring).openUp s hTidy.addressed).1
  exact ⟨fun s' hCut => ⟨hSound s' hCut, hAddressed s' hCut⟩, trivial⟩

end Registry

/-- Notices make no difference. -/
theorem Process.Tidy.forget {r : Registry} {ring : Keyring} {p : Process} (h : p.Tidy r ring) :
    Process.Tidy r ring { p with events := [] } :=
  ⟨⟨⟨h.sound.intact.load_file, h.sound.intact.allKeys⟩, h.sound.owned⟩, h.addressed⟩

/-- With an empty account file and an empty collection there is nothing to tidy. -/
theorem Process.tidy_of_empty {r : Registry} {ring : Keyring} {d : Storage}
    (hBackend : r.backend = .keyring ring) (hFile : AccountFile.load d.file = .ok ∅)
    (hEmpty : ∀ key, SortedMap.get? d.vault ⟨ring.collection, key⟩ = none) :
    Process.Tidy r ring { d with book := ∅, events := [] } := by
  refine ⟨⟨⟨hFile, Book.allKeys_empty⟩, fun g _ e he => ?_⟩, fun e hCollection hThere => ?_⟩
  · obtain ⟨key, _, rfl⟩ := (Registry.mem_entries hBackend).mp he
    exact hEmpty _
  · obtain ⟨collection, key⟩ := e
    obtain rfl : collection = ring.collection := hCollection
    rw [SortedMap.contains, hEmpty] at hThere
    contradiction

/-! ## Histories -/

namespace Ongoing

/-- What a process with a registry may come to, and what it was whenever the registry was opened
anew. An operation or an opening may be cut off anywhere, and calls that were given up may land at
any time. -/
inductive Lasts (r : Registry) (s : Ongoing) : List Ongoing → Ongoing → Prop
  | refl : Lasts r s [] s
  | landing {reopened : List Ongoing} {t : Ongoing} (h : Lasts r s reopened t) (l : Landing) :
      Lasts r s reopened (t.land l)
  | operation {reopened : List Ongoing} {t : Ongoing} (h : Lasts r s reopened t) {op : Operation}
      (hOp : op.isMutation = true) {schedule : Schedule} {x : Ongoing × Schedule}
      (hCut : x ∈ (op.action r).run.cuts host (t, schedule)) : Lasts r s reopened x.1
  | opening {reopened : List Ongoing} {t : Ongoing} (h : Lasts r s reopened t) {p : Process}
      (hStart : t.toStorage.start = .ok p) {schedule : Schedule} {x : Ongoing × Schedule}
      (hCut : x ∈ r.openUp.run.cuts host (t.reopen p, schedule)) : Lasts r s (reopened ++ [t]) x.1

variable {r : Registry} {ring : Keyring} {s t u : Ongoing} {reopened : List Ongoing} {q : Process}
  {n : Nat} {g : GroupName} {e : Entry}

/-- An operation that is not cut off ends where the action does of which it makes its answer. -/
theorem Lasts.finish {α : Type} (h : s.Lasts r reopened t) {op : Operation}
    (hOp : op.isMutation = true) {a : Action α} {f : α → Reply} (hAction : op.action r = f <$> a)
    (schedule : Schedule) : s.Lasts r reopened (a.run.run host (t, schedule)).2.1 := by
  have hCut := Program.run_mem_cuts host (op.action r).run (t, schedule)
  have hEnd : ((op.action r).run.run host (t, schedule)).2 = (a.run.run host (t, schedule)).2 := by
    rw [hAction, Action.run_map]
  rw [hEnd] at hCut
  exact h.operation hOp hCut

theorem Lasts.trans {later : List Ongoing} (hFirst : s.Lasts r reopened t)
    (hSecond : t.Lasts r later u) : s.Lasts r (reopened ++ later) u := by
  induction hSecond with
  | refl => simpa using hFirst
  | landing _ l ih => exact ih.landing l
  | operation _ hOp hCut ih => exact ih.operation hOp hCut
  | opening _ hStart hCut ih =>
      rw [← List.append_assoc]
      exact ih.opening hStart hCut

theorem Lasts.landAll (h : s.Lasts r reopened t) (ls : List Landing) :
    s.Lasts r reopened (ls.foldl land t) := by
  induction ls generalizing t with
  | nil => exact h
  | cons l ls ih => exact ih (h.landing l)

/-! ## Where late writes come from -/

/-- What was written late is there. -/
theorem Lasts.contains_of_loose (h : s.Lasts r reopened t)
    (hStart : s.Loose e → s.vault.contains e = true) (hLoose : t.Loose e) :
    t.vault.contains e = true := by
  induction h with
  | refl => exact hStart hLoose
  | landing _ l ih => exact (Evolves.refl.land l).contains_of_loose ih hLoose
  | operation _ hOp hCut ih => exact (Evolves.refl.cuts hCut).contains_of_loose ih hLoose
  | @opening _ t _ p hFile schedule x hCut ih =>
      have hVault : p.vault = t.vault := congrArg (·.vault) (Process.toStorage_of_start hFile)
      refine (Evolves.refl.cuts hCut).contains_of_loose (fun hBefore => ?_) hLoose
      exact (congrArg (SortedMap.contains · e) hVault).trans (ih hBefore)

/-- For an entry to go astray, a write of it has to be under way when the registry is opened
anew. -/
theorem Lasts.astray (h : s.Lasts r reopened t) (hAstray : t.Astray e) :
    s.Astray e ∨ ∃ t' ∈ reopened, t'.HasWrite e := by
  induction h with
  | refl => exact .inl hAstray
  | landing _ l ih => exact ih ((Evolves.refl.land l).astray hAstray)
  | operation _ hOp hCut ih => exact ih ((Evolves.refl.cuts hCut).astray hAstray)
  | @opening _ t _ p hFile schedule x hCut ih =>
      rcases astray_reopen ((Evolves.refl.cuts hCut).astray hAstray) with hBefore | hWrite
      · refine (ih hBefore).imp_right ?_
        rintro ⟨t', hMem, hWrite⟩
        exact ⟨t', List.mem_append_left _ hMem, hWrite⟩
      · exact .inr ⟨t, by simp, hWrite⟩

/-! ## Where everything else comes from -/

theorem Covered.reopen (h : s.Covered n q) :
    (s.reopen { s.toProcess with events := [] }).Covered n { q with events := [] } :=
  ⟨h.file, h.book, h.past, h.vault, fun _ hWrite => absurd hWrite (not_hasWrite_of_free rfl)⟩

/-- There is always a process ahead that has nothing in the collection but secrets of its groups. -/
theorem exists_tidy_of_lasts (h : s.Lasts r reopened t) {p : Process} (hTidy : p.Tidy r ring)
    (hCovered : s.Covered n p) : ∃ q : Process, q.Tidy r ring ∧ t.Covered n q := by
  induction h with
  | refl => exact ⟨p, hTidy, hCovered⟩
  | landing _ l ih =>
      obtain ⟨q, hTidyQ, hAhead⟩ := ih
      exact ⟨q, hTidyQ, hAhead.land l⟩
  | @operation _ _ _ op hOp schedule _ hCut ih =>
      obtain ⟨q, hTidyQ, hAhead⟩ := ih
      obtain ⟨faults, hFollows⟩ :=
        Program.exists_follows (r.indifferent_mutation hOp) hAhead schedule
      obtain ⟨y, hCut', hAhead'⟩ := hFollows.cuts _ hCut
      exact ⟨y.1, (Registry.stable_tidy_mutation hOp (q, faults) hTidyQ).1 y hCut', hAhead'⟩
  | @opening _ t _ p' hStart schedule _ hCut ih =>
      obtain ⟨q, hTidyQ, hAhead⟩ := ih
      have hLoad : AccountFile.load t.file = .ok t.book := by
        rw [← hAhead.file, ← hAhead.book]
        exact hTidyQ.sound.intact.load_file
      obtain rfl := Except.ok.inj (hStart.symm.trans (Process.start_of_load hLoad))
      obtain ⟨faults, hFollows⟩ :=
        Program.exists_follows r.indifferent_openUp hAhead.reopen schedule
      obtain ⟨y, hCut', hAhead'⟩ := hFollows.cuts _ hCut
      exact ⟨y.1, (Registry.stable_tidy_openUp r (_, faults) hTidyQ.forget).1 y hCut', hAhead'⟩

/-- The writes that were under way whenever the registry was opened anew are writes of secrets. -/
theorem mem_entries_of_hasWrite (h : s.Lasts r reopened t) {p : Process} (hTidy : p.Tidy r ring)
    (hCovered : s.Covered n p) (hCollection : e.collection = ring.collection) {t' : Ongoing}
    (hMem : t' ∈ reopened) (hWrite : t'.HasWrite e) : ∃ g, e ∈ r.entries g := by
  induction h with
  | refl => contradiction
  | landing _ l ih => exact ih hMem
  | operation _ hOp hCut ih => exact ih hMem
  | opening hBefore hStart hCut ih =>
      rcases List.mem_append.mp hMem with hMem | hMem
      · exact ih hMem
      · obtain rfl := List.mem_singleton.mp hMem
        obtain ⟨q, hTidyQ, hAhead⟩ := exists_tidy_of_lasts hBefore hTidy hCovered
        exact hTidyQ.addressed e hCollection (hAhead.turn e hWrite)

section
variable (hBackend : r.backend = .keyring ring) {p : Process} (hTidy : p.Tidy r ring)
  (h : (idle p).Lasts r reopened t)
include hBackend hTidy h

/-- From such a process on, an entry of the collection is a secret of a group in the book, or it is
loose. -/
theorem listed_or_loose (hCollection : e.collection = ring.collection)
    (hThere : t.vault.contains e = true) :
    (∃ g key, e = ring.entry g key ∧ r.secrets.isSecretKey key = true ∧
      t.book.contains g = true) ∨ t.Loose e := by
  obtain ⟨q, hTidyQ, hAhead⟩ := exists_tidy_of_lasts h hTidy (covered_idle p)
  refine (hAhead.vault e hThere).symm.imp_left fun hAheadThere => ?_
  obtain ⟨g, hMem⟩ := hTidyQ.addressed e hCollection hAheadThere
  obtain ⟨key, hSecret, rfl⟩ := (Registry.mem_entries hBackend).mp hMem
  have hGroup := (hTidyQ.there hBackend hAheadThere).2
  rw [hAhead.book] at hGroup
  exact ⟨g, key, rfl, hSecret, hGroup⟩

theorem not_contains_of_not_loose (hGone : t.book.contains g = false) {key : String}
    (hNot : ¬t.Loose (ring.entry g key)) : t.vault.contains (ring.entry g key) = false := by
  rw [← Bool.not_eq_true]
  intro hThere
  rcases listed_or_loose hBackend hTidy h rfl hThere with ⟨g', key', hEq, _, hGroup⟩ | hLoose
  · obtain ⟨rfl, rfl⟩ := Keyring.entry_inj hEq
    rw [hGone] at hGroup
    contradiction
  · exact hNot hLoose

/-- Only secrets go astray. -/
theorem isSecretKey_of_astray {key : String} (hAstray : t.Astray (ring.entry g key)) :
    r.secrets.isSecretKey key = true := by
  obtain ⟨t', hMem, hWrite⟩ := (h.astray hAstray).resolve_left (not_astray_idle p)
  obtain ⟨g', hEntry⟩ := mem_entries_of_hasWrite h hTidy (covered_idle p) rfl hMem hWrite
  obtain ⟨key', hSecret, hEq⟩ := (Registry.mem_entries hBackend).mp hEntry
  obtain ⟨_, rfl⟩ := Keyring.entry_inj hEq
  exact hSecret

/-- Once a group is gone, an entry of it that was cleaned up will not be written any more, if no
late write of it is under way. -/
theorem clear_of_clean (hGone : t.book.contains g = false) {key : String}
    (hClean : ring.entry g key ∈ r.entries g → t.vault.contains (ring.entry g key) = false)
    (hNoStray : ¬t.HasStray (ring.entry g key)) :
    t.vault.contains (ring.entry g key) = false ∧ ¬t.Astray (ring.entry g key) := by
  have hNotLoose : ¬t.Loose (ring.entry g key) := by
    intro hLoose
    have hSecret := isSecretKey_of_astray hBackend hTidy h (.inl hLoose)
    have hAbsent := hClean ((Registry.mem_entries hBackend).mpr ⟨key, hSecret, rfl⟩)
    have hThere := h.contains_of_loose (fun hNever => absurd hNever (not_loose_idle p)) hLoose
    simp [hAbsent] at hThere
  have hAbsent := not_contains_of_not_loose hBackend hTidy h hGone hNotLoose
  exact ⟨hAbsent, not_or.mpr ⟨hNotLoose, hNoStray⟩⟩

end

/-! ## Clean-ups -/

/-- What another process has cleaned up that is ahead is gone, but for what was written late
meanwhile. -/
theorem Covered.clean (h : u.Covered t.served.length q) (hEvolves : Evolves t u)
    (hGone : q.Gone r g) :
    u.book.contains g = false ∧ ∀ e ∈ r.entries g, ¬t.HasStray e → u.vault.contains e = false := by
  refine ⟨h.book ▸ hGone.group, fun e hEntry hNoStray => ?_⟩
  refine h.contains_of_not_looseSince (fun hLoose => ?_) ?_
  · rcases hEvolves.looseSince (Nat.le_refl _) hLoose with hNever | hStray
    · exact not_looseSince_length hNever
    · exact hNoStray hStray
  · rw [SortedMap.contains, hGone.secrets e hEntry]
    rfl

/-- A removal that succeeds cleans up. -/
theorem clean_of_remove {schedule : Schedule} {x : Ongoing × Schedule}
    (hRun : (r.remove g).run.run host (t, schedule) = (.ok (), x)) :
    x.1.book.contains g = false ∧
      ∀ e ∈ r.entries g, ¬t.HasStray e → x.1.vault.contains e = false := by
  obtain ⟨q, hAhead⟩ := t.exists_covered
  obtain ⟨faults, hFollows⟩ := Program.exists_follows (r.indifferent_remove g) hAhead schedule
  have hEvolves : Evolves t x.1 := by
    have hCut := Program.run_mem_cuts host (r.remove g).run (t, schedule)
    rw [hRun] at hCut
    exact Evolves.refl.cuts hCut
  have hEnd := (Registry.keeps_remove r g (q, faults)).2
  have hLast := hFollows.last
  rw [hFollows.answer, hRun] at hEnd
  rw [hRun] at hLast
  generalize ((r.remove g).run.run Process.host (q, faults)).2.1 = y at hEnd hLast
  cases hEnd with
  | complete hThere =>
      have hGone := Registry.gone_drop r (q.mark g) g
      exact hLast.clean hEvolves ⟨hGone.group, hGone.secrets⟩

/-- An opening cleans up after every group that was pending and is there no longer. -/
theorem clean_of_openUp (hPending : t.book.isPending g = true) {schedule : Schedule}
    {x : Ongoing × Schedule} (hCut : x ∈ r.openUp.run.cuts host (t, schedule))
    (hGone : x.1.book.contains g = false) :
    ∀ e ∈ r.entries g, ¬t.HasStray e → x.1.vault.contains e = false := by
  obtain ⟨q, hAhead⟩ := t.exists_covered
  obtain ⟨faults, hFollows⟩ := Program.exists_follows r.indifferent_openUp hAhead schedule
  obtain ⟨y, hCut', hAhead'⟩ := hFollows.cuts _ hCut
  have hMark : q.Marked g := by
    rw [Process.Marked, hAhead.book]
    exact hPending
  rcases (Registry.keeps_withheld_openUp (s := (q, faults)) r hMark).1 y hCut' with hMarked | hDone
  · have hThere := Registry.contains_of_isPending hMarked
    rw [hAhead'.book, hGone] at hThere
    contradiction
  · exact (hAhead'.clean (Evolves.refl.cuts hCut) hDone).2

/-- On an empty account file and an empty collection a registry is used and opened anew any number
of times, and calls outlast their limits and land late. At any time an entry of the collection is a
secret of a group in the book, unless what is in it was written late by an earlier keyring. A
removal that succeeds leaves nothing of its group, and neither does the opening of the registry of
one that was pending and is there no longer, nor will anything of it be written late, unless a late
write was under way. For what was written late is gone once the entry is written anew or removed,
and an entry goes astray only if a write of it is under way when the registry is opened anew. -/
theorem nothing_left_but_loose (hBackend : r.backend = .keyring ring) {d : Storage}
    (hFile : AccountFile.load d.file = .ok ∅)
    (hEmpty : ∀ key, SortedMap.get? d.vault ⟨ring.collection, key⟩ = none) {p : Process}
    (hStart : d.start = .ok p) (h : (idle p).Lasts r reopened t) :
    (∀ e, e.collection = ring.collection → t.vault.contains e = true →
      (∃ g key, e = ring.entry g key ∧ r.secrets.isSecretKey key = true ∧
        t.book.contains g = true) ∨ t.Loose e) ∧
    (∀ g, t.book.contains g = false → ∀ key, ¬t.Loose (ring.entry g key) →
      t.vault.contains (ring.entry g key) = false) ∧
    (∀ g schedule x, (r.remove g).run.run host (t, schedule) = (.ok (), x) →
      x.1.book.contains g = false ∧ ∀ key, ¬t.HasStray (ring.entry g key) →
        x.1.vault.contains (ring.entry g key) = false ∧ ¬x.1.Astray (ring.entry g key)) ∧
    (∀ p', t.toStorage.start = .ok p' → ∀ schedule,
      ∀ x ∈ r.openUp.run.cuts host (t.reopen p', schedule),
        ∀ g, p'.book.isPending g = true → x.1.book.contains g = false →
          ∀ key, ¬t.HasStray (ring.entry g key) → ¬t.HasWrite (ring.entry g key) →
            x.1.vault.contains (ring.entry g key) = false ∧ ¬x.1.Astray (ring.entry g key)) ∧
    (∀ e, t.Loose e → t.vault.contains e = true) ∧
    ∀ later u, t.Lasts r later u →
      ∀ e, u.Astray e → t.Astray e ∨ ∃ t' ∈ later, t'.HasWrite e := by
  have hTidy : p.Tidy r ring := by
    obtain rfl := Except.ok.inj (hStart.symm.trans (Process.start_of_load hFile))
    exact Process.tidy_of_empty hBackend hFile hEmpty
  refine ⟨fun e => listed_or_loose hBackend hTidy h,
    fun g hGone key => not_contains_of_not_loose hBackend hTidy h hGone, ?_, ?_, ?_,
    fun later u hLater e => hLater.astray⟩
  · intro g schedule x hRun
    obtain ⟨hGone, hClean⟩ := clean_of_remove hRun
    have hMutation : (Operation.remove g).isMutation = true := rfl
    have hAfter := h.finish hMutation rfl schedule
    have hCut := Program.run_mem_cuts host (r.remove g).run (t, schedule)
    rw [hRun] at hAfter hCut
    refine ⟨hGone, fun key hNoStray => ?_⟩
    exact clear_of_clean hBackend hTidy hAfter hGone (fun hEntry => hClean _ hEntry hNoStray)
      fun hStray => hNoStray ((Evolves.refl.cuts hCut).hasStray hStray)
  · intro p' hRead schedule x hCut g hPending hGone key hNoStray hNoWrite
    have hClean := clean_of_openUp hPending hCut hGone
    have hNone : ¬(t.reopen p').HasStray (ring.entry g key) := fun hStray =>
      (hasStray_reopen hStray).elim hNoStray hNoWrite
    exact clear_of_clean hBackend hTidy (h.opening hRead hCut) hGone
      (fun hEntry => hClean _ hEntry hNone) fun hStray =>
        hNone ((Evolves.refl.cuts hCut).hasStray hStray)
  · exact fun e => h.contains_of_loose fun hNever => absurd hNever (not_loose_idle p)

/-- The process after one operation. -/
def after (r : Registry) (op : Operation) (s : Ongoing) (schedule : Schedule) : Ongoing :=
  ((op.action r).run.run host (s, schedule)).2.1

theorem Lasts.after (h : s.Lasts r reopened t) {op : Operation} (hOp : op.isMutation = true)
    (schedule : Schedule) : s.Lasts r reopened (t.after r op schedule) :=
  h.operation hOp (Program.run_mem_cuts host (op.action r).run (t, schedule))

/-- A process that was not used before. -/
def unused : Ongoing := idle { Storage.unused with book := ∅, events := [] }

open Registry in
/-- An account whose creation failed: the write of its password was given up and has not landed, and
so was the attempt to remove it. -/
def abandoned : Ongoing :=
  unused.after ringRegistry (.create "keeper" "health" (.ofList [("password", .string "old")]))
    ⟨[], [⟨[], .lingers⟩]⟩

/-- The registry is opened anew, and nothing goes wrong. -/
def renewed (s : Ongoing) : Ongoing :=
  (Registry.ringRegistry.openUp.run.run host
    (s.reopen { s.toProcess with events := [] }, .calm)).2.1

/-- The opening cleans up after the creation, and then the password lands. -/
def haunted : Ongoing := abandoned.renewed.land (.stray 0 true)

open Registry in
/-- The account is to be created anew, but no call works, so that it is pending. -/
def hindered : Ongoing :=
  haunted.after ringRegistry (.create "keeper" "health" (.ofList [("password", .string "new")]))
    ⟨[], [⟨[], .heard (.fails .timedOut)⟩, ⟨[], .heard (.fails .timedOut)⟩]⟩

open Registry in
theorem lasts_renewed : unused.Lasts ringRegistry [abandoned] abandoned.renewed := by
  have hStart : abandoned.toStorage.start = .ok { abandoned.toProcess with events := [] } := by
    decide +kernel
  exact (Lasts.refl.after rfl _).opening hStart (Program.run_mem_cuts host _ _)

/-- The address of the password of the account. -/
def passwordEntry : Entry :=
  Keyring.entry ⟨"keeper", Keyring.defaultTimeout⟩ Registry.accountGroup (paramKey "password")

open Registry in
/-- The account is created, its password is given up, and the registry opened anew. Then the
password lands that was given up, so it is there without its account. When the account is created
anew and removed, or the registry is opened anew, it is gone, and it will not come back. -/
theorem nothing_left_of_late_write :
    haunted.book = ∅ ∧ haunted.vault.contains passwordEntry = true ∧ hindered.Loose passwordEntry ∧
      (∃ x, (ringRegistry.remove accountGroup).run.run host (hindered, .calm) = (.ok (), x) ∧
        x.1.book.contains accountGroup = false ∧ x.1.vault.contains passwordEntry = false ∧
          ¬x.1.Astray passwordEntry) ∧
      hindered.renewed.book.contains accountGroup = false ∧
        hindered.renewed.vault.contains passwordEntry = false ∧
          ¬hindered.renewed.Astray passwordEntry := by
  have hBackend : ringRegistry.backend = .keyring ⟨"keeper", Keyring.defaultTimeout⟩ := rfl
  have hLasts : unused.Lasts ringRegistry [abandoned] hindered :=
    (lasts_renewed.landing (.stray 0 true)).after rfl _
  obtain ⟨_, _, hRemoval, hOpening, _⟩ := nothing_left_but_loose hBackend (d := Storage.unused) rfl
    (fun _ => rfl) rfl hLasts
  obtain ⟨hServed, hStrays, hTurn, hStart, hPending⟩ : hindered.served =
        [⟨.delete passwordEntry, false⟩, ⟨.put passwordEntry "old", true⟩] ∧
      hindered.strays = [] ∧ hindered.turn = none ∧
      hindered.toStorage.start = .ok { hindered.toProcess with events := [] } ∧
      hindered.book.isPending accountGroup = true := by
    decide +kernel
  have hLoose : hindered.Loose passwordEntry :=
    ⟨[_], _, [], by rw [hServed]; rfl, ⟨rfl, "old", rfl⟩, by simp⟩
  have hNoStray : ¬hindered.HasStray passwordEntry := by simp [HasStray, hStrays]
  have hNoWrite : ¬hindered.HasWrite passwordEntry := by simp [HasWrite, hTurn]
  obtain ⟨hHaunted, hOk, hGone'⟩ :
      (haunted.book = ∅ ∧ haunted.vault.contains passwordEntry = true) ∧
      ((ringRegistry.remove accountGroup).run.run host (hindered, .calm)).1 = .ok () ∧
      hindered.renewed.book.contains accountGroup = false := by
    decide +kernel
  obtain ⟨hGone, hNone⟩ := hRemoval accountGroup _ _ (Prod.ext hOk rfl)
  have hNone' := hOpening _ hStart .calm _ (Program.run_mem_cuts host _ _) accountGroup
    hPending hGone' (paramKey "password") hNoStray hNoWrite
  exact ⟨hHaunted.1, hHaunted.2, hLoose, ⟨_, Prod.ext hOk rfl, hGone, hNone _ hNoStray⟩, hGone',
    hNone'⟩

open Registry in
/-- The opening cleans up after the creation, and then the password lands. When no call is under way
any more, it is in the collection and there is no group. -/
theorem late_write_outlives_cleanup :
    ∃ times t, unused.Lasts ringRegistry times t ∧ t.turn = none ∧ t.strays = [] ∧
      (ringRegistry.openUp.run.run host
        (abandoned.reopen { abandoned.toProcess with events := [] }, .calm)).1 = .ok () ∧
      abandoned.book.isPending accountGroup = true ∧ abandoned.renewed.book = ∅ ∧
      t = abandoned.renewed.land (.stray 0 true) ∧ t.book = ∅ ∧
      t.vault.contains passwordEntry = true := by
  refine ⟨_, haunted, lasts_renewed.landing (.stray 0 true), ?_⟩
  obtain ⟨hTurn, hStrays, hOk, hPending, hGone, hBook, hThere⟩ :
      haunted.turn = none ∧ haunted.strays = [] ∧
      (ringRegistry.openUp.run.run host
        (abandoned.reopen { abandoned.toProcess with events := [] }, .calm)).1 = .ok () ∧
      abandoned.book.isPending accountGroup = true ∧ abandoned.renewed.book = ∅ ∧
      haunted.book = ∅ ∧ haunted.vault.contains passwordEntry = true := by
    decide +kernel
  exact ⟨hTurn, hStrays, hOk, hPending, hGone, rfl, hBook, hThere⟩

end Ongoing
end Accounts
