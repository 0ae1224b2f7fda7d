import Accounts.Proofs.Registry.Allocation
import Accounts.Proofs.Registry.Equivalence
import Accounts.Proofs.Registry.Failures
import Accounts.Proofs.Registry.Founding
import Accounts.Proofs.Registry.Replay

/-! Duplicates. An account is refused as a duplicate exactly if some group shows one that agrees in
manager, protocol and parameters, secret ones aside. So an account that was just created cannot be
created again, and as long as nobody writes parameters into accounts, no two of them agree. -/
namespace Accounts

/-- The operation writes no parameter into an account that is there. -/
def Operation.LeavesParams : Operation → Prop
  | .setProperty _ key _ => paramName? key = none
  | _ => True

namespace Registry
open Process Accounts.Action

variable {r : Registry} {manager protocol : String} {params : SortedMap String Value}
variable {g h : GroupName} {p q : Process} {s : Process × Faults} {b b' : Book}

/-! ## Refusals -/

/-- A creation that finds an equivalent account reports it and does nothing else. -/
theorem run_create_of_equivalent?
    (h : r.equivalent? s.1.book manager protocol (r.plainParams params) = some g) :
    (r.create manager protocol params).run.run host s =
        (.error (.duplicateAccount g.sectionName), s) ∧
      (r.create manager protocol params).run.cuts host s = [s] := by
  rw [create_eq, run_book, cuts_book, h]
  exact ⟨rfl, rfl⟩

/-- The groups that are reported are the first ones with an equivalent account. -/
theorem create_refused_iff (group : String) :
    ((r.create manager protocol params).run.run host s).1 = .error (.duplicateAccount group) ↔
      ∃ g, s.1.book.FirstAccount r.secrets manager protocol params g ∧ group = g.sectionName := by
  constructor
  · intro hError
    cases hFind : r.equivalent? s.1.book manager protocol (r.plainParams params) with
    | none => exact (isFailure_of_create hFind hError).elim
    | some g =>
        rw [(run_create_of_equivalent? hFind).1] at hError
        exact ⟨g, equivalent?_eq_some_iff.mp hFind,
          (Error.duplicateAccount.inj (Except.error.inj hError)).symm⟩
  · rintro ⟨g, hFirst, rfl⟩
    rw [(run_create_of_equivalent? (equivalent?_eq_some_iff.mpr hFirst)).1]

/-! ## The same account again -/

theorem get?_initialAttributes_paramKey (r : Registry) (manager protocol : String)
    (params : SortedMap String Value) {name : String} (h : r.secrets.isSecret name = false) :
    (r.initialAttributes manager protocol params).get? (paramKey name) =
      (params.get? name).map Value.encode := by
  have hKey : ∀ key, paramName? key = none → key ≠ paramKey name := by
    rintro key hNone rfl
    rw [paramName?_paramKey] at hNone
    contradiction
  rw [initialAttributes, SortedMap.get?_insert, if_neg (hKey pendingKey (by decide)),
    SortedMap.get?_insert, if_neg (hKey protocolKey (by decide)), SortedMap.get?_insert,
    if_neg (hKey managerKey (by decide)), get?_plainParams_paramKey r params h]

theorem isPlainKey_paramKey {name : String} (h : r.secrets.isSecret name = false) :
    r.IsPlainKey (paramKey name) := by
  constructor
  · intro hEq
    have hName := paramName?_paramKey name
    rw [hEq] at hName
    contradiction
  · rwa [SecretNames.isSecretKey_paramKey]

/-- The group of a new account has the account once it shows. -/
theorem Founds.hasAccount (hFounds : r.Founds manager protocol params g b b')
    (hLive : b'.isLive g = true) : b'.HasAccount r.secrets manager protocol params g := by
  apply Book.HasAccount.mk hLive hFounds.manager hFounds.protocol
  intro name hPlain
  rw [hFounds.value _ (isPlainKey_paramKey hPlain), get?_initialAttributes_paramKey _ _ _ _ hPlain]

/-- The secrets of an account do not matter to what it is equivalent to, and of other values only
their texts do. -/
theorem hasAccount_congr {secrets : SecretNames} {params' : SortedMap String Value}
    (hSame : ∀ name, secrets.isSecret name = false →
      (params'.get? name).map Value.encode = (params.get? name).map Value.encode)
    (h : b.HasAccount secrets manager protocol params' g) :
    b.HasAccount secrets manager protocol params g := by
  apply Book.HasAccount.mk h.live h.manager h.protocol
  intro name hPlain
  rw [h.param name hPlain, hSame name hPlain]

/-- The group of an account that was just created is the only one that shows such an account. -/
theorem firstAccount_of_created
    (hEnds : (r.create manager protocol params).Ends p (.ok g) q) :
    q.book.FirstAccount r.secrets manager protocol params g := by
  have hEnd : SameOff r g p q ∧ q.book.isLive g = true ∧
      r.Founds manager protocol params g p.book q.book := by
    apply hEnds.of_keeps (R := fun answer q => answer = .ok g → SameOff r g p q ∧
      q.book.isLive g = true ∧ r.Founds manager protocol params g p.book q.book) _ rfl
    intro faults
    apply And.intro (fun _ _ => trivial)
    intro hOk
    obtain ⟨hSame, hLive⟩ :=
      (keeps_create_shown r manager protocol params (p, faults)).2 g hOk
    have hNew := (keeps_create_new r manager protocol params (p, faults)).2 g hOk
    have hAbsent : p.book.contains g = false := by
      rw [SortedMap.contains, hNew]
      rfl
    have hFounds := (keeps_create_founds (r := r) (s := (p, faults)) hAbsent manager
      protocol params).last
    exact ⟨hSame, hLive, hFounds (contains_of_isLive hLive)⟩
  obtain ⟨hSame, hLive, hFounds⟩ := hEnd
  apply And.intro (hFounds.hasAccount hLive)
  intro h hHas
  by_cases hEq : h = g
  · exact Or.inl hEq
  · have hGroup := hSame.book h hEq
    have hBefore : p.book.HasAccount r.secrets manager protocol params h := by
      obtain ⟨hLive', hManager, hProtocol, hParam⟩ := hHas
      simp only [Book.isLive, Book.value?, hGroup] at hLive' hManager hProtocol hParam
      exact ⟨hLive', hManager, hProtocol, hParam⟩
    exact absurd hBefore (equivalent?_eq_none_iff.mp hFounds.unique h)

/-! ## Accounts over time -/

/-- The keys by which accounts are told apart. -/
def IsTellingKey (secrets : SecretNames) (key : String) : Prop :=
  key = managerKey ∨ key = protocolKey ∨
    ∃ name, key = paramKey name ∧ secrets.isSecret name = false

theorem agree_iff {secrets : SecretNames} :
    b.Agree secrets g h ↔ ∀ key, IsTellingKey secrets key → b.value? g key = b.value? h key := by
  constructor
  · rintro hAgree key (rfl | rfl | ⟨name, rfl, hPlain⟩)
    · exact hAgree.manager
    · exact hAgree.protocol
    · exact hAgree.param name hPlain
  · intro hSame
    constructor
    · exact hSame _ (Or.inl rfl)
    · exact hSame _ (Or.inr (Or.inl rfl))
    · intro name hPlain
      exact hSame _ (Or.inr (Or.inr ⟨name, rfl, hPlain⟩))

theorem spares_isTellingKey (r : Registry) : r.Spares (IsTellingKey r.secrets) := by
  constructor
  · rintro (hEq | hEq | ⟨name, hEq, -⟩)
    · exact absurd hEq (by decide)
    · exact absurd hEq (by decide)
    · have hName := paramName?_paramKey name
      rw [← hEq] at hName
      contradiction
  · rintro key hSecret (rfl | rfl | ⟨name, rfl, hPlain⟩)
    · simp at hSecret
    · simp at hSecret
    · rw [SecretNames.isSecretKey_paramKey, hPlain] at hSecret
      contradiction

theorem operation_spares_isTellingKey {secrets : SecretNames} {op : Operation}
    (hOp : op.LeavesParams) : op.Spares (IsTellingKey secrets) := by
  have hOwner : ∀ key, paramName? key = none → IsTellingKey secrets key →
      key = managerKey ∨ key = protocolKey := by
    rintro key hNone (hEq | hEq | ⟨name, rfl, -⟩)
    · exact Or.inl hEq
    · exact Or.inr hEq
    · rw [paramName?_paramKey] at hNone
      contradiction
  apply Operation.spares_of
  · intro hTelling
    rcases hOwner enabledKey (by decide) hTelling with hEq | hEq
    · exact absurd hEq (by decide)
    · exact absurd hEq (by decide)
  · rintro g key value rfl
    exact hOwner key hOp

/-- A group that showed while an account was founded does not agree with the group of that account,
since it would have been found. -/
theorem not_agree_of_founds (hFounds : r.Founds manager protocol params h b b')
    (hBefore : b.isLive g = true) (hLive : b'.isLive g = true)
    (hKept : b.Retains (IsTellingKey r.secrets) g b') : ¬b'.Agree r.secrets g h := by
  intro hAgree
  obtain ⟨-, hSame⟩ := hKept (contains_of_isLive hLive)
  have hBoth (key : String) (hKey : IsTellingKey r.secrets key) :
      b.value? g key = b'.value? h key := by
    rw [← hSame key hKey]
    exact agree_iff.mp hAgree key hKey
  apply equivalent?_eq_none_iff.mp hFounds.unique g
  constructor
  · exact hBefore
  · rw [hBoth managerKey (Or.inl rfl), hFounds.manager]
  · rw [hBoth protocolKey (Or.inr (Or.inl rfl)), hFounds.protocol]
  · intro name hPlain
    rw [hBoth (paramKey name) (Or.inr (Or.inr ⟨name, rfl, hPlain⟩)),
      hFounds.value _ (isPlainKey_paramKey hPlain), get?_initialAttributes_paramKey _ _ _ _ hPlain]

end Registry

/-- No two groups that show agree. -/
def Book.Distinct (b : Book) (secrets : SecretNames) : Prop :=
  ∀ g h, b.isLive g = true → b.isLive h = true → b.Agree secrets g h → g = h

namespace Process
open Registry

variable {r : Registry} {p q : Process}

/-- One step keeps the accounts apart. -/
theorem BecomesUsing.distinct (h : p.BecomesUsing r Operation.LeavesParams q)
    (hIntact : p.Intact KeyFile.IsWritable) (hDistinct : p.book.Distinct r.secrets) :
    q.book.Distinct r.secrets := by
  intro g g' hLive hLive' hAgree
  have hKept (g : GroupName) (hBefore : p.book.isLive g = true) :
      p.book.Retains (IsTellingKey r.secrets) g q.book :=
    h.retains hIntact r.spares_isTellingKey (fun _ => operation_spares_isTellingKey)
      (contains_of_isLive hBefore) (Or.inl hBefore)
  obtain ⟨manager, protocol, params, hShown⟩ := h.live_or_founded hIntact
  rcases hShown g hLive with hBefore | hFounds
  · rcases hShown g' hLive' with hBefore' | hFounds'
    · apply hDistinct g g' hBefore hBefore'
      rw [agree_iff] at hAgree ⊢
      intro key hKey
      obtain ⟨-, hSame⟩ := hKept g hBefore (contains_of_isLive hLive)
      obtain ⟨-, hSame'⟩ := hKept g' hBefore' (contains_of_isLive hLive')
      rw [← hSame key hKey, ← hSame' key hKey, hAgree key hKey]
    · exact absurd hAgree (not_agree_of_founds hFounds' hBefore hLive (hKept g hBefore))
  · rcases hShown g' hLive' with hBefore' | hFounds'
    -- Here the group that was founded is the other one.
    · have hAgree' : q.book.Agree r.secrets g' g :=
        ⟨hAgree.manager.symm, hAgree.protocol.symm, fun name hPlain =>
          (hAgree.param name hPlain).symm⟩
      exact absurd hAgree' (not_agree_of_founds hFounds hBefore' hLive' (hKept g' hBefore'))
    -- A creation founds one group only, so the two have its name.
    · exact Except.ok.inj (hFounds.name.symm.trans hFounds'.name)

end Process

namespace Registry
open Process Accounts.Action

/-- A creation is refused exactly if some group shows an account with the same manager, protocol and
parameters, secret ones aside. It reports the first such group and does nothing, whatever else would
have failed. So an account that was just created cannot be created again, with whatever secrets. And
as long as an account file that was empty at first is used with the same secret names, and nobody
writes parameters into accounts that are there, no two accounts agree, whatever backends are in use,
whatever fails and wherever processes are cut off. -/
theorem duplicates_refused :
    (∀ (r : Registry) (manager protocol : String) (params : SortedMap String Value) (p : Process)
        (faults : Faults),
      (∀ group, ((r.create manager protocol params).run.run host (p, faults)).1 =
          .error (.duplicateAccount group) ↔
        ∃ g, p.book.FirstAccount r.secrets manager protocol params g ∧ group = g.sectionName) ∧
      ((∃ g, p.book.FirstAccount r.secrets manager protocol params g) ↔
        ∃ g, p.book.HasAccount r.secrets manager protocol params g) ∧
      ∀ g, p.book.FirstAccount r.secrets manager protocol params g →
        (r.create manager protocol params).run.run host (p, faults) =
            (.error (.duplicateAccount g.sectionName), p, faults) ∧
          (r.create manager protocol params).run.cuts host (p, faults) = [(p, faults)]) ∧
    (∀ (r : Registry) (manager protocol : String) (params : SortedMap String Value)
        (p q : Process) (g : GroupName),
      (r.create manager protocol params).Ends p (.ok g) q →
      ∀ (params' : SortedMap String Value) (faults : Faults),
        (∀ name, r.secrets.isSecret name = false →
          (params'.get? name).map Value.encode = (params.get? name).map Value.encode) →
        (r.create manager protocol params').run.run host (q, faults) =
            (.error (.duplicateAccount g.sectionName), q, faults) ∧
          (r.create manager protocol params').run.cuts host (q, faults) = [(q, faults)]) ∧
    ∀ (secrets : SecretNames) (d : Storage) (p₀ p : Process), AccountFile.load d.file = .ok ∅ →
      d.start = .ok p₀ →
      Relation.ReflTransGen (fun x y => ∃ r : Registry, r.secrets = secrets ∧
        Process.BecomesUsing r Operation.LeavesParams x y) p₀ p →
      ∀ g h, p.book.isLive g = true → p.book.isLive h = true →
        p.book.Agree secrets g h → g = h := by
  have hRefused (r : Registry) (manager protocol : String) (params : SortedMap String Value)
      (p : Process) (faults : Faults) (g : GroupName)
      (hFirst : p.book.FirstAccount r.secrets manager protocol params g) :
      (r.create manager protocol params).run.run host (p, faults) =
          (.error (.duplicateAccount g.sectionName), p, faults) ∧
        (r.create manager protocol params).run.cuts host (p, faults) = [(p, faults)] :=
    run_create_of_equivalent? (s := (p, faults)) (equivalent?_eq_some_iff.mpr hFirst)
  refine ⟨fun r manager protocol params p faults => ?_, ?_, ?_⟩
  · refine ⟨fun group => create_refused_iff group, ?_, hRefused r manager protocol params p faults⟩
    constructor
    · rintro ⟨g, hFirst⟩
      exact ⟨g, hFirst.1⟩
    · rintro ⟨g, hHas⟩
      cases hFind : r.equivalent? p.book manager protocol (r.plainParams params) with
      | none => exact absurd hHas (equivalent?_eq_none_iff.mp hFind g)
      | some h => exact ⟨h, equivalent?_eq_some_iff.mp hFind⟩
  · intro r manager protocol params p q g hEnds params' faults hSame
    apply hRefused
    have hFirst := firstAccount_of_created hEnds
    constructor
    · exact hasAccount_congr (fun name hPlain => (hSame name hPlain).symm) hFirst.1
    · intro h hHas
      exact hFirst.2 h (hasAccount_congr hSame hHas)
  · intro secrets d p₀ p hEmpty hStart hSteps
    have hInvariant : p.Intact KeyFile.IsWritable ∧ p.book.Distinct secrets := by
      induction hSteps with
      | refl =>
          obtain ⟨book, hLoad, rfl⟩ := load_of_start hStart
          obtain rfl : ∅ = book := Except.ok.inj (hEmpty.symm.trans hLoad)
          exact ⟨intact_of_start hStart, fun g h hLive => by contradiction⟩
      | tail _ hLast ih =>
          obtain ⟨r, rfl, hBecomes⟩ := hLast
          exact ⟨intact_of_becomes ih.1 hBecomes.becomes, hBecomes.distinct ih.1 ih.2⟩
    exact hInvariant.2

/-- The parameters of an account with a password. -/
def mailParams (account password : String) : SortedMap String Value :=
  .ofList [("account", .string account), ("password", .string password)]

theorem isComponent_mail : IsComponent (GroupName.protocolComponent "mail") := by decide

/-- The account is created on unused storage. -/
def mailProcess : Process :=
  ringRegistry.after (.create "keeper" "mail" (mailParams "joe" "old")) unusedProcess .none

/-- A second account is created with the same password. -/
def mailsProcess : Process :=
  ringRegistry.after (.create "keeper" "mail" (mailParams "amy" "old")) mailProcess .none

/-- Another password does not make another account, and another name does. -/
theorem duplicates_refused_of_password :
    (ringRegistry.create "keeper" "mail" (mailParams "joe" "new")).run.run host
        (mailProcess, silentFaults) =
      (.error (.duplicateAccount "keeper/mail/joe0"), mailProcess, silentFaults) ∧
    mailsProcess.book.liveGroups.length = 2 ∧
    ∀ g h, mailsProcess.book.isLive g = true → mailsProcess.book.isLive h = true →
      mailsProcess.book.Agree ringRegistry.secrets g h → g = h := by
  obtain ⟨-, hAgain, hDistinct⟩ := duplicates_refused
  have hEnds : (ringRegistry.create "keeper" "mail" (mailParams "joe" "old")).Ends unusedProcess
      (.ok (.ofSerial isComponent_mail "keeper" "joe" 0)) mailProcess := by
    refine ⟨.none, .none, Prod.ext ?_ (Prod.ext ?_ ?_)⟩
    · decide +kernel
    · decide +kernel
    · decide +kernel
  have hSteps : Relation.ReflTransGen (fun x y => ∃ r : Registry,
      r.secrets = ringRegistry.secrets ∧ Process.BecomesUsing r Operation.LeavesParams x y)
      unusedProcess mailsProcess :=
    (Relation.ReflTransGen.single ⟨ringRegistry, rfl,
      .operation _ trivial .none (Program.run_mem_cuts host _ _)⟩).tail
      ⟨ringRegistry, rfl, .operation _ trivial .none (Program.run_mem_cuts host _ _)⟩
  have hSecret : ∀ name, ringRegistry.secrets.isSecret name = false →
      ((mailParams "joe" "new").get? name).map Value.encode =
        ((mailParams "joe" "old").get? name).map Value.encode := by
    intro name hPlain
    have hNe : "password" ≠ name := by
      rintro rfl
      exact absurd hPlain (by decide +kernel)
    simp only [mailParams, SortedMap.ofList, SortedMap.insertMany_cons, SortedMap.insertMany_nil,
      SortedMap.get?_insert, if_neg hNe]
  have hName : (GroupName.ofSerial isComponent_mail "keeper" "joe" 0).sectionName =
      "keeper/mail/joe0" := by decide +kernel
  obtain ⟨hRefused, -⟩ := hAgain _ _ _ _ _ _ _ hEnds _ silentFaults hSecret
  rw [hName] at hRefused
  refine ⟨hRefused, by decide +kernel, ?_⟩
  exact hDistinct ringRegistry.secrets Storage.unused _ mailsProcess rfl rfl hSteps

end Registry
end Accounts
