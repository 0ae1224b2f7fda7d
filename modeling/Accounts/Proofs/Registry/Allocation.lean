import Mathlib.Data.List.Nodup
import Mathlib.Data.List.Perm.Subperm
import Mathlib.Data.Nat.Find
import Accounts.Proofs.Identifier
import Accounts.Registry.Basic

/-! The name of a new account. Serial numbers tell the groups of one manager, one protocol and one
identity apart, but a name may also be taken by an account of another identity, so the name is
searched for in the book. A book of `n` groups cannot hold the names with the first `n + 1` serial
numbers all at once, and that bounds the search. -/
namespace Accounts

namespace GroupName

variable {protocol : String}

/-- The group with a serial number, for a protocol that can stand in a name. -/
def ofSerial (hProtocol : IsComponent (protocolComponent protocol)) (manager identity : String)
    (serial : Nat) : GroupName where
  manager := Identifier.escape manager
  protocol := protocolComponent protocol
  account := Identifier.escape identity ++ serial.repr
  isComponent_manager := (Identifier.isComponent_escape manager).1
  isComponent_protocol := hProtocol
  isComponent_account := isComponent_append_repr (Identifier.isComponent_escape identity).1 serial

variable (hProtocol : IsComponent (protocolComponent protocol)) (manager identity : String)

theorem allocate_eq_ofSerial (serial : Nat) :
    allocate manager protocol identity serial =
      .ok (ofSerial hProtocol manager identity serial) :=
  allocate_eq_ok_iff.mpr ⟨rfl, rfl, rfl⟩

/-- Different serial numbers make different names. -/
theorem ofSerial_injective : Function.Injective (ofSerial hProtocol manager identity) := by
  intro serial serial' hEq
  have hAccount : Identifier.escape identity ++ serial.repr =
      Identifier.escape identity ++ serial'.repr := congrArg account hEq
  rw [← String.toList_inj, String.toList_append, String.toList_append,
    List.append_cancel_left_eq] at hAccount
  have hRead := Text.readDigits?_repr serial
  rw [hAccount, Text.readDigits?_repr] at hRead
  exact (Option.some.inj hRead).symm

/-- Without a protocol that can stand in a name there is no group for any serial number. -/
theorem allocate_eq_error (h : ¬ IsComponent (protocolComponent protocol)) (serial : Nat) :
    allocate manager protocol identity serial =
      .error (.invalidGroup (join (Identifier.escape manager) (protocolComponent protocol)
        (Identifier.escape identity ++ serial.repr))) :=
  dif_neg fun hAll => h hAll.2.1

end GroupName

namespace Registry
open GroupName

variable {book : Book} {protocol : String}
variable (hProtocol : IsComponent (protocolComponent protocol)) (manager identity : String)

/-- Some name with a serial number up to the number of groups is free. -/
theorem exists_free (book : Book) :
    ∃ serial ≤ book.size, book.contains (ofSerial hProtocol manager identity serial) = false := by
  by_contra hNone
  have hTaken : ∀ serial ≤ book.size,
      book.contains (ofSerial hProtocol manager identity serial) = true := by
    intro serial hSerial
    by_contra hFree
    exact hNone ⟨serial, hSerial, Bool.eq_false_iff.mpr hFree⟩
  let names := (List.range (book.size + 1)).map (ofSerial hProtocol manager identity)
  have hNodup : names.Nodup :=
    List.Nodup.map (ofSerial_injective hProtocol manager identity) List.nodup_range
  have hSubset : names ⊆ book.keys := by
    intro name hName
    obtain ⟨serial, hSerial, rfl⟩ := List.mem_map.mp hName
    rw [SortedMap.mem_keys_iff, ← Option.isSome_iff_exists]
    exact hTaken serial (Nat.lt_succ_iff.mp (List.mem_range.mp hSerial))
  -- One name more than there are groups cannot all be in the book.
  have hLength := (hNodup.subperm hSubset).length_le
  rw [SortedMap.length_keys, List.length_map, List.length_range] at hLength
  exact Nat.not_succ_le_self book.size hLength

/-- The lowest serial number with a free name is at most the number of groups. -/
theorem exists_least_free (book : Book) :
    ∃ serial ≤ book.size,
      book.contains (ofSerial hProtocol manager identity serial) = false ∧
      ∀ lower < serial, book.contains (ofSerial hProtocol manager identity lower) = true := by
  have hExists : ∃ serial, book.contains (ofSerial hProtocol manager identity serial) = false := by
    obtain ⟨serial, -, hFree⟩ := exists_free hProtocol manager identity book
    exact ⟨serial, hFree⟩
  apply Exists.intro (Nat.find hExists)
  refine ⟨?_, Nat.find_spec hExists, ?_⟩
  · obtain ⟨serial, hSerial, hFree⟩ := exists_free hProtocol manager identity book
    exact Nat.le_trans (Nat.find_min' hExists hFree) hSerial
  · intro lower hLower
    exact Bool.of_not_eq_false (Nat.find_min hExists hLower)

/-- The search passes over serial numbers whose names are taken. -/
theorem allocateAmong_append {taken : List Nat}
    (hTaken : ∀ serial ∈ taken,
      book.contains (ofSerial hProtocol manager identity serial) = true) (rest : List Nat) :
    allocateAmong book manager protocol identity (taken ++ rest) =
      allocateAmong book manager protocol identity rest := by
  induction taken with
  | nil => rfl
  | cons serial taken ih =>
      obtain ⟨hHere, hLater⟩ := List.forall_mem_cons.mp hTaken
      rw [List.cons_append, allocateAmong, allocate_eq_ofSerial hProtocol]
      dsimp only
      rw [if_pos hHere, ih hLater]

/-- However far the search may go, it ends at the lowest serial number with a free name. -/
theorem allocateAmong_range {serial bound : Nat} (hBound : serial < bound)
    (hLower : ∀ lower < serial,
      book.contains (ofSerial hProtocol manager identity lower) = true)
    (hFree : book.contains (ofSerial hProtocol manager identity serial) = false) :
    allocateAmong book manager protocol identity (List.range bound) =
      .ok (ofSerial hProtocol manager identity serial) := by
  obtain ⟨rest, rfl⟩ := Nat.exists_eq_add_of_lt hBound
  have hRange : List.range (serial + rest + 1) =
      List.range serial ++ serial :: (List.range rest).map (serial + 1 + ·) := by
    rw [Nat.add_right_comm, List.range_add, List.range_succ, List.append_assoc,
      List.singleton_append]
  have hTaken : ∀ lower ∈ List.range serial,
      book.contains (ofSerial hProtocol manager identity lower) = true :=
    fun lower hMem => hLower lower (List.mem_range.mp hMem)
  rw [hRange, allocateAmong_append hProtocol manager identity hTaken, allocateAmong,
    allocate_eq_ofSerial hProtocol]
  dsimp only
  rw [hFree]
  rfl

/-- The search fails at its first serial number if the protocol cannot stand in a name. -/
theorem allocateAmong_range_eq_error (h : ¬ IsComponent (protocolComponent protocol))
    (book : Book) {bound : Nat} (hBound : 0 < bound) :
    allocateAmong book manager protocol identity (List.range bound) =
      .error (.invalidGroup (join (Identifier.escape manager) (protocolComponent protocol)
        (Identifier.escape identity ++ "0"))) := by
  obtain ⟨rest, rfl⟩ := Nat.exists_eq_add_of_lt hBound
  rw [Nat.zero_add, List.range_succ_eq_map, allocateAmong, allocate_eq_error manager identity h]
  rfl

/-- For a protocol that can stand in a name, a new account is named with the lowest serial number
whose name no group in the book has, pending or not, and that number is at most the number of
groups. For any other protocol there is no name, and the error shows the one that was tried. The
manager and the identity do not matter to this. The search ends so early that letting it go through
every serial number makes no difference. -/
theorem allocate_lowest_free {book : Book} (hSize : book.size < serials)
    (manager protocol identity : String) :
    (IsComponent (protocolComponent protocol) →
      ∃ serial ≤ book.size, ∃ g,
        GroupName.allocate manager protocol identity serial = .ok g ∧
        allocate book manager protocol identity = .ok g ∧ book.contains g = false ∧
        ∀ lower < serial, ∃ taken,
          GroupName.allocate manager protocol identity lower = .ok taken ∧
            book.contains taken = true) ∧
    (¬ IsComponent (protocolComponent protocol) →
      allocate book manager protocol identity =
        .error (.invalidGroup (join (Identifier.escape manager) (protocolComponent protocol)
          (Identifier.escape identity ++ "0")))) ∧
    allocate book manager protocol identity =
      allocateAmong book manager protocol identity (List.range serials) := by
  have hBound : min (book.size + 1) serials = book.size + 1 := Nat.min_eq_left hSize
  unfold allocate
  rw [hBound]
  by_cases hProtocol : IsComponent (protocolComponent protocol)
  · obtain ⟨serial, hSerial, hFree, hLower⟩ := exists_least_free hProtocol manager identity book
    have hFound (bound : Nat) (hBound : serial < bound) :
        allocateAmong book manager protocol identity (List.range bound) =
          .ok (ofSerial hProtocol manager identity serial) :=
      allocateAmong_range hProtocol manager identity hBound hLower hFree
    have hShort := hFound (book.size + 1) (Nat.lt_succ_of_le hSerial)
    have hLong := hFound serials (Nat.lt_of_le_of_lt hSerial hSize)
    refine ⟨fun _ => ?_, fun h => absurd hProtocol h, hShort.trans hLong.symm⟩
    refine ⟨serial, hSerial, ofSerial hProtocol manager identity serial,
      allocate_eq_ofSerial hProtocol manager identity serial, hShort, hFree, ?_⟩
    intro lower hBelow
    exact ⟨ofSerial hProtocol manager identity lower,
      allocate_eq_ofSerial hProtocol manager identity lower, hLower lower hBelow⟩
  · have hShort :=
      allocateAmong_range_eq_error manager identity hProtocol book (Nat.succ_pos book.size)
    have hLong :=
      allocateAmong_range_eq_error manager identity hProtocol book (Nat.zero_lt_of_lt hSize)
    exact ⟨fun h => absurd h hProtocol, fun _ => hShort, hShort.trans hLong.symm⟩

theorem isComponent_localXmpp : IsComponent (protocolComponent "local-xmpp") := by decide

/-- Two groups of the identity `joe`. The second one is pending, and its name is also that of the
identity `joe1` with the serial number 0. -/
def neighbourBook : Book :=
  .ofList [(ofSerial isComponent_localXmpp "gabble" "joe" 0, ∅),
    (ofSerial isComponent_localXmpp "gabble" "joe" 10, .ofList [(pendingKey, "true")])]

/-- Nothing but the search tells that the name `joe10` is taken. Among all serial numbers the search
ends at the next one. -/
theorem allocate_lowest_free_neighbour :
    neighbourBook.size < serials ∧
      allocateAmong neighbourBook "gabble" "local-xmpp" "joe1" (List.range serials) =
        .ok (ofSerial isComponent_localXmpp "gabble" "joe1" 1) := by
  have hSize : neighbourBook.size < serials := by decide +kernel
  obtain ⟨-, -, hSearch⟩ := allocate_lowest_free hSize "gabble" "local-xmpp" "joe1"
  apply And.intro hSize
  rw [← hSearch]
  decide +kernel

end Registry
end Accounts
