import Accounts.GroupName.Basic

/-! Section names and the groups that they name. -/
namespace Accounts.GroupName

theorem slash_notMem_of_isComponent {s : String} (h : IsComponent s) : '/' ∉ s.toList := by
  intro hMem
  have hChar := (isComponent_iff.mp h).2 '/' hMem
  revert hChar
  decide

theorem toList_join (manager protocol account : String) : (join manager protocol account).toList =
    manager.toList ++ '/' :: (protocol.toList ++ '/' :: account.toList) := by
  simp [join]

/-- The section name of a group names that group. No component holds a slash, so the pieces of the
name are the components. -/
@[simp] theorem parse_sectionName (g : GroupName) : parse g.sectionName = .ok g := by
  obtain ⟨manager, protocol, account, hManager, hProtocol, hAccount⟩ := g
  have hPieces : Text.pieces '/' (join manager protocol account).toList =
      [manager.toList, protocol.toList, account.toList] := by
    rw [toList_join, Text.pieces_append _ (slash_notMem_of_isComponent hManager),
      Text.pieces_append _ (slash_notMem_of_isComponent hProtocol),
      Text.pieces_of_notMem (slash_notMem_of_isComponent hAccount)]
  simp [parse, sectionName, hPieces, ofComponents, hManager, hProtocol, hAccount]

theorem mem_sectionName {g : GroupName} {c : Char} (h : c ∈ g.sectionName.toList) :
    isComponentChar c = true ∨ c = '/' := by
  simp only [sectionName, join, String.toList_append, List.mem_append] at h
  rcases h with (((h | h) | h) | h) | h
  · exact Or.inl ((isComponent_iff.mp g.isComponent_manager).2 c h)
  · exact Or.inr (by simpa using h)
  · exact Or.inl ((isComponent_iff.mp g.isComponent_protocol).2 c h)
  · exact Or.inr (by simpa using h)
  · exact Or.inl ((isComponent_iff.mp g.isComponent_account).2 c h)

theorem sectionName_injective : Function.Injective sectionName := by
  intro g h hEq
  have hParse := congrArg parse hEq
  simpa using hParse

/-- A group is made of the components that it is given. -/
theorem ofComponents_eq_ok_iff {manager protocol account : String} {g : GroupName} :
    ofComponents manager protocol account = .ok g ↔
      g.manager = manager ∧ g.protocol = protocol ∧ g.account = account := by
  unfold ofComponents
  constructor
  · intro h
    split at h
    next =>
      obtain rfl := Except.ok.inj h
      exact ⟨rfl, rfl, rfl⟩
    next => contradiction
  · obtain ⟨manager', protocol', account', hManager, hProtocol, hAccount⟩ := g
    rintro ⟨rfl, rfl, rfl⟩
    exact dif_pos ⟨hManager, hProtocol, hAccount⟩

/-- A text names a group only if it is the section name of the group. -/
theorem parse_eq_ok_iff {s : String} {g : GroupName} : parse s = .ok g ↔ s = g.sectionName := by
  constructor
  · intro h
    unfold parse at h
    split at h
    next manager protocol account hPieces =>
      obtain ⟨hManager, hProtocol, hAccount⟩ := ofComponents_eq_ok_iff.mp h
      have hJoin := Text.intercalate_pieces '/' s.toList
      rw [hPieces] at hJoin
      apply String.toList_injective
      rw [← hJoin, sectionName, hManager, hProtocol, hAccount]
      simp [join, List.intercalate_cons_cons]
    next => contradiction
  · rintro rfl
    exact parse_sectionName g

end Accounts.GroupName
