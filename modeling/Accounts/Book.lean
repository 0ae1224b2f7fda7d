import Accounts.GroupName.Basic
import Accounts.SortedMap.Lemmas

/-! Account books: every group with its attributes, as an account file holds them and a store keeps
them in memory. A group is pending while its creation or removal has not reached every backend. -/
namespace Accounts

/-- The attributes of one group, by key. -/
abbrev Attributes := SortedMap String String

/-- Every group with its attributes. -/
abbrev Book := SortedMap GroupName Attributes

/-- The reserved attribute that marks a pending group. Its value does not matter. -/
def pendingKey : String := "PendingRemoval"

/-- Whether the attributes carry the mark of a pending group. -/
def Attributes.isPending (a : Attributes) : Bool := a.contains pendingKey

namespace Book

/-- The attributes of a group, none if the book has no such group. -/
def attributes (book : Book) (g : GroupName) : Attributes := (book.get? g).getD ∅

/-- The value of a group under a key. -/
def value? (book : Book) (g : GroupName) (key : String) : Option String :=
  (book.get? g).bind (·.get? key)

/-- Whether the group is there and not pending. -/
def isLive (book : Book) (g : GroupName) : Bool :=
  (book.get? g).any fun a => !a.isPending

/-- Whether the group is there and pending. -/
def isPending (book : Book) (g : GroupName) : Bool :=
  (book.get? g).any Attributes.isPending

/-- The groups that are there and not pending, in order. -/
def liveGroups (book : Book) : List GroupName :=
  (book.toList.filter fun e => !e.2.isPending).map Prod.fst

/-- The pending groups, in order. -/
def pendingGroups (book : Book) : List GroupName :=
  (book.toList.filter fun e => e.2.isPending).map Prod.fst

/-- Write attributes of a group. The group comes into being if it was not there, even when there
is nothing to write. -/
def write (book : Book) (g : GroupName) (entries : List (String × String)) : Book :=
  book.insert g ((book.attributes g).insertMany entries)

/-- Remove an attribute of a group. A group left without attributes goes too. -/
def eraseKey (book : Book) (g : GroupName) (key : String) : Book :=
  match book.get? g with
  | none => book
  | some a =>
    let rest := a.erase key
    if rest.isEmpty then book.erase g else book.insert g rest

end Book
end Accounts
