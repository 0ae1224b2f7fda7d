import Accounts.GroupName.Basic

/-! Notices of change. Each tells of one mutation that is already durable. -/
namespace Accounts

inductive Event where
  | created (group : GroupName)
  /-- A single attribute changed. -/
  | altered (group : GroupName) (key : String)
  | toggled (group : GroupName) (enabled : Bool)
  | removed (group : GroupName)
  deriving DecidableEq

/-- Notices that wait for their reader. Only so many are kept. -/
structure EventQueue where
  waiting : List Event
  /-- How many notices were dropped unread. -/
  lost : Nat
  deriving DecidableEq

namespace EventQueue

/-- How many notices may wait. -/
def capacity : Nat := 64

def empty : EventQueue := ⟨[], 0⟩

/-- Add a notice. The oldest one makes room if there is none. -/
def push (q : EventQueue) (event : Event) : EventQueue :=
  let waiting := q.waiting ++ [event]
  if waiting.length ≤ capacity then ⟨waiting, q.lost⟩ else ⟨waiting.drop 1, q.lost + 1⟩

end EventQueue
end Accounts
