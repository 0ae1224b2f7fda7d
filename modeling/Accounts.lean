import Accounts.Text.Space
import Accounts.Text.Cut
import Accounts.Text.Lines
import Accounts.Text.Decimal
import Accounts.Text.Quoted
import Accounts.Text.Json
import Accounts.SortedMap.Lemmas
import Accounts.Error
import Accounts.GroupName.Basic
import Accounts.Value
import Accounts.KeyFile.Basic
import Accounts.Secret.Backend
import Accounts.Registry.Check
import Accounts.Registry.Open
import Accounts.Scenario.Session
import Accounts.Main
import Accounts.Proofs.GroupName
import Accounts.Proofs.Identifier
import Accounts.Proofs.KeyFile.Line
import Accounts.Proofs.KeyFile.RoundTrip
import Accounts.Proofs.KeyFile.Format
import Accounts.Proofs.Process
import Accounts.Proofs.Atomic
import Accounts.Proofs.Registry.Basic
import Accounts.Proofs.Registry.Operation
import Accounts.Proofs.Registry.Intact
import Accounts.Proofs.Registry.Confidentiality
import Accounts.Proofs.Registry.Entries
import Accounts.Proofs.Calm
import Accounts.Proofs.Registry.Calm
import Accounts.Proofs.Registry.Recovery
import Accounts.Proofs.Registry.Crash
import Accounts.Proofs.Registry.CrashConsistency
import Accounts.Proofs.Registry.Ledger
import Accounts.Proofs.Registry.View
import Accounts.Proofs.Registry.Refinement
import Accounts.Proofs.Registry.Reopening
import Accounts.Proofs.Registry.Removal
import Accounts.Proofs.Registry.Orphans
import Accounts.Proofs.Registry.History
import Accounts.Proofs.Dump
import Accounts.Proofs.Registry.LiveView
import Accounts.Proofs.Registry.Secrecy
import Accounts.Proofs.Registry.Survival
import Accounts.Proofs.Registry.Leftovers
import Accounts.Proofs.Registry.Notices
import Accounts.Proofs.Registry.Replay
import Accounts.Proofs.Store
import Accounts.Proofs.Secret.IssueOrder
import Accounts.Proofs.Scenario.Turns
import Accounts.Proofs.Ongoing
import Accounts.Proofs.Registry.LateCalls
import Accounts.Proofs.Scenario.LateCalls
import Accounts.Proofs.Scenario.Reopening
import Accounts.Proofs.Value
import Accounts.Proofs.Registry.Allocation
import Accounts.Proofs.Registry.Retention
import Accounts.Proofs.Registry.Founding
import Accounts.Proofs.Registry.Owners
import Accounts.Proofs.Registry.Equivalence
import Accounts.Proofs.Registry.Duplicates
import Accounts.Proofs.Success
import Accounts.Proofs.Registry.CleanUp
import Accounts.Proofs.Registry.Idempotence
import Accounts.Proofs.Account
import Accounts.Proofs.Registry.Snapshot
import Accounts.Proofs.GroupOrder
import Accounts.Proofs.Listing
import Accounts.Proofs.BlankGroups
import Accounts.Proofs.CollectionFile
import Accounts.Proofs.Machine.Files
import Accounts.Proofs.Machine.Collection
import Accounts.Proofs.Scenario.Service
