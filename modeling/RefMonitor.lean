import RefMonitor.Capability.Authorize
import RefMonitor.Capability.Basic
import RefMonitor.Capability.Held
import RefMonitor.Capability.Wire
import RefMonitor.Console
import RefMonitor.Cursor
import RefMonitor.Fetch
import RefMonitor.Frame
import RefMonitor.Host
import RefMonitor.Kernel.Administration
import RefMonitor.Kernel.Basic
import RefMonitor.Kernel.Invariant
import RefMonitor.Kernel.Journal
import RefMonitor.Kernel.Report
import RefMonitor.Kernel.Run
import RefMonitor.Key
import RefMonitor.Log
import RefMonitor.Operation
import RefMonitor.Program
import RefMonitor.Proofs.Activity
import RefMonitor.Proofs.Amplification
import RefMonitor.Proofs.Authority
import RefMonitor.Proofs.Block
import RefMonitor.Proofs.Bounds
import RefMonitor.Proofs.Budget
import RefMonitor.Proofs.Calling
import RefMonitor.Proofs.Checker
import RefMonitor.Proofs.Confinement
import RefMonitor.Proofs.Containment
import RefMonitor.Proofs.Custody
import RefMonitor.Proofs.Decision
import RefMonitor.Proofs.Delegation
import RefMonitor.Proofs.Deployment
import RefMonitor.Proofs.EntryPointer
import RefMonitor.Proofs.Fidelity
import RefMonitor.Proofs.FirstFault
import RefMonitor.Proofs.Forwarding
import RefMonitor.Proofs.FrameOrder
import RefMonitor.Proofs.Inertness
import RefMonitor.Proofs.Isolation
import RefMonitor.Proofs.KeyName
import RefMonitor.Proofs.KeyOrder
import RefMonitor.Proofs.KeyWord
import RefMonitor.Proofs.Mediation
import RefMonitor.Proofs.Nesting
import RefMonitor.Proofs.Newest
import RefMonitor.Proofs.PayloadWords
import RefMonitor.Proofs.Rebinding
import RefMonitor.Proofs.Record
import RefMonitor.Proofs.Rejection
import RefMonitor.Proofs.RosterView
import RefMonitor.Proofs.Scan
import RefMonitor.Proofs.Session
import RefMonitor.Proofs.Soundness
import RefMonitor.Proofs.Spooling
import RefMonitor.Proofs.TableHistory
import RefMonitor.Proofs.TableInvariant
import RefMonitor.Proofs.Termination
import RefMonitor.Proofs.Trace
import RefMonitor.Proofs.Truncation
import RefMonitor.Proofs.WordArithmetic
import RefMonitor.Proofs.WordNumber
import RefMonitor.Proofs.WordOrder
import RefMonitor.Proofs.WordText
import RefMonitor.Radix
import RefMonitor.Result
import RefMonitor.Script.Compile
import RefMonitor.Script.Syntax
import RefMonitor.Sha256
import RefMonitor.Spool
import RefMonitor.Syscall
import RefMonitor.Table.Basic
import RefMonitor.Table.Roster
import RefMonitor.Table.Wire
import RefMonitor.Text
import RefMonitor.Word
