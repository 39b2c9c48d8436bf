import Unwind.Architecture
import Unwind.Description
import Unwind.Host
import Unwind.Mangling
import Unwind.Proofs.FrameMachine.Simulation
import Unwind.Proofs.RuleTable.Lookup
import Unwind.Proofs.Walk.Stack
import Unwind.Proofs.RuleTable.Order
import Unwind.Proofs.RuleTable.Skipping
import Unwind.Proofs.FrameRecord.Decode
import Unwind.Proofs.Placement.Reader
import Unwind.Proofs.Placement.Records
import Unwind.Proofs.Placement.Rules
import Unwind.Proofs.Placement.Table
import Unwind.Proofs.Snapshot.Threads
import Unwind.Proofs.Traceback
import Unwind.Proofs.Signals
import Unwind.Proofs.Description
import Unwind.Proofs.FrameHeader
import Unwind.Proofs.RuleTable.Separation
import Unwind.Proofs.RuleTable.Window
import Unwind.Proofs.Recovery
import Unwind.Proofs.Walk.Run
import Unwind.Proofs.CodeMap
import Unwind.Proofs.Walk.Ruling
import Unwind.Proofs.PcExpression
import Unwind.Proofs.FrameMachine.Untracked
import Unwind.Proofs.FrameMachine.FramePointer
import Unwind.Proofs.FrameMachine.Exact
import Unwind.Proofs.FrameHeader.Truncated
import Unwind.Proofs.Walk.Progress
import Unwind.Proofs.RuleTable.Minimal
import Unwind.Proofs.Walk.Looser
import Unwind.Proofs.Symbol
import Unwind.Proofs.LoadedObject
import Unwind.Proofs.Pointer.RoundTrip
import Unwind.Proofs.Leb128.Outcome
import Unwind.Proofs.Reader.Inside
import Unwind.Proofs.Settings
