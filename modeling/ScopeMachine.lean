import ScopeMachine.Text.Basic
import ScopeMachine.Text.Utf8
import ScopeMachine.Decimal.Binary
import ScopeMachine.Decimal.General
import ScopeMachine.Settings
import ScopeMachine.Types.Store
import ScopeMachine.Member
import ScopeMachine.Code
import ScopeMachine.Scope.Listing
import ScopeMachine.Scope.Store
import ScopeMachine.Stream.Channels
import ScopeMachine.Trace.Render
import ScopeMachine.Member.Tables
import ScopeMachine.Session
import ScopeMachine.Proofs.Agreement
import ScopeMachine.Proofs.Reach
import ScopeMachine.Proofs.Types.Renaming
import ScopeMachine.Proofs.Simulation.Basic
import ScopeMachine.Proofs.Simulation.Members
import ScopeMachine.Proofs.Simulation.Run
import ScopeMachine.Proofs.Simulation.Invariant
import ScopeMachine.Proofs.Simulation.Reach
import ScopeMachine.Proofs.Types.Following
import ScopeMachine.Proofs.Types.Grounded
import ScopeMachine.Proofs.Tracing
import ScopeMachine.Proofs.Scopes.Order
import ScopeMachine.Proofs.Scopes.Reachable
import ScopeMachine.Proofs.Scopes.Requests
import ScopeMachine.Proofs.Scopes.Dictionary
import ScopeMachine.Proofs.Scopes.Walk
import ScopeMachine.Proofs.Text.ByteOrder
import ScopeMachine.Proofs.Layout.Counterpart
import ScopeMachine.Proofs.Layout.Renaming
import ScopeMachine.Proofs.Layout.Independence
import ScopeMachine.Proofs.Stack.Carries
import ScopeMachine.Proofs.Stack.Operations
import ScopeMachine.Proofs.Stack.Discipline
import ScopeMachine.Proofs.Frames
import ScopeMachine.Proofs.Isolation
import ScopeMachine.Proofs.Stepping
import ScopeMachine.Proofs.Termination
import ScopeMachine.Proofs.Scopes.KeyOrder
import ScopeMachine.Proofs.Forwarding
import ScopeMachine.Proofs.Serving
import ScopeMachine.Proofs.Stores
import ScopeMachine.Proofs.Unwinding
import ScopeMachine.Proofs.DepthLimits
import ScopeMachine.Proofs.Scopes.Addressing
import ScopeMachine.Proofs.Errors.Allowance
import ScopeMachine.Proofs.Errors.Runs
import ScopeMachine.Proofs.AddressedRuns
import ScopeMachine.Proofs.Members.Installing
import ScopeMachine.Proofs.Sessions
import ScopeMachine.Proofs.InRange
import ScopeMachine.Proofs.Streams.Requests
import ScopeMachine.Proofs.Streams.Histories
import ScopeMachine.Proofs.Members.Growth
import ScopeMachine.Proofs.Members.Entries
import ScopeMachine.Proofs.Members.Entering
import ScopeMachine.Proofs.Members.AllOrNothing
import ScopeMachine.Proofs.Scopes.Retained
import ScopeMachine.Proofs.Members.Lookups
import ScopeMachine.Proofs.Sending
import ScopeMachine.Proofs.Announcements
import ScopeMachine.Proofs.Text.RoundTrip
import ScopeMachine.Proofs.Text.Widening
import ScopeMachine.Proofs.Streams.Transfers
import ScopeMachine.Proofs.Members.Streams
import ScopeMachine.Proofs.Streams.Lines
import ScopeMachine.Proofs.Streams.FileData
import ScopeMachine.Proofs.Decimal.Nearest
import ScopeMachine.Proofs.Decimal.Numerals
import ScopeMachine.Proofs.Decimal.Layout
import ScopeMachine.Proofs.Decimal.General
import ScopeMachine.Proofs.Expressions
import ScopeMachine.Proofs.Arguments
import ScopeMachine.Proofs.Scopes.Capacities
import ScopeMachine.Proofs.Scopes.Rows
import ScopeMachine.Proofs.Scopes.ReadingRows
import ScopeMachine.Proofs.Scopes.Listings
import ScopeMachine.Proofs.Members.Buffers
import ScopeMachine.Proofs.Types.Constants
import ScopeMachine.Proofs.Text.Parts
import ScopeMachine.Proofs.FlagLists
import ScopeMachine.Proofs.Types.Chains
