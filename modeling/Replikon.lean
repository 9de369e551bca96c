import Replikon.Foundation.ByteFraming
import Replikon.Foundation.SortedMap
import Replikon.Foundation.Grouping
import Replikon.Foundation.Joins
import Replikon.Foundation.Spans
import Replikon.Foundation.Runs
import Replikon.Foundation.Prefixes
import Replikon.Foundation.Codec
import Replikon.Foundation.KeyedTable
import Replikon.Foundation.AtomicWrites
import Replikon.Foundation.Guarantees
import Replikon.Foundation.Coupling
import Replikon.Foundation.Gossip
import Replikon.Foundation.Ownership
import Replikon.Foundation.Clients
import Replikon.Model.Types
import Replikon.Model.Serde
import Replikon.Model.Sql
import Replikon.Model.Tables
import Replikon.Model.Program
import Replikon.Model.MessagesDao
import Replikon.Model.SecurityDao
import Replikon.Model.SecurityProvider
import Replikon.Model.Intervals
import Replikon.Model.Log
import Replikon.Model.KeysCrdt
import Replikon.Model.KeysTemplate
import Replikon.Model.MapCrdt
import Replikon.Model.Serializer
import Replikon.Model.BufferView
import Replikon.Model.Formats
import Replikon.Model.Instance
import Replikon.Model.Application
import Replikon.Model.Clients
import Replikon.Model.Statements
import Replikon.Refinement.IntervalDifference
import Replikon.Refinement.SweepArithmetic
import Replikon.Refinement.Headers
import Replikon.Refinement.Merge
import Replikon.Refinement.Requests
import Replikon.Refinement.Pull
import Replikon.Refinement.MergeLaws
import Replikon.Refinement.StoredText
import Replikon.Refinement.MapConvergence
import Replikon.Refinement.RoundTrip
import Replikon.Refinement.Authenticity
import Replikon.Refinement.KeyBinding
import Replikon.Refinement.ProtocolOverlap
import Replikon.Refinement.Directory
import Replikon.Refinement.Propagation
import Replikon.Refinement.Admins
import Replikon.Refinement.Versions
import Replikon.Refinement.KeyConvergence
import Replikon.Refinement.Interruptions
import Replikon.Refinement.AllOrNothing
import Replikon.Refinement.PeerInput
import Replikon.Refinement.SafeDecoding
import Replikon.Refinement.Truncation
import Replikon.Refinement.VectorCodec
import Replikon.Refinement.CanonicalForms
import Replikon.Refinement.RunLengths
import Replikon.Refinement.ExactAnswers
import Replikon.Refinement.FailedQueries
import Replikon.Refinement.MergeStatus
import Replikon.Refinement.KeyPairs
import Replikon.Refinement.IntervalGuard
import Replikon.Refinement.MapReads
import Replikon.Refinement.MapPull
import Replikon.Refinement.Clients
import Replikon.Refinement.Changes
import Replikon.Refinement.Construction
import Replikon.Refinement.Durability
import Replikon.Refinement.Views
import Replikon.Refinement.Independence
import Replikon.Refinement.Calls
import Replikon.Refinement.Refusals
import Replikon.Refinement.RepeatedRows
import Replikon.Refinement.FaultyMerges
import Replikon.Refinement.Undisturbed
import Replikon.Refinement.InterruptedPulls
import Replikon.Refinement.Statements
import Replikon.Refinement.Lifetimes
import Replikon.Network.Delivery
import Replikon.Network.PrefixAgreement
import Replikon.Network.HeaderSafety
import Replikon.Network.FreshLamports
import Replikon.Network.MapExchange
import Replikon.Network.CausalDelivery
import Replikon.Network.Convergence
import Replikon.Network.Interleavings
import Replikon.Network.SplitPulls
import Replikon.Network.Outsiders
import Replikon.Network.FaultyAdditions
import Replikon.Application.TwoPeers
import Replikon.Application.RepeatedRuns
