import Encoders.Lib.Run
import Encoders.Lib.SortedAssoc
import Encoders.Lib.Slice
import Encoders.Lib.Text
import Encoders.Lib.Tiling
import Encoders.Lib.CString
import Encoders.Lib.Comparison
import Encoders.Lib.InTurn
import Encoders.Lib.Hasse
import Encoders.Lib.HasseSteps
import Encoders.Lib.HasseInsert
import Encoders.Lib.Worklist
import Encoders.Lib.Ring
import Encoders.Lib.CMemory
import Encoders.Lib.HeapOrder
import Encoders.Lib.Greedy
import Encoders.Bloom.Filter
import Encoders.Bloom.Counting
import Encoders.Codec.Base64
import Encoders.Bloom.Convert
import Encoders.Lib.Double
import Encoders.Lib.Elimination
import Encoders.Lib.RowSpan
import Encoders.Lib.Grouped
import Encoders.Lib.EraseWalk
import Encoders.Lib.Lexicographic
import Encoders.Coding.Galois
import Encoders.Coding.NC
import Encoders.Coding.CodeTorrent
import Encoders.Coding.EndToEnd
import Encoders.Coding.Generations
import Encoders.Coding.Innovation
import Encoders.Container.Map
import Encoders.Container.MapProof
import Encoders.Container.MultiMap
import Encoders.Container.HashMap
import Encoders.Container.HashMapWalk
import Encoders.Container.HashMapRun
import Encoders.Container.Heap
import Encoders.Container.HeapTies
import Encoders.Container.HeapMemory
import Encoders.Container.MapArray
import Encoders.Container.LinkedList
import Encoders.Container.ListRefines
import Encoders.Container.Reference
import Encoders.Container.ReferenceCounts
import Encoders.Container.ReferenceRun
import Encoders.Text.StringBuffer
import Encoders.Text.StringRefines
import Encoders.Text.StringExact
import Encoders.Text.StringFind
import Encoders.Fragment.Utility
import Encoders.Fragment.Tiling
import Encoders.Fragment.Storage
import Encoders.Fragment.StorageProof
import Encoders.Fragment.Retention
import Encoders.Fragment.EndToEnd
import Encoders.Data.Timeval
import Encoders.Data.TimeArithmetic
import Encoders.Data.Object
import Encoders.Data.Identity
import Encoders.Data.Attributes
import Encoders.Data.Wire
import Encoders.Data.PutData
import Encoders.Data.Retrieve
import Encoders.Data.Create
import Encoders.Data.NodeDescription
import Encoders.Protocol.Receive
import Encoders.Protocol.Datagram
import Encoders.Protocol.Conclude
import Encoders.Protocol.Run
import Encoders.Store.Table
import Encoders.Store.MemoryCache
import Encoders.Store.Matching
import Encoders.Store.Contents
import Encoders.Store.Index
import Encoders.Store.Compact
import Encoders.Store.Queries
import Encoders.Store.Symmetry
import Encoders.Store.DataStore
import Encoders.Store.StoreLaw
import Encoders.Store.NodesQuery
import Encoders.Store.Newest
import Encoders.Store.Registry
import Encoders.Store.Naive
import Encoders.Store.Repository
import Encoders.Send.Order
import Encoders.Send.Combiner
import Encoders.Send.Sorter
import Encoders.Send.Sound
import Encoders.Send.Strands
import Encoders.Send.AddElement
import Encoders.Send.Priority
import Encoders.Send.Queue
import Encoders.Send.QueueAccounts
import Encoders.Send.Fifo
import Encoders.Cache.TotalOrder
import Encoders.Cache.Knapsack
import Encoders.Cache.Greedy
import Encoders.Cache.Utility
import Encoders.Cache.Priority
import Encoders.Cache.Scratchpad
import Encoders.Cache.LruK
import Encoders.Kernel.EventQueue
import Encoders.Kernel.LocalFilter
import Encoders.Interest.Aggregate
import Encoders.Interest.RoundTrip
import Encoders.Lib.Acyclic
import Encoders.Connectivity.InterfaceStore
import Encoders.Connectivity.Forest
import Encoders.Connectivity.Removal
import Encoders.Connectivity.InterfaceOrder
import Encoders.Bloom.Merge
import Encoders.Bloom.Plain
import Encoders.Protocol.NoControl
import Encoders.Bloom.Exact
import Encoders.Replication.ObjectState
import Encoders.Replication.Loops
import Encoders.Replication.Agree
import Encoders.Replication.ConcurrentSend
import Encoders.Replication.ManagerUtility
import Encoders.Replication.Tokens
import Encoders.Replication.Knapsack
import Encoders.Nodes.NodeStore
import Encoders.Nodes.Unique
import Encoders.Nodes.Continuity
import Encoders.Nodes.NodeManager
import Encoders.Nodes.Dates
import Encoders.Nodes.SocialGroups
import Encoders.Forwarding.Contacts
import Encoders.Forwarding.Prophet
import Encoders.Forwarding.RoutingUpdates
import Encoders.Forwarding.SendList
import Encoders.Coding.BlockObject
import Encoders.Coding.DecoderService
import Encoders.Coding.Decoding
import Encoders.Coding.Reconstruction
import Encoders.Coding.Arrival
import Encoders.Coding.Completion
import Encoders.Coding.Payload
import Encoders.Coding.FragmentConversion
import Encoders.Coding.AgeOff
import Encoders.Coding.Spill
import Encoders.Coding.Configuration
import Encoders.Kernel.Delivery
import Encoders.Protocol.Send
import Encoders.Security.SecurityManager
import Encoders.Security.Trust
import Encoders.Security.Acceptance
