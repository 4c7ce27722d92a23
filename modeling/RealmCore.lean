import RealmCore.Lib.Run
import RealmCore.Lib.EraseRemove
import RealmCore.Lib.Binary64
import RealmCore.Lib.Binary32
import RealmCore.Lib.AListModify
import RealmCore.Lib.RefTree
import RealmCore.Lib.LowerBound
import RealmCore.ObjKey
import RealmCore.Mixed
import RealmCore.MixedHash
import RealmCore.Collection.Set
import RealmCore.Index.StringIndex
import RealmCore.Index.Column
import RealmCore.Sync.ClientHistory
import RealmCore.Sync.Trim
import RealmCore.Sync.Upload
import RealmCore.Lib.Chunk
import RealmCore.Lib.MultiMap
import RealmCore.Alloc.Sections
import RealmCore.Alloc.GroupWriter
import RealmCore.Hnsw.Basic
import RealmCore.Hnsw.Search
import RealmCore.Hnsw.Ops
import RealmCore.Hnsw.Frame
import RealmCore.Hnsw.KeyMap
import RealmCore.Hnsw.EntryPoint
import RealmCore.Hnsw.Graph
import RealmCore.Hnsw.Storage
import RealmCore.Hnsw.Query
import RealmCore.Hnsw.Reopen
import RealmCore.Alloc.FreeSpace
import RealmCore.Hnsw.LayerSearch
import RealmCore.Hnsw.ExactKnn
import RealmCore.Hnsw.Greedy
import RealmCore.Hnsw.Radius
import RealmCore.Hnsw.VectorQuery
import RealmCore.Hnsw.Writes
import RealmCore.Table.Tombstone
import RealmCore.BPlusTree.Tree
import RealmCore.Lib.RunningTotals
import RealmCore.Lib.Decoder
import RealmCore.Sync.IntegerCodec
import RealmCore.Sync.Instruction
import RealmCore.Sync.ChangesetEncoder
import RealmCore.Sync.ChangesetParser
import RealmCore.Sync.ChangesetDecoding
import RealmCore.Sync.ChangesetRoundTrip
import RealmCore.Sync.FixUp
import RealmCore.Impl.TransactLog
import RealmCore.Impl.TransactLogRoundTrip
import RealmCore.Hnsw.LoopTermination
import RealmCore.Array.Direct
import RealmCore.Hnsw.Prune
import RealmCore.Alloc.ReadOnlyFree
import RealmCore.Lib.ZipLookup
import RealmCore.Collection.Dictionary
import RealmCore.Lib.ByteCopy
import RealmCore.Array.StringShort
import RealmCore.Array.Blobs
import RealmCore.Array.String
import RealmCore.Lib.BitField
import RealmCore.Array.DirectAccess
import RealmCore.Util.Base64
import RealmCore.ObjectStore.IndexSet
import RealmCore.Lib.Components
import RealmCore.Sync.IndexRanges
import RealmCore.Sync.ChangesetIndex
import RealmCore.Sync.ChangesetIndexRun
import RealmCore.Lib.ListSource
import RealmCore.Lib.Transform
import RealmCore.Sync.ArrayApply
import RealmCore.Sync.ArrayMerge
import RealmCore.Sync.ArrayTransform
import RealmCore.BPlusTree.Erase
import RealmCore.BPlusTree.Read
