import LibShv.AccessGrant
import LibShv.AclManager.Access
import LibShv.AclManager.Caches
import LibShv.AclManager.Spelling
import LibShv.BrokerApp
import LibShv.BrokerApp.Signals
import LibShv.BrokerApp.SlaveBrokers
import LibShv.ChainPack
import LibShv.ChainPackReader.Path
import LibShv.Cpon
import LibShv.Crc32
import LibShv.CurrentClientShvNode
import LibShv.GetLog.Paging
import LibShv.GetLog.Reading
import LibShv.GetLog.RecordCountLimit
import LibShv.GetLog.Result
import LibShv.Lib.Batch
import LibShv.Lib.Replay
import LibShv.RpcCall
import LibShv.RpcFrame.Decoding
import LibShv.RpcFrame.RoundTrip
import LibShv.RpcFrame.Total
import LibShv.RpcMessage.CallerIds
import LibShv.SerialFrameReader
import LibShv.SerialFrameReader.Delivered
import LibShv.SerialFrameReader.Lossless
import LibShv.SerialFrameWriter
import LibShv.SocketRpcDriver
import LibShv.StreamFrameWriter
import LibShv.ClientConnectionOnBroker
import LibShv.AccessAclNode
import LibShv.ShvNode
import LibShv.ShvNode.Dispatch
import LibShv.ShvJournalFile
import LibShv.ShvFileJournal
import LibShv.GetLog.Checkpoint
import LibShv.ShvFileJournal.Checkpoints
import LibShv.ShvFileJournal.NewestFile
import LibShv.ShvFileJournal.Remembers
import LibShv.Lib.CowHeap
import LibShv.RpcValueMapNode
import LibShv.RpcValue.Compare
import LibShv.RpcValueConfigNode
import LibShv.AclManagerSqlite
import LibShv.CponWriter.PlainText
import LibShv.ShvJournalFile.RoundTrip
import LibShv.LocalFSNode
import LibShv.QString
import LibShv.Lib.CleanPath
import LibShv.LocalFSNode.Bounded
import LibShv.BrokerApp.ClientLogin
import LibShv.AclManagerSqlite.Definitions
import LibShv.AclManagerSqlite.Survival
import LibShv.Lib.CallGraph
import LibShv.Lib.Fueled
import LibShv.ShvTypeInfo
import LibShv.ShvTypeInfo.Termination
import LibShv.Lib.PathTable
import LibShv.ShvTypeInfo.NodesTree
import LibShv.ShvTypeInfo.Deviations
import LibShv.ShvTypeInfo.Layout
import LibShv.ShvTypeInfo.PathInfo
import LibShv.ShvTypeInfo.ReadBack
import LibShv.CChainPack.Codec
import LibShv.Lib.Chunks
import LibShv.CCpcp.Calls
import LibShv.CChainPack.Payload
import LibShv.CCpon.Payload
import LibShv.CCpon.Literals
import LibShv.ClientConnection.LoginParams
import LibShv.ClientConnection.BrokerConnected
import LibShv.ClientConnectionOnBroker.LoginAnswer
import LibShv.DChainPack.Agree
import LibShv.Lib.Calendar
import LibShv.CCpon.Calendar
import LibShv.CCpon.DateTime
import LibShv.CCpon.Comments
import LibShv.RpcValue.DateTimeParts
import LibShv.CCpcp.ContainerStack
import LibShv.RpcValue.Decimals
import LibShv.RpcValue.Equality
import LibShv.Lib.Memory
import LibShv.CCpcp.PackContext
import LibShv.CCpcp.Buffering
import LibShv.CCpon.DecimalText
import LibShv.CCpon.Accumulator
import LibShv.CCpon.Overlong
import LibShv.Lib.Binary64
import LibShv.RpcValue.DecimalOrder
import LibShv.DataChange
import LibShv.MetaMethod
import LibShv.CommonRpcClientHandle.RejectSignal
import LibShv.CommonRpcClientHandle.Slashes
import LibShv.Crc32.Polynomial
import LibShv.ShvPath.JoinSplit
import LibShv.ShvPath.MatchWild
import LibShv.Lib.UpperBound
import LibShv.ShvFileJournal.Bookkeeping
import LibShv.ShvMemoryJournal
import LibShv.Crypt
import LibShv.LocalFSNode.Read
import LibShv.ShvNode.MethodTables
import LibShv.ShvPath.ForEachDir
import LibShv.ShvTypeInfo.Bitfield
import LibShv.TunnelSecretList
import LibShv.ShvTypeInfo.TypeDescr
import LibShv.GetLog.ShvLogFilter
import LibShv.ShvFileJournal.Retry
import LibShv.ShvFileJournal.LastEntry
import LibShv.Utils
import LibShv.IRpcConnection
import LibShv.GraphModel
import LibShv.CoreQt.RpcSqlResult
import LibShv.CLIOptions.Pairs
import LibShv.CoreQt.JsonExport
import LibShv.DCpon.Nesting
import LibShv.SerialFrameReader.Damaged
import LibShv.RpcDriver
import LibShv.RpcDriver.Relay
import LibShv.SocketRpcDriver.Writing
import LibShv.Utils.MergeMaps
import LibShv.AclManager.UserProfile
import LibShv.ShvFileJournal.Values
import LibShv.AclManager.ConfigFiles
import LibShv.CCpcp.Convert
