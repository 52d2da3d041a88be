import Icehydra.Lib.Transfer
import Icehydra.Lib.Block
import Icehydra.Lib.Runs
import Icehydra.Lib.Cursor
import Icehydra.Lib.Ring
import Icehydra.Protocol
import Icehydra.Socket
import Icehydra.Framing
import Icehydra.Kernel
import Icehydra.Conf
import Icehydra.Relay
import Icehydra.Main
import Icehydra.Client
import Icehydra.Steps
import Icehydra.Broadcast
import Icehydra.Invariants
import Icehydra.Bounds
import Icehydra.Attachment
import Icehydra.Disconnect
import Icehydra.Streams
import Icehydra.Table
import Icehydra.Delivery
import Icehydra.Interference
import Icehydra.Inbound
import Icehydra.Discovery
import Icehydra.ShmInfos
import Icehydra.Boundary
import Icehydra.ConfFile
import Icehydra.ConfText
import Icehydra.ConfList
import Icehydra.Loops
import Icehydra.Addressing
import Icehydra.Writing
import Icehydra.ShmTable
import Icehydra.Replies
import Icehydra.Status
import Icehydra.Names
import Icehydra.ShmByName
import Icehydra.Keys
import Icehydra.NodeFields
import Icehydra.CJsonNumber
import Icehydra.CJsonString
import Icehydra.CJsonParse
import Icehydra.CJsonDocument
import Icehydra.ConfDocument
import Icehydra.NodeList
import Icehydra.Lib.SharedBlocks
import Icehydra.ShmManager
import Icehydra.ShmLoad
import Icehydra.ShmMade
import Icehydra.ShmRuns
import Icehydra.Lib.PrefixCode
import Icehydra.Process
import Icehydra.Answers
import Icehydra.Network
import Icehydra.Settled
