import BeehiveIm.Core.RbTree.Run
import BeehiveIm.Core.RbTree.Walk
import BeehiveIm.Core.HashTab.Run
import BeehiveIm.Core.AvlTree.Run
import BeehiveIm.Core.Mref
import BeehiveIm.Core.List2
import BeehiveIm.Core.ShmHash.Run
import BeehiveIm.Core.LinkList
import BeehiveIm.Core.MemSegRef.Run
import BeehiveIm.Core.Trie
import BeehiveIm.Listend.ConnList
import BeehiveIm.Listend.Active
import BeehiveIm.Rtmq.Framing.Stream
import BeehiveIm.Rtmq.RecvBuff
import BeehiveIm.Rtmq.SubTab.Groups
import BeehiveIm.Rtmq.SubTab.Lists
import BeehiveIm.Rtmq.SubTab.Runs
import BeehiveIm.Rtmq.Server.Follows
import BeehiveIm.Rtmq.Server.Routes
import BeehiveIm.Core.Ring.Lanes
import BeehiveIm.Access.Kick
import BeehiveIm.Seqsvr.Section
import BeehiveIm.Seqsvr.Query
import BeehiveIm.GoChat.Run
import BeehiveIm.GoChat.Sid2cid
import BeehiveIm.Chat.Agree
import BeehiveIm.Chat.Clean
import BeehiveIm.Chat.Subs
import BeehiveIm.Chat.Broadcast
import BeehiveIm.Chat.Locks.Given
import BeehiveIm.GoChat.Ghost
import BeehiveIm.Session.Index
import BeehiveIm.Session.Stale
import BeehiveIm.Access.Recv.Bounds
import BeehiveIm.Access.Recv.Packets
import BeehiveIm.Core.Iovec.Sent
import BeehiveIm.Core.Timer
import BeehiveIm.Core.Mref.Freed
import BeehiveIm.ThriftPool
import BeehiveIm.Rtmq.Proxy.Early
import BeehiveIm.Rtmq.Auth
import BeehiveIm.Groups.Banned
import BeehiveIm.Room.Kicked
import BeehiveIm.Room.Sweeps
import BeehiveIm.Room.Create
import BeehiveIm.Room.OpenState
import BeehiveIm.Room.Members
import BeehiveIm.Sdk.Lifecycle.Runs
import BeehiveIm.Sdk.Recv.Frames
import BeehiveIm.Sdk.Vector
import BeehiveIm.Sdk.ConnInfo
import BeehiveIm.Sdk.Online
import BeehiveIm.Sdk.Clean
import BeehiveIm.Sdk.Order.Handed
import BeehiveIm.Access.Send.Sent
import BeehiveIm.Xml.Runs
import BeehiveIm.Xml.Prune.Walk
import BeehiveIm.Xml.Depth
import BeehiveIm.Xml.RoundTrip
import BeehiveIm.Core.Btree.Run
import BeehiveIm.Core.QuickSort
import BeehiveIm.Core.LocalTime
import BeehiveIm.Core.SigQueue
import BeehiveIm.Core.Log
import BeehiveIm.Lib.Locks
import BeehiveIm.Groups.Authority
import BeehiveIm.Room.Authority
import BeehiveIm.Relations.Authority
import BeehiveIm.Relations.Effect
import BeehiveIm.Moderation.Governs
import BeehiveIm.Monitor
import BeehiveIm.Monitor.Reports
import BeehiveIm.Offline
import BeehiveIm.Usrsvr.Kicks
import BeehiveIm.Websocket.Sender
import BeehiveIm.Websocket.Lws
import BeehiveIm.Rtmq.Framing.Inside
import BeehiveIm.Relay
import BeehiveIm.Access.Timeout
import BeehiveIm.Tasker
import BeehiveIm.Core.Vec
import BeehiveIm.Usrsvr.ListendList
import BeehiveIm.IpDict
import BeehiveIm.Core.Iplist
import BeehiveIm.Usrsvr.Iplist
import BeehiveIm.Token
import BeehiveIm.Rtmq.Proxy.Stream
