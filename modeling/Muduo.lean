import Muduo.Lib.Runs
import Muduo.Lib.BinHeap
import Muduo.Lib.IndexMap
import Muduo.Lib.Region
import Muduo.Lib.Tiling
import Muduo.Lib.FdTable
import Muduo.Lib.FreeList
import Muduo.Lib.CondVar
import Muduo.Lib.Chunks
import Muduo.Lib.Shares
import Muduo.Lib.BigEndian
import Muduo.Lib.Text
import Muduo.Lib.RoundRobin
import Muduo.Lib.Mailbox
import Muduo.Buffer.Model
import Muduo.Buffer.Queue
import Muduo.Buffer.Refine
import Muduo.Buffer.Memory
import Muduo.Buffer.Ints
import Muduo.InetAddr.Model
import Muduo.InetAddr.IpPort
import Muduo.Poller.Channel
import Muduo.Poller.Model
import Muduo.Poller.Table
import Muduo.Poller.Active
import Muduo.Poller.Interest
import Muduo.Connection.Model
import Muduo.Connection.Stream
import Muduo.Connection.Calls
import Muduo.Connection.Shutdown
import Muduo.Timer.Model
import Muduo.Timer.Table
import Muduo.Timer.Expire
import Muduo.Timer.Queue
import Muduo.Timer.Iteration
import Muduo.Timer.Course
import Muduo.Timer.History
import Muduo.Timer.Deadline
import Muduo.Timer.InOrder
import Muduo.Timer.Terminate
import Muduo.Timer.Calls
import Muduo.Timer.Cancel
import Muduo.Timer.Arm
import Muduo.Timer.Ids
import Muduo.MemPool.Model
import Muduo.MemPool.Carve
import Muduo.MemPool.Reserve
import Muduo.MemPool.Whole
import Muduo.MemPool.Throw
import Muduo.MemPool.Areas
import Muduo.MemPool.Steady
import Muduo.EventLoop.Model
import Muduo.EventLoop.Ledger
import Muduo.EventLoop.Wakeup
import Muduo.EventLoop.Quit
import Muduo.EventLoop.Response
import Muduo.LoopThread.Model
import Muduo.LoopThread.Join
import Muduo.LoopThread.Handshake
import Muduo.ThreadPool.Model
import Muduo.ThreadPool.Bound
import Muduo.ThreadPool.Stranded
import Muduo.ThreadPool.Workers
import Muduo.ThreadPool.Stop
import Muduo.Connector.Model
import Muduo.Connector.Sockets
import Muduo.Connector.Attempts
import Muduo.Connector.Backoff
import Muduo.Client.Model
import Muduo.Client.Control
import Muduo.Client.Names
import Muduo.Client.Restart
import Muduo.Client.Attempts
import Muduo.Client.Orphan
import Muduo.Acceptor.Descriptors
import Muduo.Acceptor.Model
import Muduo.Acceptor.Reserve
import Muduo.AsyncLog.Model
import Muduo.AsyncLog.Queue
import Muduo.AsyncLog.Drops
import Muduo.AsyncLog.Pointers
import Muduo.AsyncLog.Wait
import Muduo.AsyncLog.Stop
import Muduo.LogFile.Model
import Muduo.LogFile.RollSize
import Muduo.LogFile.Spacing
import Muduo.LogFile.Days
import Muduo.Logging.Model
import Muduo.Logging.Framing
import Muduo.Server.Model
import Muduo.Server.Life
import Muduo.Server.Dues
import Muduo.Server.Effect
import Muduo.Server.LifeCycle
import Muduo.Server.Destroy
import Muduo.Server.Teardown
import Muduo.Server.Release
import Muduo.Server.Balance
import Muduo.Server.Project
import Muduo.Server.Mail
import Muduo.Server.Order
import Muduo.Server.Start
import Muduo.Connection.Flow
import Muduo.Connection.Notices
import Muduo.Connection.Link
