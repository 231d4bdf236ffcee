import Homework.Shared.Run
import Homework.Shared.Bytes
import Homework.Shared.Glob
import Homework.Shared.Interleaving
import Homework.Shared.Mutex
import Homework.Shared.SortedInsert
import Homework.Shared.CInt
import Homework.Shared.CString
import Homework.Shared.LinkedList
import Homework.Shared.Blocks
import Homework.Shared.Framing
import Homework.Shared.ByteOrder
import Homework.Shared.ShiftRegister
import Homework.Shared.Variance
import Homework.MouseDriver.RingBuffer
import Homework.MouseDriver.Bounds
import Homework.MouseDriver.Draining
import Homework.MouseDriver.Lifetime
import Homework.MouseDriver.Locking
import Homework.MouseDriver.Traffic
import Homework.MouseDriver.Integrity
import Homework.MouseDriver.Status
import Homework.TopN.Container
import Homework.TopN.Order
import Homework.TopN.Pointers
import Homework.TopN.Lifetimes
import Homework.TopN.Values
import Homework.TopN.MergeLaw
import Homework.TopN.Ledger
import Homework.TopN.Exactness
import Homework.TopN.Offline
import Homework.TopN.Room
import Homework.TopN.Wrapping
import Homework.TopN.Threads
import Homework.TopN.Statistics
import Homework.TopN.Print
import Homework.TopN.Partition
import Homework.StatParser.Logline
import Homework.StatParser.Grammar
import Homework.StatParser.Url
import Homework.StatParser.Sizes
import Homework.StatParser.Worker
import Homework.StatParser.Totals
import Homework.StatParser.Report
import Homework.StatParser.Cleanup
import Homework.Crc32.Table
import Homework.Crc32.Remainder
import Homework.Crc32.Burst
import Homework.Crc32.Errors
import Homework.Crc32.Frames
import Homework.Tetris.Arena
import Homework.Tetris.Lines
import Homework.Tetris.Game
import Homework.Tetris.Pieces
import Homework.Tetris.Safety
import Homework.Tetris.Conservation
import Homework.Tetris.Progress
import Homework.Tetris.Drawing
import Homework.Tetris.Scoreboard
import Homework.Tetris.Persistence
import Homework.Tetris.Ranking
import Homework.Tetris.Loading
import Homework.Tetris.Sessions
import Homework.Tetris.Names
import Homework.Asm.Elements
import Homework.Daemon.Processes
import Homework.Daemon.InstanceLock
import Homework.Daemon.SocketFile
import Homework.Rarjpeg.Scanner
import Homework.Rarjpeg.Counter
import Homework.Rarjpeg.Listing
import Homework.Rarjpeg.Rounds
import Homework.Weather.Program
import Homework.Weather.Responses
import Homework.Weather.CityUrl
import Homework.WebServer.Request
import Homework.WebServer.Response
import Homework.WebServer.Server
import Homework.WebServer.CrossTalk
import Homework.WebServer.Connections
import Homework.WebServer.Target
import Homework.WebServer.Visits
import Homework.WebServer.Confinement
import Homework.WebServer.Survival
import Homework.WebServer.Delivery
import Homework.Database.Dispersion
import Homework.Database.Nulls
import Homework.DirView.TreeView
import Homework.DirView.Mirror
import Homework.Analyzer.Packet
import Homework.Analyzer.Decoding
import Homework.Analyzer.Capture
import Homework.Analyzer.Truncation
import Homework.Telnet.Reply
import Homework.Logging.LogFile
