import TradeC.AuditLog
import TradeC.Overflow
import TradeC.Solvency
import TradeC.Columns
import TradeC.Lib.Run
import TradeC.Tokens
import TradeC.Consume
import TradeC.Lib.Ring
import TradeC.Trigger.Coherence
import TradeC.Refusal
import TradeC.Fifo
import TradeC.Outlive
import TradeC.Mutexes
import TradeC.Inserted
import TradeC.Reconnect
import TradeC.WebServer
import TradeC.Session
import TradeC.Rounds
import TradeC.InOrder
import TradeC.Amounts
import TradeC.Agreement
import TradeC.Unchanged
import TradeC.Headroom
import TradeC.OwnBytes
import TradeC.Delivery
import TradeC.Quotes
import TradeC.LogFile
import TradeC.Sharding
import TradeC.Bounds
import TradeC.UserDump
import TradeC.Sockets
import TradeC.BadReply
import TradeC.Registry
import TradeC.Summary
import TradeC.LogFields
import TradeC.Freshness
import TradeC.Sweep
import TradeC.Trigger.Rings
import TradeC.Splitters
import TradeC.Parsers
import TradeC.Holdings
import TradeC.Pending
import TradeC.Removal
import TradeC.Literals
import TradeC.AuditFile
import TradeC.QuoteCache
import TradeC.Drain
import TradeC.Transactions
