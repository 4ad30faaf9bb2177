import AiTrader.Lib.Dict
import AiTrader.Lib.Trace
import AiTrader.Lib.Window
import AiTrader.Lib.Decimal
import AiTrader.Lib.Fields
import AiTrader.Lib.Totals
import AiTrader.Lib.Buckets
import AiTrader.Lib.Text
import AiTrader.Lib.Braces
import AiTrader.Lib.Json
import AiTrader.Lib.JsonRoundTrip
import AiTrader.Lib.Escapes
import AiTrader.Lib.Schema
import AiTrader.Lib.Turnstile
import AiTrader.Lib.JsonGrammar
import AiTrader.Lib.JsonText
import AiTrader.Lib.JsonTree
import AiTrader.Lib.Semaphore
import AiTrader.Lib.JsonLexer
import AiTrader.Lib.JsonLines
import AiTrader.Lib.JsonParts
import AiTrader.Domain.Enums
import AiTrader.Domain.Models
import AiTrader.Domain.Proposals
import AiTrader.HardLimits
import AiTrader.Config
import AiTrader.Clamping
import AiTrader.Data.Store
import AiTrader.Data.RateLimit
import AiTrader.Data.Pacing
import AiTrader.Data.MessageRate
import AiTrader.Data.BarStore
import AiTrader.Broker.Gateway
import AiTrader.Broker.Recovery
import AiTrader.Broker.Port
import AiTrader.Broker.Refs
import AiTrader.Broker.Orders
import AiTrader.Broker.WriteAhead
import AiTrader.Broker.IbAdapter
import AiTrader.Broker.Reconcile
import AiTrader.Broker.Protection
import AiTrader.Broker.Parentage
import AiTrader.Broker.Agreement
import AiTrader.Broker.Progress
import AiTrader.Broker.Executions
import AiTrader.Broker.Requests
import AiTrader.Broker.FreshRefs
import AiTrader.Broker.Idempotence
import AiTrader.Broker.Persistence
import AiTrader.Broker.MarketData
import AiTrader.Broker.Bars
import AiTrader.Broker.Intraday
import AiTrader.Broker.Scans
import AiTrader.Broker.Summaries
import AiTrader.Analytics.Ranking
import AiTrader.Analytics.FocusList
import AiTrader.Analytics.Displacement
import AiTrader.Analytics.Hysteresis
import AiTrader.Analytics.Indicators
import AiTrader.Engine.Calendar
import AiTrader.Analytics.Features
import AiTrader.Analytics.Smoothing
import AiTrader.Analytics.Averages
import AiTrader.Analytics.Mirror
import AiTrader.Analytics.Rsi
import AiTrader.Risk.KillSwitch
import AiTrader.Risk.Engine
import AiTrader.Risk.CloseGate
import AiTrader.Risk.Sizing
import AiTrader.Risk.Gate
import AiTrader.Risk.Bracket
import AiTrader.Risk.Scaling
import AiTrader.Risk.DailyLoss
import AiTrader.Risk.Latch
import AiTrader.Risk.FailClosed
import AiTrader.Risk.Tightening
import AiTrader.Risk.RejectionLog
import AiTrader.Llm.Structured
import AiTrader.Llm.JsonMode
import AiTrader.Llm.Reasoning
import AiTrader.Llm.Narrative
import AiTrader.Llm.Flatten
import AiTrader.Llm.Request
import AiTrader.Llm.Gateway
import AiTrader.Llm.Load
import AiTrader.Llm.AuditTrail
import AiTrader.Llm.Degradation
import AiTrader.Llm.Audit
import AiTrader.Llm.Truncated
import AiTrader.Agents.Decision
import AiTrader.Agents.Plan
import AiTrader.Agents.Boundary
import AiTrader.Agents.Interleaving
import AiTrader.Agents.Notebook
import AiTrader.Engine.State
import AiTrader.Agents.Holdings
import AiTrader.Engine.Phases
import AiTrader.Engine.Submission
import AiTrader.Engine.FastLoop
import AiTrader.Engine.Flatten
import AiTrader.Engine.Scheduler
import AiTrader.Engine.Entries
import AiTrader.Engine.Rollover
import AiTrader.Engine.DailyLimits
import AiTrader.Engine.Closing
import AiTrader.Engine.Approvals
import AiTrader.Engine.EntryCaps
import AiTrader.Engine.Gating
import AiTrader.Engine.PositionCap
import AiTrader.Engine.DeskRun
import AiTrader.Engine.OneBracket
import AiTrader.Engine.OrderRate
import AiTrader.Engine.LastLook
import AiTrader.Engine.LiveLocks
import AiTrader.Engine.CloseRun
import AiTrader.Engine.Housekeeping
import AiTrader.Engine.Execute
import AiTrader.Engine.CycleRun
import AiTrader.Engine.Premarket
import AiTrader.Engine.Freshness
import AiTrader.Engine.BuyingPower
import AiTrader.Engine.Frozen
import AiTrader.Engine.Expiry
import AiTrader.Engine.FlipFlop
import AiTrader.Engine.Cutoff
import AiTrader.Engine.Mode
import AiTrader.Web.App
