import Budyk.Lib.Bytes
import Budyk.Lib.Circular
import Budyk.Lib.Observer
import Budyk.Lib.Bisect
import Budyk.Lib.Tumbling
import Budyk.Lib.Runs
import Budyk.Lib.Crc
import Budyk.Lib.Along
import Budyk.Lib.Timeline
import Budyk.Lib.Incremental
import Budyk.Lib.Since
import Budyk.Lib.Text
import Budyk.Lib.FixedWindow
import Budyk.Core.Sample
import Budyk.Core.Codec
import Budyk.Storage.Codec
import Budyk.Storage.RingFile
import Budyk.Storage.RingCheck
import Budyk.Storage.RingReader
import Budyk.Storage.Query
import Budyk.Storage.Crash
import Budyk.Storage.Writer
import Budyk.Storage.TierAggregator
import Budyk.Storage.TierManager
import Budyk.Storage.QueryAll
import Budyk.Storage.Convert
import Budyk.Scheduler.Scheduler
import Budyk.Rules.Engine
import Budyk.Rules.Watch
import Budyk.Rules.State
import Budyk.Web.Frames
import Budyk.Web.WsHub
import Budyk.Web.Sha1Base64
import Budyk.Web.Session
import Budyk.Web.SessionProcess
import Budyk.Web.SessionThreads
import Budyk.Web.LoginLimiter
import Budyk.HotBuffer.HotBuffer
import Budyk.Daemon.CatchUp
import Budyk.Spec.History
import Budyk.Spec.LevelHistory
import Budyk.Spec.ServerFrames
import Budyk.Spec.ClientFrames
import Budyk.Spec.RuleHistory
import Budyk.Spec.SessionLife
import Budyk.Spec.LoginHistory
import Budyk.Proof.Versions
import Budyk.Proof.Corruption
import Budyk.Proof.Holding
import Budyk.Proof.CrashRecovery
import Budyk.Proof.Reader
import Budyk.Proof.Query
import Budyk.Proof.Race
import Budyk.Proof.Refinement
import Budyk.Proof.Opening
import Budyk.Proof.TimeOrder
import Budyk.Proof.Convert
import Budyk.Proof.Folding
import Budyk.Proof.OneRecord
import Budyk.Proof.Spread
import Budyk.Proof.Cover
import Budyk.Proof.Stretch
import Budyk.Proof.QueryAll
import Budyk.Proof.ClockStep
import Budyk.Proof.StepBack
import Budyk.Proof.Levels
import Budyk.Proof.HubRuns
import Budyk.Proof.Output
import Budyk.Proof.ClientReader
import Budyk.Proof.Input
import Budyk.Proof.Queued
import Budyk.Proof.HotBuffer
import Budyk.Proof.CatchUp
import Budyk.Proof.RuleFiring
import Budyk.Proof.RuleState
import Budyk.Proof.SessionLife
import Budyk.Proof.SessionFile
import Budyk.Proof.SessionEnds
import Budyk.Proof.SessionSaves
import Budyk.Proof.LoginLimiter
import Budyk.Lib.Mask
import Budyk.Lib.TwoWay
import Budyk.Core.MetricSet
import Budyk.Daemon.Collect
import Budyk.Security.FileWatcher
import Budyk.Rules.Worker
import Budyk.Web.Http
import Budyk.Daemon.Router
import Budyk.Spec.Readings
import Budyk.Proof.Router
import Budyk.Proof.Collect
import Budyk.Proof.FileWatcher
import Budyk.Proof.Worker
import Budyk.Lib.Utf8
import Budyk.Lib.Json
import Budyk.Core.JsonText
import Budyk.Web.Json
import Budyk.Proof.JsonText
import Budyk.Tui.Tui
import Budyk.Lib.Form
import Budyk.Rules.Alert
import Budyk.Proof.AlertPayloads
import Budyk.Web.Server
import Budyk.Proof.Server
import Budyk.Daemon.LevelNames
import Budyk.Proof.LevelNames
import Budyk.Rules.Limits
import Budyk.Rules.LuaPattern
import Budyk.Rules.LuaStrings
import Budyk.Lib.Backtrack
import Budyk.Spec.LuaPattern
import Budyk.Spec.LuaStrings
import Budyk.Lib.Triple
import Budyk.Proof.LuaPattern
import Budyk.Proof.PatternSteps
import Budyk.Proof.LuaStrings
import Budyk.Proof.LuaGsub
import Budyk.Proof.LuaCalls
import Budyk.Proof.PlainSearch
import Budyk.Proof.Limits
import Budyk.Config.StrList
import Budyk.Rules.Allowlists
import Budyk.Proof.Allowlists
import Budyk.Spec.WindowRecord
import Budyk.Proof.WindowRecord
import Budyk.Lib.LuaLexer
import Budyk.Lib.LuaSplice
import Budyk.Rules.YamlCompat
import Budyk.Spec.RuleCall
import Budyk.Proof.YamlCompat
import Budyk.Proof.Utf8Sanitize
import Budyk.Lib.JsonObject
import Budyk.Proof.JsonObject
import Budyk.Lib.Base64
import Budyk.Lib.Mail
import Budyk.Proof.Exec
import Budyk.Proof.Counted
import Budyk.Proof.Procs
import Budyk.Proof.Netstat
import Budyk.Proof.RequestHead
import Budyk.Storage.TierInit
import Budyk.Proof.TierInit
import Budyk.Proof.Mail
import Budyk.Proof.StartAgrees
import Budyk.Lib.FirstBest
import Budyk.Proof.LevelChoice
import Budyk.HotBuffer.WarmGrace
import Budyk.Proof.WarmGrace
import Budyk.Lib.Spread
import Budyk.Spec.QueryValues
import Budyk.Proof.QueryValues
import Budyk.Lib.Blocks
import Budyk.Lib.Fips180
import Budyk.Proof.Sha1
import Budyk.Proof.Handshake
import Budyk.Lib.Numeral
import Budyk.Lib.KeySearch
import Budyk.Web.SampleJson
import Budyk.Proof.SampleJson
import Budyk.Proof.Tui
import Budyk.Proof.TuiProcesses
