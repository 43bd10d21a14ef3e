import AthenaVoice.Admin.Agreement
import AthenaVoice.Admin.Api
import AthenaVoice.Admin.Atomic
import AthenaVoice.Admin.Disabled
import AthenaVoice.Admin.Hosts
import AthenaVoice.Admin.JeedomPairing
import AthenaVoice.Admin.Secrets
import AthenaVoice.Admin.Settings
import AthenaVoice.Admin.Urls
import AthenaVoice.Admin.Validate
import AthenaVoice.Admin.Writes
import AthenaVoice.Assist.Actor
import AthenaVoice.Assist.Bridge
import AthenaVoice.Assist.NoLoss
import AthenaVoice.Assist.Order
import AthenaVoice.Assist.Session
import AthenaVoice.Assist.Topics
import AthenaVoice.Assist.Wiring
import AthenaVoice.Core.Event
import AthenaVoice.Core.Ids
import AthenaVoice.Core.Json
import AthenaVoice.Core.Sdk
import AthenaVoice.Core.Serde
import AthenaVoice.Esp32.DcBlocker
import AthenaVoice.Esp32.Firmware
import AthenaVoice.Esp32.FloorCreep
import AthenaVoice.Esp32.Privacy
import AthenaVoice.Esp32.Rms
import AthenaVoice.Esp32.Session
import AthenaVoice.Esp32.SilenceTracker
import AthenaVoice.Intent.BestMatch
import AthenaVoice.Intent.Cursor
import AthenaVoice.Intent.Engine
import AthenaVoice.Intent.NearTies
import AthenaVoice.Intent.Rule
import AthenaVoice.Intent.Similarity
import AthenaVoice.Intent.SlotText
import AthenaVoice.Lib.Allot
import AthenaVoice.Lib.Band
import AthenaVoice.Lib.Bus
import AthenaVoice.Lib.Checked
import AthenaVoice.Lib.Codec
import AthenaVoice.Lib.Collapse
import AthenaVoice.Lib.Decimal
import AthenaVoice.Lib.Filter
import AthenaVoice.Lib.Framing
import AthenaVoice.Lib.Incremental
import AthenaVoice.Lib.Levels
import AthenaVoice.Lib.Lines
import AthenaVoice.Lib.Machine
import AthenaVoice.Lib.Offers
import AthenaVoice.Lib.Percent
import AthenaVoice.Lib.Prog
import AthenaVoice.Lib.Relay
import AthenaVoice.Lib.Replace
import AthenaVoice.Lib.Runs
import AthenaVoice.Lib.Rounding
import AthenaVoice.Lib.Selection
import AthenaVoice.Lib.Since
import AthenaVoice.Lib.Slots
import AthenaVoice.Lib.Spans
import AthenaVoice.Lib.Str
import AthenaVoice.Lib.Table
import AthenaVoice.Lib.Unwinding
import AthenaVoice.Lib.Utf8
import AthenaVoice.Lib.Words
import AthenaVoice.Mqtt.Topics
import AthenaVoice.Pipeline.BargeIn
import AthenaVoice.Pipeline.Llm
import AthenaVoice.Pipeline.PriorWork
import AthenaVoice.Pipeline.Router
import AthenaVoice.Pipeline.RouterDrain
import AthenaVoice.Pipeline.RouterLedger
import AthenaVoice.Pipeline.Sentence
import AthenaVoice.Pipeline.SentenceFlow
import AthenaVoice.Pipeline.Session
import AthenaVoice.Pipeline.Sink
import AthenaVoice.Pipeline.Tts
import AthenaVoice.Pipeline.TurnEnd
import AthenaVoice.Providers.Circuit
import AthenaVoice.Providers.OpenWindow
import AthenaVoice.Providers.Probing
import AthenaVoice.Providers.Retry
import AthenaVoice.Providers.TokenStream
import AthenaVoice.Remote.Client
import AthenaVoice.Remote.Stt
import AthenaVoice.Remote.SttAudio
import AthenaVoice.Remote.SttLink
import AthenaVoice.Remote.SttTranscripts
import AthenaVoice.Remote.Tts
import AthenaVoice.Remote.TtsLink
import AthenaVoice.Satellite.Audio
import AthenaVoice.Satellite.Egress
import AthenaVoice.Satellite.Ingress
import AthenaVoice.Satellite.Ledger
import AthenaVoice.Satellite.Transcripts
import AthenaVoice.Server.Socket
import AthenaVoice.Server.Vad
import AthenaVoice.Sessions.Manager
import AthenaVoice.Skills.HomeConfig
import AthenaVoice.Skills.JeedomConfig
import AthenaVoice.Skills.JeedomConfirm
import AthenaVoice.Skills.JeedomHandle
import AthenaVoice.Skills.JeedomRules
import AthenaVoice.Skills.JeedomSensors
import AthenaVoice.Skills.NormalForms
import AthenaVoice.Skills.Timer
import AthenaVoice.Skills.TimerAnnounce
import AthenaVoice.Skills.TimerDuration
import AthenaVoice.Skills.Weather
import AthenaVoice.Skills.WeatherCache
import AthenaVoice.Storage.Schedule
import AthenaVoice.Storage.SkillStore
import AthenaVoice.Storage.TmpStore
import AthenaVoice.SttWorker.Transcript
import AthenaVoice.Wasm.Acl
import AthenaVoice.Wasm.Concurrent
import AthenaVoice.Wasm.DispatchLedger
import AthenaVoice.Wasm.Dispatcher
import AthenaVoice.Wasm.Isolation
import AthenaVoice.Wasm.LoadDir
import AthenaVoice.Wasm.Redact
import AthenaVoice.Wasm.Registry
import AthenaVoice.Wasm.Retention
import AthenaVoice.Wasm.Scheduler
import AthenaVoice.Wasm.SkillSpeech
import AthenaVoice.Wasm.Thresholds
import AthenaVoice.Admin.Console
import AthenaVoice.Admin.ConsoleSession
