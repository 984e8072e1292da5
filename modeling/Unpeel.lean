import Unpeel.Foundation.IndexSearch
import Unpeel.Foundation.Runs
import Unpeel.Foundation.BigEndian
import Unpeel.Foundation.SpacedLog
import Unpeel.Foundation.Increasing
import Unpeel.Foundation.History
import Unpeel.Foundation.Base64
import Unpeel.Session.QueryScanner
import Unpeel.Session.OutputFrame
import Unpeel.Session.Broadcaster
import Unpeel.Session.Delivery
import Unpeel.Session.StreamClient
import Unpeel.Session.StreamCarry
import Unpeel.Session.StreamPump
import Unpeel.Session.StreamReader
import Unpeel.Session.StreamFraming
import Unpeel.Session.PtyInput
import Unpeel.Session.InputStream
import Unpeel.Session.SessionIo
import Unpeel.Session.Resize
import Unpeel.Session.Frames
import Unpeel.Session.StreamInvariant
import Unpeel.Session.StreamSteps
import Unpeel.Session.StreamFlush
import Unpeel.Session.StreamAdoption
import Unpeel.Session.StreamHandoff
import Unpeel.Session.OutputHandoff
import Unpeel.Session.WriteInterest
import Unpeel.Session.WriteIds
import Unpeel.Session.InputUnits
import Unpeel.Session.InputLedger
import Unpeel.Session.InputIntegrity
import Unpeel.Core.TimerThread
import Unpeel.Core.Slots
import Unpeel.Core.SlotsSettled
import Unpeel.Core.SlotMessages
import Unpeel.Core.Backpressure
import Unpeel.Core.Handoff
import Unpeel.Core.HandoffTimer
import Unpeel.Core.HandoffInvariant
import Unpeel.Core.FailedHandoff
import Unpeel.Core.TakeoverStages
import Unpeel.Core.TakeoverAgreement
import Unpeel.Core.CoreState
import Unpeel.Core.CoreMoves
import Unpeel.Core.CoreInvariants
import Unpeel.Core.LaunchGate
import Unpeel.Manifest.Record
import Unpeel.Manifest.PromptTitle
import Unpeel.Manifest.Titles
import Unpeel.Resume.RelaunchCommand
import Unpeel.Resume.ResumeAgent
import Unpeel.Resume.ResumeInvariant
import Unpeel.Resume.ResumeSteps
import Unpeel.Resume.ResumeTransaction
import Unpeel.Reaping.Identity
import Unpeel.Reaping.Jobs
import Unpeel.Reaping.LaunchExits
import Unpeel.Reaping.Signals
import Unpeel.Journal.ReplayScan
import Unpeel.Journal.RetainedOutput
import Unpeel.Journal.RetentionBound
import Unpeel.Journal.OutputReaders
import Unpeel.Journal.JournalDisk
import Unpeel.Journal.JournalReads
import Unpeel.Remote.RelayCrypto
import Unpeel.Remote.RelayChannel
import Unpeel.Remote.Probe
import Unpeel.Remote.PunchSession
import Unpeel.Remote.DirectPathPunch
import Unpeel.Remote.RelayLoop
import Unpeel.Remote.ResponseRouting
import Unpeel.Remote.DirectPathKeys
import Unpeel.Pairing.DeviceStore
import Unpeel.Pairing.PairingWindow
import Unpeel.Activity.ActivityEngine
import Unpeel.Activity.HookOwnership
import Unpeel.Activity.HookView
import Unpeel.Activity.RuntimeGenerations
import Unpeel.Activity.CancellationFence
import Unpeel.Activity.CancellationTiming
import Unpeel.Serve.Approvals
import Unpeel.Serve.AutoStop
import Unpeel.Serve.PtyCoreSupervisor
import Unpeel.Serve.CoreSupervision
import Unpeel.Serve.CoreRecovery
import Unpeel.Serve.Presence
import Unpeel.Lifecycle.References
import Unpeel.Lifecycle.AppPresentations
import Unpeel.Lifecycle.IdentityTransfer
import Unpeel.Lifecycle.Restart
import Unpeel.Foundation.Fallible
import Unpeel.AppKit.Messages
import Unpeel.AppKit.EventHistory
import Unpeel.AppKit.UiBridge
import Unpeel.AppKit.BridgeRules
import Unpeel.AppKit.RendererEvents
import Unpeel.AppKit.Attachments
import Unpeel.AppKit.Projections
import Unpeel.Foundation.SharedFiles
import Unpeel.Markers.MarkerText
import Unpeel.Markers.MarkerFiles
import Unpeel.Serve.PlatformAdapter
import Unpeel.Remote.RateLimiter
import Unpeel.Session.ProgramStatus
import Unpeel.Session.StatusPublishing
import Unpeel.Foundation.SplitTree
import Unpeel.Panes.PaneTree
import Unpeel.Panes.PaneLayout
import Unpeel.Panes.LayoutValidity
import Unpeel.Panes.LayoutOperations
import Unpeel.Panes.Canonicalize
import Unpeel.Panes.DurableLayout
import Unpeel.Panes.Launcher
import Unpeel.Foundation.ByteReads
import Unpeel.Stdio.TunnelEnvelope
import Unpeel.Stdio.StdioFrames
import Unpeel.Stdio.StdioServer
import Unpeel.Lifecycle.EnsurePresentation
import Unpeel.Lifecycle.PresentationRuns
import Unpeel.Foundation.Transducers
import Unpeel.Session.QueryRecovery
import Unpeel.Session.StatusScanner
import Unpeel.Session.TitleScanner
import Unpeel.Remote.Stun
import Unpeel.Remote.RelaySocket
import Unpeel.Activity.InputTracker
import Unpeel.Stdio.TunnelCodec
import Unpeel.Foundation.Utf8Stream
import Unpeel.Attach.ReplayMuting
import Unpeel.Journal.RetentionSafety
import Unpeel.Attach.WholeSession
import Unpeel.Attach.ReplayAlignment
import Unpeel.Foundation.Refill
import Unpeel.Lifecycle.ProjectOrder
import Unpeel.Remote.HttpRequest
import Unpeel.Sites.WebsiteProbe
import Unpeel.Sites.UrlTracker
import Unpeel.Viewport.KittyApcFilter
import Unpeel.Foundation.Strips
import Unpeel.AppKit.Geometry
import Unpeel.AppKit.FooterActions
import Unpeel.AppKit.TextRows
import Unpeel.AppKit.Editing
import Unpeel.AppKit.TextFields
import Unpeel.AppKit.InputField
import Unpeel.AppKit.NavigationRuns
import Unpeel.AppKit.RowNavigation
import Unpeel.AppKit.TextBox
import Unpeel.AppKit.UiFrames
import Unpeel.Foundation.Splitters
import Unpeel.Foundation.ShellWords
import Unpeel.Foundation.Tilings
import Unpeel.Resume.CommandTokens
import Unpeel.Resume.CommandRewriting
import Unpeel.AppKit.RowCover
import Unpeel.AppKit.VerticalMoves
import Unpeel.Resume.ShellQuoting
import Unpeel.Foundation.Collapsing
import Unpeel.Activity.ActivityLog
import Unpeel.Serve.StreamerSupervision
