import RialtoConformance.Lib.Text
import RialtoConformance.Lib.Quoted
import RialtoConformance.Lib.Digits
import RialtoConformance.Lib.Override
import RialtoConformance.Lib.Runs
import RialtoConformance.Lib.Cycle
import RialtoConformance.Lib.Deferral
import RialtoConformance.Lib.Monitor
import RialtoConformance.Lib.Projection
import RialtoConformance.Lib.Lines
import RialtoConformance.Lib.Stages
import RialtoConformance.ClearKey.Base64Url
import RialtoConformance.ClearKey.Canonical
import RialtoConformance.ClearKey.JsonScan
import RialtoConformance.ClearKey.Documents
import RialtoConformance.ClearKey.ScanTotal
import RialtoConformance.ClearKey.JwkScan
import RialtoConformance.ClearKey.Session
import RialtoConformance.ClearKey.Licence
import RialtoConformance.ClearKey.Lifecycle
import RialtoConformance.ClearKey.JwkLicence
import RialtoConformance.ClearKey.Request
import RialtoConformance.ClearKey.Whitespace
import RialtoConformance.ClearKey.Backend
import RialtoConformance.ClearKey.Exchange
import RialtoConformance.Feed.Client
import RialtoConformance.Feed.Round
import RialtoConformance.Feed.Oversupply
import RialtoConformance.Feed.Lossless
import RialtoConformance.Feed.Interleaving
import RialtoConformance.Feed.Payload
import RialtoConformance.Feed.Correlation
import RialtoConformance.Feed.Resend
import RialtoConformance.Feed.Corruption
import RialtoConformance.Feed.Channel
import RialtoConformance.Feed.Conforming
import RialtoConformance.Feed.Replay
import RialtoConformance.Feed.Serial
import RialtoConformance.Feed.Observer
import RialtoConformance.Feed.Report
import RialtoConformance.Feed.Delivery
import RialtoConformance.Feed.Timeline
import RialtoConformance.Feed.Progress
import RialtoConformance.Gate.Conformance
import RialtoConformance.Gate.Console
import RialtoConformance.Gate.Shell
import RialtoConformance.Gate.Verdict
import RialtoConformance.Gate.Deploy
import RialtoConformance.Gate.Release
import RialtoConformance.Gate.Selection
import RialtoConformance.Sim.Exchange
import RialtoConformance.Apply.Polling
import RialtoConformance.Control.Transition
