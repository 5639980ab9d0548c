import Xcom.Transition.Machine
import Xcom.Session.NoWedge
import Xcom.Session.SendIsolation
import Xcom.Session.PublishedView
import Xcom.Session.OpenResult
import Xcom.Session.OpenCancel
import Xcom.ViewModel.Agreement
import Xcom.Display.Ledger
import Xcom.Display.Chunks
import Xcom.Display.Counter
import Xcom.Display.Escapes
import Xcom.Rx.BlockLane
import Xcom.Tx.AutoSend
import Xcom.File.Completions
import Xcom.File.LogOpen
import Xcom.File.LogContent
import Xcom.Receive.Pipeline
import Xcom.Receive.WholeLines
import Xcom.Receive.Window
import Xcom.Config.Save
import Xcom.Script.PluginEvents
import Xcom.Script.OldCopies
import Xcom.Tx.Interlock
import Xcom.File.SaveExact
import Xcom.ViewModel.Interlock
import Xcom.ViewModel.Rollback
import Xcom.Transition.Wrap
import Xcom.Session.JobRing
import Xcom.Serial.Write
import Xcom.Rx.Ingress
import Xcom.Foundation.TaggedPool
import Xcom.Foundation.ErrorQueue
import Xcom.Pages.Preserved
import Xcom.ViewModel.GraceWindow
import Xcom.Script.SettledRules
import Xcom.Runtime.ThreadHealth
import Xcom.Runtime.PeriodicTimer
import Xcom.Tx.Hex
import Xcom.Runtime.ResetSequencer
import Xcom.Script.FilterOrder
import Xcom.Script.StrikeLaw
import Xcom.Receive.StampLaw
import Xcom.Profile.Override
import Xcom.ViewModel.ReconnectTarget
import Xcom.Script.EditorSave
import Xcom.Script.LineColors
import Xcom.Receive.LegacyTail
import Xcom.Script.CheckboxClicks
import Xcom.Script.ReloadConverges
import Xcom.Script.FilesClosed
import Xcom.Script.StreamExact
import Xcom.Receive.Copy
import Xcom.Display.HexJoin
import Xcom.Tx.HistoryKept
import Xcom.Pages.Total
import Xcom.Script.EnabledList
import Xcom.Receive.Pieces
import Xcom.ViewModel.LossesAttributed
import Xcom.ViewModel.LossBanner
import Xcom.Rx.SerialSim
import Xcom.Script.LogMirror
import Xcom.Serial.BaudKept
import Xcom.Script.SplitHelper
import Xcom.Script.Base64Helper
import Xcom.Receive.WordBounds
import Xcom.Display.Waveform
import Xcom.Receive.AnsiStream
import Xcom.Checksum.Detection
import Xcom.Tx.SentRows
import Xcom.Rx.AtModem
import Xcom.Serial.ReadLoop
import Xcom.Serial.LineStatus
import Xcom.ViewModel.ModemWatch
import Xcom.Script.JsonRound
import Xcom.Script.Struct
import Xcom.Config.Throttle
import Xcom.ViewModel.PortList
