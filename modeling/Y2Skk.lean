import Y2Skk.Proofs.Completion
import Y2Skk.Proofs.Display
import Y2Skk.Proofs.Persistence
import Y2Skk.Proofs.Trigger
import Y2Skk.Proofs.Window
import Y2Skk.Proofs.Registration
import Y2Skk.Proofs.Isolation
import Y2Skk.Proofs.Recency
import Y2Skk.Proofs.CompletionOrder
import Y2Skk.Proofs.Nested
import Y2Skk.Proofs.Containment
import Y2Skk.Proofs.Consumed
import Y2Skk.Proofs.RawMode
import Y2Skk.Proofs.Cancel
import Y2Skk.Proofs.Ctrl
import Y2Skk.Proofs.AtMostOnce
import Y2Skk.Proofs.Reload
import Y2Skk.Proofs.Leaving
import Y2Skk.Proofs.Pending
import Y2Skk.Proofs.Retype
import Y2Skk.Proofs.Reading
import Y2Skk.Proofs.OkuriStart
import Y2Skk.Proofs.Mute
import Y2Skk.Proofs.Qt
import Y2Skk.Proofs.KeyPairs
import Y2Skk.Proofs.Settings
import Y2Skk.Ipc.Flush
import Y2Skk.Proofs.Flush
import Y2Skk.Kana.Overlay
import Y2Skk.Proofs.Directives
import Y2Skk.Proofs.Termination
import Y2Skk.Proofs.Paging
import Y2Skk.Proofs.SelectionKeys
import Y2Skk.Proofs.TabCycle
import Y2Skk.Proofs.Ghost
import Y2Skk.Proofs.OkuriRetry
import Y2Skk.Proofs.Fields
import Y2Skk.Proofs.Unignore
import Y2Skk.Proofs.Expansion
import Y2Skk.Proofs.Numerals
import Y2Skk.Proofs.TableFormat
import Y2Skk.Proofs.LateConfigure
import Y2Skk.Proofs.Redrawn
import Y2Skk.Ipc.Screen
import Y2Skk.Proofs.View
import Y2Skk.Proofs.Desk
import Y2Skk.Ipc.Gtk
import Y2Skk.Proofs.Gtk
import Y2Skk.Lib.Measure
import Y2Skk.Ipc.QtContext
import Y2Skk.Proofs.Screens
import Y2Skk.Proofs.QtContext
import Y2Skk.Ipc.Xim
import Y2Skk.Proofs.Xim
import Y2Skk.Lib.Transducer
import Y2Skk.Proofs.KanaText
import Y2Skk.Lib.Editor
import Y2Skk.Lib.Ticker
import Y2Skk.Lib.Solo
import Y2Skk.Ipc.WaylandLoop
import Y2Skk.Proofs.WaylandLoop
import Y2Skk.Proofs.Editing
import Y2Skk.Proofs.Focused
import Y2Skk.Proofs.CodeInput
import Y2Skk.Proofs.Recovery
import Y2Skk.Proofs.ReadingText
