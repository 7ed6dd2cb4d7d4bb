import Daemonseed.Dm.AdvertRotation
import Daemonseed.Dm.AdvertStore
import Daemonseed.Dm.ClockJumps
import Daemonseed.Dm.ResetRuns
import Daemonseed.Dm.OneChannel
import Daemonseed.Dm.OneSlot
import Daemonseed.Dm.OwnReach
import Daemonseed.Dm.RecordInvariant
import Daemonseed.Dm.Removal
import Daemonseed.Dm.Resets
import Daemonseed.Dm.RouteOrder
import Daemonseed.Dm.Secrecy
import Daemonseed.Gui.OneClient
import Daemonseed.Gui.Saves
import Daemonseed.Net.Admission
import Daemonseed.Net.ClosingFlush
import Daemonseed.Net.HonestSharer
import Daemonseed.Net.InBudget
import Daemonseed.Net.LearnedCeiling
import Daemonseed.Net.Overtaking
import Daemonseed.Net.Promoted
import Daemonseed.Net.Wakeups
import Daemonseed.Net.Repairs
import Daemonseed.Net.ChatRing
import Daemonseed.Net.RoomReach
import Daemonseed.Net.Refresh
import Daemonseed.Net.Resweep
import Daemonseed.Room.Roster
import Daemonseed.Room.RouteUse
import Daemonseed.Storage.DistinctFolders
import Daemonseed.Storage.Reopened
import Daemonseed.Storage.Placed
import Daemonseed.Storage.ResumePlan
import Daemonseed.Storage.TrustLog
import Daemonseed.Storage.IndexRows
import Daemonseed.Dm.AdvertWindow
import Daemonseed.Dm.Surfacing
import Daemonseed.Lib.Readers
import Daemonseed.Dm.RecordBytes
import Daemonseed.Dm.ChannelBytes
import Daemonseed.Dm.PushBytes
import Daemonseed.Dm.PushInbox
import Daemonseed.Dm.Thread
import Daemonseed.Dm.View
import Daemonseed.Dm.Threads
import Daemonseed.Dm.Scans
import Daemonseed.Dm.KeptWrite
import Daemonseed.Net.Publishing
import Daemonseed.Gui.Transcript
import Daemonseed.Gui.Rooms
import Daemonseed.Gui.Unread
import Daemonseed.Gui.CircleSession
import Daemonseed.Gui.CircleJoins
import Daemonseed.Gui.CircleOrder
import Daemonseed.Gui.DmTies
import Daemonseed.Gui.ShareBrowser
import Daemonseed.Dm.Lost
import Daemonseed.Dm.HeldBack
import Daemonseed.Net.ShareContent
import Daemonseed.Storage.Indexer
