import JppDos.App.Identity
import JppDos.App.Mirror
import JppDos.App.WebRequests
import JppDos.Background.Closing
import JppDos.Background.CronLanguage
import JppDos.Background.SyncTable
import JppDos.Ble.ConnTable
import JppDos.Ble.HostRx
import JppDos.Ble.Msg
import JppDos.Ble.Published
import JppDos.Clock.AppTime
import JppDos.Clock.Registers
import JppDos.Clock.Rtc
import JppDos.Crypto.AesIge
import JppDos.Crypto.Completeness
import JppDos.Games.Agreement
import JppDos.Games.AntiCheat
import JppDos.Games.Breakout
import JppDos.Games.Game2048
import JppDos.Games.Placement
import JppDos.Games.Pong
import JppDos.Games.Rally
import JppDos.Games.Reveal
import JppDos.Games.Snake
import JppDos.Games.Tetris
import JppDos.Games.TurnProtocol
import JppDos.Http.Answers
import JppDos.Http.Auth
import JppDos.Http.Chunked
import JppDos.Http.Confinement
import JppDos.Http.DeleteTree
import JppDos.Http.Listings
import JppDos.Http.Multistatus
import JppDos.Http.Packets
import JppDos.Http.Put
import JppDos.Keypad.Cadence
import JppDos.Keypad.Clicks
import JppDos.Keypad.Debounce
import JppDos.Keypad.Directions
import JppDos.Keypad.Shift
import JppDos.Loader.Relocation
import JppDos.Lrv.Challenge
import JppDos.Lrv.EepromChip
import JppDos.Lrv.Record
import JppDos.Lrv.VerifyUrl
import JppDos.MeetApp.Advert
import JppDos.MeetApp.IdentityFile
import JppDos.MeetApp.Meetup
import JppDos.MeetApp.SharedText
import JppDos.Pool.Lifecycle
import JppDos.Pool.Teardown
import JppDos.Radio.EspNow
import JppDos.Radio.Wifi
import JppDos.Sdk.Delivery
import JppDos.Sdk.FileList
import JppDos.Sdk.Handles
import JppDos.Sdk.KvFaults
import JppDos.Sdk.Prompts
import JppDos.Sdk.TextRows
import JppDos.Serial.Atomicity
import JppDos.Serial.Checksums
import JppDos.Serial.Download
import JppDos.Serial.RxTask
import JppDos.Settings.RoundTrip
import JppDos.Settings.Store
import JppDos.Settings.TimeSection
import JppDos.Settings.Wifi
import JppDos.Smp.Confinement
import JppDos.Smp.Consent
import JppDos.Smp.Exclusion
import JppDos.Smp.Gate
import JppDos.Smp.Listing
import JppDos.Smp.Transfers
import JppDos.Sound.Exclusive
import JppDos.Ui.ClockLines
import JppDos.Ui.DatePicker
import JppDos.Ui.Discovery
import JppDos.Ui.FileBrowser
import JppDos.Ui.Keyboard
import JppDos.Ui.ListView
import JppDos.Ui.WebDav
import JppDos.Vm.Fifo
import JppDos.Vm.EntryImport
import JppDos.Vm.ImportHook
