import LoraSerial.Library.RingBuffer
import LoraSerial.Library.SequenceNumber
import LoraSerial.Library.SelectiveRepeat
import LoraSerial.Library.WordBytes
import LoraSerial.LinkLayer.Ascon
import LoraSerial.LinkLayer.Link
import LoraSerial.LinkLayer.Operation
import LoraSerial.LinkLayer.Invariant
import LoraSerial.Library.ReplayWindow
import LoraSerial.LinkLayer.Rejection
import LoraSerial.LinkLayer.Replay
import LoraSerial.Host.Board
import LoraSerial.Host.NonceLife
import LoraSerial.Host.Restart
import LoraSerial.ModeSwitch.Agreement
import LoraSerial.ModeSwitch.Recovery
import LoraSerial.LinkLayer.Delivery
import LoraSerial.LinkLayer.Resync
import LoraSerial.Device.AutoPair
import LoraSerial.Device.LossStats
import LoraSerial.Device.PinnedPair
import LoraSerial.Device.Reception
import LoraSerial.Device.Reconvergence
import LoraSerial.Device.Session
import LoraSerial.Host.ByteRing
import LoraSerial.Host.Ingest
import LoraSerial.Host.Pairing
import LoraSerial.Host.AtCommand
import LoraSerial.Host.Transparency
import LoraSerial.LinkLayer.Burst
import LoraSerial.LinkLayer.Acceptance
import LoraSerial.LinkLayer.Bounds
import LoraSerial.LinkLayer.Opening
import LoraSerial.LinkLayer.RoundTrip
import LoraSerial.LinkLayer.TurnEnd
import LoraSerial.Device.RadioTask
import LoraSerial.Device.SendQueue
import LoraSerial.Host.AtFilter
import LoraSerial.LinkLayer.CleanExchange
import LoraSerial.Host.ByteQueue
import LoraSerial.LinkLayer.FrameRing
import LoraSerial.Adr.Eligibility
import LoraSerial.Adr.FlapGuard
import LoraSerial.Adr.Hysteresis
import LoraSerial.Adr.Settling
import LoraSerial.Adr.Deadlines
import LoraSerial.Library.Schedule
import LoraSerial.Device.DeferredSave
import LoraSerial.Device.PowerSettling
import LoraSerial.Device.SilenceLimit
import LoraSerial.LinkLayer.ReplayExact
import LoraSerial.Display.Teletype
import LoraSerial.Device.PowerLimits
import LoraSerial.Device.PowerReport
import LoraSerial.Device.ClimbRoom
import LoraSerial.Host.Preferences
import LoraSerial.Host.UnboundRing
import LoraSerial.Heatshrink.RoundTrip
import LoraSerial.LinkLayer.FieldBytes
import LoraSerial.Host.KeyAgreement
import LoraSerial.Host.Pipe
import LoraSerial.Device.Discovery
import LoraSerial.Device.MenuEditor
import LoraSerial.Host.SpeedTest
