import PcmStream.Config.File
import PcmStream.Device.Null
import PcmStream.Device.Scripted
import PcmStream.Session.Push
import PcmStream.Session.Start
import PcmStream.Proofs.PacketInterleaving
import PcmStream.Proofs.StreamDelivery
import PcmStream.Proofs.SessionActs
import PcmStream.Proofs.DeviceCalls
import PcmStream.Proofs.DeviceLife
import PcmStream.Proofs.PacketRoom
import PcmStream.Proofs.PacketProgress
import PcmStream.Proofs.FrameBalance
import PcmStream.Proofs.DeviceUptake
import PcmStream.Proofs.SessionOpening
import PcmStream.Proofs.RecordedCounters
import PcmStream.Proofs.FaithfulCounters
import PcmStream.Proofs.ProducerRuns
import PcmStream.Proofs.RenderedChunks
import PcmStream.Proofs.RenderedPieces
import PcmStream.Proofs.CallbackBuffers
import PcmStream.Proofs.SameAudio
import PcmStream.Proofs.Rounding
import PcmStream.Proofs.TimeConversion
import PcmStream.Proofs.OwnerWrites
import PcmStream.Proofs.RoundingError
import PcmStream.Proofs.PacedBacklog
import PcmStream.Proofs.FillerFaults
import PcmStream.Proofs.SizeLimits
import PcmStream.Proofs.ConfigText
import PcmStream.Proofs.RenderedFrames
import PcmStream.Proofs.FreshFrames
import PcmStream.Proofs.ClipEnd
import PcmStream.Proofs.ClipSamples
import PcmStream.Proofs.FullScale
import PcmStream.Proofs.WordsWithinScale
import PcmStream.Proofs.TypedPushes
import PcmStream.Proofs.RetriedSamples
import PcmStream.Proofs.SessionSummaries
