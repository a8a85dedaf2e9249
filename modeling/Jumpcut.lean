import Jumpcut.Main
import Jumpcut.Package
import Jumpcut.Site.Build
import Jumpcut.Proofs.EndpointLaws
import Jumpcut.Proofs.SubtitleLaws
import Jumpcut.Proofs.RoundTripLaws
import Jumpcut.Proofs.TickLaws
import Jumpcut.Proofs.TranscriptLaws
import Jumpcut.Proofs.ExactnessLaws
import Jumpcut.Proofs.SeekLaws
import Jumpcut.Proofs.OverlayLaws
import Jumpcut.Proofs.GroupLaws
import Jumpcut.Proofs.MarkLaws
import Jumpcut.Proofs.EnvironmentLaws
import Jumpcut.Proofs.EqualityLaws
import Jumpcut.Proofs.ConnectiveLaws
import Jumpcut.Proofs.TempoLaws
import Jumpcut.Proofs.MixLaws
import Jumpcut.Proofs.ChangeLaws
import Jumpcut.Proofs.LargeWaveLaws
import Jumpcut.Proofs.TrackLaws
import Jumpcut.Proofs.SequenceLaws
import Jumpcut.Proofs.PreviewLaws
import Jumpcut.Proofs.FinalCutLaws
import Jumpcut.Proofs.EntryLaws
import Jumpcut.Proofs.CodecLaws
import Jumpcut.Proofs.MuxLaws
import Jumpcut.Proofs.LexemeLaws
import Jumpcut.Proofs.FrameRateLaws
import Jumpcut.Proofs.MarkerLaws
