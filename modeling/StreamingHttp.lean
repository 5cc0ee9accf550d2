import StreamingHttp.Connection
import StreamingHttp.Location.Parser
import StreamingHttp.Part.Reader
import StreamingHttp.Proofs.Boundary.ScannerPosition
import StreamingHttp.Proofs.Header.BlockReading
import StreamingHttp.Proofs.Part.Walk
import StreamingHttp.Proofs.Text.Utf8RoundTrip
import StreamingHttp.Proofs.Transport.Segmentation
import StreamingHttp.Proofs.Header.FieldLines
import StreamingHttp.Proofs.Base64
import StreamingHttp.Proofs.Decimal
import StreamingHttp.Proofs.Location.PartReading
import StreamingHttp.Proofs.Request.HeadParsing
import StreamingHttp.Proofs.Location.WrittenUrl
import StreamingHttp.Proofs.Request.UrlRoundTrip
import StreamingHttp.Proofs.Entity.FieldHead
import StreamingHttp.Proofs.Part.ChunkIndependence
import StreamingHttp.Proofs.Part.IncrementalReading
import StreamingHttp.Proofs.Part.SameParts
import StreamingHttp.Proofs.Part.Rounds
import StreamingHttp.Proofs.Entity.BlockReading
import StreamingHttp.Proofs.Handshake.Verdict
import StreamingHttp.Proofs.Entity.BlockEnds
import StreamingHttp.Proofs.Entity.FoldedHead
import StreamingHttp.Proofs.Handshake.Sending
import StreamingHttp.Proofs.Connection.StoredFields
import StreamingHttp.Proofs.Part.NextBlock
import StreamingHttp.Proofs.Entity.LongLines
import StreamingHttp.Proofs.Location.Spelling
import StreamingHttp.Proofs.Request.TargetReading
import StreamingHttp.Proofs.Boundary.SearchOutcome
import StreamingHttp.Proofs.Boundary.SavedBytes
import StreamingHttp.Proofs.Transport.LineCalls
import StreamingHttp.Proofs.Entity.RepeatedFields
import StreamingHttp.Proofs.Header.PositionedReading
import StreamingHttp.Proofs.Boundary.PositionedScan
import StreamingHttp.Proofs.Connection.StatedBoundary
import StreamingHttp.Proofs.Header.AppendOnly
import StreamingHttp.Proofs.Percent.CanonicalText
import StreamingHttp.Proofs.Location.FirstFailure
import StreamingHttp.Proofs.Request.Sendable
import StreamingHttp.Proofs.Base64.Sextets
import StreamingHttp.Proofs.Decimal.Words
import StreamingHttp.Proofs.Entity.WrittenLength
import StreamingHttp.Proofs.Entity.WrittenBoundary
