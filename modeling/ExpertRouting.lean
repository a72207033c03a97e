import ExpertRouting.Main
import ExpertRouting.Model.Config
import ExpertRouting.Proofs.Capture.Effect
import ExpertRouting.Proofs.Capture.Journal
import ExpertRouting.Proofs.Capture.Atomicity
import ExpertRouting.Proofs.Decimal.Digits
import ExpertRouting.Proofs.Capture.TokenCount
import ExpertRouting.Proofs.Binary.Arithmetic
import ExpertRouting.Proofs.Capture.Batch
import ExpertRouting.Proofs.Capture.Lossless
import ExpertRouting.Proofs.Capture.WeightRange
import ExpertRouting.Proofs.Capture.Refusal
import ExpertRouting.Proofs.Capture.Interleaving
import ExpertRouting.Proofs.Trace.RoundTrip
import ExpertRouting.Proofs.Sink.Script
import ExpertRouting.Proofs.Sink.Contract
import ExpertRouting.Proofs.Capture.Agreement
import ExpertRouting.Proofs.Report.LineOrder
import ExpertRouting.Proofs.Capture.Headers
import ExpertRouting.Proofs.Json.Pretty
import ExpertRouting.Proofs.Files.Write
import ExpertRouting.Proofs.Report.Codec
import ExpertRouting.Proofs.Report.RoundTrip
import ExpertRouting.Proofs.Capture.Minting
import ExpertRouting.Proofs.Capture.Counters
import ExpertRouting.Proofs.Trace.Reread
import ExpertRouting.Proofs.Capture.Attribution
import ExpertRouting.Proofs.Timing.Rounds
import ExpertRouting.Proofs.Synthetic.Router
import ExpertRouting.Proofs.Command.Batches
import ExpertRouting.Proofs.Synthetic.Weights
import ExpertRouting.Proofs.Command.Bench
import ExpertRouting.Proofs.Capture.Closing
import ExpertRouting.Proofs.Text.Decoding
import ExpertRouting.Proofs.Trace.FirstFault
import ExpertRouting.Proofs.Report.Counts
import ExpertRouting.Proofs.Capture.Conservation
import ExpertRouting.Proofs.Command.BatchSize
import ExpertRouting.Proofs.Trace.Verification
import ExpertRouting.Proofs.Report.Strict
import ExpertRouting.Proofs.Usage.Ranking
import ExpertRouting.Proofs.Report.Consistency
import ExpertRouting.Proofs.Synthetic.Ending
import ExpertRouting.Proofs.Capture.Tensors
import ExpertRouting.Proofs.Trace.Arrangement
import ExpertRouting.Proofs.Capture.Doubles
import ExpertRouting.Proofs.Command.Analyze
import ExpertRouting.Proofs.Command.Failing
import ExpertRouting.Proofs.Command.Booking
