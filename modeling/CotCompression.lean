import CotCompression.Shared.Program
import CotCompression.Shared.Loop
import CotCompression.Shared.RoundRobin
import CotCompression.Shared.Text
import CotCompression.Shared.Expression
import CotCompression.Shared.Evaluation
import CotCompression.Shared.Pattern
import CotCompression.Shared.Affine
import CotCompression.Shared.Derivation
import CotCompression.Shared.MergeTree
import CotCompression.Shared.Holdout
import CotCompression.Shared.Dict
import CotCompression.Shared.Counter
import CotCompression.Shared.Grouping
import CotCompression.Shared.Differencing
import CotCompression.Shared.Reordering
import CotCompression.Shared.Interleaving
import CotCompression.Shared.Json
import CotCompression.Shared.Jsonl
import CotCompression.Generator.Python
import CotCompression.Generator.Names
import CotCompression.Generator.Outcome
import CotCompression.Generator.Chain
import CotCompression.Generator.Problem
import CotCompression.Generator.Lines
import CotCompression.Generator.Printers
import CotCompression.Generator.Hierarchical
import CotCompression.Generator.Forward
import CotCompression.Generator.Backward
import CotCompression.Generator.Rendered
import CotCompression.Generator.Sample
import CotCompression.Generator.Definitions
import CotCompression.Generator.Nested
import CotCompression.Generator.Implicit
import CotCompression.Generator.Balance
import CotCompression.Scoring.Reward
import CotCompression.Shared.Binary64
import CotCompression.Scoring.Evaluate
import CotCompression.Scoring.Numeral
import CotCompression.Scoring.Decoders
import CotCompression.Scoring.Agreement
import CotCompression.Scoring.Modulus
import CotCompression.Scoring.LastMarker
import CotCompression.Scoring.Robust
import CotCompression.Scoring.Exact
import CotCompression.Worker.Sampling
import CotCompression.Worker.Quota
import CotCompression.Worker.Work
import CotCompression.Worker.Production
import CotCompression.Worker.Termination
import CotCompression.Worker.Pairing
import CotCompression.Export.Rlvr
import CotCompression.Export.Sft
import CotCompression.Export.Registry
import CotCompression.Export.Written
import CotCompression.Export.Registered
import CotCompression.Export.Store
import CotCompression.Export.Solved
import CotCompression.Export.SftTexts
import CotCompression.Export.Processes
import CotCompression.Scoring.Pass1
import CotCompression.Verl.KarmarkarKarp
import CotCompression.Verl.MicroBatches
import CotCompression.Verl.Advantage
import CotCompression.Verl.BatchBalance
import CotCompression.Verl.AgentLoop
import CotCompression.Verl.TrainingStep
import CotCompression.Verl.Metrics
import CotCompression.Verl.Validation
import CotCompression.Verl.RlvrSignal
import CotCompression.Verl.ActorLoss
