import DiceSampling.Aggregate
import DiceSampling.Evaluator
import DiceSampling.Main
import DiceSampling.Proofs.Binary64.Reading
import DiceSampling.Rollers
import DiceSampling.Proofs.Binary64.Arithmetic
import DiceSampling.Proofs.Binary64.Conversion
import DiceSampling.Proofs.Draw
import DiceSampling.Proofs.Faces
import DiceSampling.Proofs.Outcome
import DiceSampling.Proofs.EagerPipeline
import DiceSampling.Proofs.NotationLanguage
import DiceSampling.Proofs.Sampling
import DiceSampling.Proofs.Runs
import DiceSampling.Proofs.PoolTotals
import DiceSampling.Proofs.Recipes
import DiceSampling.Proofs.Tallies
import DiceSampling.Proofs.Flags
import DiceSampling.Proofs.QuotedText
import DiceSampling.Proofs.Binary64.Shortest
import DiceSampling.Proofs.Json.Decimals
import DiceSampling.Proofs.Reports
import DiceSampling.Proofs.Endings
import DiceSampling.Proofs.Fairness
import DiceSampling.Proofs.CanonicalNotation
import DiceSampling.Proofs.Json.Grammar
import DiceSampling.Proofs.Json.Words
import DiceSampling.Proofs.Json.Reading
import DiceSampling.Proofs.Json.Writing
import DiceSampling.Proofs.Json.RoundTrip
import DiceSampling.Proofs.DrawRange
import DiceSampling.Proofs.ShiftChains
import DiceSampling.Proofs.Extremes
import DiceSampling.Proofs.CombinedPools
import DiceSampling.Proofs.Interleavings
import DiceSampling.Proofs.Routes
import DiceSampling.Proofs.FlagTotals
import DiceSampling.Proofs.Rollers.Words
import DiceSampling.Proofs.Rollers.Exchange
import DiceSampling.Proofs.Binary64.Division
import DiceSampling.Proofs.Binary64.SquareRoot
import DiceSampling.Proofs.Summation
import DiceSampling.Proofs.MeanDeviation
import DiceSampling.Proofs.SampledRuns
import DiceSampling.Proofs.Bars
import DiceSampling.Proofs.HistogramLines
import DiceSampling.Proofs.TheoreticalMoments
import DiceSampling.Proofs.Shares
import DiceSampling.Proofs.ModifiedRolls
