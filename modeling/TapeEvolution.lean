import TapeEvolution.Machine.Tape
import TapeEvolution.Machine.Brackets
import TapeEvolution.Machine.Data
import TapeEvolution.Machine.Structured
import TapeEvolution.Machine.Endless
import TapeEvolution.Machine.Checked
import TapeEvolution.Machine.Trace
import TapeEvolution.Machine.Conclusion
import TapeEvolution.Text.Decimal
import TapeEvolution.Text.Quoted
import TapeEvolution.Scalar
import TapeEvolution.Random.Draw
import TapeEvolution.Random.Stream
import TapeEvolution.Genome.Reduction
import TapeEvolution.Genome.Completion
import TapeEvolution.Genome.Growth
import TapeEvolution.Genome.Variation
import TapeEvolution.Scoring.Fitness
import TapeEvolution.Scoring.Statistics
import TapeEvolution.Scoring.Reductions
import TapeEvolution.Population.Breeding
import TapeEvolution.Population.Pool
import TapeEvolution.Console
import TapeEvolution.Engine
import TapeEvolution.Workbench
import TapeEvolution.Proofs.Engine.Accounting
import TapeEvolution.Proofs.Engine.Best
import TapeEvolution.Proofs.Engine.Calls
import TapeEvolution.Proofs.Engine.Failures
import TapeEvolution.Proofs.Engine.Growth
import TapeEvolution.Proofs.Engine.Material
import TapeEvolution.Proofs.Engine.Occasions
import TapeEvolution.Proofs.Engine.Readiness
import TapeEvolution.Proofs.Engine.Reevaluation
import TapeEvolution.Proofs.Engine.Resumption
import TapeEvolution.Proofs.Engine.Rounds
import TapeEvolution.Proofs.Engine.Scores
import TapeEvolution.Proofs.Engine.Targets
import TapeEvolution.Proofs.Engine.Workers
import TapeEvolution.Proofs.Genome.Alphabet
import TapeEvolution.Proofs.Genome.Growth
import TapeEvolution.Proofs.Genome.Parity
import TapeEvolution.Proofs.Genome.Reduction
import TapeEvolution.Proofs.Genome.ReducedForm
import TapeEvolution.Proofs.Genome.Variation
import TapeEvolution.Proofs.Machine.Balance
import TapeEvolution.Proofs.Machine.Cells
import TapeEvolution.Proofs.Machine.Comments
import TapeEvolution.Proofs.Machine.Comparison
import TapeEvolution.Proofs.Machine.Completion
import TapeEvolution.Proofs.Machine.Concatenation
import TapeEvolution.Proofs.Machine.Enclosure
import TapeEvolution.Proofs.Machine.Endless
import TapeEvolution.Proofs.Machine.Layout
import TapeEvolution.Proofs.Machine.Mirroring
import TapeEvolution.Proofs.Machine.Nesting
import TapeEvolution.Proofs.Machine.Observation
import TapeEvolution.Proofs.Machine.Reading
import TapeEvolution.Proofs.Machine.Realization
import TapeEvolution.Proofs.Machine.Reduced
import TapeEvolution.Proofs.Machine.Snapshot
import TapeEvolution.Proofs.Machine.Truncation
import TapeEvolution.Proofs.Machine.Turns
import TapeEvolution.Proofs.Machine.Unbroken
import TapeEvolution.Proofs.Population.Failures
import TapeEvolution.Proofs.Population.Foremost
import TapeEvolution.Proofs.Population.Generations
import TapeEvolution.Proofs.Population.Growth
import TapeEvolution.Proofs.Population.Precedence
import TapeEvolution.Proofs.Population.Proportion
import TapeEvolution.Proofs.Population.Schedules
import TapeEvolution.Proofs.Population.Settling
import TapeEvolution.Proofs.Random.Units
import TapeEvolution.Proofs.Scoring.Aggregates
import TapeEvolution.Proofs.Scoring.Circle
import TapeEvolution.Proofs.Scoring.Comparison
import TapeEvolution.Proofs.Scoring.Extremes
import TapeEvolution.Proofs.Scoring.Order
import TapeEvolution.Proofs.Scoring.Ranking
