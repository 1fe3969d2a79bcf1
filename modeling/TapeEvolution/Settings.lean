import TapeEvolution.Machine.Interpreter
import TapeEvolution.Scalar

/-!
The settings that stand in for whatever a caller leaves out, in sections, and the changes that can
be made to them one at a time.
-/

namespace TapeEvolution

structure MachineSettings where
  loopLimit : Int := Interpreter.defaultLoopLimit
deriving DecidableEq, Repr

/-- Settings for random programs: their mean length, and the probability with which a step makes
    everything so far the body of a loop. -/
structure GrowthSettings (S : Type) where
  meanLength : S
  enclosing : S
deriving DecidableEq, Repr

/-- Settings for populations and their evolution. Without a number of workers the pool decides. -/
structure EvolutionSettings (S : Type) where
  populationSize : Int
  mutationRate : S
  eliteFraction : S
  maxWorkers : Option Int
  pollTimeout : S
deriving DecidableEq, Repr

structure Settings (S : Type) where
  machine : MachineSettings
  growth : GrowthSettings S
  evolution : EvolutionSettings S
  logLevel : String
deriving DecidableEq, Repr

namespace Settings

variable {S : Type} [Scalar S]

/-- The settings in force until others are set. -/
def standard : Settings S where
  machine := {}
  growth := ⟨Scalar.ofInt 20, Scalar.ratio 5 100⟩
  evolution := ⟨100, Scalar.ratio 1 100, Scalar.ratio 1 5, none, 1⟩
  logLevel := "INFO"

instance : Inhabited (Settings S) := ⟨standard⟩

end Settings

/-- A change of one setting. -/
inductive SettingChange (S : Type) where
  | loopLimit (limit : Int)
  | meanLength (length : S)
  | enclosing (probability : S)
  | populationSize (size : Int)
  | mutationRate (rate : S)
  | eliteFraction (fraction : S)
  | maxWorkers (count : Option Int)
  | pollTimeout (seconds : S)
  | logLevel (name : String)

def Settings.change {S : Type} (settings : Settings S) : SettingChange S → Settings S
  | .loopLimit limit => { settings with machine.loopLimit := limit }
  | .meanLength length => { settings with growth.meanLength := length }
  | .enclosing probability => { settings with growth.enclosing := probability }
  | .populationSize size => { settings with evolution.populationSize := size }
  | .mutationRate rate => { settings with evolution.mutationRate := rate }
  | .eliteFraction fraction => { settings with evolution.eliteFraction := fraction }
  | .maxWorkers count => { settings with evolution.maxWorkers := count }
  | .pollTimeout seconds => { settings with evolution.pollTimeout := seconds }
  | .logLevel name => { settings with logLevel := name }

end TapeEvolution
