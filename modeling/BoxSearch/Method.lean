import BoxSearch.Engine
import BoxSearch.Evolution.Config
import BoxSearch.Genetic.Config
import BoxSearch.HillClimb.Config
import BoxSearch.Partition.Config
import BoxSearch.Rotation.Config
import BoxSearch.Simplex.Config
import BoxSearch.Swarm.Config

/-!
# Method — the seven searches by name

A method is found by its name, without regard to case and with a hyphen for the underscore. Every
method reads a configuration of its own, from which an engine is built for a region.
-/

namespace BoxSearch

/-- The searches. -/
inductive Method where
  | hillClimb
  | swarm
  | genetic
  | evolution
  | simplex
  | rotation
  | partition
  deriving DecidableEq, Repr

/-- The configuration of a search. -/
inductive MethodConfig where
  | hillClimb (c : HillClimb.Config)
  | swarm (c : Swarm.Config)
  | genetic (c : Genetic.Config)
  | evolution (c : Evolution.Config)
  | simplex (c : Simplex.Config)
  | rotation (c : Rotation.Config)
  | partition (c : Partition.Config)

namespace Method

def all : List Method :=
  [.hillClimb, .swarm, .genetic, .evolution, .simplex, .rotation, .partition]

def name : Method → String
  | .hillClimb => "hillclimber"
  | .swarm => "pso"
  | .genetic => "ga"
  | .evolution => "es"
  | .simplex => "nelder_mead"
  | .rotation => "rosenbrock"
  | .partition => "direct"

def title : Method → String
  | .hillClimb => "HillClimber"
  | .swarm => "ParticleSwarm"
  | .genetic => "GeneticAlgorithm"
  | .evolution => "EvolutionStrategy"
  | .simplex => "NelderMead"
  | .rotation => "Rosenbrock"
  | .partition => "Direct"

def schema : Method → Schema
  | .hillClimb => HillClimb.Config.schema
  | .swarm => Swarm.Config.schema
  | .genetic => Genetic.Config.schema
  | .evolution => Evolution.Config.schema
  | .simplex => Simplex.Config.schema
  | .rotation => Rotation.Config.schema
  | .partition => Partition.Config.schema

def names : List String := (all.map name).mergeSort fun a b => decide (a ≤ b)

def ofName? (s : String) : Option Method := all.find? fun m => m.name == s

def canonical (s : String) : String :=
  String.ofList (s.toList.map fun c => if c = '-' then '_' else Text.lowerChar c)

def find? (s : String) : Option Method := ofName? (canonical s)

def configure (m : Method) (s : Settings) : Except SettingFault MethodConfig :=
  match m with
  | .hillClimb => .hillClimb <$> HillClimb.Config.ofSettings s
  | .swarm => .swarm <$> Swarm.Config.ofSettings s
  | .genetic => .genetic <$> Genetic.Config.ofSettings s
  | .evolution => .evolution <$> Evolution.Config.ofSettings s
  | .simplex => .simplex <$> Simplex.Config.ofSettings s
  | .rotation => .rotation <$> Rotation.Config.ofSettings s
  | .partition => .partition <$> Partition.Config.ofSettings s

end Method

namespace MethodConfig

def method : MethodConfig → Method
  | .hillClimb _ => .hillClimb
  | .swarm _ => .swarm
  | .genetic _ => .genetic
  | .evolution _ => .evolution
  | .simplex _ => .simplex
  | .rotation _ => .rotation
  | .partition _ => .partition

def toSettings : MethodConfig → Settings
  | .hillClimb c => c.toSettings
  | .swarm c => c.toSettings
  | .genetic c => c.toSettings
  | .evolution c => c.toSettings
  | .simplex c => c.toSettings
  | .rotation c => c.toSettings
  | .partition c => c.toSettings

def engine {n : Nat} (r : Region Float n) : MethodConfig → Except (Fault Float) (Engine Float n)
  | .hillClimb c => .ok (.hillClimb c.params)
  | .swarm c => .ok (.swarm c.params {})
  | .genetic c => do return .genetic c.params (← Genetic.codeLengths r) []
  | .evolution c => .ok (.evolution c.params {})
  | .simplex c => .ok (.simplex c.params {})
  | .rotation c => .ok (.rotation c.params {})
  | .partition c => .ok (.partition c.params {})

end MethodConfig

end BoxSearch
