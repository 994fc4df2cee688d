import BoxSearch.Binary64
import BoxSearch.Capacity
import BoxSearch.CheckDefault
import BoxSearch.Config
import BoxSearch.Cost
import BoxSearch.Decimal
import BoxSearch.Decimal.Shortest
import BoxSearch.Draw
import BoxSearch.Draw.WordStream
import BoxSearch.Engine
import BoxSearch.Engine.Steps
import BoxSearch.Evolution
import BoxSearch.Evolution.Config
import BoxSearch.Evolution.Table
import BoxSearch.Fault
import BoxSearch.Feasibility
import BoxSearch.Genetic
import BoxSearch.Genetic.BitCode
import BoxSearch.Genetic.Config
import BoxSearch.Genetic.OnGrid
import BoxSearch.Genetic.Ranks
import BoxSearch.Genetic.Wheel
import BoxSearch.Grid
import BoxSearch.Grid.Reading
import BoxSearch.Grid.Rows
import BoxSearch.HillClimb
import BoxSearch.HillClimb.Config
import BoxSearch.Ledger
import BoxSearch.Logging
import BoxSearch.Method
import BoxSearch.Objective
import BoxSearch.Objective.Family
import BoxSearch.Partition
import BoxSearch.Partition.Config
import BoxSearch.Partition.Hull
import BoxSearch.Partition.Stray
import BoxSearch.Place
import BoxSearch.Point
import BoxSearch.Population
import BoxSearch.Query
import BoxSearch.Refusal
import BoxSearch.Region
import BoxSearch.Region.OnGrid
import BoxSearch.Repeat
import BoxSearch.Report
import BoxSearch.Request
import BoxSearch.Rotation
import BoxSearch.Rotation.Config
import BoxSearch.Rotation.Orthonormal
import BoxSearch.Rounding
import BoxSearch.Scalar
import BoxSearch.Search
import BoxSearch.Seed
import BoxSearch.Session
import BoxSearch.Session.Cells
import BoxSearch.Session.Drive
import BoxSearch.Session.Members
import BoxSearch.Session.Particles
import BoxSearch.Session.Placed
import BoxSearch.Session.Steps
import BoxSearch.Session.Vertices
import BoxSearch.Setting
import BoxSearch.Simplex
import BoxSearch.Simplex.Config
import BoxSearch.Swarm
import BoxSearch.Swarm.Config
import BoxSearch.Swarm.Table
import BoxSearch.Swarm.Torus
import BoxSearch.Text.Blank
import BoxSearch.Text.DecimalDigit
import BoxSearch.Text.Fold
import BoxSearch.Text.Numeral
import BoxSearch.Text.Printable
import BoxSearch.Text.Quoted
import BoxSearch.Proofs.Exact
import BoxSearch.Proofs.Feasible.Region
import BoxSearch.Proofs.Feasible.OnGrid
import BoxSearch.Proofs.Feasible.Projection
import BoxSearch.Proofs.Feasible.UnitCube
import BoxSearch.Proofs.Search.Triple
import BoxSearch.Proofs.Search.Sustained
import BoxSearch.Proofs.Search.Replies
import BoxSearch.Proofs.Partition.Division
import BoxSearch.Proofs.Feasible.Choices
import BoxSearch.Proofs.Feasible.Offspring
import BoxSearch.Proofs.Feasible.Confined
import BoxSearch.Proofs.Feasible.Methods
import BoxSearch.Proofs.Feasible.Populations
import BoxSearch.Proofs.Feasible.Solve
import BoxSearch.Proofs.Partition.Reach
import BoxSearch.Proofs.Order.Rescale
import BoxSearch.Proofs.Order.Mirror
import BoxSearch.Proofs.Order.Methods
import BoxSearch.Proofs.Order.Simplex
import BoxSearch.Proofs.Order.Populations
import BoxSearch.Proofs.Order.Solve
import BoxSearch.Proofs.Budget.Lead
import BoxSearch.Proofs.Budget.Pace
import BoxSearch.Proofs.Budget.Methods
import BoxSearch.Proofs.Budget.Populations
import BoxSearch.Proofs.Budget.Solve
import BoxSearch.Proofs.Compare
import BoxSearch.Proofs.Ranking
import BoxSearch.Proofs.Account.Best
import BoxSearch.Proofs.Account.Passage
import BoxSearch.Proofs.Account.Methods
import BoxSearch.Proofs.Account.Solve
import BoxSearch.Proofs.Account.Reached
import BoxSearch.Proofs.Kept.Simplex
import BoxSearch.Proofs.Kept.Evolution
import BoxSearch.Proofs.Partition.Levels
import BoxSearch.Proofs.Synchrony.Abreast
import BoxSearch.Proofs.Synchrony.Generations
import BoxSearch.Proofs.Counts.Terms
import BoxSearch.Proofs.Counts.Methods
import BoxSearch.Proofs.Counts.Populations
import BoxSearch.Proofs.Counts.Rounds
import BoxSearch.Proofs.Faultless.Steps
import BoxSearch.Proofs.Faultless.Choices
import BoxSearch.Proofs.Faultless.Axes
import BoxSearch.Proofs.Faultless.Methods
import BoxSearch.Proofs.Faultless.Populations
import BoxSearch.Proofs.Faultless.Solve
import BoxSearch.Proofs.Counts.Solve
import BoxSearch.Proofs.Counts.Accepted
import BoxSearch.Proofs.Counts.Target
import BoxSearch.Proofs.Counts.Endings
import BoxSearch.Proofs.Counts.Overshoot
import BoxSearch.Proofs.Kept.Genetic
import BoxSearch.Proofs.Counts.Genetic
import BoxSearch.Proofs.Kept.Crossing
import BoxSearch.Proofs.Kept.Swarm
import BoxSearch.Proofs.Partition.Optimality
import BoxSearch.Proofs.Partition.Records
import BoxSearch.Proofs.Partition.Accounts
import BoxSearch.Proofs.Doubles.Signs
import BoxSearch.Proofs.Doubles.Magnitudes
import BoxSearch.Proofs.Doubles.Wholes
import BoxSearch.Proofs.Repeat.Statistics
import BoxSearch.Proofs.Repeat.Summary
import BoxSearch.Proofs.Repeat.Independence
import BoxSearch.Proofs.Partition.Aborted
import BoxSearch.Proofs.Simplex.Branches
import BoxSearch.Proofs.Partition.Largest
import BoxSearch.Proofs.Rotation.Basis
import BoxSearch.Proofs.Rotation.Frames
import BoxSearch.Proofs.Rotation.Reach
import BoxSearch.Proofs.Neighbourhood
import BoxSearch.Proofs.Driven.Asked
import BoxSearch.Proofs.Driven.Replayed
import BoxSearch.Proofs.Driven.Final
import BoxSearch.Proofs.Breeding.Ranks
import BoxSearch.Proofs.Breeding.Roulette
import BoxSearch.Proofs.Breeding.Mixing
import BoxSearch.Proofs.Breeding.Families
import BoxSearch.Proofs.Starts.Opening
import BoxSearch.Proofs.Starts.Reading
import BoxSearch.Proofs.Starts.Solve
import BoxSearch.Proofs.Doubles.Values
import BoxSearch.Proofs.Settings.Ranges
import BoxSearch.Proofs.Settings.Stable
import BoxSearch.Proofs.Breeding.Codes
import BoxSearch.Proofs.Breeding.Chances
