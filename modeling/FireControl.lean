import FireControl.Decimal.Text
import FireControl.Gimbal.Limits
import FireControl.Serial.BaudRate
import FireControl.Serial.DryRun
import FireControl.Serial.MemoryLink
import FireControl.Tracking.Tracker
import FireControl.Aim.Ballistics
import FireControl.Aim.Lead
import FireControl.Aim.Solver
import FireControl.Exchange.Board
import FireControl.Exchange.Counters
import FireControl.Exchange.Race
import FireControl.Random.ChaCha
import FireControl.Random.Sampling
import FireControl.Estimation.Estimator
import FireControl.Gimbal.Command
import FireControl.Stages.Aimer
import FireControl.Stages.Perceiver
import FireControl.Stages.Pipeline
import FireControl.Settings.Validation
import FireControl.Turret.Error
import FireControl.Console.Sweep
import FireControl.Decimal.Nearest
import FireControl.Toml.Quoted
import FireControl.Toml.Value
import FireControl.Toml.Reader
import FireControl.Toml.Printer
import FireControl.Settings.Fields
import FireControl.Settings.File
import FireControl.Turret.Assembly
import FireControl.Console.Help
import FireControl.Console.Connection
import FireControl.Console.FileTree
import FireControl.Console.Configuration
import FireControl.Console.Program
import FireControl.Console.Rehearsal
import FireControl.Simulation.Playback
import FireControl.Simulation.Recording
import FireControl.Main
import FireControl.Proofs.Packet.Codec
import FireControl.Proofs.Tracking.Group
import FireControl.Proofs.Tracking.Expiry
import FireControl.Proofs.Tracking.FirstAppearance
import FireControl.Proofs.Tracking.LockCycle
import FireControl.Proofs.Tracking.NearestRobot
import FireControl.Proofs.Tracking.GracePeriod
import FireControl.Proofs.Tracking.FusedState
import FireControl.Proofs.Tracking.Phase
import FireControl.Proofs.Tracking.LockEvents
import FireControl.Proofs.Tracking.ResetDiscipline
import FireControl.Proofs.Estimation.CloudSize
import FireControl.Proofs.Estimation.FollowedRobot
import FireControl.Proofs.Stages.Handover
import FireControl.Proofs.Stages.Restart
import FireControl.Proofs.Tracking.Isolation
import FireControl.Proofs.Exchange.Consumption
import FireControl.Proofs.Exchange.Linearization
import FireControl.Proofs.Stages.Effects
import FireControl.Proofs.Stages.Conservation
import FireControl.Proofs.Numeric.Order
import FireControl.Proofs.Gimbal.PitchLimit
import FireControl.Proofs.Stages.Transmission
import FireControl.Proofs.Estimation.CloudShape
import FireControl.Proofs.Estimation.FilterHistory
import FireControl.Proofs.Numeric.NearestEven
import FireControl.Proofs.Numeric.Rounding
import FireControl.Proofs.Numeric.Packing
import FireControl.Proofs.Numeric.Arithmetic
import FireControl.Proofs.Aim.SpeedFilter
import FireControl.Proofs.Numeric.Interval
import FireControl.Proofs.Decimal.Shortest
import FireControl.Proofs.Decimal.Nearest
import FireControl.Proofs.Decimal.DoubleRounding
import FireControl.Proofs.Decimal.Digits
import FireControl.Proofs.Toml.Bare
import FireControl.Proofs.Toml.Number
import FireControl.Proofs.Toml.Quoted
import FireControl.Proofs.Toml.Document
import FireControl.Proofs.Settings.RoundTrip
import FireControl.Proofs.Aim.LeadSearch
import FireControl.Proofs.Exchange.Readers
import FireControl.Proofs.Numeric.Single
import FireControl.Proofs.Numeric.Infinity
import FireControl.Proofs.Numeric.Pattern
import FireControl.Proofs.Numeric.Double
import FireControl.Proofs.Estimation.IndependentSearch
import FireControl.Proofs.Numeric.Remainder
import FireControl.Proofs.Geometry.Folding
import FireControl.Proofs.Geometry.Degrees
import FireControl.Proofs.Gimbal.FiniteAngles
import FireControl.Proofs.Gimbal.YawLimit
import FireControl.Proofs.Packet.Corruption
import FireControl.Proofs.Estimation.Buffers
import FireControl.Proofs.Estimation.Forgetting
import FireControl.Proofs.Numeric.Accumulation
import FireControl.Proofs.Estimation.UsableWeights
import FireControl.Proofs.Stages.AimHistory
import FireControl.Proofs.Numeric.Grid
import FireControl.Proofs.Geometry.Seam
import FireControl.Proofs.Geometry.FacingPlate
import FireControl.Proofs.Tracking.FirstLeast
import FireControl.Proofs.Tracking.StablePartition
import FireControl.Proofs.Tracking.NearestFace
import FireControl.Proofs.Tracking.Coasting
import FireControl.Proofs.Tracking.Refinement
import FireControl.Proofs.Numeric.Products
import FireControl.Proofs.Console.SweepCycle
import FireControl.Proofs.Aim.Drop
import FireControl.Proofs.Serial.Handles
import FireControl.Proofs.Serial.Stream
import FireControl.Proofs.Serial.Record
