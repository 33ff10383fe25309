import FireControl.Estimation.Resampling
import FireControl.Log
import FireControl.Settings.Sections

/-!
# Particle Filter

An estimate of the target's motion by a cloud of weighted guesses. The first measurement of a robot
scatters the cloud around it. After that, each measurement moves the cloud on to its time and weighs
every guess by how well it agrees; a cloud of which too few guesses count is resampled, and one that
does not agree at all is scattered anew.

All arithmetic is in single precision and every random number is drawn in a fixed order, so that
equal seeds give equal estimates.

## Main definitions

* `ParticleFilter`: The cloud, the generator and the robot that is followed.
* `ParticleFilter.init`: A cloud of the given size that knows of no robot.
* `ParticleFilter.reset`: The cloud scattered around a measurement.
* `ParticleFilter.predict`, `ParticleFilter.step`: A span of time without and with a measurement.
* `ParticleFilter.mean`: The weighted mean.
-/

namespace FireControl

/-- A filter by weighted guesses. -/
structure ParticleFilter where
  cloud : Cloud
  generator : ChaCha
  noise : SensorNoise
  /-- The robot that is followed. -/
  robot : Option RobotId

/-- Why a filter cannot start. -/
inductive FilterError where
  /-- A cloud needs a particle. -/
  | noParticles
  /-- Any other reason. -/
  | other (text : String)
deriving DecidableEq, Repr

/-- The reason in words. -/
def FilterError.message : FilterError → String
  | .noParticles => "particle count must be greater than zero"
  | .other text => text

namespace Cloud

/-- The likelihood, as a logarithm, that counts as no agreement at all. -/
def hopeless : Float32 := -200

/-- The logarithms of the weights after a measurement, not yet brought to a common scale. -/
def logWeights (cloud : Cloud) (precisions : Precisions) [ElementaryFunctions] (measured : Motion) :
    List Float32 :=
  cloud.map fun p =>
    ElementaryFunctions.log (p.weight.maxNum Draw.leastNormal) -
      Motion.misfit precisions measured p.motion

/-- The greatest of a list of numbers, a NaN being ignored. -/
def greatest (xs : List Float32) : Float32 :=
  xs.foldl Float32.maxNum (-1 / 0)

/-- The sum of a list of numbers, from the left. -/
def sum (xs : List Float32) : Float32 :=
  xs.foldl (· + ·) 0

/-- The cloud with other weights. -/
def withWeights (cloud : Cloud) (weights : List Float32) : Cloud :=
  List.zipWith (fun p w => { p with weight := w }) cloud weights

/-- How many guesses count: the reciprocal of the sum of the squared weights. -/
def effectiveSize (cloud : Cloud) : Float32 :=
  let squares := sum (cloud.map fun p => p.weight * p.weight)
  if 0 < squares then 1 / squares else 0

/-- The cloud weighed by a measurement, or `none` where no guess agrees with it. -/
def weigh? [ElementaryFunctions] (cloud : Cloud) (noise : SensorNoise) (measured : Motion) :
    Option Cloud :=
  let logs := cloud.logWeights noise.precisions measured
  let best := greatest logs
  if hopeless < best then
    let likelihoods := logs.map fun l => ElementaryFunctions.exp (l - best)
    let total := sum likelihoods
    if !total.isFinite || total ≤ 0 then none
    else some (cloud.withWeights (likelihoods.map (· / total)))
  else none

/-- The weighted mean of the guesses. Headings are averaged as directions, where that is
possible. -/
def mean [ElementaryFunctions] (cloud : Cloud) : Motion :=
  let linear :=
    cloud.foldl (fun sum (p : Particle) => sum.add (p.motion.scale p.weight)) Motion.zero
  { linear with
    yaw := (Angle.circularMean (cloud.map fun p => (p.motion.yaw, p.weight))).getD linear.yaw }

/-- A cloud of `n` guesses of nothing, of equal weights. -/
def blank (n : Nat) : Cloud :=
  List.replicate n ⟨Motion.zero, 1 / Float32.ofInteger n⟩

/-- The cloud scattered around a measurement, with equal weights. -/
def scatter [ElementaryFunctions] (cloud : Cloud) (noise : SensorNoise) (measured : Motion) :
    Draw Cloud :=
  cloud.mapM fun _ => do
    let motion ← measured.scatter noise
    return ⟨motion, 1 / Float32.ofInteger cloud.length⟩

/-- The cloud `dt` seconds later. A span that is not positive changes nothing. -/
def advance [ElementaryFunctions] (cloud : Cloud) (dt : Float32) : Draw Cloud :=
  if dt ≤ 0 then return cloud
  else
    cloud.mapM fun p => do
      let motion ← p.motion.advance dt
      return { p with motion := motion }

/-- The cloud resampled where too few guesses count. -/
def refresh (cloud : Cloud) : Draw Cloud :=
  if cloud.effectiveSize < Float32.ofInteger cloud.length * 0.5 then cloud.resample
  else return cloud

/-- The cloud after a measurement at its own time: weighed and refreshed, or scattered anew. -/
def update [ElementaryFunctions] (cloud : Cloud) (noise : SensorNoise) (measured : Motion) :
    Draw Cloud :=
  match cloud.weigh? noise measured with
  | some weighed => weighed.refresh
  | none => cloud.scatter noise measured

end Cloud

namespace ParticleFilter

/-- A filter without particles. Where the settings give no seed, the random numbers come from
`entropy`. -/
def new (settings : EstimatorSettings) (entropy : ChaCha) : ParticleFilter :=
  { cloud := [], generator := (settings.seed.map ChaCha.ofSeed).getD entropy,
    noise := ⟨settings.positionNoise, settings.yawNoise⟩, robot := none }

/-- What the log says about a filter that has started. -/
def startLog (n : Nat) : Log.Line :=
  Log.info .estimation s!"Particle filter initialized with {n} particles"

/-- The filter with `n` particles that knows of no robot. -/
def init (filter : ParticleFilter) (n : Nat) : Except FilterError ParticleFilter :=
  if n = 0 then .error .noParticles
  else .ok { filter with cloud := Cloud.blank n, robot := none }

/-- The filter with the cloud that a computation gives. -/
def withCloud (filter : ParticleFilter) (cloud : Draw Cloud) : ParticleFilter :=
  let (cloud, generator) := cloud.run filter.generator
  { filter with cloud := cloud, generator := generator }

variable [ElementaryFunctions]

/-- The filter with its cloud scattered around a measurement, whose robot it follows from now on. A
filter without particles stays as it is. -/
def reset (filter : ParticleFilter) (measured : RobotState) : ParticleFilter :=
  if filter.cloud.isEmpty then filter
  else
    { filter.withCloud (filter.cloud.scatter filter.noise measured.toMotion) with
      robot := some measured.robot }

/-- The filter `dt` seconds later. A filter that follows no robot stays as it is. -/
def predict (filter : ParticleFilter) (dt : Float32) : ParticleFilter :=
  if filter.robot.isSome then filter.withCloud (filter.cloud.advance dt) else filter

/-- The filter `dt` seconds later and after a measurement. A measurement of another robot scatters
the cloud around it. -/
def step (filter : ParticleFilter) (measured : RobotState) (dt : Float32) : ParticleFilter :=
  if filter.robot = some measured.robot then
    let moved := filter.withCloud (filter.cloud.advance dt)
    moved.withCloud (moved.cloud.update moved.noise measured.toMotion)
  else filter.reset measured

/-- The mean state of the robot that is followed. -/
def mean (filter : ParticleFilter) (now : Instant) : Option RobotState :=
  filter.robot.map fun id => RobotState.ofMotion filter.cloud.mean id now

end ParticleFilter

end FireControl
