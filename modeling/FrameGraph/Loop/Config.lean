import FrameGraph.Loop.Seconds
import FrameGraph.Notice

/-! Configurations of update loops. A loop has a name, a timestep in seconds (zero for
a loop that runs every frame), a way to catch up after a long frame and an upper
bound on the frame time it accepts. A configuration is accepted when its timestep is
finite and not negative and its bound finite and positive. -/

namespace FrameGraph

/-- How a fixed loop spends the debt that a long frame leaves. -/
inductive CatchUp
  /-- Run once with the whole debt as delta, then drop it. -/
  | fireAndForget
  /-- Run once with the timestep and carry the rest. -/
  | singleStep
  /-- Run once per whole timestep of debt within the same frame. -/
  | multipleSteps
  deriving DecidableEq, Repr

namespace CatchUp

def name : CatchUp → String
  | fireAndForget => "FireAndForget"
  | singleStep => "SingleCorrectiveStep"
  | multipleSteps => "MultipleSteps"

end CatchUp

/-- Why a loop is refused. -/
inductive LoopError
  | duplicateName (name : String)
  | invalidTimestep (name : String)
  | invalidCap (name : String)
  deriving DecidableEq, Repr

namespace LoopError

/-- What is wrong with a configuration, without the loop's name. -/
def reason : LoopError → String
  | duplicateName _ => "name already registered"
  | invalidTimestep _ => "fixed timestep must be a finite, non-negative number of seconds"
  | invalidCap _ => "max catch-up time must be a finite, positive number of seconds"

def message : LoopError → String
  | duplicateName name => s!"a loop named '{name}' is already registered"
  | invalidTimestep name =>
    s!"invalid configuration for loop '{name}': " ++ (invalidTimestep name).reason
  | invalidCap name => s!"invalid configuration for loop '{name}': " ++ (invalidCap name).reason

end LoopError

/-- The configuration of one loop. -/
structure LoopConfig (τ : Type) where
  name : String
  timestep : τ
  catchUp : CatchUp := .multipleSteps
  /-- Longer frame times are cut to this. -/
  cap : τ
  deriving DecidableEq

namespace LoopConfig

variable {τ : Type} [Seconds τ] [LT τ] [LE τ] [DecidableLT τ] [DecidableLE τ]

def fixed (name : String) (timestep : τ) : LoopConfig τ :=
  { name, timestep, cap := Seconds.defaultCap }

def everyFrame (name : String) : LoopConfig τ := fixed name Seconds.zero

/-- A timestep equal to zero, in the order of the number type. -/
def isVariable (config : LoopConfig τ) : Bool :=
  config.timestep ≤ Seconds.zero && Seconds.zero ≤ config.timestep

/-- The timestep is tested before the bound. -/
def check (config : LoopConfig τ) : Except LoopError Unit :=
  if !(Seconds.isFinite config.timestep && Seconds.zero ≤ config.timestep) then
    .error (.invalidTimestep config.name)
  else if !(Seconds.isFinite config.cap && Seconds.zero < config.cap) then
    .error (.invalidCap config.name)
  else .ok ()

/-- A frame time that is not positive becomes the shortest frame. -/
def positive (frameTime : τ) : τ :=
  if Seconds.zero < frameTime then frameTime else Seconds.minFrame

/-- The part of a frame's time that the loop accepts. -/
def accepted (config : LoopConfig τ) (frameTime : τ) : τ :=
  Seconds.smaller (positive frameTime) config.cap

end LoopConfig

end FrameGraph
