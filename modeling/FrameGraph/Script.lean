import FrameGraph.Node.BuiltIn

/-! Scripts: node work as a list of actions. The actions run in order on every
invocation until one fails; the script counts its invocations from one. -/

namespace FrameGraph

/-- One action of a script, most of them a write to an output. -/
inductive Action
  /-- The number of invocations so far. -/
  | count (output : Nat)
  | set (output : Nat) (value : Value)
  /-- Like `set`, but a refusal is ignored. -/
  | trySet (output : Nat) (value : Value)
  | copy (output input : Nat)
  /-- Like `copy`, but an empty input is a failure. -/
  | require (output input : Nat)
  /-- A parameter, empty when it is missing. -/
  | param (output : Nat) (name : String)
  /-- An integer input plus a summand. -/
  | add (output input : Nat) (summand : Int64)
  /-- The output's own integer plus a summand. -/
  | bump (output : Nat) (summand : Int64)
  /-- A float input times a factor. -/
  | scale (output input : Nat) (factor : Float)
  | delta (output : Nat)
  | steps (output : Nat)
  /-- True on every invocation whose number the period divides. -/
  | every (output period : Nat)
  /-- Lay the context open, with so many inputs. -/
  | sample (inputs : Nat)
  /-- Fail, on one invocation or on all, in one kind of pass or in both. -/
  | fail (error : NodeError) (invocation : Option Nat) (isCatchUp : Option Bool)

structure Script where
  actions : List Action
  /-- Invocations so far. -/
  calls : Nat := 0

namespace Script

/-- Write and go on, or stop at a refusal. -/
def put (self : Script) (output : Nat) (value : Value) (rest : Activity Script) :
    Activity Script :=
  .write output value fun
    | none => rest
    | some e => .finish self (some e)

/-- Carry out one action before the rest. -/
def perform (self : Script) (c : Context) (rest : Activity Script) : Action → Activity Script
  | .count output => self.put output (.int (.ofNat self.calls)) rest
  | .set output value => self.put output value rest
  | .trySet output value => .write output value fun _ => rest
  | .copy output input => self.put output (c.input input) rest
  | .require output input =>
    match c.require input with
    | .ok value => self.put output value rest
    | .error e => .finish self (some e)
  | .param output name => self.put output ((c.params.get? name).getD .empty) rest
  | .add output input summand =>
    self.put output (.int ((c.input input).asInt.getD 0 + summand)) rest
  | .bump output summand =>
    .read output fun own =>
      self.put output (.int ((own.bind Value.asInt).getD 0 + summand)) rest
  | .scale output input factor =>
    self.put output (.float (.ofFloat ((c.input input).asFloat.getD 0 * factor))) rest
  | .delta output => self.put output (.float (.ofFloat c.timing.delta)) rest
  | .steps output => self.put output (.int (.ofNat c.timing.steps)) rest
  | .every output period => self.put output (.bool (self.calls % period == 0)) rest
  | .sample inputs => .note (.sample c inputs) rest
  | .fail error invocation isCatchUp =>
    if invocation.all (· == self.calls) && isCatchUp.all (· == c.timing.isCatchUp) then
      .finish self (some error)
    else rest

/-- Count the invocation, then carry out all actions. -/
instance : Behavior Script where
  act script c :=
    let self := { script with calls := script.calls + 1 }
    self.actions.foldr (fun action rest => self.perform c rest action) (.finish self none)

end Script

end FrameGraph
