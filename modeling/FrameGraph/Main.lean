import FrameGraph.Demo.Arguments

/-! The command line program: run the demonstration and print its log. -/

open FrameGraph.Demo in
/-- The exit code is one when the run ended with a fault and two when the command line is wrong. -/
def main (arguments : List String) : IO UInt32 := do
  match Arguments.ofList arguments with
  | .error message =>
    IO.eprintln ("error: " ++ message)
    return 2
  | .ok a =>
    for line in lines a.options a.level do
      IO.eprintln line
    return if (transcript a.options).2.isSome then 1 else 0
