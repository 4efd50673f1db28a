import FrameGraph.Decimal.Parse
import FrameGraph.Demo.Basic

/-! The command line of the demonstration. Every option has its value in the next
argument, or after an equals sign, except `--secondary-device`, which has none. -/

namespace FrameGraph.Demo

/-- What a command line asks for. -/
structure Arguments where
  options : Options := {}
  /-- The least severe level that the log shows, or `none` for no log. -/
  level : Option Level := some .info

namespace Arguments

def catchUpNames : List (String × CatchUp) :=
  [("fire-and-forget", .fireAndForget), ("single-corrective", .singleStep),
    ("multiple-steps", .multipleSteps)]

def levelNames : List (String × Option Level) :=
  [("off", none), ("error", some .error), ("warn", some .warn), ("info", some .info),
    ("debug", some .debug), ("trace", some .trace)]

/-- What is said of a value that an option does not accept. -/
def invalid (option value : String) : String := s!"invalid value '{value}' for '{option}'"

def require {α : Type} (option value : String) : Option α → Except String α
  | some a => .ok a
  | none => .error (invalid option value)

/-- Take one option with its value. -/
def set (a : Arguments) (option value : String) : Except String Arguments := do
  let float := require option value (Decimal.parse? value)
  let whole := require option value (Decimal.natural? value.toList)
  let o := a.options
  match option with
  | "--frames" => return { a with options := { o with frames := ← whole } }
  | "--frame-time" => return { a with options := { o with frameTime := ← float } }
  | "--physics-hz" => return { a with options := { o with physicsRate := ← float } }
  | "--network-hz" => return { a with options := { o with networkRate := ← float } }
  | "--ai-hz" => return { a with options := { o with thinkRate := ← float } }
  | "--hitch-every" => return { a with options := { o with hitchEvery := some (← whole) } }
  | "--hitch-time" => return { a with options := { o with hitchTime := ← float } }
  | "--catchup" =>
    return { a with options := { o with
      catchUp := ← require option value (catchUpNames.lookup value) } }
  | "--secondary-device" => return { a with options := { o with secondDevice := true } }
  | "--log" => return { a with level := ← require option value (levelNames.lookup value) }
  | _ => .error s!"unexpected argument '{option}'"

/-- Cut an argument at its first equals sign. -/
def split (argument : String) : String × Option String :=
  let (option, value) := Decimal.splitAt? (· == '=') argument.toList
  (String.ofList option, value.map String.ofList)

/-- The options of a command line with their values, which is empty for the one that has none. -/
def pairs : List String → Except String (List (String × String))
  | [] => .ok []
  | "--secondary-device" :: rest => (("--secondary-device", "") :: ·) <$> pairs rest
  | argument :: rest =>
    match split argument with
    | (option, some value) => ((option, value) :: ·) <$> pairs rest
    | (option, none) =>
      match rest with
      | [] => .error s!"a value is required for '{option}'"
      | value :: rest => ((option, value) :: ·) <$> pairs rest

def ofList (arguments : List String) : Except String Arguments := do
  (← pairs arguments).foldlM (fun a (option, value) => a.set option value) {}

end Arguments

end FrameGraph.Demo
