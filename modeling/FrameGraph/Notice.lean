/-! Notices: what the library has to say while it works. A notice is one line of a log,
a level and a text; a reader of a log chooses the least severe level to see. -/

namespace FrameGraph

/-- How urgent a notice is, the most severe first. -/
inductive Level
  | error
  | warn
  | info
  | debug
  | trace
  deriving DecidableEq, Repr

namespace Level

def severity : Level → Nat
  | error => 0
  | warn => 1
  | info => 2
  | debug => 3
  | trace => 4

def name : Level → String
  | error => "ERROR"
  | warn => "WARN"
  | info => "INFO"
  | debug => "DEBUG"
  | trace => "TRACE"

/-- Whether a log that shows levels up to `limit` shows this one. -/
def shownAt (level limit : Level) : Bool := level.severity ≤ limit.severity

end Level

/-- A line of a log. -/
structure Notice where
  level : Level
  text : String
  deriving DecidableEq, Repr

namespace Notice

def warn (text : String) : Notice := ⟨.warn, text⟩
def info (text : String) : Notice := ⟨.info, text⟩
def debug (text : String) : Notice := ⟨.debug, text⟩
def trace (text : String) : Notice := ⟨.trace, text⟩

/-- The level, then the text. -/
def line (notice : Notice) : String := notice.level.name ++ " " ++ notice.text

/-- The lines of the notices that a log shows: those up to a level, or none at all. -/
def lines (limit : Option Level) (notices : List Notice) : List String :=
  (notices.filter fun n => limit.any n.level.shownAt).map line

end Notice

end FrameGraph
