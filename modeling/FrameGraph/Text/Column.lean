/-! Columns of fixed width. A text shorter than its column is filled with spaces, a
longer one is kept whole. Widths count characters. -/

namespace FrameGraph.Text

def blanks (n : Nat) : String := String.ofList (List.replicate n ' ')

/-- The text at the left edge of its column. -/
def leftAligned (width : Nat) (text : String) : String := text ++ blanks (width - text.length)

/-- The text at the right edge of its column. -/
def rightAligned (width : Nat) (text : String) : String := blanks (width - text.length) ++ text

/-- A list in brackets, the items separated by commas. -/
def bracketed (items : List String) : String := "[" ++ ", ".intercalate items ++ "]"

end FrameGraph.Text
