/-
  ExpertRouting.Text.Lines — the lines of a text.

  A line ends at a line feed; what follows the last one is a line too unless it is empty.
-/

import ExpertRouting.Text.Utf8

namespace ExpertRouting.Text

/-- The lines of a text; `line` holds the current one, newest first. -/
def linesFrom (line : List Symbol) : List Symbol → List (List Symbol)
  | [] => if line.isEmpty then [] else [line.reverse]
  | s :: rest => if s = .char '\n' then line.reverse :: linesFrom [] rest else linesFrom (s :: line) rest

def lines (text : List Symbol) : List (List Symbol) := linesFrom [] text

end ExpertRouting.Text
