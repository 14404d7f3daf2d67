/-!
# Lines

A source line with its place in the indentation: the text without the blanks around it, the number
of indentation units in front of it, its number in the source, and the lines nested beneath it.
-/

namespace Stylesheet

/-- A source line and the lines nested beneath it. -/
structure Line where
  text : String
  depth : Int
  index : Int
  children : List Line := []
  deriving BEq, Repr, Inhabited

namespace Line

mutual

/-- A line followed by everything beneath it, in source order, each line without its nested
lines. -/
def flatten : Line → List Line
  | ⟨text, depth, index, children⟩ => ⟨text, depth, index, []⟩ :: flattenAll children

def flattenAll : List Line → List Line
  | [] => []
  | line :: lines => line.flatten ++ flattenAll lines

end

/-- The lines of a forest in reading order are those of its parts, one after the other. -/
theorem flattenAll_append (xs ys : List Line) :
    flattenAll (xs ++ ys) = flattenAll xs ++ flattenAll ys := by
  induction xs with
  | nil => simp [flattenAll]
  | cons x xs ih => simp [flattenAll, ih]

end Line

end Stylesheet
