import Stylesheet.Line.Tabulation

/-!
# From indented lines to a forest

A flat list of lines is regrouped by depth alone: a run of deeper lines is nested beneath the line
before it. The depth of the first line is the base of its level, and the level ends before the
first shallower line.
-/

namespace Stylesheet

/-- The sibling lines at depth `base` with everything beneath them, and the lines from the first
one on that is shallower. Every line is either at `base` or beneath the sibling before it, which
may have only lines one deeper directly beneath it. -/
def siblings (base : Int) (lines : List Line) :
    Except Diagnostic (List Line × { rest : List Line // rest.length ≤ lines.length }) :=
  match lines with
  | [] => .ok ([], ⟨[], Nat.le_refl _⟩)
  | line :: after =>
    if line.depth < base then .ok ([], ⟨line :: after, Nat.le_refl _⟩)
    else match after with
      | [] => .ok ([line], ⟨[], Nat.zero_le _⟩)
      | next :: later =>
        if next.depth ≤ base then do
          let (lines, ⟨rest, h⟩) ← siblings base (next :: later)
          pure (line :: lines, ⟨rest, Nat.le_succ_of_le h⟩)
        else if base + 1 < next.depth then
          .error ((Fault.indentationJump (next.depth - base)).at next.index)
        else do
          let (children, ⟨rest, h⟩) ← siblings next.depth (next :: later)
          let (lines, ⟨rest, h'⟩) ← siblings base rest
          pure ({ line with children } :: lines,
            ⟨rest, Nat.le_succ_of_le (Nat.le_trans h' h)⟩)
termination_by lines.length
decreasing_by all_goals (simp only [List.length_cons] at *; omega)

/-- The forest that the lines from position `start` on make up, and the position after the last
one used. -/
def regroup (lines : List Line) (start : Nat) : Except Diagnostic (List Line × Nat) :=
  match lines.drop start with
  | [] => .ok ([], start)
  | first :: rest => do
    let (nodes, rest) ← siblings first.depth (first :: rest)
    pure (nodes, lines.length - rest.1.length)

def parseLines (template : List Char) : Except Diagnostic (List Line) := do
  let lines ← tabulate template
  let (nodes, _) ← regroup lines 0
  pure nodes

end Stylesheet
