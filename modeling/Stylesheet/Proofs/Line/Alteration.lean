import Stylesheet.Line.Shape
import Stylesheet.Proofs.Line.Numbers

/-!
# Altered lines

Two things about lines are only carried along when they are assembled: their numbers, and the lines
beneath comments, which are never interpreted. An `Alteration` replaces both, everywhere in a
forest, and leaves the rest as it is.

* `Line.alterAll_renumbering` : other numbers everywhere are an alteration.
* `Line.alterAll_uncovering` : lines beneath comments are taken away once and for all.
-/

namespace Stylesheet

/-- Whether the lines beneath a line of the shape are not interpreted. -/
def Shape.covers : Shape → Bool
  | .silentComment => true
  | .comment => true
  | _ => false

/-- Other numbers for lines, and other lines beneath comments. -/
structure Alteration where
  /-- The number of a line in place of the one that it has. -/
  number : Int → Int
  /-- The lines beneath a comment in place of those that are there. -/
  covered : List Line → List Line

namespace Line

mutual

def alter (a : Alteration) : Line → Line
  | ⟨text, depth, index, children⟩ =>
    ⟨text, depth, a.number index,
      if (Shape.of text.toList).covers then a.covered children else alterAll a children⟩

def alterAll (a : Alteration) : List Line → List Line
  | [] => []
  | line :: lines => line.alter a :: alterAll a lines

end

variable {a : Alteration}

@[simp] theorem alterAll_nil : alterAll a [] = [] := by
  simp [alterAll]

@[simp] theorem alterAll_cons (line : Line) (lines : List Line) :
    alterAll a (line :: lines) = line.alter a :: alterAll a lines := by
  simp [alterAll]

@[simp] theorem alter_index (line : Line) : (line.alter a).index = a.number line.index := by
  cases line
  simp [alter]

@[simp] theorem alter_text (line : Line) : (line.alter a).text = line.text := by
  cases line
  simp [alter]

/-- Beneath a line that is no comment everything is altered in turn. -/
theorem alter_children {line : Line} (h : (Shape.of line.text.toList).covers = false) :
    (line.alter a).children = alterAll a line.children := by
  cases line
  simp [alter, h]

/-- Beneath a comment something else stands. -/
theorem alter_children_of_covers {line : Line} (h : (Shape.of line.text.toList).covers = true) :
    (line.alter a).children = a.covered line.children := by
  cases line
  simp [alter, h]

end Line

namespace Alteration

open Line

def renumbering (f : Int → Int) : Alteration :=
  ⟨f, renumberAll f⟩

/-- Nothing stands beneath comments, and the numbers stay. -/
def uncovering : Alteration :=
  ⟨id, fun _ => []⟩

end Alteration

namespace Line

open Alteration

/-- The alteration that only renumbers lines renumbers a forest. -/
theorem alterAll_renumbering (f : Int → Int) :
    ∀ lines : List Line, alterAll (renumbering f) lines = renumberAll f lines
  | [] => by simp
  | ⟨text, depth, index, children⟩ :: rest => by
    have hcovered : (renumbering f).covered children = renumberAll f children := rfl
    rw [alterAll_cons, alter, renumberAll_cons, renumber, alterAll_renumbering f rest,
      alterAll_renumbering f children, hcovered, ite_self]
    rfl

/-- Nothing is left to be taken away. -/
theorem alterAll_uncovering :
    ∀ lines : List Line, alterAll uncovering (alterAll uncovering lines) = alterAll uncovering lines
  | [] => by simp
  | ⟨text, depth, index, children⟩ :: rest => by
    rw [alterAll_cons, alterAll_cons, alterAll_uncovering rest, alter, alter]
    cases (Shape.of text.toList).covers with
    | true => rfl
    | false =>
        rw [if_neg Bool.false_ne_true, if_neg Bool.false_ne_true, alterAll_uncovering children]
        rfl

end Line

end Stylesheet
