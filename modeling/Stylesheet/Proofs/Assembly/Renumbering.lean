import Stylesheet.Proofs.Assembly.Alteration

/-!
# Assembling lines under other numbers

Other numbers are an alteration (`Alteration.renumbering`), so an assembly commutes with giving
lines other numbers: over lines and mixins under other numbers it comes to the same nodes or the
same failure under these numbers, and it leaves the same tables and the same log.

Imported files have their own numbers, which are counted from one on. They are not touched by a
change that leaves these numbers alone (`FixesCounted`).

* `Node.alterAll_renumbering` : altered nodes, where only numbers are altered.
* `assemble_commutes` : what is included and imported, by induction on the limit.
* `parsedDocument_commutes` : whole templates, once they are parsed.
-/

namespace Stylesheet

open Line Assembly Alteration

/-! ## Other numbers -/

def Content.renumber (f : Int → Int) : Content → Content
  | .comment text visible lines => .comment text visible (renumberAll f lines)
  | content => content

namespace Node

mutual

def renumber (f : Int → Int) : Node → Node
  | ⟨content, line, filename, children⟩ =>
    ⟨content.renumber f, line.map f, filename, renumberAll f children⟩

def renumberAll (f : Int → Int) : List Node → List Node
  | [] => []
  | node :: nodes => node.renumber f :: renumberAll f nodes

end

end Node

def State.renumber (f : Int → Int) (s : State) : State :=
  { s with mixins := ⟨s.mixins.entries.map fun entry => (entry.1, renumberAll f entry.2)⟩ }

variable {f g : Int → Int}

namespace Node

@[simp] theorem renumberAll_nil : renumberAll f [] = [] := by
  simp [renumberAll]

@[simp] theorem renumberAll_cons (node : Node) (nodes : List Node) :
    renumberAll f (node :: nodes) = node.renumber f :: renumberAll f nodes := by
  simp [renumberAll]

@[simp] theorem renumber_mk (content : Content) (line : Option Int) (filename : Option String)
    (children : List Node) :
    renumber f ⟨content, line, filename, children⟩ =
      ⟨content.renumber f, line.map f, filename, renumberAll f children⟩ := by
  simp [renumber]

@[simp] theorem renumber_content (node : Node) :
    (node.renumber f).content = node.content.renumber f := by
  cases node
  simp

@[simp] theorem renumber_children (node : Node) :
    (node.renumber f).children = renumberAll f node.children := by
  cases node
  simp

@[simp] theorem isEmpty_renumberAll (nodes : List Node) :
    (renumberAll f nodes).isEmpty = nodes.isEmpty := by
  cases nodes <;> simp

end Node

namespace State

@[simp] theorem renumber_constants (s : State) : (s.renumber f).constants = s.constants := rfl

@[simp] theorem renumber_events (s : State) : (s.renumber f).events = s.events := rfl

/-- Two renumberings in a row are one, by the composed map. -/
theorem renumber_renumber (s : State) : (s.renumber f).renumber g = s.renumber (g ∘ f) := by
  simp [renumber, Function.comp_def, renumberAll_renumberAll]

end State

def renumberedOutcome {α β : Type} (f : Int → Int) (h : α → β) :
    Except Failure α × State → Except Failure β × State
  | (.ok a, t) => (.ok (h a), t.renumber f)
  | (.error failure, t) => (.error (failure.renumber f), t.renumber f)

/-! ## Other numbers as an alteration -/

theorem Content.alter_renumbering (f : Int → Int) (content : Content) :
    content.alter (renumbering f) = content.renumber f := by
  cases content <;> rfl

namespace Node

mutual

/-- The alteration that only renumbers lines renumbers a node. -/
theorem alter_renumbering (f : Int → Int) :
    ∀ node : Node, node.alter (renumbering f) = node.renumber f
  | ⟨content, line, filename, children⟩ => by
    rw [alter_mk, renumber_mk, Content.alter_renumbering, alterAll_renumbering f children]
    rfl

theorem alterAll_renumbering (f : Int → Int) :
    ∀ nodes : List Node, alterAll (renumbering f) nodes = renumberAll f nodes
  | [] => by simp
  | node :: nodes => by
    rw [alterAll_cons, renumberAll_cons, alter_renumbering f node, alterAll_renumbering f nodes]

end

end Node

theorem State.alter_renumbering (f : Int → Int) (s : State) :
    s.alter (renumbering f) = s.renumber f := by
  simp only [State.alter, State.renumber, Line.alterAll_renumbering]

/-- An outcome altered by a renumbering is the outcome renumbered. -/
theorem alteredOutcome_renumbering {α β : Type} (f : Int → Int) (h : α → β)
    (result : Except Failure α × State) :
    alteredOutcome (renumbering f) h result = renumberedOutcome f h result := by
  obtain ⟨failure | r, t⟩ := result
  · simp only [alteredOutcome, renumberedOutcome, State.alter_renumbering]
    rfl
  · simp only [alteredOutcome, renumberedOutcome, State.alter_renumbering]

/-! ## Whole assemblies -/

/-- An assembly at any limit commutes with other numbers. Imported files keep the numbers that are
counted in them, so that their lines are as good as altered. -/
theorem assemble_commutes (hf : FixesCounted f) (limit : Nat) :
    (assemble limit).Commutes (renumbering f) (assemble limit) := by
  have hparsed : ∀ {template : List Char} {lines : List Line}, parseLines template = .ok lines →
      Line.alterAll (renumbering f) lines = lines := by
    intro template lines hlines
    have hcounted := parseLines_counted hf template
    rw [hlines] at hcounted
    rw [Line.alterAll_renumbering]
    exact (Except.ok.inj hcounted).symm
  have haltered : ∀ context root lines,
      Assembly.Commutes (renumbering f) (Node.alterAll (renumbering f))
        (assemble limit context root lines)
        (assemble limit context root (Line.alterAll (renumbering f) lines)) := by
    induction limit with
    | zero => exact fun _ _ _ => Commutes.throw .nestingLimit
    | succ limit ih =>
        intro context root lines
        refine arrange_commutes hf ⟨ih, fun context template lines hlines => ?_⟩ root lines none
        have hsame := ih context true lines
        rwa [hparsed hlines] at hsame
  refine ⟨haltered, fun context template lines hlines => ?_⟩
  have hsame := haltered context true lines
  rwa [hparsed hlines] at hsame

/-- **A parsed template under other numbers** comes to what the template comes to, under these
numbers. -/
theorem parsedDocument_commutes (hf : FixesCounted f) (context : Context) (limit : Nat)
    (parsed : Except Diagnostic (List Line)) (s : State) :
    (parsedDocument (assemble limit) context
        (renumbered f (Line.renumberAll f) parsed)).outcome (s.renumber f) =
      renumberedOutcome f (Node.renumber f)
        ((parsedDocument (assemble limit) context parsed).outcome s) := by
  have hcommutes : Assembly.Commutes (renumbering f) (Node.alter (renumbering f))
      (parsedDocument (assemble limit) context parsed)
      (parsedDocument (assemble limit) context (renumbered f (Line.renumberAll f) parsed)) := by
    refine parsedDocument_commutes_of (fun d hd => by rw [hd]; rfl) fun lines hlines => ?_
    rw [hlines]
    refine ⟨_, rfl, ?_⟩
    have haltered := (assemble_commutes hf limit).altered context true lines
    rwa [Line.alterAll_renumbering] at haltered
  have hnode : Node.alter (renumbering f) = Node.renumber f := funext (Node.alter_renumbering f)
  have h := hcommutes s
  rwa [State.alter_renumbering, alteredOutcome_renumbering, hnode] at h

end Stylesheet
