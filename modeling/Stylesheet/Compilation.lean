import Stylesheet.Assembly.Document
import Stylesheet.Css.Layout

/-!
# Compilation

From a template or a file to the text of a stylesheet. The state of the assembly is given back as
well, so that a further template can go on from what this one has defined.
-/

namespace Stylesheet

def renderAssembled (options : Options) (tree : Node) : Except Failure String :=
  match tree.render options.style with
  | .ok css => .ok css
  | .error d =>
    let filename := match d.filename with
      | some name => if name.isEmpty then options.filename else some name
      | none => options.filename
    .error (.refused (d.through filename none))

/-- The stylesheet of a template and the state of the assembly afterwards. -/
def compileTemplate (options : Options) (disk : Disk) (template : String) (state : State := {}) :
    Except Failure String × State :=
  match assembleTemplate options disk template state with
  | (.ok tree, after) => (renderAssembled options tree, after)
  | (.error failure, after) => (.error failure, after)

inductive CompileFault where
  | unreadable (fault : ReadFault)
  | failure (failure : Failure)
  deriving DecidableEq, Repr

/-- The stylesheet of the file at a path. The file is called by its path unless the options name
it. -/
def compileFile (options : Options) (disk : Disk) (path : String) : Except CompileFault String := do
  let options : Options := { options with filename := some (options.filename.getD path) }
  let template ← (disk.readText path).mapError CompileFault.unreadable
  (compileTemplate options disk template).1.mapError CompileFault.failure

end Stylesheet
