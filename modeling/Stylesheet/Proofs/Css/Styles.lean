import Mathlib
import Stylesheet.Proofs.Css.Items

/-!
# The styles print the same sheet

The layouts differ in their blanks only: without spaces and line ends, what a style prints is read
off the items one by one. The compressed style prints fewer of them, and puts semicolons between
declarations where the others put one after each.

* `Style.ink_sheet` : a sheet without its blanks.
* `same_sheet_in_every_style` : faults do not depend on the style, and all styles print the items.
-/

namespace Stylesheet

/-! ## Texts without their blanks -/

/-- The characters of a text that layouts do not add: all but spaces and line ends. -/
def ink (text : String) : List Char :=
  text.toList.filter fun c => c != ' ' && c != '\n'

@[simp] theorem ink_append (a b : String) : ink (a ++ b) = ink a ++ ink b := by
  simp [ink]

theorem ink_intercalate (separator : String) (texts : List String) :
    ink (String.intercalate separator texts) =
      List.intercalate (ink separator) (texts.map ink) := by
  induction texts with
  | nil => rfl
  | cons first rest ih =>
      cases rest with
      | nil => simp
      | cons second rest =>
          rw [String.intercalate_cons_cons, ink_append, ink_append, ih]
          simp only [List.map_cons, List.intercalate_cons_cons]

/-- A separator of blanks leaves nothing between the texts. -/
theorem ink_intercalate_blank {separator : String} (h : ink separator = []) (texts : List String) :
    ink (String.intercalate separator texts) = texts.flatMap ink := by
  rw [ink_intercalate, h]
  induction texts with
  | nil => rfl
  | cons first rest ih =>
      cases rest with
      | nil => simp
      | cons second rest =>
          rw [List.map_cons] at ih
          rw [List.map_cons, List.map_cons, List.intercalate_cons_cons, ih, List.append_nil]
          rfl

theorem ink_ofList (cs : List Char) :
    ink (String.ofList cs) = cs.filter fun c => c != ' ' && c != '\n' := by
  rw [ink, String.toList_ofList]

theorem ink_margin (style : Style) (depth : Nat) : ink (style.margin depth) = [] := by
  cases style with
  | nested =>
      rw [Style.margin, ink_ofList, List.filter_eq_nil_iff]
      intro c hc
      rw [List.eq_of_mem_replicate hc]
      decide
  | _ => rfl

/-- Cutting a text into its lines loses line ends only. -/
theorem flatMap_ink_linesOf (text : String) : (linesOf text).flatMap ink = ink text := by
  have h : ink (String.intercalate "\n" (linesOf text)) = (linesOf text).flatMap ink :=
    ink_intercalate_blank rfl _
  rw [← h]
  refine congrArg ink (String.toList_inj.mp ?_)
  rw [String.toList_intercalate, linesOf, List.map_map]
  have hid : String.toList ∘ String.ofList = id := funext fun cs => String.toList_ofList
  rw [hid, List.map_id]
  exact Text.intercalate_pieces '\n' text.toList

/-! ## Items without their blanks -/

/-- Whether the last characters of a comment that are no blanks close it. -/
def Comment.isClosed (c : Comment) : Bool :=
  "*/".toList.isSuffixOf
    (Text.trimEnd (String.intercalate "\n" (c.text :: c.lines.map (" " ++ ·))).toList)

def Comment.ink (c : Comment) : List Char :=
  Stylesheet.ink c.text ++ c.lines.flatMap Stylesheet.ink ++ if c.isClosed then [] else ['*', '/']

def BodyEntry.ink : BodyEntry → List Char
  | declaration name value => Stylesheet.ink name ++ ':' :: Stylesheet.ink value
  | comment c => c.ink

/-- What ends an entry of a body where every entry has its own line. -/
def BodyEntry.closing : BodyEntry → List Char
  | declaration _ _ => [';']
  | comment _ => []

/-- An item without its blanks. The compressed style needs no semicolon after the last declaration
of a rule. -/
def Item.ink (style : Style) : Item → List Char
  | rule selectors body =>
    List.intercalate [','] (selectors.map fun s => Stylesheet.ink (String.ofList s)) ++ '{' ::
      (if style = .compressed then List.intercalate [';'] (body.map BodyEntry.ink)
      else body.flatMap fun entry => entry.ink ++ entry.closing) ++ ['}']
  | comment c => c.ink
  | directive text => Stylesheet.ink text ++ [';']

/-- A comment has the same ink in every style. -/
theorem Comment.ink_render (style : Style) (c : Comment) :
    Stylesheet.ink (c.render style 0) = c.ink := by
  have hmargin : style.margin 0 = "" := by cases style <;> rfl
  have hmap : ∀ lines : List String, lines.map ("" ++ ·) = lines := by simp
  have hlines : Stylesheet.ink (String.intercalate "\n" (c.text :: c.lines.map (" " ++ ·))) =
      Stylesheet.ink c.text ++ c.lines.flatMap Stylesheet.ink := by
    rw [ink_intercalate_blank rfl, List.flatMap_cons, List.flatMap_map]
    simp only [ink_append]
    rfl
  unfold render Comment.ink isClosed
  rw [hmargin]
  dsimp only
  rw [hmap]
  split
  · rw [List.append_nil, hlines]
  · rw [ink_append, hlines]
    rfl

/-- The entries of a body in a style that prints all of them. -/
theorem flatMap_ink_renderBody {style : Style} (hstyle : style ≠ .compressed)
    (body : List BodyEntry) :
    (renderBody style body).flatMap ink = body.flatMap fun entry => entry.ink ++ entry.closing := by
  induction body with
  | nil => rfl
  | cons entry body ih =>
      rw [renderBody] at ih
      cases entry with
      | declaration name value =>
          rw [renderBody, List.filterMap_cons, BodyEntry.render?, if_neg hstyle, List.flatMap_cons,
            List.flatMap_cons, ← ih]
          simp only [ink_append, BodyEntry.ink, BodyEntry.closing, List.append_assoc]
          rfl
      | comment c =>
          rw [renderBody, List.filterMap_cons, BodyEntry.render?, if_neg hstyle, List.flatMap_cons,
            List.flatMap_cons, ← ih, Comment.ink_render, BodyEntry.closing, List.append_nil]
          rfl

/-- The declarations of a body in the compressed style. -/
theorem map_ink_renderBody_compressed {body : List BodyEntry}
    (hbody : ∀ entry ∈ body, entry.isDeclaration = true) :
    (renderBody .compressed body).map ink = body.map BodyEntry.ink := by
  induction body with
  | nil => rfl
  | cons entry body ih =>
      have hrest := ih fun later hmem => hbody later (List.mem_cons_of_mem _ hmem)
      cases entry with
      | declaration name value =>
          rw [renderBody] at hrest
          rw [renderBody, List.filterMap_cons, BodyEntry.render?, if_pos rfl, List.map_cons,
            List.map_cons, hrest]
          simp only [ink_append, BodyEntry.ink, List.append_assoc]
          rfl
      | comment c => cases hbody _ List.mem_cons_self

/-- Where lines are indented, blanks come before each line only. -/
theorem ink_indented (margin : String) (hmargin : ink margin = []) (body : List String) :
    ink (String.intercalate "\n" ((body.flatMap linesOf).map fun line => margin ++ "  " ++ line)) =
      body.flatMap ink := by
  rw [ink_intercalate_blank rfl, List.flatMap_map]
  simp only [ink_append, hmargin]
  induction body with
  | nil => rfl
  | cons text body ih =>
      rw [List.flatMap_cons, List.flatMap_append, ih, List.flatMap_cons]
      exact congrArg (· ++ _) (flatMap_ink_linesOf text)

/-- A wrapped body has the ink of its head, the braces and its parts. -/
theorem ink_wrap (style : Style) (depth : Nat) (head : String) (body : List String) :
    ink (wrap style depth head body) = ink head ++ '{' ::
      (if style = .compressed then List.intercalate [';'] (body.map ink) else body.flatMap ink) ++
        ['}'] := by
  have hmargin := ink_margin style depth
  have hindented := ink_indented _ hmargin body
  cases style with
  | nested =>
      simp only [wrap, ink_append, hmargin, hindented]
      simp [ink]
  | expanded =>
      simp only [wrap, ink_append, hindented]
      simp [ink]
  | compact =>
      have hbody : ink (String.intercalate " " body) = body.flatMap ink :=
        ink_intercalate_blank rfl body
      simp only [wrap, ink_append, hbody]
      simp [ink]
  | compressed =>
      simp only [wrap, ink_append, ink_intercalate]
      simp [ink]

/-! ## Sheets without their blanks -/

theorem ink_head (style : Style) (selectors : List (List Char)) :
    ink (String.intercalate style.selectorSeparator (selectors.map String.ofList)) =
      List.intercalate [','] (selectors.map fun s => ink (String.ofList s)) := by
  have hseparator : ink style.selectorSeparator = [','] := by cases style <;> rfl
  rw [ink_intercalate, hseparator, List.map_map]
  rfl

/-- What is printed of an item has the ink of what is shown of it. -/
theorem Item.ink_print {style : Style} {item shown : Item} (h : item.shown? style = some shown)
    (depth : Nat) : Stylesheet.ink (shown.print style depth) = shown.ink style := by
  -- only the compressed style leaves comments out
  by_cases hstyle : style = .compressed
  · subst hstyle
    cases item with
    | rule selectors body =>
        rw [shown?, if_pos rfl, withoutComments?] at h
        split at h
        · cases h
        · cases h
          have hall : ∀ entry ∈ body.filter BodyEntry.isDeclaration, entry.isDeclaration = true :=
            fun entry hentry => (List.mem_filter.mp hentry).2
          rw [print, ink_wrap, ink_head, if_pos rfl, map_ink_renderBody_compressed hall]
          rfl
    | comment c => cases h
    | directive text =>
        cases h
        rw [print, ink_append]
        rfl
  · rw [shown?, if_neg hstyle] at h
    cases h
    cases item with
    | rule selectors body =>
        rw [print, ink_wrap, ink_head, if_neg hstyle, flatMap_ink_renderBody hstyle, Item.ink,
          if_neg hstyle]
    | comment c => exact c.ink_render style
    | directive text =>
        rw [print, ink_append]
        rfl

/-- What a style prints has the ink of the items it shows. -/
theorem Style.flatMap_ink_prints (style : Style) (placed : List Placed) :
    (style.prints placed).flatMap ink =
      ((placed.map (·.item)).filterMap (Item.shown? style)).flatMap (Item.ink style) := by
  induction placed with
  | nil => rfl
  | cons p ps ih =>
      rw [prints_cons, List.flatMap_append, ih, List.map_cons, List.filterMap_cons]
      cases hshown : p.item.shown? style with
      | none => rfl
      | some shown =>
          rw [List.flatMap_cons, ← Item.ink_print hshown p.depth]
          simp

/-- **A sheet without its blanks** are the items that are printed, one after the other. -/
theorem Style.ink_sheet (style : Style) (groups : List (List Placed)) :
    ink (style.sheet groups) =
      ((groups.flatten.map (·.item)).filterMap (Item.shown? style)).flatMap (Item.ink style) := by
  have hnode : ink style.nodeSeparator = [] := by cases style <;> rfl
  have hblock : ink style.blockSeparator = [] := by cases style <;> rfl
  have hprints : ∀ groups : List (List Placed),
      (groups.map style.prints).flatMap (List.flatMap ink) =
        ((groups.flatten.map (·.item)).filterMap (Item.shown? style)).flatMap (Item.ink style) := by
    intro groups
    rw [← flatMap_ink_prints]
    induction groups with
    | nil => rfl
    | cons group groups ih =>
        rw [List.map_cons, List.flatMap_cons, ih, List.flatten_cons, prints_append,
          List.flatMap_append]
  -- what is not printed has no ink
  have hfilter : ∀ texts : List (List String),
      (texts.filter fun t => !t.isEmpty).flatMap (List.flatMap ink) =
        texts.flatMap (List.flatMap ink) := by
    intro texts
    induction texts with
    | nil => rfl
    | cons text texts ih => cases text <;> simp_all
  rw [← hprints, ← hfilter, sheet]
  split
  · next hempty =>
      rw [List.isEmpty_iff.mp hempty]
      rfl
  · rw [ink_append, ink_intercalate_blank hnode, List.flatMap_map]
    simp only [ink_intercalate_blank hblock]
    exact List.append_nil _

/-! ## All styles -/

/-- **All styles print the same sheet.** A fault of the tree does not depend on the style. Where
there is none and the directives are empty, there is one list of items, with their places, that
every style prints; the compressed style leaves out the comments, and the rules that have nothing
else. The places matter for the blanks only: without them a text is its items, each whole, in
order and once. -/
theorem same_sheet_in_every_style (tree : Node) :
    (∀ (style style' : Style) (d : Diagnostic),
      tree.render style = .error d ↔ tree.render style' = .error d) ∧
    ((∀ node ∈ Node.walkAll tree.children, node.isDirective = true → node.children = []) →
      ∀ (style : Style) (text : String), tree.render style = .ok text →
        text = style.sheet tree.groups ∧
        ink text = (tree.items.filterMap (Item.shown? style)).flatMap (Item.ink style)) := by
  refine ⟨fun style style' d => ?_, fun hflat style text htext => ?_⟩
  · unfold Node.render
    cases Block.ofNodes tree.children with
    | error d' => exact Iff.rfl
    | ok blocks => exact iff_of_false nofun nofun
  · have htop : ∀ node ∈ tree.children, node.Flat := fun node hnode inner hinner =>
      hflat inner (Node.mem_walkAll_iff.mpr ⟨node, hnode, hinner⟩)
    have hsheet : text = style.sheet tree.groups := Node.sheet_of_render htop htext
    refine ⟨hsheet, ?_⟩
    rw [hsheet, Style.ink_sheet]
    rfl

/-- A rule of comments in a rule, a comment beneath no rule, and a directive. -/
theorem same_sheet_of_commented_rules :
    let note : Node := ⟨.comment "/* n" true [], some 4, none, []⟩
    let tree : Node := ⟨.root, none, none, [
      ⟨.rule ⟨["a", "b"], false⟩, some 1, none, [
        ⟨.rule ⟨["&:c"], false⟩, some 3, none, [note]⟩,
        ⟨.attr "p" "q", some 5, none, [⟨.attr "r" "s", some 6, none, []⟩]⟩]⟩,
      note,
      ⟨.directive "@page", some 7, none, []⟩]⟩
    let note : Comment := ⟨"/* n", []⟩
    let css := "a, b \x7b\n  p: q;\n  p-r: s; \x7d\n  a:c, b:c \x7b\n    /* n */ \x7d\n\n/* n */\n\n@page;\n"
    (∀ node ∈ Node.walkAll tree.children, node.isDirective = true → node.children = []) ∧
    tree.render .nested = .ok css ∧ tree.render .compressed = .ok "a,b\x7bp:q;p-r:s\x7d@page;\n" ∧
    tree.items = [
      .rule [['a'], ['b']] [.declaration "p" "q", .declaration "p-r" "s"],
      .rule ["a:c".toList, "b:c".toList] [.comment note], .comment note, .directive "@page"] ∧
    css = Style.nested.sheet tree.groups ∧
    ink "a,b\x7bp:q;p-r:s\x7d@page;\n" =
      (tree.items.filterMap (Item.shown? .compressed)).flatMap (Item.ink .compressed) := by
  intro note tree note' css
  have hflat : ∀ node ∈ Node.walkAll tree.children,
      node.isDirective = true → node.children = [] := by
    dsimp only [tree, note]
    simp [Node.walk, Node.walkAll, Node.isDirective]
  have hnested : tree.render .nested = .ok css := by decide +kernel
  have hcompressed : tree.render .compressed = .ok "a,b\x7bp:q;p-r:s\x7d@page;\n" := by
    decide +kernel
  have hitems : tree.items = [
      .rule [['a'], ['b']] [.declaration "p" "q", .declaration "p-r" "s"],
      .rule ["a:c".toList, "b:c".toList] [.comment note'], .comment note', .directive "@page"] := by
    decide +kernel
  obtain ⟨-, hsheets⟩ := same_sheet_in_every_style tree
  exact ⟨hflat, hnested, hcompressed, hitems, (hsheets hflat .nested _ hnested).1,
    (hsheets hflat .compressed _ hcompressed).2⟩

end Stylesheet
