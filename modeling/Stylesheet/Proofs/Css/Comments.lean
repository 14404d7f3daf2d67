import Mathlib
import Stylesheet.Proofs.Assembly.Attribution
import Stylesheet.Proofs.Assembly.WellFormed
import Stylesheet.Proofs.Css.Attributes
import Stylesheet.Proofs.Css.Styles
import Stylesheet.Proofs.Text.Trim

/-!
# Comments in a stylesheet

A comment is printed with the lines beneath it, and with a mark that closes it unless the last
characters of its lines are one. This looks at the end of the lines only: a mark in the middle of
them closes the comment as well, and in the three characters of an opening and a slash the asterisk
belongs to both marks. What is printed is one whole comment where neither is the case.

A style that lays out rules in lines indents comments line by line with what is around them, at
every level anew. Blanks in front of lines neither make nor break marks, so that the indented text
of a comment is as whole as the text itself.

* `Comment.isComment_render_iff` : when the text of a comment is one whole comment.
* `Block.shows_comment_of_ofNode` : the text is printed, by induction on the tree.
* `comments_of_assembleTemplate` : the comments of an assembled tree.
-/

namespace Stylesheet

/-! ## Whole comments -/

namespace Text

/-- What follows the first mark in a text that closes a comment. -/
def afterClosing? : List Char → Option (List Char)
  | '*' :: '/' :: rest => some rest
  | _ :: cs => afterClosing? cs
  | [] => none

/-- Whether a text is one comment from its start, apart from spaces, to its end, apart from blanks:
it opens one, and the first mark after that which closes it is the end. -/
def isComment (cs : List Char) : Bool :=
  match cs.dropWhile (· == ' ') with
  | '/' :: '*' :: body => (afterClosing? body).any (·.all isBlank)
  | _ => false

theorem afterClosing?_cons {c : Char} {cs : List Char} (h : ¬ (c = '*' ∧ cs.head? = some '/')) :
    afterClosing? (c :: cs) = afterClosing? cs := by
  rw [afterClosing?]
  rintro rest rfl rfl
  exact h ⟨rfl, rfl⟩

/-- A mark that is put at the end is the first one if there is none before it. -/
theorem afterClosing?_append_closing {cs : List Char} (h : afterClosing? cs = none) :
    afterClosing? (cs ++ [' ', '*', '/']) = some [] := by
  fun_induction afterClosing? cs with
  | case1 rest => cases h
  | case2 c cs hne ih =>
      rw [List.cons_append, afterClosing?_cons, ih h]
      rintro ⟨rfl, hhead⟩
      cases cs with
      -- an asterisk at the end is kept from the mark by the space
      | nil => simp at hhead
      | cons d cs =>
          cases hhead
          exact hne cs rfl rfl
  | case3 => rfl

/-- What follows the first mark is followed by what is put at the end. -/
theorem afterClosing?_append {cs rest : List Char} (h : afterClosing? cs = some rest)
    (more : List Char) : afterClosing? (cs ++ more) = some (rest ++ more) := by
  fun_induction afterClosing? cs with
  | case1 rest' =>
      cases h
      rfl
  | case2 c cs hne ih =>
      rw [List.cons_append, afterClosing?_cons, ih h]
      rintro ⟨rfl, hhead⟩
      cases cs with
      | nil => cases h
      | cons d cs =>
          cases hhead
          exact hne cs rfl rfl
  | case3 => cases h

theorem exists_of_afterClosing? {cs rest : List Char} (h : afterClosing? cs = some rest) :
    ∃ before, cs = before ++ '*' :: '/' :: rest := by
  fun_induction afterClosing? cs with
  | case1 rest' =>
      cases h
      exact ⟨[], rfl⟩
  | case2 c cs _ ih =>
      obtain ⟨before, rfl⟩ := ih h
      exact ⟨c :: before, rfl⟩
  | case3 => cases h

theorem afterClosing?_isSome (before rest : List Char) :
    ∃ found, afterClosing? (before ++ '*' :: '/' :: rest) = some found := by
  induction before with
  | nil => exact ⟨rest, rfl⟩
  | cons c before ih =>
      by_cases hc : c = '*' ∧ (before ++ '*' :: '/' :: rest).head? = some '/'
      · obtain ⟨rfl, hhead⟩ := hc
        obtain ⟨cs, hcs⟩ := List.head?_eq_some_iff.mp hhead
        exact ⟨cs, by rw [List.cons_append, hcs]; rfl⟩
      · rw [List.cons_append, afterClosing?_cons hc]
        exact ih

/-- The last mark of a text that ends in one, blanks apart. -/
theorem isSuffixOf_trimEnd_iff {cs : List Char} :
    ['*', '/'].isSuffixOf (trimEnd cs) = true ↔
      ∃ before blanks, cs = before ++ '*' :: '/' :: blanks ∧ blanks.all isBlank = true := by
  rw [List.isSuffixOf_iff_suffix]
  constructor
  · rintro ⟨before, hbefore⟩
    obtain ⟨blanks, hcs, hblanks⟩ := exists_blanks cs
    refine ⟨before, blanks, ?_, hblanks⟩
    rw [hcs, ← hbefore, List.append_assoc]
    rfl
  · rintro ⟨before, blanks, rfl, hblanks⟩
    have hsplit : before ++ '*' :: '/' :: blanks = (before ++ ['*'] ++ ['/']) ++ blanks := by simp
    rw [hsplit, trimEnd_append hblanks, trimEnd_concat (by decide)]
    exact ⟨before, by simp⟩

end Text

/-! ## The text of a comment -/

namespace Comment

/-- The lines of a comment as they stand in the source, each but the first one after a space. -/
def source (c : Comment) : List Char :=
  (String.intercalate "\n" (c.text :: c.lines.map (" " ++ ·))).toList

/-- Nothing but blanks follows the first mark in the lines that closes the comment, and the lines
are more than an opening with a slash, in which the two marks share a character. -/
def ClosesAtEnd (c : Comment) : Prop :=
  (∀ rest, Text.afterClosing? (c.source.drop 2) = some rest → rest.all Text.isBlank = true) ∧
    Text.trimEnd c.source ≠ ['/', '*', '/']

/-- A comment is written with its source, and closed where the source is not. -/
theorem toList_render (style : Style) (c : Comment) :
    (c.render style 0).toList = if c.isClosed then c.source else c.source ++ [' ', '*', '/'] := by
  have hmargin : style.margin 0 = "" := by cases style <;> rfl
  have hmap : ∀ lines : List String, lines.map ("" ++ ·) = lines := by simp
  unfold render isClosed source
  rw [hmargin]
  dsimp only
  rw [hmap]
  split
  · rfl
  · rw [String.toList_append]
    rfl

/-- An opening with a slash and blanks closes nothing. -/
theorem afterClosing?_of_overlap {inner : List Char}
    (h : Text.trimEnd ('/' :: '*' :: inner) = ['/', '*', '/']) :
    Text.afterClosing? inner = none := by
  obtain ⟨blanks, hsplit, hblanks⟩ := Text.exists_blanks ('/' :: '*' :: inner)
  rw [h] at hsplit
  obtain rfl : inner = '/' :: blanks := by simpa using hsplit
  refine Option.eq_none_iff_forall_ne_some.mpr fun rest hrest => ?_
  obtain ⟨before, hbefore⟩ := Text.exists_of_afterClosing? hrest
  have hstar : '*' ∈ '/' :: blanks := by simp [hbefore]
  have hblank : Text.isBlank '*' = true := List.all_eq_true.mp hblanks _ (by simpa using hstar)
  exact absurd hblank (by decide)

/-- A text that ends as a comment does and has no closing mark after its opening is an opening with
a slash. -/
theorem overlap_of_afterClosing? {inner before blanks : List Char}
    (hsource : '/' :: '*' :: inner = before ++ '*' :: '/' :: blanks)
    (hblanks : blanks.all Text.isBlank = true) (h : Text.afterClosing? inner = none) :
    Text.trimEnd ('/' :: '*' :: inner) = ['/', '*', '/'] := by
  cases before with
  | nil => cases hsource
  | cons first before =>
      cases before with
      | nil =>
          cases hsource
          have hcs : Text.trimEnd (['/', '*', '/'] ++ blanks) = Text.trimEnd ['/', '*', '/'] :=
            Text.trimEnd_append hblanks
          exact hcs.trans (by decide)
      | cons second before =>
          -- the closing mark stands after the opening
          obtain ⟨rfl, rfl, rfl⟩ : '/' = first ∧ '*' = second ∧
              inner = before ++ '*' :: '/' :: blanks := by simpa using hsource
          obtain ⟨found, hfound⟩ := Text.afterClosing?_isSome before blanks
          rw [hfound] at h
          cases h

/-- When the text of a comment is one whole comment. -/
theorem isComment_render_iff {c : Comment} {inner : List Char}
    (hopen : c.source = '/' :: '*' :: inner) (style : Style) :
    Text.isComment (c.render style 0).toList = true ↔ c.ClosesAtEnd := by
  have hbody : ∀ body : List Char, Text.isComment ('/' :: '*' :: body) =
      (Text.afterClosing? body).any (·.all Text.isBlank) := fun _ => rfl
  have hclosed : c.isClosed = true ↔
      ∃ before blanks, c.source = before ++ '*' :: '/' :: blanks ∧ blanks.all Text.isBlank = true :=
    Text.isSuffixOf_trimEnd_iff
  have hdrop : c.source.drop 2 = inner := by rw [hopen]; rfl
  unfold ClosesAtEnd
  rw [toList_render, hdrop, hopen]
  rw [hopen] at hclosed
  split
  -- nothing is put at the end: the mark there may share the asterisk of the opening
  · next h =>
      obtain ⟨before, blanks, hsource, hblanks⟩ := hclosed.mp h
      rw [hbody]
      cases hfound : Text.afterClosing? inner with
      | none => simp [overlap_of_afterClosing? hsource hblanks hfound]
      | some rest =>
          have hne : Text.trimEnd ('/' :: '*' :: inner) ≠ ['/', '*', '/'] := fun heq => by
            rw [afterClosing?_of_overlap heq] at hfound
            cases hfound
          simp [hne]
  -- a mark is put at the end: it is the first one if the lines have none
  · next h =>
      have hne : Text.trimEnd ('/' :: '*' :: inner) ≠ ['/', '*', '/'] := fun heq => by
        obtain ⟨blanks, hsplit, hblanks⟩ := Text.exists_blanks ('/' :: '*' :: inner)
        rw [heq] at hsplit
        exact h (hclosed.mpr ⟨['/'], blanks, hsplit, hblanks⟩)
      show Text.isComment ('/' :: '*' :: (inner ++ [' ', '*', '/'])) = true ↔ _
      rw [hbody]
      cases hfound : Text.afterClosing? inner with
      | none => simp [Text.afterClosing?_append_closing hfound, hne]
      | some rest =>
          rw [Text.afterClosing?_append hfound]
          have hrest : ¬ rest.all Text.isBlank = true := fun hblanks => by
            obtain ⟨before, rfl⟩ := Text.exists_of_afterClosing? hfound
            exact h (hclosed.mpr ⟨'/' :: '*' :: before, rest, by simp, hblanks⟩)
          have hstar : Text.isBlank '*' = false := by decide
          exact iff_of_false (by simp [hstar]) fun h => hrest (h.1 rest rfl)

end Comment

/-! ## Indented texts -/

def indent (n : Nat) (text : String) : String :=
  String.intercalate "\n" ((linesOf text).map (String.ofList (List.replicate n ' ') ++ ·))

def indentChars (n : Nat) (cs : List Char) : List Char :=
  cs.flatMap fun c => if c = '\n' then '\n' :: List.replicate n ' ' else [c]

theorem intercalate_append_head (separator first piece : List Char) (rest : List (List Char)) :
    List.intercalate separator ((first ++ piece) :: rest) =
      first ++ List.intercalate separator (piece :: rest) := by
  cases rest with
  | nil => simp
  | cons next rest => simp [List.intercalate_cons_cons]

theorem intercalate_map_append_pieces (margin cs : List Char) :
    List.intercalate ['\n'] ((Text.pieces '\n' cs).map (margin ++ ·)) =
      margin ++ cs.flatMap fun c => if c = '\n' then '\n' :: margin else [c] := by
  induction cs with
  | nil => simp [Text.pieces]
  | cons c cs ih =>
      obtain ⟨piece, rest, hpieces⟩ := List.exists_cons_of_ne_nil (Text.pieces_ne_nil '\n' cs)
      rw [hpieces] at ih
      rw [List.flatMap_cons, Text.pieces]
      by_cases hc : c = '\n'
      · rw [if_pos hc, if_pos hc, hpieces, List.map_cons, List.map_cons, List.intercalate_cons_cons,
          ← List.map_cons, ih]
        simp
      · rw [List.map_cons, intercalate_append_head] at ih
        have hrest := List.append_cancel_left ih
        rw [if_neg hc, if_neg hc, hpieces]
        show List.intercalate ['\n'] ((margin ++ ([c] ++ piece)) :: rest.map (margin ++ ·)) = _
        rw [intercalate_append_head, intercalate_append_head, hrest]

/-- Indenting a text puts the margin in front of it and after each line break. -/
theorem toList_indent (n : Nat) (text : String) :
    (indent n text).toList = List.replicate n ' ' ++ indentChars n text.toList := by
  rw [indent, String.toList_intercalate, linesOf, indentChars, ← intercalate_map_append_pieces]
  simp [Function.comp_def]

theorem indentChars_cons (n : Nat) (c : Char) (cs : List Char) : indentChars n (c :: cs) =
    (if c = '\n' then '\n' :: List.replicate n ' ' else [c]) ++ indentChars n cs :=
  List.flatMap_cons

theorem indentChars_append (n : Nat) (xs ys : List Char) :
    indentChars n (xs ++ ys) = indentChars n xs ++ indentChars n ys :=
  List.flatMap_append

theorem indent_zero (text : String) : indent 0 text = text := by
  refine String.toList_inj.mp ?_
  rw [toList_indent, List.replicate_zero, List.nil_append]
  induction text.toList with
  | nil => rfl
  | cons c cs ih =>
      rw [indentChars_cons, ih]
      split <;> simp_all

/-- Spaces are no ends of lines. -/
theorem indentChars_replicate (n k : Nat) :
    indentChars n (List.replicate k ' ') = List.replicate k ' ' := by
  induction k with
  | zero => rfl
  | succ k ih => rw [List.replicate_succ, indentChars_cons, ih, if_neg (by decide)]; rfl

/-- Indenting twice is indenting by as much as both times together. -/
theorem indent_indent (m n : Nat) (text : String) :
    indent m (indent n text) = indent (m + n) text := by
  refine String.toList_inj.mp ?_
  rw [toList_indent, toList_indent, toList_indent, indentChars_append, indentChars_replicate,
    ← List.append_assoc, List.replicate_append_replicate]
  refine congrArg _ ?_
  induction text.toList with
  | nil => rfl
  | cons c cs ih =>
      rw [indentChars_cons, indentChars_cons, indentChars_append, ih]
      split
      · rw [indentChars_cons, indentChars_replicate, if_pos rfl, List.cons_append,
          List.replicate_append_replicate]
      · next hc => rw [indentChars_cons, if_neg hc]; rfl

/-! ### Marks in indented texts -/

/-- The first character of a text stays the first after indenting. -/
theorem head?_indentChars (n : Nat) (cs : List Char) : (indentChars n cs).head? = cs.head? := by
  cases cs with
  | nil => rfl
  | cons c cs =>
      rw [indentChars_cons]
      split
      · next hc => simp [hc]
      · rfl

theorem afterClosing?_replicate_append (k : Nat) (cs : List Char) :
    Text.afterClosing? (List.replicate k ' ' ++ cs) = Text.afterClosing? cs := by
  induction k with
  | zero => rfl
  | succ k ih => rw [List.replicate_succ, List.cons_append, Text.afterClosing?_cons (by simp), ih]

/-- Indentation changes nothing at the marks that close comments. -/
theorem afterClosing?_indentChars (n : Nat) (cs : List Char) :
    Text.afterClosing? (indentChars n cs) = (Text.afterClosing? cs).map (indentChars n) := by
  fun_induction Text.afterClosing? cs with
  | case1 rest => rfl
  | case2 c cs hne ih =>
      rw [indentChars_cons]
      split
      · rw [List.cons_append, Text.afterClosing?_cons (by simp), afterClosing?_replicate_append, ih]
      · rw [List.singleton_append, Text.afterClosing?_cons, ih]
        rw [head?_indentChars]
        rintro ⟨rfl, hhead⟩
        obtain ⟨rest, rfl⟩ := List.head?_eq_some_iff.mp hhead
        exact hne rest rfl rfl
  | case3 => rfl

/-- Indenting neither fills a blank text nor empties another. -/
theorem all_isBlank_indentChars (n : Nat) (cs : List Char) :
    (indentChars n cs).all Text.isBlank = cs.all Text.isBlank := by
  induction cs with
  | nil => rfl
  | cons c cs ih =>
      rw [indentChars_cons, List.all_append, ih, List.all_cons]
      split
      · next hc => simp [hc, Text.isBlank]
      · simp

/-- An indented text is a whole comment if the text is. -/
theorem isComment_indent (n : Nat) {text : String} {inner : List Char}
    (hopen : text.toList = '/' :: '*' :: inner) :
    Text.isComment (indent n text).toList = Text.isComment text.toList := by
  have hbody : ∀ k body, Text.isComment (List.replicate k ' ' ++ '/' :: '*' :: body) =
      (Text.afterClosing? body).any (·.all Text.isBlank) := by
    intro k body
    have hdrop : (List.replicate k ' ' ++ '/' :: '*' :: body).dropWhile (· == ' ') =
        '/' :: '*' :: body := by
      rw [List.dropWhile_append_of_pos (by simp)]
      rfl
    unfold Text.isComment
    rw [hdrop]
    rfl
  have hinner : indentChars n ('/' :: '*' :: inner) = '/' :: '*' :: indentChars n inner := rfl
  rw [toList_indent, hopen, hinner, hbody, ← List.nil_append ('/' :: '*' :: inner)]
  refine Eq.trans ?_ (hbody 0 inner).symm
  rw [afterClosing?_indentChars, Option.any_map]
  simp only [all_isBlank_indentChars]

/-! ## Where texts stand -/

/-- Whether a style gives each entry of a body its own lines. -/
def Style.isLined : Style → Bool
  | nested | expanded => true
  | compact | compressed => false

/-- The text stands somewhere in the whole, at the start of a line if the style gives it its own. -/
def Style.Shows (style : Style) (part whole : String) : Prop :=
  ∃ before after, whole.toList = before ++ part.toList ++ after ∧
    (style.isLined = true → before = [] ∨ ∃ start, before = start ++ ['\n'])

namespace Style.Shows

variable {style : Style} {part whole : String}

theorem self (style : Style) (part : String) : style.Shows part part :=
  ⟨[], [], by simp, fun _ => .inl rfl⟩

/-- Something may follow, and something may come before if it ends a line. -/
theorem within (h : style.Shows part whole) (before after : List Char) {text : String}
    (htext : text.toList = before ++ whole.toList ++ after)
    (hbefore : style.isLined = true → before = [] ∨ ∃ start, before = start ++ ['\n']) :
    style.Shows part text := by
  obtain ⟨first, last, hwhole, hfirst⟩ := h
  refine ⟨before ++ first, last ++ after, by simp [htext, hwhole], fun hlined => ?_⟩
  rcases hfirst hlined with rfl | ⟨start, rfl⟩
  · simpa using hbefore hlined
  · exact .inr ⟨before ++ start, by simp⟩

/-- One of several texts, with separators between them. -/
theorem intercalate (h : style.Shows part whole) {texts : List String} (hmem : whole ∈ texts)
    {separator : String}
    (hseparator : style.isLined = true → ∃ start, separator.toList = start ++ ['\n']) :
    style.Shows part (String.intercalate separator texts) := by
  induction texts with
  | nil => cases hmem
  | cons first rest ih =>
      cases rest with
      | nil =>
          rw [List.mem_singleton.mp hmem] at h
          simpa using h
      | cons second rest =>
          rw [String.intercalate_cons_cons]
          rcases List.mem_cons.mp hmem with rfl | hmem
          · exact h.within [] (separator.toList ++
              (String.intercalate separator (second :: rest)).toList) (by simp) fun _ => .inl rfl
          · refine (ih hmem).within (first.toList ++ separator.toList) [] (by simp) fun hlined => ?_
            obtain ⟨start, hstart⟩ := hseparator hlined
            exact .inr ⟨first.toList ++ start, by simp [hstart]⟩

/-- A text in lines of its own is indented with the whole. -/
theorem indented (hlined : style.isLined = true) (h : style.Shows part whole) (n : Nat) :
    style.Shows (indent n part) (indent n whole) := by
  obtain ⟨before, after, hwhole, hbefore⟩ := h
  rcases hbefore hlined with rfl | ⟨start, rfl⟩
  · refine ⟨[], indentChars n after, ?_, fun _ => .inl rfl⟩
    rw [toList_indent, toList_indent, hwhole]
    simp [indentChars_append]
  · refine ⟨List.replicate n ' ' ++ indentChars n start ++ ['\n'], indentChars n after, ?_,
      fun _ => .inr ⟨_, rfl⟩⟩
    rw [toList_indent, toList_indent, hwhole]
    simp [indentChars_append, indentChars_cons]

end Style.Shows

theorem linesOf_ne_nil (text : String) : linesOf text ≠ [] := by
  simp [linesOf, Text.pieces_ne_nil]

/-- Indenting the lines of several texts is indenting each of them. -/
theorem intercalate_lines_eq_indent (n : Nat) (texts : List String) :
    String.intercalate "\n"
        ((texts.flatMap linesOf).map (String.ofList (List.replicate n ' ') ++ ·)) =
      String.intercalate "\n" (texts.map (indent n)) := by
  induction texts with
  | nil => rfl
  | cons text texts ih =>
      rw [List.flatMap_cons, List.map_append, List.map_cons]
      cases texts with
      | nil => simp [indent]
      | cons next texts =>
          rw [String.intercalate_append_of_ne_nil (by simp [linesOf_ne_nil])
              (by simp [linesOf_ne_nil]), ih, String.intercalate_cons_of_ne_nil (by simp)]
          rfl

/-- Styles of several lines put each part on lines of its own, between a start and a close. -/
theorem exists_wrap_eq_of_lined {style : Style} (h : style.isLined = true) (depth : Nat)
    (head : String) (body : List String) :
    ∃ n start close, wrap style depth head body =
      start ++ "\n" ++ String.intercalate "\n" (body.map (indent n)) ++ close := by
  cases style with
  | nested =>
      have hmargin : Style.margin .nested depth ++ "  " =
          String.ofList (List.replicate (2 * depth + 2) ' ') := by
        rw [Style.margin, ← List.replicate_append_replicate, String.ofList_append]
        rfl
      refine ⟨2 * depth + 2, Style.margin .nested depth ++ head ++ " \x7b", " \x7d", ?_⟩
      rw [← intercalate_lines_eq_indent, wrap, hmargin]
      simp [String.append_assoc]
  | expanded =>
      have hmargin : Style.margin .expanded depth ++ "  " =
          String.ofList (List.replicate 2 ' ') := rfl
      refine ⟨2, head ++ " \x7b", "\n\x7d", ?_⟩
      rw [← intercalate_lines_eq_indent, wrap, hmargin]
      simp [String.append_assoc]
  | compact => cases h
  | compressed => cases h

/-- The other styles put the parts on one line, with separators between them. -/
theorem exists_wrap_eq_of_not_lined {style : Style} (h : style.isLined = false) (depth : Nat)
    (head : String) (body : List String) :
    ∃ separator start close, wrap style depth head body =
      start ++ String.intercalate separator body ++ close := by
  cases style with
  | nested => cases h
  | expanded => cases h
  | compact => exact ⟨" ", head ++ " \x7b ", " \x7d", rfl⟩
  | compressed => exact ⟨";", head ++ "\x7b", "\x7d", rfl⟩

/-- The text stands in the whole, all its lines perhaps behind blanks. -/
def Style.ShowsIndented (style : Style) (part whole : String) : Prop :=
  ∃ n, style.Shows (indent n part) whole

theorem Style.ShowsIndented.self (style : Style) (part : String) : style.ShowsIndented part part :=
  ⟨0, by rw [indent_zero]; exact Shows.self style part⟩

/-- An entry of a body is indented where entries have their own lines, and stands as it is where
they do not. -/
theorem Style.ShowsIndented.wrap {style : Style} {part entry : String} {body : List String}
    (h : style.ShowsIndented part entry) (hentry : entry ∈ body) (depth : Nat) (head : String) :
    style.ShowsIndented part (wrap style depth head body) := by
  obtain ⟨m, h⟩ := h
  cases hlined : style.isLined with
  | true =>
      obtain ⟨n, start, close, hwrap⟩ := exists_wrap_eq_of_lined hlined depth head body
      have hbody : style.Shows (indent n (indent m part))
          (String.intercalate "\n" (body.map (indent n))) :=
        (h.indented hlined n).intercalate (List.mem_map_of_mem hentry) fun _ => ⟨[], rfl⟩
      -- the indentation of the entry adds to that of the body
      rw [indent_indent] at hbody
      refine ⟨n + m, hbody.within (start.toList ++ ['\n']) close.toList ?_ fun _ => .inr ⟨_, rfl⟩⟩
      rw [hwrap]
      simp
  | false =>
      obtain ⟨separator, start, close, hwrap⟩ :=
        exists_wrap_eq_of_not_lined hlined depth head body
      -- where entries have no lines of their own, none has to start one
      have hnot : ∀ {p : Prop}, style.isLined = true → p := fun h => by
        rw [hlined] at h
        cases h
      have hbody : style.Shows (indent m part) (String.intercalate separator body) :=
        h.intercalate hentry hnot
      rw [hwrap]
      exact ⟨m, hbody.within start.toList close.toList (by simp) hnot⟩

/-! ## Comments in trees -/

namespace Node

def shownComment? (node : Node) : Option Comment :=
  match node.content with
  | .comment text visible lines => Block.comment? text visible lines
  | _ => none

def AllSettled (node : Node) : Prop :=
  ∀ inner ∈ node.walk, inner.Settled

theorem AllSettled.self {node : Node} (h : node.AllSettled) : node.Settled :=
  h node node.self_mem_walk

theorem AllSettled.child {node child : Node} (h : node.AllSettled)
    (hchild : child ∈ node.children) : child.AllSettled :=
  fun inner hinner => h inner (mem_walk_of_child hchild hinner)

end Node

namespace Block

variable {style : Style} {c : Comment}

/-- A comment that is shown beneath a rule or directive is an entry of its body, or it stands in the
tree of a node that is no part of the body. -/
theorem comment_in_body_or_beneath {parents : Option (List (List Char))} {node inner : Node}
    {blocks : List Block} (h : ofNode parents node = .ok blocks) (hpart : node.isBodyPart = false)
    (hsettled : node.AllSettled) (hinner : inner ∈ node.walk) (hc : inner.shownComment? = some c) :
    BodyEntry.comment c ∈ Node.body node.children ∨
      ∃ child ∈ node.children, child.isBodyPart = false ∧ inner ∈ child.walk := by
  obtain ⟨entries, hbody⟩ := bodyOf_of_ofNode h hpart hsettled.self.ne_root
  rw [Node.walk_eq] at hinner
  rcases List.mem_cons.mp hinner with rfl | hinner
  · rw [Node.isBodyPart] at hpart
    rw [Node.shownComment?] at hc
    cases hcontent : inner.content <;> simp_all
  obtain ⟨child, hchild, hwalk⟩ := Node.mem_walkAll_iff.mp hinner
  cases hcontent : child.content with
  | attr name value =>
      have hchildAttr : child.isAttr = true := by rw [Node.isAttr, hcontent]
      have hnone := misplaced?_of_bodyOf hbody child hchild hchildAttr
      have hattr := child.misplaced?_eq_none_iff.mp hnone inner hwalk
      rw [Node.isAttr] at hattr
      rw [Node.shownComment?] at hc
      cases hinner : inner.content <;> simp_all
  | comment text visible lines =>
      -- nothing is beneath a comment
      rw [Node.walk_eq, (hsettled.child hchild).self.leaf _ _ _ hcontent] at hwalk
      obtain rfl := List.mem_singleton.mp hwalk
      rw [Node.shownComment?, hcontent] at hc
      refine .inl (List.mem_flatMap.mpr ⟨inner, hchild, ?_⟩)
      rw [hcontent]
      dsimp only at hc ⊢
      simp [hc]
  | _ => exact .inr ⟨child, hchild, by simp [Node.isBodyPart, hcontent], hwalk⟩

/-- Outside the compressed style a body shows each of its comments. -/
theorem mem_renderBody_of_comment (hstyle : style ≠ .compressed) {body : List BodyEntry}
    (h : .comment c ∈ body) : c.render style 0 ∈ renderBody style body :=
  List.mem_filterMap.mpr ⟨_, h, if_neg hstyle⟩

/-- An entry that is written stands in the text of its rule. -/
theorem shows_entry_of_rule {selectors : List (List Char)} {body : List BodyEntry} {entry : String}
    (hentry : entry ∈ renderBody style body) (depth : Nat) (nested : List Block) :
    ∃ whole ∈ (rule selectors body nested).render style depth, style.ShowsIndented entry whole := by
  rw [render]
  split
  · next hbody =>
      rw [hbody] at hentry
      cases hentry
  · next first rest hbody =>
      rw [hbody] at hentry
      exact ⟨_, List.mem_cons_self, (Style.ShowsIndented.self style entry).wrap hentry depth _⟩

/-- What is nested in a rule follows it. -/
theorem shows_nested_of_rule {selectors : List (List Char)} {body : List BodyEntry} {part : String}
    {nested : List Block} (depth : Nat)
    (h : ∀ depth, ∃ whole ∈ renderAll style depth nested, style.ShowsIndented part whole) :
    ∃ whole ∈ (rule selectors body nested).render style depth, style.ShowsIndented part whole := by
  rw [render]
  split
  · exact h depth
  · obtain ⟨whole, hwhole, hshows⟩ := h (depth + 1)
    exact ⟨whole, List.mem_cons_of_mem _ hwhole, hshows⟩

/-- What is written in a directive stands in its text. -/
theorem shows_in_group (hstyle : style ≠ .compressed) {head part entry : String}
    {body : List BodyEntry} {nested : List Block}
    (hentry : entry ∈ renderBody style body ++ renderAll style 0 nested)
    (h : style.ShowsIndented part entry) (depth : Nat) :
    ∃ whole ∈ (group head body nested).render style depth, style.ShowsIndented part whole := by
  have hrender : (group head body nested).render style depth =
      [Stylesheet.wrap style 0 head (renderBody style body ++ renderAll style 0 nested)] := by
    cases style with
    | compressed => exact absurd rfl hstyle
    | _ => rfl
  rw [hrender]
  exact ⟨_, List.mem_singleton_self _, h.wrap hentry 0 head⟩

theorem renderAll_singleton (style : Style) (depth : Nat) (block : Block) :
    renderAll style depth [block] = block.render style depth := by
  rw [renderAll, renderAll, List.append_nil]

mutual

/-- Every comment in a node is shown in one of the texts that are printed of it. -/
theorem shows_comment_of_ofNode (hstyle : style ≠ .compressed) {inner : Node}
    (hc : inner.shownComment? = some c) : ∀ {node : Node} {parents} {depth : Nat} {blocks},
      node.AllSettled → (node.isBodyPart = true → depth = 0) → ofNode parents node = .ok blocks →
      inner ∈ node.walk →
      ∃ whole ∈ renderAll style depth blocks, style.ShowsIndented (c.render style 0) whole
  | ⟨.rule own, line, filename, children⟩, parents, depth, blocks, hsettled, _, h, hinner => by
    have hplace := comment_in_body_or_beneath h rfl hsettled hinner hc
    obtain ⟨nested, hnested, rfl⟩ := ofNode_rule_eq_ok h
    rw [renderAll_singleton]
    rcases hplace with hentry | hbeneath
    · exact shows_entry_of_rule (mem_renderBody_of_comment hstyle hentry) depth nested
    · exact shows_nested_of_rule depth fun depth =>
        shows_comment_of_nestedIn hstyle hc (fun _ => hsettled.child) hnested hbeneath
  | ⟨.directive name, line, filename, children⟩, parents, depth, blocks, hsettled, _, h,
      hinner => by
    have hplace := comment_in_body_or_beneath h rfl hsettled hinner hc
    rcases ofNode_directive_eq_ok h with ⟨rfl, rfl⟩ | ⟨nested, hnested, rfl⟩
    · rcases hplace with hentry | ⟨child, hchild, -⟩
      · cases hentry
      · cases hchild
    · rw [renderAll_singleton]
      rcases hplace with hentry | hbeneath
      · exact shows_in_group hstyle
          (List.mem_append_left _ (mem_renderBody_of_comment hstyle hentry)) (.self style _) depth
      · obtain ⟨whole, hwhole, hshows⟩ :=
          shows_comment_of_nestedIn hstyle hc (fun _ => hsettled.child) hnested hbeneath
        exact shows_in_group hstyle (List.mem_append_right _ hwhole) hshows depth
  | ⟨.comment text visible lines, line, filename, children⟩, parents, depth, blocks, hsettled,
      hdepth, h, hinner => by
    -- a comment outside of rules stands at no depth, where it has no margin
    obtain rfl := hdepth rfl
    rw [Node.walk_eq, hsettled.self.leaf _ _ _ rfl] at hinner
    obtain rfl := List.mem_singleton.mp hinner
    rw [ofNode] at h
    cases h
    rw [Node.shownComment?] at hc
    dsimp only at hc
    rw [hc]
    refine ⟨c.render style 0, ?_, .self style _⟩
    simp [renderAll, render, hstyle]
  | ⟨.attr _ _, _, _, _⟩, _, _, _, _, _, h, _ => by cases h
  | ⟨.root, _, _, _⟩, _, _, _, hsettled, _, _, _ => absurd rfl hsettled.self.ne_root

theorem shows_comment_of_nestedIn (hstyle : style ≠ .compressed) {inner : Node}
    (hc : inner.shownComment? = some c) : ∀ {nodes : List Node} {parents} {depth : Nat} {blocks},
      (∀ node ∈ nodes, node.AllSettled) → nestedIn parents nodes = .ok blocks →
      (∃ child ∈ nodes, child.isBodyPart = false ∧ inner ∈ child.walk) →
      ∃ whole ∈ renderAll style depth blocks, style.ShowsIndented (c.render style 0) whole
  | [], _, _, _, _, _, hbeneath => by
    obtain ⟨child, hchild, -⟩ := hbeneath
    cases hchild
  | node :: nodes, parents, depth, blocks, hsettled, h, hbeneath => by
    obtain ⟨first, rest, hfirst, hrest, rfl⟩ := nestedIn_cons_eq_ok h
    obtain ⟨child, hchild, hpart, hinner⟩ := hbeneath
    rw [renderAll_append]
    rcases List.mem_cons.mp hchild with hhere | hchild
    · rw [hhere] at hpart hinner
      rw [hpart] at hfirst
      obtain ⟨whole, hwhole, hshows⟩ := shows_comment_of_ofNode hstyle hc
        (hsettled _ List.mem_cons_self) (by simp [hpart]) hfirst hinner
      exact ⟨whole, List.mem_append_left _ hwhole, hshows⟩
    · obtain ⟨whole, hwhole, hshows⟩ := shows_comment_of_nestedIn hstyle hc
        (fun later hlater => hsettled later (List.mem_cons_of_mem _ hlater)) hrest
        ⟨child, hchild, hpart, hinner⟩
      exact ⟨whole, List.mem_append_right _ hwhole, hshows⟩

end

theorem mem_renderAll_iff {depth : Nat} {whole : String} {blocks : List Block} :
    whole ∈ renderAll style depth blocks ↔ ∃ block ∈ blocks, whole ∈ block.render style depth := by
  induction blocks with
  | nil => simp [renderAll]
  | cons block blocks ih => simp [renderAll, ih]

/-- Each node beneath the root has its blocks among those of all. -/
theorem exists_ofNode_of_mem {nodes : List Node} {blocks : List Block}
    (h : ofNodes nodes = .ok blocks) {node : Node} (hnode : node ∈ nodes) :
    ∃ own, ofNode none node = .ok own ∧ ∀ block ∈ own, block ∈ blocks := by
  induction nodes generalizing blocks with
  | nil => cases hnode
  | cons first nodes ih =>
      obtain ⟨own, hown, h⟩ := bind_eq_ok_iff.mp h
      obtain ⟨rest, hrest, h⟩ := bind_eq_ok_iff.mp h
      cases h
      rcases List.mem_cons.mp hnode with rfl | hnode
      · exact ⟨own, hown, fun _ => List.mem_append_left _⟩
      · obtain ⟨own', hown', hmem⟩ := ih hrest hnode
        exact ⟨own', hown', fun block hblock => List.mem_append_right _ (hmem block hblock)⟩

/-- A style that lays out rules in lines ends one between blocks, and between nodes. -/
theorem separators_of_lined (h : style.isLined = true) :
    (∃ start, style.blockSeparator.toList = start ++ ['\n']) ∧
      ∃ start, style.nodeSeparator.toList = start ++ ['\n'] := by
  cases style with
  | nested => exact ⟨⟨[], rfl⟩, ['\n'], rfl⟩
  | expanded => exact ⟨⟨[], rfl⟩, ['\n'], rfl⟩
  | compact => cases h
  | compressed => cases h

/-- What is shown in a text of a block is shown in the sheet. -/
theorem shows_renderSheet {part whole : String} {block : Block} {blocks : List Block}
    (hblock : block ∈ blocks) (hwhole : whole ∈ block.render style 0)
    (h : style.Shows part whole) : style.Shows part (renderSheet style blocks) := by
  have htexts : block.render style 0 ∈
      (blocks.map (render style 0)).filter fun texts => !texts.isEmpty :=
    List.mem_filter.mpr ⟨List.mem_map_of_mem hblock, by simp [List.ne_nil_of_mem hwhole]⟩
  have hown : style.Shows part (String.intercalate style.blockSeparator (block.render style 0)) :=
    h.intercalate hwhole fun hlined => (separators_of_lined hlined).1
  have hsheet := hown.intercalate (List.mem_map_of_mem htexts) fun hlined =>
    (separators_of_lined hlined).2
  unfold renderSheet
  dsimp only
  rw [if_neg (by simp [List.ne_nil_of_mem htexts])]
  exact hsheet.within [] ['\n'] (by simp) fun _ => .inl rfl

end Block

/-- Every comment of a tree is shown in its sheet. -/
theorem Node.shows_comment_of_render {style : Style} (hstyle : style ≠ .compressed) {tree : Node}
    {css : String} (hsettled : ∀ inner ∈ walkAll tree.children, inner.Settled)
    (h : tree.render style = .ok css) {inner : Node} (hinner : inner ∈ walkAll tree.children)
    {c : Comment} (hc : inner.shownComment? = some c) :
    style.ShowsIndented (c.render style 0) css := by
  obtain ⟨blocks, hblocks, h⟩ := bind_eq_ok_iff.mp h
  cases h
  obtain ⟨node, hnode, hinner⟩ := mem_walkAll_iff.mp hinner
  obtain ⟨own, hown, hmem⟩ := Block.exists_ofNode_of_mem hblocks hnode
  obtain ⟨whole, hwhole, n, hshows⟩ := Block.shows_comment_of_ofNode hstyle hc
    (fun inner hinner => hsettled inner (mem_walkAll_iff.mpr ⟨node, hnode, hinner⟩))
    (fun _ => rfl) hown hinner
  obtain ⟨block, hblock, hwhole⟩ := Block.mem_renderAll_iff.mp hwhole
  exact ⟨n, Block.shows_renderSheet (hmem block hblock) hwhole hshows⟩

/-! ## Comments in assembled trees -/

/-- A line that is a comment opens one. -/
theorem Shape.exists_of_comment {cs : List Char} (h : Shape.of cs = .comment) :
    ∃ rest, cs = '/' :: '*' :: rest := by
  unfold Shape.of plainShape at h
  split at h
  case h_4 rest => exact ⟨rest, rfl⟩
  all_goals first | cases h | (split at h <;> cases h)

theorem Comment.exists_source {c : Comment} {rest : List Char}
    (h : c.text.toList = '/' :: '*' :: rest) : ∃ inner, c.source = '/' :: '*' :: inner := by
  unfold source
  cases c.lines.map (" " ++ ·) with
  | nil => exact ⟨rest, by simp [h]⟩
  | cons next later => exact ⟨_, by simp [h]; rfl⟩

/-- **What is printed of a comment.** Every comment of an assembled tree is opened by its first
line, it is shown, and every style which prints comments prints it: in the sheet stand its lines,
closed by the rule of `Comment.render`, all behind the same blanks, and where rules are laid out in
lines they start one. They are one whole comment exactly if the first mark after the opening that
closes it is at the end of the lines or in none of them, and if they are more than an opening with a
slash. -/
theorem comments_of_assembleTemplate {options : Options} {disk : Disk} {template : String}
    {start after : State} {limit : Nat} {tree : Node}
    (h : assembleTemplate options disk template start limit = (.ok tree, after)) {style : Style}
    (hstyle : style ≠ .compressed) :
    ∀ node ∈ Node.walkAll tree.children, ∀ text visible lines,
      node.content = .comment text visible lines →
      let comment : Comment := ⟨text, (Line.flattenAll lines).map (·.text)⟩
      visible = true ∧ (∃ rest, text.toList = '/' :: '*' :: rest) ∧
      (∀ css, tree.render style = .ok css →
        ∃ n, style.Shows (indent n (comment.render style 0)) css) ∧
      ∀ n, Text.isComment (indent n (comment.render style 0)).toList = true ↔
        comment.ClosesAtEnd := by
  intro node hnode text visible lines hcontent comment
  obtain ⟨line, ⟨-, hwrites⟩, -⟩ := attributesAll_of_assembleTemplate h node hnode
  rw [hcontent] at hwrites
  -- only a line that opens a comment becomes one
  obtain ⟨hvisible, rest, hrest⟩ : visible = true ∧ ∃ rest, text.toList = '/' :: '*' :: rest := by
    cases hwrites with
    | comment hshape => exact ⟨rfl, Shape.exists_of_comment hshape⟩
  obtain ⟨inner, hopen⟩ : ∃ inner, comment.source = '/' :: '*' :: inner :=
    Comment.exists_source hrest
  refine ⟨hvisible, ⟨rest, hrest⟩, fun css hcss => ?_, fun n => ?_⟩
  · have hsettled := (wellFormed_of_assembleTemplate h).settled
    refine Node.shows_comment_of_render hstyle hsettled hcss hnode ?_
    rw [Node.shownComment?, hcontent, hvisible]
    rfl
  · obtain ⟨body, hbody⟩ : ∃ body, (comment.render style 0).toList = '/' :: '*' :: body := by
      rw [Comment.toList_render, hopen]
      split
      · exact ⟨inner, rfl⟩
      · exact ⟨inner ++ [' ', '*', '/'], rfl⟩
    rw [isComment_indent n hbody, Comment.isComment_render_iff hopen]

/-- A comment of two lines in a rule that is in a rule. -/
theorem comments_of_nested_rule :
    let template := "a\n  b\n    /* c\n      d\n    :p q"
    let note : Node := ⟨.comment "/* c" true [⟨"d", 3, 4, []⟩], some 3, none, []⟩
    let tree : Node := ⟨.root, none, none, [⟨.rule ⟨["a"], false⟩, some 1, none,
      [⟨.rule ⟨["b"], false⟩, some 2, none, [note, ⟨.attr "p" "q", some 5, none, []⟩]⟩]⟩]⟩
    let comment : Comment := ⟨"/* c", ["d"]⟩
    assembleTemplate {} (Disk.ofKnown []) template {} 2 = (.ok tree, {}) ∧
    tree.render .expanded = .ok "a b \x7b\n  /* c\n   d */\n  p: q;\n\x7d\n" ∧
    (∃ n, Style.expanded.Shows (indent n "/* c\n d */")
      "a b \x7b\n  /* c\n   d */\n  p: q;\n\x7d\n") ∧
    comment.ClosesAtEnd ∧ Text.isComment (indent 2 "/* c\n d */").toList = true := by
  intro template note tree comment
  have h : assembleTemplate {} (Disk.ofKnown []) template {} 2 = (.ok tree, {}) := by cbv
  have hrender : tree.render .expanded = .ok "a b \x7b\n  /* c\n   d */\n  p: q;\n\x7d\n" := by
    decide +kernel
  have hnode : note ∈ Node.walkAll tree.children := by
    dsimp only [tree, note]
    simp [Node.walk, Node.walkAll]
  have hstyle : Style.expanded ≠ .compressed := by decide
  obtain ⟨-, -, hshows, hwhole⟩ := comments_of_assembleTemplate h hstyle note hnode _ _ _ rfl
  have hcloses : comment.ClosesAtEnd := by
    refine ⟨fun rest hrest => ?_, by decide⟩
    have hnone : Text.afterClosing? (comment.source.drop 2) = none := by decide
    rw [hnone] at hrest
    cases hrest
  exact ⟨h, hrender, hshows _ hrender, hcloses, (hwhole 2).mpr hcloses⟩

/-- A comment that stays open, so that the sheet ends in it, and one that ends before its last word.
-/
theorem open_comment_and_early_end :
    let tree (text : String) : Node := ⟨.root, none, none, [
      ⟨.comment text true [], some 1, none, []⟩,
      ⟨.rule ⟨["p"], false⟩, some 2, none, [⟨.attr "q" "r", some 3, none, []⟩]⟩]⟩
    (assembleTemplate {} (Disk.ofKnown []) "/*/\np\n  :q r" {} 2 = (.ok (tree "/*/"), {}) ∧
      (tree "/*/").render .nested = .ok "/*/\n\np \x7b\n  q: r; \x7d\n" ∧
      Text.isComment "/*/".toList = false ∧
      Text.afterClosing? "/\n\np \x7b\n  q: r; \x7d\n".toList = none) ∧
    assembleTemplate {} (Disk.ofKnown []) "/* a */ b\np\n  :q r" {} 2 =
        (.ok (tree "/* a */ b"), {}) ∧
      (tree "/* a */ b").render .nested = .ok "/* a */ b */\n\np \x7b\n  q: r; \x7d\n" ∧
      Text.isComment "/* a */ b */".toList = false ∧
      Text.afterClosing? " a */ b */".toList = some " b */".toList := by
  refine ⟨⟨by cbv, ?_, ?_, ?_⟩, by cbv, ?_, ?_, ?_⟩
  all_goals decide +kernel

end Stylesheet
