import Stylesheet.Proofs.Assembly.Likeness
import Stylesheet.Proofs.Line.Parsing

/-!
# Templates whose lines are alike

The forest of a template depends on the texts and depths of its lines alone. Two lists of kept
lines with the same texts become lines that are alike, and lines that are alike make up forests
that are alike; so a forest can be carried from one template to another one that keeps the same
physical lines, whatever their numbers are. A line can be taken away with what is nested beneath
it, and what is left is again the forest of the lines that are left.

* `Levelled.of_alike` : a forest for lines that are alike.
* `parseLines_of_alike` : the forests of templates that keep the same physical lines.
* `Levelled.without` : a forest without one of its trees.
-/

namespace Stylesheet

open Line

namespace Likeness

variable (r : Likeness)

/-- Lines that are alike, where nothing is nested beneath them. -/
structure Flat (line line' : Line) : Prop where
  text : line.text = line'.text
  depth : line.depth = line'.depth
  number : r.number line.index line'.index
  childless : line'.children = []

variable {r}

theorem Flat.exists_eq {text : String} {depth index : Int} {children : List Line} {line' : Line}
    (h : r.Flat ⟨text, depth, index, children⟩ line') :
    ∃ index', r.number index index' ∧ line' = ⟨text, depth, index', []⟩ := by
  obtain ⟨text', depth', index', children'⟩ := line'
  obtain ⟨rfl, rfl, hindex, rfl⟩ := h
  exact ⟨index', hindex, rfl⟩

end Likeness

/-- A list that is related to one in two parts is in two parts itself. -/
theorem exists_append_of_forall₂ {α β : Type} {R : α → β → Prop} {xs ys : List α} {zs : List β}
    (h : List.Forall₂ R (xs ++ ys) zs) :
    ∃ xs' ys', zs = xs' ++ ys' ∧ List.Forall₂ R xs xs' ∧ List.Forall₂ R ys ys' := by
  induction xs generalizing zs with
  | nil => exact ⟨[], zs, rfl, .nil, h⟩
  | cons x xs ih =>
      obtain ⟨z, rest, hz, hrest, rfl⟩ := List.forall₂_cons_left_iff.mp h
      obtain ⟨xs', ys', rfl, hxs, hys⟩ := ih hrest
      exact ⟨z :: xs', ys', rfl, .cons hz hxs, hys⟩

variable {r : Likeness}

/-- Lines that are alike make up forests that are alike. -/
theorem Levelled.of_alike {base : Int} {forest lines : List Line} (h : Levelled base forest)
    (hlines : List.Forall₂ r.Flat (flattenAll forest) lines) :
    ∃ forest', Levelled base forest' ∧ flattenAll forest' = lines ∧ r.Lines forest forest' := by
  induction h generalizing lines with
  | nil =>
      cases hlines
      exact ⟨[], .nil, flattenAll_nil, .nil⟩
  | cons _ _ ihch ihrest =>
      rw [flattenAll_cons] at hlines
      obtain ⟨line', beneath, hline, hbeneath, rfl⟩ := List.forall₂_cons_left_iff.mp hlines
      obtain ⟨index', hindex, rfl⟩ := hline.exists_eq
      obtain ⟨nested, after, rfl, hnested, hafter⟩ := exists_append_of_forall₂ hbeneath
      obtain ⟨children', hch, rfl, hchildren⟩ := ihch hnested
      obtain ⟨rest', hr, rfl, hrest⟩ := ihrest hafter
      exact ⟨_, .cons hch hr, flattenAll_cons _ _ _ _ _, .cons hindex hchildren hrest⟩

/-- Kept lines with the same texts become lines that are alike. -/
theorem exists_tabulated (hnumber : ∀ n n', r.number n n') {unit : List Char}
    {kept kept' : List (List Char × Nat)} {lines : List Line}
    (h : List.Forall₂ (Tabulated unit) kept lines)
    (hkept : kept.map Prod.fst = kept'.map Prod.fst) :
    ∃ lines', List.Forall₂ (Tabulated unit) kept' lines' ∧ List.Forall₂ r.Flat lines lines' := by
  induction h generalizing kept' with
  | nil =>
      obtain rfl : kept' = [] := by simpa using hkept.symm
      exact ⟨[], .nil, .nil⟩
  | @cons line _ rest _ hline _ ih =>
      obtain ⟨depth, hlead, rfl⟩ := hline
      obtain ⟨line', rest', rfl, hfst, hrest⟩ := List.map_eq_cons_iff.mp hkept.symm
      obtain ⟨lines', htabulated, hflat⟩ := ih hrest.symm
      refine ⟨.ofRaw line'.1 depth line'.2 :: lines', .cons ⟨depth, ?_, rfl⟩ htabulated,
        .cons ⟨?_, rfl, hnumber _ _, rfl⟩ hflat⟩
      · rw [hfst]
        exact hlead
      · show String.ofList (Text.trim line.1) = String.ofList (Text.trim line'.1)
        rw [hfst]

/-- A forest whose lines come from kept lines with the same texts as those of a template: the
template is parsed to a forest that is alike. -/
theorem parseLines_of_alike (hnumber : ∀ n n', r.number n n') {unit : List Char} (hu : IsUnit unit)
    {forest : List Line} (h : Levelled 0 forest) {kept : List (List Char × Nat)}
    (hlines : List.Forall₂ (Tabulated unit) kept (flattenAll forest)) {template : List Char}
    (hkept : kept.map Prod.fst = (keptLines template).map Prod.fst) :
    ∃ forest', parseLines template = .ok forest' ∧ r.Lines forest forest' := by
  obtain ⟨lines', htabulated, hflat⟩ := exists_tabulated hnumber hlines hkept
  obtain ⟨forest', hlevelled, rfl, hforest⟩ := h.of_alike hflat
  exact ⟨forest', parseLines_eq_ok_iff.mpr ⟨hlevelled, unit, hu, htabulated⟩, hforest⟩

/-! ## Taking a tree of lines away -/

/-- Where a run of lines that are deeper than `depth` ends is determined by the lines. -/
theorem append_inj_of_depth {depth : Int} {xs xs' ys ys' : List Line} (h : xs ++ ys = xs' ++ ys')
    (hxs : ∀ x ∈ xs, depth < x.depth) (hxs' : ∀ x ∈ xs', depth < x.depth)
    (hys : EndsLevel (depth + 1) ys) (hys' : EndsLevel (depth + 1) ys') : xs = xs' ∧ ys = ys' := by
  have htakeWhile : ∀ {xs ys : List Line}, (∀ x ∈ xs, depth < x.depth) → EndsLevel (depth + 1) ys →
      (xs ++ ys).takeWhile (fun x => depth < x.depth) = xs := by
    intro xs ys hxs hys
    rw [List.takeWhile_append_of_pos (by simpa using hxs)]
    cases ys with
    | nil => simp
    | cons y ys =>
        have hy : y.depth < depth + 1 := hys y rfl
        rw [List.takeWhile_cons_of_neg (by simp; omega), List.append_nil]
  have heq : xs = xs' := by rw [← htakeWhile hxs hys, h, htakeWhile hxs' hys']
  exact ⟨heq, List.append_cancel_left (heq ▸ h)⟩

/-- A line with the deeper lines after it lies in one of two parts, of which the first one is deeper
than the start of the second one. -/
theorem subtree_cases {depth : Int} {xs ys before nested after : List Line} {line : Line}
    (h : xs ++ ys = before ++ line :: (nested ++ after)) (hxs : ∀ x ∈ xs, depth < x.depth)
    (hys : EndsLevel (depth + 1) ys) (hnested : ∀ inner ∈ nested, line.depth < inner.depth) :
    (∃ rest, before = xs ++ rest ∧ ys = rest ++ line :: (nested ++ after)) ∨
      ∃ rest, xs = before ++ line :: (nested ++ rest) ∧ after = rest ++ ys := by
  rcases List.append_eq_append_iff.mp h with ⟨rest, hbefore, hrest⟩ | ⟨cut, hcut, hline⟩
  · exact .inl ⟨rest, hbefore, hrest⟩
  · cases cut with
    | nil => exact .inl ⟨[], by simpa using hcut.symm, by simpa using hline.symm⟩
    | cons first cut =>
        obtain ⟨rfl, hbelow⟩ := List.cons.inj hline
        rcases List.append_eq_append_iff.mp hbelow with ⟨rest, rfl, rfl⟩ | ⟨more, rfl, hmore⟩
        · exact .inr ⟨rest, hcut, rfl⟩
        · cases more with
          | nil => exact .inr ⟨[], by simpa using hcut, by simpa using hmore.symm⟩
          | cons inner more =>
              -- the second part would start with a line nested beneath one of the first part
              have hinner : line.depth < inner.depth := hnested inner (by simp)
              have hline : depth < line.depth := hxs line (by simp [hcut])
              have hstart : inner.depth < depth + 1 := hys inner (by simp [hmore])
              omega

/-- A forest without one of its lines and all that is nested beneath it. The induction is on the
forest: the line is its first root, beneath its first root, or in the rest. -/
theorem Levelled.without {base : Int} {forest : List Line} (h : Levelled base forest)
    {before nested after lines' : List Line} {line : Line}
    (hsplit : flattenAll forest = before ++ line :: (nested ++ after))
    (hnested : ∀ inner ∈ nested, line.depth < inner.depth)
    (hafter : EndsLevel (line.depth + 1) after)
    (hgone : ∀ children, r.gone { line with children })
    (hlines : List.Forall₂ r.Flat (before ++ after) lines') :
    ∃ forest', Levelled base forest' ∧ flattenAll forest' = lines' ∧ r.Lines forest forest' := by
  induction h generalizing before after lines' with
  | nil => simp at hsplit
  | @cons base text index children rest hch hrest ihch ihrest =>
      rw [flattenAll_cons] at hsplit
      have hends : EndsLevel (base + 1) (flattenAll rest) := hrest.endsLevel
      cases before with
      | nil =>
          -- the line is the first root
          obtain ⟨rfl, hbelow⟩ := List.cons.inj hsplit
          obtain ⟨-, rfl⟩ := append_inj_of_depth hbelow
            (fun x hx => hch.le_depth x hx) hnested hends hafter
          obtain ⟨rest', hlevelled, hflat, hl⟩ := hrest.of_alike hlines
          exact ⟨rest', hlevelled, hflat, .gone (hgone children) hl⟩
      | cons first before =>
          obtain ⟨rfl, hbelow⟩ := List.cons.inj hsplit
          rw [List.cons_append] at hlines
          obtain ⟨first', below', hfirst, hbelow', rfl⟩ := List.forall₂_cons_left_iff.mp hlines
          obtain ⟨index', hindex, rfl⟩ := hfirst.exists_eq
          rcases subtree_cases hbelow (fun x hx => hch.le_depth x hx) hends hnested with
            ⟨between, rfl, hrestSplit⟩ | ⟨left, hchSplit, rfl⟩
          · -- the line lies in the rest
            rw [List.append_assoc] at hbelow'
            obtain ⟨below, later, rfl, hbelow, hlater⟩ := exists_append_of_forall₂ hbelow'
            obtain ⟨children', hch', rfl, hlch⟩ := hch.of_alike hbelow
            obtain ⟨rest', hrest', rfl, hlrest⟩ := ihrest hrestSplit hafter hlater
            exact ⟨_, .cons hch' hrest', flattenAll_cons _ _ _ _ _, .cons hindex hlch hlrest⟩
          · -- the line lies beneath the first root
            rw [← List.append_assoc] at hbelow'
            obtain ⟨below, later, rfl, hbelow, hlater⟩ := exists_append_of_forall₂ hbelow'
            have hleft : EndsLevel (line.depth + 1) left := by
              cases left with
              | nil => simp [EndsLevel]
              | cons x left => exact hafter
            obtain ⟨children', hch', rfl, hlch⟩ := ihch hchSplit hleft hbelow
            obtain ⟨rest', hrest', rfl, hlrest⟩ := hrest.of_alike hlater
            exact ⟨_, .cons hch' hrest', flattenAll_cons _ _ _ _ _, .cons hindex hlch hlrest⟩

end Stylesheet
