import Mathlib.Data.List.TakeWhile

/-!
# Patterns of texts

A pattern is matched by trying ways of taking it in an order of preference: a repetition takes as
many characters as it can before it takes fewer, a choice tries its first part before its second. A
later part of a sequence can so turn down what an earlier part took. The pattern matches with the
first way on which no part of it fails.

* `Pattern.ways` : all ways, the preferred ones first.
* `runs_append_cons` : the ways of a repetition go back one character at a time.
* `Pattern.groups?_seq` : a sequence goes through the ways of its first part.
-/

namespace Stylesheet

/-! ## Runs of characters -/

/-- A text is cut into a run of characters of a kind, as long as it can be, and the rest. -/
structure IsRun (p : Char → Bool) (run rest : List Char) : Prop where
  all : ∀ c ∈ run, p c = true
  stops : ∀ c ∈ rest.head?, p c = false

section Runs

variable {p : Char → Bool} {run rest cs : List Char}

theorem isRun_takeWhile (p : Char → Bool) (cs : List Char) :
    IsRun p (cs.takeWhile p) (cs.dropWhile p) where
  all _ hc := List.mem_takeWhile_imp hc
  stops c hc := by
    have hstop := List.head?_dropWhile_not p cs
    rw [hc] at hstop
    exact hstop

/-- Every text starts with a run, which may be empty. -/
theorem exists_isRun (p : Char → Bool) (cs : List Char) :
    ∃ run rest, run ++ rest = cs ∧ IsRun p run rest :=
  ⟨_, _, List.takeWhile_append_dropWhile, isRun_takeWhile p cs⟩

/-- A run is what is taken while its characters last. -/
theorem IsRun.takeWhile_eq (h : IsRun p run rest) : (run ++ rest).takeWhile p = run := by
  have hrest : rest.takeWhile p = [] := by
    cases rest with
    | nil => rfl
    | cons c rest => exact List.takeWhile_cons_of_neg (by simp [h.stops c rfl])
  rw [List.takeWhile_append_of_pos h.all, hrest, List.append_nil]

theorem IsRun.dropWhile_eq (h : IsRun p run rest) : (run ++ rest).dropWhile p = rest := by
  rw [List.dropWhile_append_of_pos h.all]
  cases rest with
  | nil => rfl
  | cons c rest => exact List.dropWhile_cons_of_neg (by simp [h.stops c rfl])

/-- The ways to cut a text in two with only characters of a kind in the first part, from the longest
first part to the empty one. -/
def runs (p : Char → Bool) : List Char → List (List Char × List Char)
  | [] => [([], [])]
  | c :: cs =>
    (if p c then (runs p cs).map fun cut => (c :: cut.1, cut.2) else []) ++ [([], c :: cs)]

theorem runs_cons (p : Char → Bool) (c : Char) (cs : List Char) :
    runs p (c :: cs) =
      (if p c then (runs p cs).map fun cut => (c :: cut.1, cut.2) else []) ++ [([], c :: cs)] :=
  rfl

theorem runs_of_stops (h : ∀ c ∈ rest.head?, p c = false) : runs p rest = [([], rest)] := by
  cases rest with
  | nil => rfl
  | cons c rest =>
      rw [runs_cons, if_neg (by simp [h c rfl])]
      rfl

/-- The longest run is tried first. -/
theorem head?_runs (p : Char → Bool) (cs : List Char) :
    (runs p cs).head? = some (cs.takeWhile p, cs.dropWhile p) := by
  induction cs with
  | nil => rfl
  | cons c cs ih =>
      by_cases hc : p c = true
      · rw [runs_cons, if_pos hc, List.head?_append, List.head?_map, ih, List.takeWhile_cons_of_pos hc,
          List.dropWhile_cons_of_pos hc]
        rfl
      · rw [runs_cons, if_neg hc, List.takeWhile_cons_of_neg hc, List.dropWhile_cons_of_neg hc]
        rfl

/-- The longest run is tried first and the run without its last character after it. Whatever is
tried later stops before two characters of the run. -/
theorem runs_append_cons {c : Char} (h : IsRun p (run ++ [c]) rest) :
    ∃ shorter, runs p (run ++ c :: rest) = (run ++ [c], rest) :: (run, c :: rest) :: shorter ∧
      ∀ cut ∈ shorter, ∃ d e after, cut.2 = d :: e :: after ∧ p d = true ∧ p e = true := by
  have hc : p c = true := h.all c (by simp)
  induction run with
  | nil =>
      refine ⟨[], ?_, by simp⟩
      rw [List.nil_append, runs_cons, if_pos hc, runs_of_stops h.stops]
      rfl
  | cons d run ih =>
      have hd : p d = true := h.all d (by simp)
      obtain ⟨shorter, hruns, hshorter⟩ :=
        ih ⟨fun e he => h.all e (List.mem_cons_of_mem _ he), h.stops⟩
      refine ⟨shorter.map (fun cut => (d :: cut.1, cut.2)) ++ [([], d :: (run ++ c :: rest))],
        ?_, ?_⟩
      · rw [List.cons_append, runs_cons, if_pos hd, hruns]
        rfl
      · intro cut hcut
        rcases List.mem_append.mp hcut with hcut | hcut
        · obtain ⟨cut', hcut', rfl⟩ := List.mem_map.mp hcut
          exact hshorter cut' hcut'
        · rw [List.mem_singleton.mp hcut]
          -- the run goes on after its first character
          cases run with
          | nil => exact ⟨d, c, rest, rfl, hd, hc⟩
          | cons e run => exact ⟨d, e, run ++ c :: rest, rfl, hd, h.all e (by simp)⟩

variable {α : Type} {k : List Char × List Char → Option α}

/-- If nothing can follow where a run could go on, only the longest run matters. -/
theorem findSome?_runs (h : IsRun p run rest)
    (hnone : ∀ taken c after, p c = true → k (taken, c :: after) = none) :
    (runs p (run ++ rest)).findSome? k = k (run, rest) := by
  rcases List.eq_nil_or_concat run with rfl | ⟨run, c, rfl⟩
  · rw [List.nil_append, runs_of_stops h.stops, List.findSome?_singleton]
  · rw [List.concat_eq_append] at h ⊢
    obtain ⟨shorter, hruns, hshorter⟩ := runs_append_cons h
    have hc : p c = true := h.all c (by simp)
    have hfew : shorter.findSome? k = none := by
      rw [List.findSome?_eq_none_iff]
      rintro ⟨taken, left⟩ hcut
      obtain ⟨d, e, after, rfl, hd, -⟩ := hshorter _ hcut
      exact hnone taken d _ hd
    rw [List.append_assoc, List.singleton_append, hruns, List.findSome?_cons, List.findSome?_cons,
      hnone run c rest hc, hfew]
    cases k (run ++ [c], rest) <;> rfl

end Runs

/-! ## Patterns -/

inductive Pattern where
  /-- One character of a kind. -/
  | one (p : Char → Bool)
  /-- Characters of a kind, or none. -/
  | zeroOrMore (p : Char → Bool)
  /-- Characters of a kind. -/
  | oneOrMore (p : Char → Bool)
  /-- The end of the text, or of its last line if the text ends with a line break. -/
  | finish
  /-- A part that may be left out. -/
  | optional (q : Pattern)
  /-- One part or else another. -/
  | either (q r : Pattern)
  /-- One part after another. -/
  | seq (q r : Pattern)
  /-- A part of which is kept what it takes. -/
  | group (q : Pattern)

namespace Pattern

/-- What a pattern takes of a text: the characters, those of its groups, and what is left. -/
structure Way where
  taken : List Char
  groups : List (List Char)
  rest : List Char

/-- The ways of taking a pattern of a text, the preferred ones first. -/
def ways : Pattern → List Char → List Way
  | one p, cs =>
    match cs with
    | c :: rest => if p c then [⟨[c], [], rest⟩] else []
    | [] => []
  | zeroOrMore p, cs => (runs p cs).map fun cut => ⟨cut.1, [], cut.2⟩
  | oneOrMore p, cs =>
    match cs with
    | c :: rest => if p c then (runs p rest).map fun cut => ⟨c :: cut.1, [], cut.2⟩ else []
    | [] => []
  | finish, cs => if cs = [] ∨ cs = ['\n'] then [⟨[], [], cs⟩] else []
  | optional q, cs => q.ways cs ++ [⟨[], [], cs⟩]
  | either q r, cs => q.ways cs ++ r.ways cs
  | seq q r, cs =>
    (q.ways cs).flatMap fun way => (r.ways way.rest).map fun later =>
      ⟨way.taken ++ later.taken, way.groups ++ later.groups, later.rest⟩
  | group q, cs => (q.ways cs).map fun way => { way with groups := way.taken :: way.groups }

/-- What the groups of a pattern take if the pattern matches the start of a text. -/
def groups? (q : Pattern) (cs : List Char) : Option (List (List Char)) :=
  (q.ways cs).head?.map Way.groups

variable {p : Char → Bool} {q : Pattern} {c : Char} {cs run rest : List Char}

/-! ## The ways of each kind of pattern -/

theorem ways_one_cons (h : p c = true) (cs : List Char) :
    (one p).ways (c :: cs) = [⟨[c], [], cs⟩] :=
  if_pos h

theorem ways_one_of_stops (h : ∀ c ∈ rest.head?, p c = false) : (one p).ways rest = [] := by
  cases rest with
  | nil => rfl
  | cons c rest => exact if_neg (by simp [h c rfl])

theorem ways_zeroOrMore (p : Char → Bool) (cs : List Char) :
    (zeroOrMore p).ways cs = (runs p cs).map fun cut => ⟨cut.1, [], cut.2⟩ :=
  rfl

/-- One or more is one and then any number more. -/
theorem ways_oneOrMore_cons (h : p c = true) (cs : List Char) :
    (oneOrMore p).ways (c :: cs) = (runs p cs).map fun cut => ⟨c :: cut.1, [], cut.2⟩ :=
  if_pos h

theorem ways_oneOrMore_of_stops (h : ∀ c ∈ rest.head?, p c = false) :
    (oneOrMore p).ways rest = [] := by
  cases rest with
  | nil => rfl
  | cons c rest => exact if_neg (by simp [h c rfl])

/-- An optional part is tried before it is left out. -/
theorem ways_optional (q : Pattern) (cs : List Char) :
    (optional q).ways cs = q.ways cs ++ [⟨[], [], cs⟩] :=
  rfl

/-- The first alternative is tried before the second. -/
theorem ways_either (q r : Pattern) (cs : List Char) :
    (either q r).ways cs = q.ways cs ++ r.ways cs :=
  rfl

/-- A sequence tries every way of its second part for each way of the first. -/
theorem ways_seq (q r : Pattern) (cs : List Char) :
    (seq q r).ways cs = (q.ways cs).flatMap fun way => (r.ways way.rest).map fun later =>
      ⟨way.taken ++ later.taken, way.groups ++ later.groups, later.rest⟩ :=
  rfl

theorem ways_group (q : Pattern) (cs : List Char) :
    (group q).ways cs =
      (q.ways cs).map fun way => { way with groups := way.taken :: way.groups } :=
  rfl

/-! ## Sequences -/

/-- A sequence matches with the first way of its first part after which its second part matches. -/
theorem groups?_seq (q r : Pattern) (cs : List Char) :
    (seq q r).groups? cs =
      (q.ways cs).findSome? fun way => (r.groups? way.rest).map (way.groups ++ ·) := by
  rw [groups?, ways_seq, List.head?_flatMap, List.map_findSome?]
  congr 1
  funext way
  rw [Function.comp_apply, List.head?_map, Option.map_map, groups?, Option.map_map]
  rfl

/-- The same for a sequence within a pattern. -/
theorem findSome?_ways_seq {α : Type} (k : Way → Option α) (q r : Pattern) (cs : List Char) :
    ((seq q r).ways cs).findSome? k =
      (q.ways cs).findSome? fun way => (r.ways way.rest).findSome? fun later =>
        k ⟨way.taken ++ later.taken, way.groups ++ later.groups, later.rest⟩ := by
  rw [ways_seq, ← List.head?_filterMap, List.filterMap_flatMap, List.head?_flatMap]
  congr 1
  funext way
  rw [List.head?_filterMap, List.findSome?_map]
  rfl

/-- Before what matches every text, the first way is the way. -/
theorem groups?_seq_of_total {r : Pattern} {f : List Char → List (List Char)}
    (h : ∀ cs, r.groups? cs = some (f cs)) (q : Pattern) (cs : List Char) :
    (seq q r).groups? cs = (q.ways cs).head?.map fun way => way.groups ++ f way.rest := by
  rw [groups?_seq]
  cases q.ways cs with
  | nil => rfl
  | cons way others =>
      rw [List.findSome?_cons, h]
      rfl

/-- A sequence does not match if its first part does not. -/
theorem groups?_seq_of_ways_nil (h : q.ways cs = []) (r : Pattern) :
    (seq q r).groups? cs = none := by
  rw [groups?_seq, h, List.findSome?_nil]

theorem groups?_one_seq_cons (q : Pattern) (h : p c = true) (cs : List Char) :
    (seq (one p) q).groups? (c :: cs) = q.groups? cs := by
  rw [groups?_seq, ways_one_cons h, List.findSome?_singleton]
  exact Option.map_id'

theorem groups?_zeroOrMore_seq (p : Char → Bool) (q : Pattern) (cs : List Char) :
    (seq (zeroOrMore p) q).groups? cs = (runs p cs).findSome? fun cut => q.groups? cut.2 := by
  rw [groups?_seq, ways_zeroOrMore, List.findSome?_map]
  congr 1
  funext cut
  exact Option.map_id'

/-- A run gives back characters until what follows it matches. -/
theorem groups?_oneOrMore_seq (q : Pattern) (h : p c = true) (cs : List Char) :
    (seq (oneOrMore p) q).groups? (c :: cs) = (runs p cs).findSome? fun cut => q.groups? cut.2 := by
  rw [groups?_seq, ways_oneOrMore_cons h, List.findSome?_map]
  congr 1
  funext cut
  exact Option.map_id'

/-- A name that nothing but its end can follow is taken whole. -/
theorem groups?_group_oneOrMore_seq (h : IsRun p run rest)
    (hnone : ∀ c after, p c = true → q.groups? (c :: after) = none) :
    (seq (group (oneOrMore p)) q).groups? (run ++ rest) =
      if run = [] then none else (q.groups? rest).map (run :: ·) := by
  cases run with
  | nil =>
      have hways : (group (oneOrMore p)).ways rest = [] := by
        rw [ways_group, ways_oneOrMore_of_stops h.stops, List.map_nil]
      rw [if_pos rfl, List.nil_append, groups?_seq_of_ways_nil hways]
  | cons c run =>
      have hrun : IsRun p run rest := ⟨fun d hd => h.all d (List.mem_cons_of_mem _ hd), h.stops⟩
      rw [if_neg (by simp), groups?_seq, List.cons_append, ways_group,
        ways_oneOrMore_cons (h.all c List.mem_cons_self), List.findSome?_map, List.findSome?_map]
      refine (findSome?_runs hrun fun taken d after hd => ?_).trans rfl
      rw [Function.comp_apply, Function.comp_apply, hnone d after hd]
      rfl

/-- A repetition at the end of a pattern takes all that it can. -/
theorem groups?_group_zeroOrMore (p : Char → Bool) (cs : List Char) :
    (group (zeroOrMore p)).groups? cs = some [cs.takeWhile p] := by
  rw [groups?, ways_group, ways_zeroOrMore, List.head?_map, List.head?_map, head?_runs]
  rfl

end Pattern

end Stylesheet
