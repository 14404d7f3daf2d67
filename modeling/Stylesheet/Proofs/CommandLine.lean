import Mathlib
import Stylesheet.CommandLine
import Stylesheet.Proofs.Assembly.Escaping

/-!
# What a run tells and what it breaks off by

A run with arguments that make sense writes the whole result where it belongs, or tells what is
wrong and writes nothing, or breaks off. It breaks off by faults that nothing on the way turns into a
message: text that is no YAML, options that cannot be gone through, a load path that was taken back
and is searched, a failure without a diagnostic, and an output that cannot be written. There are no
others.

* `CommandLine.run_ends` : the three ends of a run, and what it breaks off by.
* `Options.ofEntries_untold_iff` : when options are refused without a message.
-/

namespace Stylesheet

/-! ## Options that cannot be gone through -/

namespace Options

variable {α : Type} {v : Viewer α} {entries : List (Atom × α)}

/-- The entries of a map give no options, and there is no message for it. -/
inductive Unfit (v : Viewer α) (entries : List (Atom × α)) : Prop where
  /-- The names that are no options have no order to be told in. -/
  | unsorted (hnames : Atom.sorted? ((entries.map (·.1)).filter fun a => !isName a) = none)
  /-- Nothing is wrong so far, and the load paths are a value that consists of nothing. -/
  | scalar {a : α} (hnames : checkNames (entries.map (·.1)) = .ok ())
      (hstyle : ∀ b, given? v entries "style" = some b →
        ∃ style, named v Style.ofName? .invalidStyle b = .ok style)
      (hgiven : given? v entries "load_paths" = some a) (hitems : v.elements? a = none)

/-- Unknown options without a message are those whose names cannot be sorted. -/
theorem checkNames_untold {given : List Atom} {fault : OptionsFault}
    (h : checkNames given = .error fault) (huntold : fault.message? = none) :
    Atom.sorted? (given.filter fun a => !isName a) = none ∧ fault = .wrongKind := by
  unfold checkNames at h
  split at h
  · cases h
    exact ⟨‹_›, rfl⟩
  · cases h
  · split at h <;> cases h <;> cases huntold

/-- An option that names one of a few is refused with a message. -/
theorem named_told {β : Type} {ofName? : String → Option β} {told : String → OptionsFault}
    (htold : ∀ quoted, (told quoted).message? ≠ none) {a : α} {fault : OptionsFault}
    (h : named v ofName? told a = .error fault) : fault.message? ≠ none := by
  unfold named at h
  extract_lets found at h
  clear_value found
  cases found with
  | some b => cases h
  | none =>
    cases hquoted : v.quoted a with
    | ok quoted =>
      rw [hquoted] at h
      cases h
      exact htold quoted
    | error tooLong =>
      rw [hquoted] at h
      cases h
      exact nofun

theorem textOf_told {a : α} {fault : OptionsFault} (h : textOf v a = .error fault) :
    fault.message? ≠ none := by
  unfold textOf at h
  cases hshown : v.shown a with
  | ok text =>
    rw [hshown] at h
    cases h
  | error tooLong =>
    rw [hshown] at h
    cases h
    exact nofun

/-- A list of load paths with an element that is no text is refused with a message. -/
theorem mapM_textOf_told {fault : OptionsFault} : ∀ {items : List α},
    items.mapM (textOf v) = .error fault → fault.message? ≠ none
  | [], h => by cases h
  | a :: items, h => by
    rw [List.mapM_cons] at h
    rcases error_of_bind h with h | ⟨text, -, h⟩
    · exact textOf_told h
    · rcases error_of_bind h with h | ⟨texts, -, h⟩
      · exact mapM_textOf_told h
      · cases h

/-- Load paths are refused without a message only if they are a value that consists of nothing. -/
theorem loadPathsOf_untold {a : α} {fault : OptionsFault} (h : loadPathsOf v a = .error fault)
    (huntold : fault.message? = none) : v.elements? a = none ∧ fault = .wrongKind := by
  unfold loadPathsOf at h
  split at h
  · cases h
  · exact absurd huntold (textOf_told (error_of_map h))
  · split at h
    · exact absurd huntold (mapM_textOf_told h)
    · cases h
      exact ⟨‹_›, rfl⟩

/-- Load paths that cannot be gone through are refused without a message. -/
theorem loadPathsOf_of_elements_none {a : α} (h : v.elements? a = none) :
    loadPathsOf v a = .error .wrongKind := by
  unfold loadPathsOf
  split
  · rename_i path hview
    simp [Viewer.elements?, hview, Atom.elements?] at h
  · rename_i codes hview
    simp [Viewer.elements?, hview, Atom.elements?] at h
  · rw [h]

/-- Options are read one after the other. -/
theorem ofEntries_eq : ofEntries v entries = (do
    checkNames (entries.map (·.1))
    let style ← (given? v entries "style").elim (pure .nested) (named v Style.ofName? .invalidStyle)
    let loadPaths ← (given? v entries "load_paths").elim (pure ["."]) (loadPathsOf v)
    let filename ← (given? v entries "filename").elim (pure none) fun a => (textOf v a).map some
    let attributeSyntax ← (given? v entries "attribute_syntax").elim (pure none) fun a =>
      (named v AttributeSyntax.ofName? .invalidAttributeSyntax a).map some
    pure { style, loadPaths, filename, attributeSyntax }) := by
  unfold ofEntries
  cases given? v entries "style" <;> cases given? v entries "load_paths" <;>
    cases given? v entries "filename" <;> cases given? v entries "attribute_syntax" <;> rfl

theorem error_of_elim {β : Type} {given : Option α} {absent : β} {read : α → Except OptionsFault β}
    {fault : OptionsFault} (h : given.elim (pure absent) read = .error fault) :
    ∃ a, given = some a ∧ read a = .error fault := by
  cases given with
  | none => cases h
  | some a => exact ⟨a, rfl, h⟩

/-- There are two reasons for which options are refused without a message. -/
theorem ofEntries_untold_iff {fault : OptionsFault} :
    (ofEntries v entries = .error fault ∧ fault.message? = none) ↔
      Unfit v entries ∧ fault = .wrongKind := by
  -- a value out of its range is refused with a message
  have hstyleTold (quoted : String) : (OptionsFault.invalidStyle quoted).message? ≠ none :=
    Option.some_ne_none _
  have hsyntaxTold (quoted : String) :
      (OptionsFault.invalidAttributeSyntax quoted).message? ≠ none := Option.some_ne_none _
  rw [ofEntries_eq]
  constructor
  · rintro ⟨h, huntold⟩
    -- the options are read one after the other, and the first that is refused decides
    rcases error_of_bind h with h | ⟨⟨⟩, hnames, h⟩
    · obtain ⟨hsorted, rfl⟩ := checkNames_untold h huntold
      exact ⟨.unsorted hsorted, rfl⟩
    rcases error_of_bind h with h | ⟨style, hstyle, h⟩
    · obtain ⟨a, -, h⟩ := error_of_elim h
      exact absurd huntold (named_told hstyleTold h)
    rcases error_of_bind h with h | ⟨paths, -, h⟩
    · obtain ⟨a, hgiven, h⟩ := error_of_elim h
      obtain ⟨hitems, rfl⟩ := loadPathsOf_untold h huntold
      refine ⟨.scalar hnames (fun b hb => ⟨style, ?_⟩) hgiven hitems, rfl⟩
      rw [hb] at hstyle
      exact hstyle
    rcases error_of_bind h with h | ⟨filename, -, h⟩
    · obtain ⟨a, -, h⟩ := error_of_elim h
      exact absurd huntold (textOf_told (error_of_map h))
    rcases error_of_bind h with h | ⟨way, -, h⟩
    · obtain ⟨a, -, h⟩ := error_of_elim h
      exact absurd huntold (named_told hsyntaxTold (error_of_map h))
    · cases h
  · rintro ⟨hsorted | @⟨a, hnames, hstyle, hgiven, hitems⟩, rfl⟩
    · simp [checkNames, hsorted, bind, Except.bind, OptionsFault.message?]
    · have hpaths := loadPathsOf_of_elements_none hitems
      cases hb : given? v entries "style" with
      | none => simp [hnames, hgiven, hpaths, bind, Except.bind, pure, Except.pure,
          OptionsFault.message?]
      | some b =>
        obtain ⟨style, hstyle⟩ := hstyle b hb
        simp [hnames, hstyle, hgiven, hpaths, bind, Except.bind, OptionsFault.message?]

/-- A text holds no options, and there is no message for it. -/
inductive Untold (text : String) : OptionsFileFault → Prop where
  /-- The text is no YAML; only of values that do not exist there is a message. -/
  | malformed {fault : Data.Yaml.YamlFault} (hparse : Data.Yaml.parse text = .error fault)
      (huntold : ∀ message, fault ≠ .noSuchValue message) : Untold text (.text fault)
  /-- The text is a map that gives no options. -/
  | unfit {graph : Graph} {entries : List (Atom × Ref)} (hparse : Data.Yaml.parse text = .ok graph)
      (hview : graph.view graph.root = .map entries) (hunfit : Unfit graph.viewer entries) :
      Untold text (.options .wrongKind)

/-- When an options file is refused without a message. -/
theorem ofText_untold_iff {text path : String} {fault : OptionsFileFault} :
    (ofText text = .error fault ∧ fault.message? path = none) ↔ Untold text fault := by
  unfold ofText
  constructor
  · rintro ⟨h, huntold⟩
    rcases error_of_bind h with h | ⟨graph, hparse, h⟩
    · obtain ⟨fault, hparse, rfl⟩ := mapError_eq_error_iff.mp h
      refine .malformed hparse fun message hfault => ?_
      subst hfault
      cases huntold
    · rw [mapError_eq_ok_iff] at hparse
      split at h
      · cases h
      · cases h
      · rename_i entries hentries hview
        obtain ⟨fault, hgiven, rfl⟩ := mapError_eq_error_iff.mp h
        obtain ⟨hunfit, rfl⟩ := ofEntries_untold_iff.mp ⟨hgiven, huntold⟩
        exact .unfit hparse hview hunfit
      · cases h
        cases huntold
  · rintro (⟨hparse, huntold⟩ | ⟨hparse, hview, hunfit⟩)
    · rename_i fault
      rw [hparse]
      refine ⟨rfl, ?_⟩
      cases fault with
      | noSuchValue message => exact absurd rfl (huntold message)
      | _ => rfl
    · rename_i graph entries
      have hgiven := (ofEntries_untold_iff.mpr ⟨hunfit, rfl⟩).1
      rw [hparse]
      refine ⟨?_, rfl⟩
      -- a map without entries gives options, so this one has some
      cases entries with
      | nil => cases hgiven
      | cons entry entries =>
        simp [Except.mapError, bind, Except.bind, hview, hgiven]

end Options

/-! ## Messages -/

theorem append_ne_empty {s t : String} (h : s ≠ "") : s ++ t ≠ "" :=
  fun happend => h (String.append_eq_empty_iff.mp happend).1

theorem append_report_ne_empty (told : String) (d : Diagnostic) : told ++ d.report ≠ "" := by
  have hreport : d.report ≠ "" := by
    unfold Diagnostic.report
    simp only [String.append_assoc]
    exact append_ne_empty (by decide)
  exact fun happend => hreport (String.append_eq_empty_iff.mp happend).2

theorem reportOf_ne_empty (message : String) : reportOf message ≠ "" := by
  unfold reportOf
  rw [String.append_assoc]
  exact append_ne_empty (by decide)

/-! ## How a run ends -/

namespace Outcome

/-- A run is over and all is well: the whole text is at its destination, and nothing else is. -/
def Delivers (outcome : Outcome) (destination : Option String) (text : String) : Prop :=
  outcome.ending = .done 0 ∧
    match destination with
    | none => outcome.output = text ∧ outcome.written = none
    | some path => outcome.output = "" ∧ outcome.written = some (path, text)

/-- A run is over and has told what is wrong, and nothing is written anywhere. -/
def Tells (outcome : Outcome) : Prop :=
  outcome.ending = .done 1 ∧ outcome.errors ≠ "" ∧ outcome.output = "" ∧ outcome.written = none

/-- A run breaks off, with nothing written anywhere. -/
def BreaksOff (outcome : Outcome) (fault : RunFault) : Prop :=
  outcome.ending = .broken fault ∧ outcome.output = "" ∧ outcome.written = none

end Outcome

namespace Arguments

/-- The path of the file that the result goes to; without one it goes to the standard output. -/
def destination? (arguments : Arguments) : Option String :=
  arguments.output.filter fun path => !path.isEmpty

def optionsPath? (arguments : Arguments) : Option String :=
  arguments.config.filter fun path => !path.isEmpty

end Arguments

namespace CommandLine

variable {disk : Disk} {arguments : Arguments} {options : Options} {template : String}
  {made : Except Failure String} {events : List Event}

/-- A run gets as far as the compilation, which comes to an end after some events. -/
structure Compiles (disk : Disk) (arguments : Arguments) (options : Options) (template : String)
    (made : Except Failure String) (events : List Event) : Prop where
  options_eq : optionsOf disk arguments = .ok options
  template_eq : disk.readText arguments.input = .ok template
  made_eq : (result options disk arguments.tree template).1 = made
  events_eq : (result options disk arguments.tree template).2.events.reverse = events

/-- A search goes past all load paths: it has told so, or the target that it was for is missing. -/
def Passes (made : Except Failure String) (events : List Event) : Prop :=
  (∃ target, .passedThrough target ∈ events) ∨
    ∃ d target, made = .error (.refused d) ∧ d.fault = .fileNotFound target ∧
      ∀ target path, events.getLast? ≠ some (.resolved target path)

/-- A load path was taken back, and it is searched. -/
def Strays (arguments : Arguments) (made : Except Failure String) (events : List Event) : Prop :=
  none ∈ arguments.loadPaths ∧ Passes made events

/-- The faults that a run breaks off by. -/
inductive Uncaught (disk : Disk) (arguments : Arguments) : RunFault → Prop where
  | options {path text : String} {fault : OptionsFileFault}
      (hpath : arguments.optionsPath? = some path) (htext : Options.readText disk path = .ok text)
      (huntold : Options.Untold text fault) : Uncaught disk arguments (.options fault)
  | noLoadPath {options : Options} {template : String} {made : Except Failure String}
      {events : List Event} (hcompiles : Compiles disk arguments options template made events)
      (hstrays : Strays arguments made events) : Uncaught disk arguments .noLoadPath
  /-- Some run that is going on comes to an imported file that is no text, or to an infinite number
  that has to be written. -/
  | failure {options : Options} {template : String} {failure : Failure} {events : List Event}
      {frames : List Frame} {outer names : List String} {r : Run} {b : Siblings}
      (hcompiles : Compiles disk arguments options template (.error failure) events)
      (hstrays : ¬Strays arguments (.error failure) events)
      (hrunning : Run.Running ⟨nestingLimit, { options, disk }, template, {}⟩ frames outer r)
      (hassembles : r.Assembles names b) (hescapes : b.Escapes failure) :
      Uncaught disk arguments (.failure failure)
  | output {options : Options} {template text path : String} {events : List Event}
      {fault : AccessFault} (hcompiles : Compiles disk arguments options template (.ok text) events)
      (hstrays : ¬Strays arguments (.ok text) events)
      (hpath : arguments.destination? = some path) (hcreate : disk.create path = .error fault) :
      Uncaught disk arguments (.output fault)

theorem isPassedThrough_iff {event : Event} :
    isPassedThrough event ↔ ∃ target, event = .passedThrough target := by
  cases event <;> simp [isPassedThrough]

theorem isMissing_iff {d : Diagnostic} : isMissing events d ↔
    ∃ target, d.fault = .fileNotFound target ∧
      ∀ target path, events.getLast? ≠ some (.resolved target path) := by
  unfold isMissing
  cases d.fault with
  | fileNotFound target =>
    cases events.getLast? with
    | none => simp
    | some last => cases last <;> simp
  | _ => simp

theorem passing?_isSome_iff : (passing? made events).isSome ↔ Passes made events := by
  have hany : events.any isPassedThrough ↔ ∃ target, .passedThrough target ∈ events := by
    simp only [List.any_eq_true, isPassedThrough_iff]
    exact ⟨fun ⟨_, hmem, target, heq⟩ => ⟨target, heq ▸ hmem⟩,
      fun ⟨target, hmem⟩ => ⟨_, hmem, target, rfl⟩⟩
  unfold passing? Passes
  rw [← hany]
  split
  · simp [*]
  · rename_i hnone
    simp only [hnone]
    cases made with
    | ok text => simp
    | error failure =>
      cases failure with
      | refused d =>
        have hmissing := @isMissing_iff events d
        by_cases h : isMissing events d <;> simp_all
      | _ => simp

/-- The result of a compilation fails without a diagnostic only if the assembly does. -/
theorem result_eq_error_iff {tree : Option TreeFormat} {failure : Failure}
    (hrefused : ∀ d, failure ≠ .refused d) :
    (result options disk tree template).1 = .error failure ↔
      (assembleTemplate options disk template).1 = .error failure := by
  unfold result
  cases tree with
  | none =>
    simp only [compileTemplate]
    split
    · -- what cannot be written in a style is refused
      rename_i assembled after hassembled
      rw [hassembled]
      simp only [renderAssembled]
      split <;> simp [(hrefused _).symm]
    · rename_i hassembled
      simp [hassembled]
  | some format =>
    dsimp only
    cases (assembleTemplate options disk template).1 <;> simp [Except.map]

/-! ## The ends of a run -/

/-- Options are refused only where a file of options is named, by what loading it says. -/
theorem optionsOf_eq_error_iff {fault : OptionsFileFault} :
    optionsOf disk arguments = .error fault ↔
      ∃ path, arguments.optionsPath? = some path ∧ Options.load disk path = .error fault := by
  unfold optionsOf Arguments.optionsPath?
  cases arguments.config with
  | none => simp [bind, Except.bind, pure, Except.pure]
  | some path =>
    by_cases hempty : path.isEmpty
    · simp [hempty, Option.filter, bind, Except.bind, pure, Except.pure]
    · cases hload : Options.load disk path <;>
        simp [hempty, hload, Option.filter, bind, Except.bind, pure, Except.pure]

/-- Options that a run breaks off by are those of a file that can be read. -/
theorem optionsOf_untold_iff (path : String) {fault : OptionsFileFault} :
    (optionsOf disk arguments = .error fault ∧ fault.message? path = none) ↔
      Uncaught disk arguments (.options fault) := by
  constructor
  · rintro ⟨h, huntold⟩
    obtain ⟨optionsPath, hpath, h⟩ := optionsOf_eq_error_iff.mp h
    unfold Options.load at h
    rcases error_of_bind h with h | ⟨text, htext, h⟩
    · -- a file that cannot be read is told of
      cases hread : Options.readText disk optionsPath with
      | ok text =>
        rw [hread] at h
        cases h
      | error unread =>
        rw [hread] at h
        cases h
        cases huntold
    · cases hread : Options.readText disk optionsPath with
      | ok read =>
        rw [hread] at htext
        cases htext
        exact .options hpath hread (Options.ofText_untold_iff.mp ⟨h, huntold⟩)
      | error unread =>
        rw [hread] at htext
        cases htext
  · rintro ⟨hpath, htext, huntold⟩
    obtain ⟨h, huntold⟩ := Options.ofText_untold_iff.mpr huntold
    refine ⟨optionsOf_eq_error_iff.mpr ⟨_, hpath, ?_⟩, huntold⟩
    simp [Options.load, htext, Except.mapError, bind, Except.bind, h]

/-- A run that has a text delivers it, unless the output cannot be written. -/
theorem deliver_cases (disk : Disk) (arguments : Arguments) (told text : String) :
    (deliver disk arguments told text).Delivers arguments.destination? text ∧
        (∀ path fault, arguments.destination? = some path → disk.create path ≠ .error fault) ∨
      ∃ path fault, arguments.destination? = some path ∧ disk.create path = .error fault ∧
        (deliver disk arguments told text).BreaksOff (.output fault) := by
  unfold deliver Arguments.destination?
  cases arguments.output with
  | none => exact .inl ⟨⟨rfl, rfl, rfl⟩, nofun⟩
  | some path =>
    by_cases hempty : path.isEmpty
    · simp [hempty, Option.filter, Outcome.Delivers]
    · cases hcreate : disk.create path with
      | error fault => simp [hempty, hcreate, Option.filter, Outcome.BreaksOff]
      | ok created =>
        refine .inl ⟨by simp [hempty, hcreate, Option.filter, Outcome.Delivers], ?_⟩
        rintro path' fault hpath
        have : path = path' := by simpa [hempty, Option.filter] using hpath
        simp [← this, hcreate]

/-- What a run comes to with the options and the template that it has read. -/
theorem compile_cases (hcompiles : Compiles disk arguments options template made events) :
    let outcome := compile disk arguments options template
    (∃ text, made = .ok text ∧ ¬Strays arguments made events ∧
        outcome.Delivers arguments.destination? text ∧
        ∀ path fault, arguments.destination? = some path → disk.create path ≠ .error fault) ∨
      (∃ text path fault, made = .ok text ∧ ¬Strays arguments made events ∧
        arguments.destination? = some path ∧ disk.create path = .error fault ∧
        outcome.BreaksOff (.output fault)) ∨
      (∃ d, made = .error (.refused d) ∧ ¬Strays arguments made events ∧ outcome.Tells) ∨
      (∃ failure, made = .error failure ∧ (∀ d, failure ≠ .refused d) ∧
        ¬Strays arguments made events ∧ outcome.BreaksOff (.failure failure)) ∨
      Strays arguments made events ∧ outcome.BreaksOff .noLoadPath := by
  obtain ⟨-, -, hmade, hevents⟩ := hcompiles
  rcases hresult : result options disk arguments.tree template with ⟨made', state⟩
  simp only [hresult] at hmade hevents
  subst made' events
  -- the log tells whether the missing directory was passed on the search
  have hstrays : Strays arguments made state.events.reverse ↔
      (if arguments.loadPaths.contains none then passing? made state.events.reverse
        else none).isSome := by
    unfold Strays
    rw [← passing?_isSome_iff]
    by_cases hback : none ∈ arguments.loadPaths <;> simp [hback]
  simp only [compile, hresult, hstrays]
  generalize (if arguments.loadPaths.contains none then passing? made state.events.reverse
    else none) = searched
  cases searched with
  | some searched => exact .inr (.inr (.inr (.inr ⟨rfl, rfl, rfl, rfl⟩)))
  | none =>
    cases made with
    | ok text =>
      rcases deliver_cases disk arguments _ text with
        ⟨hdelivers, hcreate⟩ | ⟨path, fault, hpath, hcreate, hbreaks⟩
      · exact .inl ⟨text, rfl, nofun, hdelivers, hcreate⟩
      · exact .inr (.inl ⟨text, path, fault, rfl, nofun, hpath, hcreate, hbreaks⟩)
    | error failure =>
      cases failure with
      | refused d =>
        exact .inr (.inr (.inl ⟨d, rfl, nofun, rfl, append_report_ne_empty _ d, rfl, rfl⟩))
      | _ => exact .inr (.inr (.inr (.inl ⟨_, rfl, nofun, nofun, rfl, rfl, rfl⟩)))

/-- A run whose template and options can be read is a compilation. -/
theorem run_of_compiles {texts : List String} (hparse : Arguments.parse texts = .ok arguments)
    (h : Compiles disk arguments options template made events) :
    run disk texts = compile disk arguments options template := by
  simp [run, hparse, h.options_eq, h.template_eq]

/-- A run with arguments that make sense gets as far as the compilation, or its options or its template
cannot be read. -/
theorem run_cases (disk : Disk) {texts : List String} (hparse : Arguments.parse texts = .ok arguments) :
    (∃ options template made events, Compiles disk arguments options template made events) ∨
      (run disk texts).Tells ∨
      ∃ fault, (run disk texts).BreaksOff fault ∧ Uncaught disk arguments fault := by
  cases hoptions : optionsOf disk arguments with
  | error fault =>
    -- options that are refused with a message are caught
    cases hmessage : fault.message? (arguments.config.getD "") with
    | some message =>
      refine .inr (.inl ?_)
      simp [run, hparse, hoptions, hmessage, Outcome.Tells, reportOf_ne_empty]
    | none =>
      refine .inr (.inr ⟨_, ?_, (optionsOf_untold_iff _).mp ⟨hoptions, hmessage⟩⟩)
      simp [run, hparse, hoptions, hmessage, Outcome.BreaksOff]
  | ok options =>
    cases htemplate : disk.readText arguments.input with
    | error fault =>
      refine .inr (.inl ?_)
      simp [run, hparse, hoptions, htemplate, Outcome.Tells, reportOf_ne_empty]
    | ok template => exact .inl ⟨options, template, _, _, hoptions, htemplate, rfl, rfl⟩

/-- A failure without a diagnostic comes from a run that is going on. -/
theorem Compiles.exists_escaping {failure : Failure}
    (h : Compiles disk arguments options template (.error failure) events)
    (hrefused : ∀ d, failure ≠ .refused d) (hlimit : failure ≠ .nestingLimit) :
    ∃ frames outer r names b,
      Run.Running ⟨nestingLimit, { options, disk }, template, {}⟩ frames outer r ∧
      r.Assembles names b ∧ b.Escapes failure := by
  have hassembled := (result_eq_error_iff hrefused).mp h.made_eq
  exact Run.exists_escaping ⟨nestingLimit, { options, disk }, template, {}⟩
    ⟨_, Prod.ext hassembled rfl⟩ hrefused hlimit

/-- Every fault that is not caught is what the run breaks off by. -/
theorem breaksOff_of_uncaught {texts : List String} {fault : RunFault}
    (hparse : Arguments.parse texts = .ok arguments) (h : Uncaught disk arguments fault) :
    (run disk texts).BreaksOff fault := by
  cases h with
  | options hpath htext huntold =>
    obtain ⟨hoptions, hmessage⟩ := (optionsOf_untold_iff (arguments.config.getD "")).mpr
      (.options hpath htext huntold)
    simp [run, hparse, hoptions, hmessage, Outcome.BreaksOff]
  | noLoadPath hcompiles hstrays =>
    rw [run_of_compiles hparse hcompiles]
    -- the other ways to end exclude this fault, each by what it says of the run
    rcases compile_cases hcompiles with ⟨_, -, hnot, -⟩ | ⟨_, _, _, -, hnot, -⟩ | ⟨_, -, hnot, -⟩ |
      ⟨_, -, -, hnot, -⟩ | ⟨-, hbreaks⟩
    · exact absurd hstrays hnot
    · exact absurd hstrays hnot
    · exact absurd hstrays hnot
    · exact absurd hstrays hnot
    · exact hbreaks
  | failure hcompiles hstrays hrunning hassembles hescapes =>
    rw [run_of_compiles hparse hcompiles]
    rcases compile_cases hcompiles with ⟨_, hmade, -⟩ | ⟨_, _, _, hmade, -⟩ | ⟨d, hmade, -⟩ |
      ⟨_, hmade, -, -, hbreaks⟩ | ⟨hstrays', -⟩
    · cases hmade
    · cases hmade
    · cases hmade
      exact absurd rfl (hescapes.ne_refused d)
    · cases hmade
      exact hbreaks
    · exact absurd hstrays' hstrays
  | output hcompiles hstrays hpath hcreate =>
    rw [run_of_compiles hparse hcompiles]
    rcases compile_cases hcompiles with ⟨_, -, -, -, hcreated⟩ |
      ⟨_, path, fault, -, -, hpath', hcreate', hbreaks⟩ | ⟨_, hmade, -⟩ | ⟨_, hmade, -⟩ |
      ⟨hstrays', -⟩
    · exact absurd hcreate (hcreated _ _ hpath)
    · rw [hpath] at hpath'
      cases hpath'
      rw [hcreate] at hcreate'
      cases hcreate'
      exact hbreaks
    · cases hmade
    · cases hmade
    · exact absurd hstrays' hstrays

/-- **How a run ends.** A run with arguments that make sense, whose compilation comes to an end, puts
the whole result where it belongs, or tells what is wrong, or breaks off by one of four faults. In the
last two cases nothing is written anywhere. -/
theorem run_ends {texts : List String} (hparse : Arguments.parse texts = .ok arguments)
    (hends : (run disk texts).ending ≠ .broken (.failure .nestingLimit)) :
    ((∃ options template text events,
        Compiles disk arguments options template (.ok text) events ∧
        (run disk texts).Delivers arguments.destination? text) ∨
      (run disk texts).Tells ∨
      ∃ fault, (run disk texts).BreaksOff fault ∧ Uncaught disk arguments fault) ∧
    ∀ fault, Uncaught disk arguments fault → (run disk texts).BreaksOff fault := by
  constructor
  · rcases run_cases disk hparse with
      ⟨options, template, made, events, hcompiles⟩ | htells | hbreaks
    · rw [run_of_compiles hparse hcompiles] at hends ⊢
      rcases compile_cases hcompiles with ⟨text, rfl, -, hdelivers, -⟩ |
        ⟨text, path, fault, rfl, hstrays, hpath, hcreate, hbreaks⟩ | ⟨d, -, -, htells⟩ |
        ⟨failure, rfl, hrefused, hstrays, hbreaks⟩ | ⟨hstrays, hbreaks⟩
      · exact .inl ⟨options, template, text, events, hcompiles, hdelivers⟩
      · exact .inr (.inr ⟨_, hbreaks, .output hcompiles hstrays hpath hcreate⟩)
      · exact .inr (.inl htells)
      · have hlimit : failure ≠ .nestingLimit := by
          rintro rfl
          exact hends hbreaks.1
        obtain ⟨frames, outer, r, names, b, hrunning, hassembles, hescapes⟩ :=
          hcompiles.exists_escaping hrefused hlimit
        exact .inr (.inr ⟨_, hbreaks, .failure hcompiles hstrays hrunning hassembles hescapes⟩)
      · exact .inr (.inr ⟨_, hbreaks, .noLoadPath hcompiles hstrays⟩)
    · exact .inr (.inl htells)
    · exact .inr (.inr hbreaks)
  · exact fun fault huncaught => breaksOff_of_uncaught hparse huncaught

/-- Options that are malformed, with the argument that names their file. -/
theorem run_ends_of_malformed_options :
    let disk := Disk.ofKnown [("c.yaml", .ok [91])]
    Arguments.parse ["a.sass", "--config", "c.yaml"] =
        .ok { input := "a.sass", config := some "c.yaml" } ∧
      (run disk ["a.sass", "--config", "c.yaml"]).BreaksOff (.options (.text .malformed)) ∧
      ∃ fault, (run disk ["a.sass", "--config", "c.yaml"]).BreaksOff fault ∧
        Uncaught disk { input := "a.sass", config := some "c.yaml" } fault := by
  intro disk
  have hparse : Arguments.parse ["a.sass", "--config", "c.yaml"] =
      .ok { input := "a.sass", config := some "c.yaml" } := by cbv
  have hrun : run disk ["a.sass", "--config", "c.yaml"] =
      { ending := .broken (.options (.text .malformed)) } := by
    dsimp only [disk]
    cbv
  have hends : (run disk ["a.sass", "--config", "c.yaml"]).ending ≠
      .broken (.failure .nestingLimit) := by
    rw [hrun]
    intro h
    cases h
  rcases (run_ends hparse hends).1 with ⟨_, _, _, _, -, h⟩ | h | h
  · rw [hrun] at h
    cases h.1
  · rw [hrun] at h
    cases h.1
  · exact ⟨hparse, by rw [hrun]; exact ⟨rfl, rfl, rfl⟩, h⟩

/-- Malformed options, an imported file that is no text, and an output in a folder that does not exist
are all faults that no message is told of. -/
theorem options_import_and_output_untold :
    let text : List UInt8 := [97, 10, 32, 58, 98, 32, 99]
    let importing : List UInt8 := [64, 105, 109, 112, 111, 114, 116, 32, 102]
    let disk := Disk.ofKnown [("a.sass", .ok text), ("b.sass", .ok importing),
      ("./_f.sass", .ok [255]), ("c.yaml", .ok [91])]
    let folderless : Disk := { disk with create := fun _ => .error .notFound }
    (run disk ["a.sass", "--config", "c.yaml"]).BreaksOff (.options (.text .malformed)) ∧
    (run disk ["b.sass"]).BreaksOff
      (.failure (.undecodable "./_f.sass" ⟨0, 1, 255, .start⟩)) ∧
    (run folderless ["a.sass", "-o", "no/b.css"]).BreaksOff (.output .notFound) := by
  intro text importing disk folderless
  have hoptions : run disk ["a.sass", "--config", "c.yaml"] =
      { ending := .broken (.options (.text .malformed)) } := by
    dsimp only [disk]
    cbv
  have himport : run disk ["b.sass"] =
      { ending := .broken (.failure (.undecodable "./_f.sass" ⟨0, 1, 255, .start⟩)) } := by
    dsimp only [disk, importing]
    cbv
  have houtput : run folderless ["a.sass", "-o", "no/b.css"] =
      { ending := .broken (.output .notFound) } := by
    dsimp only [folderless, disk, text]
    cbv
  rw [hoptions, himport, houtput]
  exact ⟨⟨rfl, rfl, rfl⟩, ⟨rfl, rfl, rfl⟩, rfl, rfl, rfl⟩

end CommandLine

end Stylesheet
