import Mathlib
import Stylesheet.Compilation
import Stylesheet.Proofs.Assembly.Lockstep

/-!
# Refusing a way of writing attributes

Options can refuse one of the two ways of writing attributes. All that comes of it is that the
assembly may end at an attribute of this way, in the template, in the body of a mixin or in an
imported file. If it does not, it comes to what it comes to without the restriction: the run with
the restriction and the run without it go through the same states.

* `Pairing.refusing` : equal states, and the one failure that is excused.
* `restriction_only_refuses` : the two runs.
-/

namespace Stylesheet

/-- The failure of an attribute that is written in a way that is refused, in any file. -/
def Failure.IsRefusalOf (way : AttributeSyntax) (failure : Failure) : Prop :=
  ∃ d, failure = .refused d ∧ d.fault = .refusedAttributeSyntax way

/-- A run that refuses a way of writing attributes beside a run that does not. -/
def Pairing.refusing (way : AttributeSyntax) : Pairing where
  states := Eq
  admits := fun _ => True
  excused := Failure.IsRefusalOf way
  constants_eq := fun h => congrArg State.constants h
  withConstants := fun h constants => by rw [h]
  withEvent := fun h event => by rw [h]
  withMixin := fun h name body _ => by rw [h]
  included := fun h line _ _ => ⟨by rw [h], fun _ _ _ _ => trivial⟩
  restored := fun hs ht => by rw [hs, ht]
  excused_through := by
    rintro _ filename line ⟨d, hd, hfault⟩
    cases hd
    exact ⟨_, rfl, hfault⟩

/-- Options that refuse a way and options that refuse none; nothing else may differ. -/
theorem contexts_refusing (mode : AttributeSyntax) (options : Options) (disk : Disk) :
    (Pairing.refusing mode.other).Contexts
      { options := { options with attributeSyntax := some mode }, disk }
      { options := { options with attributeSyntax := none }, disk } where
  disk := rfl
  loadPaths := rfl
  filename := rfl
  including := rfl
  attributes := by
    intro way
    -- the ways are two, so each is either the one that is written for or the one that is refused
    by_cases hmode : mode = way.other
    · refine .inr ⟨congrArg some hmode, fun line => ⟨_, rfl, ?_⟩⟩
      rw [hmode]
      cases way <;> rfl
    · refine .inl (iff_of_false (fun hsome => hmode (Option.some.inj hsome)) ?_)
      intro hnone
      cases hnone
  files := fun _ _ _ _ _ _ _ _ _ => trivial

/-- **A restriction only refuses.** The run over a template in which one way of writing attributes is
refused ends at an attribute that is written in the other way, or it is the run without the
restriction: the same tree or the same failure, and the same state. So what compiles with the
restriction compiles to the same without it. -/
theorem restriction_only_refuses (mode : AttributeSyntax) (options : Options) (disk : Disk)
    (template : String) (state : State) (limit : Nat) :
    let restricted : Options := { options with attributeSyntax := some mode }
    let free : Options := { options with attributeSyntax := none }
    ((∃ d, (assembleTemplate restricted disk template state limit).1 = .error (.refused d) ∧
        d.fault = .refusedAttributeSyntax mode.other ∧
        d.message = "Illegal attribute syntax: can't use " ++ mode.other.name ++
          " syntax when attribute_syntax is " ++ mode.name ++ ".") ∨
      assembleTemplate restricted disk template state limit =
        assembleTemplate free disk template state limit) ∧
    ∀ css after, compileTemplate restricted disk template state = (.ok css, after) →
      compileTemplate free disk template state = (.ok css, after) := by
  intro restricted free
  have hruns : ∀ limit,
      (∃ d, (assembleTemplate restricted disk template state limit).1 = .error (.refused d) ∧
        d.fault = .refusedAttributeSyntax mode.other) ∨
      assembleTemplate restricted disk template state limit =
        assembleTemplate free disk template state limit := by
    intro limit
    have hfollows := Pairing.document_follows (Pairing.assemble_carries limit)
      (contexts_refusing mode options disk)
      (fun (lines : List Line) (_ : parseLines template.toList = .ok lines) _ _ => trivial)
      state state rfl
    -- two runs that go along with each other end alike, or one is excused by its refusal
    change (Pairing.refusing mode.other).Agree (assembleTemplate restricted disk template state limit)
      (assembleTemplate free disk template state limit) at hfollows
    generalize assembleTemplate restricted disk template state limit = result at hfollows ⊢
    generalize assembleTemplate free disk template state limit = result' at hfollows ⊢
    cases hfollows with
    | same result ht =>
        obtain rfl := ht
        exact .inr rfl
    | excused hexcused =>
        obtain ⟨d, rfl, hfault⟩ := hexcused
        exact .inl ⟨d, rfl, hfault⟩
  refine ⟨?_, ?_⟩
  · refine (hruns limit).imp_left ?_
    rintro ⟨d, hd, hfault⟩
    refine ⟨d, hd, hfault, ?_⟩
    rw [Diagnostic.message, hfault]
    cases mode <;> rfl
  · intro css after hcompiles
    rcases hruns nestingLimit with ⟨d, hd, -⟩ | hsame
    · -- what compiles was not refused
      unfold compileTemplate at hcompiles
      split at hcompiles
      · next hassembled =>
          rw [hassembled] at hd
          cases hd
      · cases hcompiles
    · rw [← hcompiles]
      unfold compileTemplate
      rw [← hsame]
      rfl

/-- The attribute of the mixin is written in the one way; the other run refuses it. -/
theorem restriction_only_refuses_of_mixin :
    let template := "=m\n  :p q\na\n  +m"
    let css := "a \x7b\n  p: q; \x7d\n"
    let after : State := { mixins := ⟨[("m", [⟨":p q", 1, 2, []⟩])]⟩ }
    let normal : Options := { attributeSyntax := some .normal }
    let alternate : Options := { attributeSyntax := some .alternate }
    compileTemplate normal (Disk.ofKnown []) template {} = (.ok css, after) ∧
      compileTemplate {} (Disk.ofKnown []) template {} = (.ok css, after) ∧
      ∃ d, (assembleTemplate alternate (Disk.ofKnown []) template {} 3).1 = .error (.refused d) ∧
        d.message =
          "Illegal attribute syntax: can't use normal syntax when attribute_syntax is alternate." := by
  intro template css after normal alternate
  let tree : Node := ⟨.root, none, none,
    [⟨.rule ⟨["a"], false⟩, some 3, none, [⟨.attr "p" "q", some 2, none, []⟩]⟩]⟩
  have htree : assembleTemplate normal (Disk.ofKnown []) template {} = (.ok tree, after) := by
    dsimp only [template, tree, normal, after]
    cbv
  have hrender : tree.render .nested = .ok css := by decide +kernel
  have hnormal : compileTemplate normal (Disk.ofKnown []) template {} = (.ok css, after) := by
    rw [compileTemplate, htree]
    dsimp only
    rw [renderAssembled]
    dsimp only [normal]
    rw [hrender]
  have hfails : (assembleTemplate alternate (Disk.ofKnown []) template {} 3).1.isOk = false := by
    dsimp only [alternate, template]
    cbv
  have hfree : (assembleTemplate {} (Disk.ofKnown []) template {} 3).1.isOk = true := by
    dsimp only [template]
    cbv
  obtain ⟨-, hlift⟩ := restriction_only_refuses .normal {} (Disk.ofKnown []) template {} 3
  obtain ⟨⟨d, hd, -, hmessage⟩ | hsame, -⟩ :=
    restriction_only_refuses .alternate {} (Disk.ofKnown []) template {} 3
  · exact ⟨hnormal, hlift css after hnormal, d, hd, hmessage⟩
  · -- then this run would come to the tree of the run without the restriction
    rw [hsame, hfree] at hfails
    cases hfails

end Stylesheet
