import Mathlib
import Stylesheet.Expr.Parser
import Stylesheet.Proofs.Assembly.Outcome
import Stylesheet.Proofs.Results

/-!
# The grammar of expressions

The parser reads an expression by functions that call each other on shorter and shorter rests of
its tokens. Beside it stands the grammar: which tokens are an expression, and which one.

* `derives_of_chain` : soundness. What was read is derived from the tokens that are gone.
* `reads_of_derives` : completeness. Derived tokens are read whole, whatever comes after them, as
  long as it does not continue a part inside them.
* `parse_iff_derives` : a text is read if and only if its tokens are derived, as the one expression
  that they are; any other text is refused at the line that it stands in.

Soundness is by the parser's own induction principle, completeness by induction on the derivation.
That tokens are one expression at most follows from the two.
-/

namespace Stylesheet

/-! ## The grammar -/

/-- The expression that a token is by itself. -/
inductive Token.Denotes : Token → Expr → Prop
  | quoted (q : Char) (body : List Char) :
      Denotes (.quoted q body) (.literal (.text (String.ofList body)))
  | color {digits : List Char} {color : Color} :
      Color.ofHexDigits? digits = some color → Denotes (.color digits) (.literal (.color color))
  | number (whole : List Char) (fraction unit : Option (List Char)) :
      Denotes (.number whole fraction unit)
        (.literal (.number (Number.ofDigits false whole (fraction.getD []))
          (unit.map String.ofList)))
  | constant (name : List Char) : Denotes (.constant name) (.constant (String.ofList name))
  | call (w argument : List Char) :
      Denotes (.call w argument) (.literal (.text (Token.call w argument).text))
  | word (w : List Char) : Denotes (.word w) (.literal (.text (String.ofList w)))

/-- Whether a token can start an operand that no operator stands before: a token that is an operand
by itself, or an opening parenthesis. -/
def Token.OpensOperand (t : Token) : Prop :=
  t = .mark .opening ∨ ∀ m, t ≠ .mark m

/-- The parts of expressions, the loosest first. -/
inductive Part where
  | list
  | words
  | sum
  | product
  | factor
  deriving DecidableEq, Repr

/-- The tokens are a part that is the expression. Chains of operands group to the left: the right
operand is always a tighter part. -/
inductive Derives : Part → List Token → Expr → Prop
  | list {ts : List Token} {e : Expr} : Derives .words ts e → Derives .list ts e
  | comma {xs ys : List Token} {a b : Expr} : Derives .list xs a → Derives .words ys b →
      Derives .list (xs ++ .mark .comma :: ys) (.binary .comma a b)
  | words {ts : List Token} {e : Expr} : Derives .sum ts e → Derives .words ts e
  | space {xs ys : List Token} {a b : Expr} : Derives .words xs a → Derives .sum ys b →
      (∀ t ∈ ys.head?, t.OpensOperand) → Derives .words (xs ++ ys) (.binary .space a b)
  | sum {ts : List Token} {e : Expr} : Derives .product ts e → Derives .sum ts e
  | plus {xs ys : List Token} {a b : Expr} : Derives .sum xs a → Derives .product ys b →
      Derives .sum (xs ++ .mark .plus :: ys) (.binary .plus a b)
  | minus {xs ys : List Token} {a b : Expr} : Derives .sum xs a → Derives .product ys b →
      Derives .sum (xs ++ .mark .minus :: ys) (.binary .minus a b)
  | product {ts : List Token} {e : Expr} : Derives .factor ts e → Derives .product ts e
  | times {xs ys : List Token} {a b : Expr} : Derives .product xs a → Derives .factor ys b →
      Derives .product (xs ++ .mark .times :: ys) (.binary .times a b)
  | divide {xs ys : List Token} {a b : Expr} : Derives .product xs a → Derives .factor ys b →
      Derives .product (xs ++ .mark .divide :: ys) (.binary .divide a b)
  | modulo {xs ys : List Token} {a b : Expr} : Derives .product xs a → Derives .factor ys b →
      Derives .product (xs ++ .mark .modulo :: ys) (.binary .modulo a b)
  | negate {ts : List Token} {e : Expr} : Derives .factor ts e →
      Derives .factor (.mark .minus :: ts) (.negate e)
  | single {t : Token} {e : Expr} : t.Denotes e → Derives .factor [t] e
  | parentheses {ts : List Token} {e : Expr} : Derives .list ts e →
      Derives .factor (.mark .opening :: ts ++ [.mark .closing]) e

def Level.part : Level → Part
  | list => .list
  | words => .words
  | sum => .sum
  | product => .product

def Level.operandPart : Level → Part
  | list => .words
  | words => .sum
  | sum => .product
  | product => .factor

theorem Level.operandPart_of_tighter {level next : Level} (h : level.tighter? = some next) :
    level.operandPart = next.part := by
  cases level <;> cases h <;> rfl

theorem Level.operandPart_of_tightest {level : Level} (h : level.tighter? = none) :
    level.operandPart = .factor := by
  cases level with
  | product => rfl
  | _ => cases h

/-! ## Tokens that are operands -/

/-- A token is read as the factor it denotes. -/
theorem Token.factor?_eq_some_iff {t : Token} {e : Expr} : t.factor? = some e ↔ t.Denotes e := by
  constructor
  · intro h
    cases t with
    | quoted q body =>
        cases h
        exact .quoted q body
    | color digits =>
        obtain ⟨c, hc, rfl⟩ := Option.map_eq_some_iff.mp h
        exact .color hc
    | number whole fraction unit =>
        cases h
        exact .number whole fraction unit
    | constant name =>
        cases h
        exact .constant name
    | call w argument =>
        cases h
        exact .call w argument
    | word w =>
        cases h
        exact .word w
    | mark m => cases h
  · intro h
    cases h with
    | color hc => simp [factor?, hc]
    | _ => rfl

theorem Token.startsOperand_iff {t : Token} : t.startsOperand = true ↔ t.OpensOperand := by
  cases t <;> simp [startsOperand, OpensOperand]

theorem Derives.ne_nil {part : Part} {ts : List Token} {e : Expr} (h : Derives part ts e) :
    ts ≠ [] := by
  induction h <;> simp_all

/-- What comes after a part is shorter than the part and what comes after it. -/
theorem Derives.length_lt_append {part : Part} {ts : List Token} {e : Expr} (h : Derives part ts e)
    (rest : List Token) : rest.length < (ts ++ rest).length := by
  have hpositive := List.length_pos_iff.mpr h.ne_nil
  rw [List.length_append]
  omega

/-! ## The functions of the parser -/

namespace Expr

/-- `chain` without the bound on the rest. -/
def chainOf (level : Level) (ts : List Token) : Except Fault (Expr × List Token) :=
  (chain level ts).map fun (e, rest) => (e, rest.1)

def operandOf (level : Level) (ts : List Token) : Except Fault (Expr × List Token) :=
  (operand level ts).map fun (e, rest) => (e, rest.1)

def continuedOf (level : Level) (left : Expr) (ts : List Token) :
    Except Fault (Expr × List Token) :=
  (continued level left ts).map fun (e, rest) => (e, rest.1)

def factorOf (ts : List Token) : Except Fault (Expr × List Token) :=
  (factor ts).map fun (e, rest) => (e, rest.1)

/-- A chain is its first operand, continued. -/
theorem chainOf_eq (level : Level) (ts : List Token) :
    chainOf level ts =
      (operandOf level ts).bind fun (left, rest) => continuedOf level left rest := by
  unfold chainOf operandOf
  rw [chain]
  rcases operand level ts with fault | ⟨left, rest, h⟩
  · rfl
  · show Except.map _ (continued level left rest >>= _) = continuedOf level left rest
    unfold continuedOf
    rcases continued level left rest with fault | ⟨e, rest', h'⟩ <;> rfl

/-- The operands of a level are the chains of the next tighter one. -/
theorem operandOf_of_tighter {level next : Level} (h : level.tighter? = some next)
    (ts : List Token) : operandOf level ts = chainOf next ts := by
  unfold operandOf chainOf
  rw [operand]
  split
  · next hnext =>
      rw [h] at hnext
      cases hnext
      rfl
  · next hnone =>
      rw [h] at hnone
      cases hnone

/-- The operands of the tightest level are factors. -/
theorem operandOf_of_tightest {level : Level} (h : level.tighter? = none) (ts : List Token) :
    operandOf level ts = factorOf ts := by
  unfold operandOf factorOf
  rw [operand]
  split
  · next hnext =>
      rw [h] at hnext
      cases hnext
  · rfl

/-- A chain ends where no operator of its level stands. -/
theorem continuedOf_of_none {level : Level} {ts : List Token} (h : level.operator? ts = none)
    (left : Expr) : continuedOf level left ts = .ok (left, ts) := by
  unfold continuedOf
  rw [continued]
  split
  · rfl
  · next hsome =>
      rw [h] at hsome
      cases hsome

/-- After an operator another operand is read, and the chain goes on with both joined. -/
theorem continuedOf_of_some {level : Level} {ts after : List Token} {op : Operator}
    (h : level.operator? ts = some (op, after)) (left : Expr) :
    continuedOf level left ts = (operandOf level after).bind fun (right, rest) =>
      continuedOf level (.binary op left right) rest := by
  unfold continuedOf operandOf
  rw [continued]
  split
  · next hnone =>
      rw [h] at hnone
      cases hnone
  · next op' after' hsome =>
      rw [h] at hsome
      cases hsome
      rcases operand level after with fault | ⟨right, rest, hrest⟩
      · rfl
      · show Except.map _ (continued level (.binary op left right) rest >>= _) = _
        show _ = continuedOf level (.binary op left right) rest
        unfold continuedOf
        rcases continued level (.binary op left right) rest with fault | ⟨e, rest', h'⟩ <;> rfl

theorem factorOf_nil : factorOf [] = .error .endOfExpression := by
  unfold factorOf
  rw [factor]
  rfl

/-- A sign negates the factor after it. -/
theorem factorOf_minus_eq_ok_iff {ts rest : List Token} {e : Expr} :
    factorOf (.mark .minus :: ts) = .ok (e, rest) ↔
      ∃ a, factorOf ts = .ok (a, rest) ∧ e = .negate a := by
  unfold factorOf
  rw [factor]
  rcases factor ts with fault | ⟨a, left, h⟩
  · simp [Except.map, bind, Except.bind]
  · constructor
    · rintro ⟨⟩
      exact ⟨a, rfl, rfl⟩
    · rintro ⟨_, ⟨⟩, rfl⟩
      rfl

/-- A chain of the loosest level with a closing parenthesis after it. -/
theorem factorOf_opening_eq_ok_iff {ts rest : List Token} {e : Expr} :
    factorOf (.mark .opening :: ts) = .ok (e, rest) ↔
      chainOf .list ts = .ok (e, .mark .closing :: rest) := by
  unfold factorOf chainOf
  rw [factor.eq_3]
  rcases chain .list ts with fault | ⟨a, left, h⟩
  · simp [Except.map, bind, Except.bind]
  · simp only [Except.map, bind, Except.bind, Except.ok.injEq, Prod.mk.injEq]
    split
    · next hclosing =>
        split at hclosing
        · cases hclosing
        · next hne =>
            simp only [reduceCtorEq, false_iff, not_and]
            rintro rfl rfl
            exact hne _ h rfl HEq.rfl
    · next hclosing =>
        split at hclosing
        · cases hclosing
          simp
        · cases hclosing

/-- Any other factor is one token. -/
theorem factorOf_cons {t : Token} (hminus : t ≠ .mark .minus) (hopening : t ≠ .mark .opening)
    (rest : List Token) : factorOf (t :: rest) = match t.factor? with
      | some e => .ok (e, rest)
      | none => .error (.operandExpected t.text) := by
  unfold factorOf
  rw [factor.eq_4 t rest hminus hopening]
  rcases t.factor? with _ | e <;> rfl

/-! ## Soundness -/

theorem derives_operand (level : Level) {ts : List Token} {e : Expr}
    (h : Derives level.operandPart ts e) : Derives level.part ts e := by
  cases level with
  | list => exact .list h
  | words => exact .words h
  | sum => exact .sum h
  | product => exact .product h

/-- An operator continues a chain with the operand that is read after it. -/
theorem derives_binary {level : Level} {ts xs ys rest : List Token} {op : Operator} {a b : Expr}
    (hop : level.operator? ts = some (op, ys ++ rest)) (ha : Derives level.part xs a)
    (hb : Derives level.operandPart ys b) :
    ∃ zs, ts = zs ++ rest ∧ Derives level.part (xs ++ zs) (.binary op a b) := by
  unfold Level.operator? at hop
  split at hop
  · cases hop
    exact ⟨_, (List.cons_append ..).symm, .comma ha hb⟩
  · next t after =>
      split at hop
      · next hstart =>
          obtain ⟨rfl, heq⟩ := Prod.mk.inj (Option.some.inj hop)
          refine ⟨ys, heq, .space ha hb ?_⟩
          -- the operand is not empty, so it starts with the token that was looked at
          obtain ⟨first, ys, rfl⟩ := List.exists_cons_of_ne_nil hb.ne_nil
          obtain ⟨rfl, -⟩ := List.cons.inj heq
          intro t ht
          cases ht
          exact Token.startsOperand_iff.mp hstart
      · cases hop
  · cases hop
    exact ⟨_, (List.cons_append ..).symm, .plus ha hb⟩
  · cases hop
    exact ⟨_, (List.cons_append ..).symm, .minus ha hb⟩
  · cases hop
    exact ⟨_, (List.cons_append ..).symm, .times ha hb⟩
  · cases hop
    exact ⟨_, (List.cons_append ..).symm, .divide ha hb⟩
  · cases hop
    exact ⟨_, (List.cons_append ..).symm, .modulo ha hb⟩
  · cases hop

/-- What a chain is read from is derived. The induction is on the calls of the parser; a chain that
goes on carries along what was read of it before. -/
theorem derives_of_chain (level : Level) (ts : List Token) :
    ∀ e rest, chainOf level ts = .ok (e, rest) →
      ∃ ys, ts = ys ++ rest ∧ Derives level.part ys e := by
  -- one motive for each function; only a chain that goes on has read something already
  refine chain.induct
    (fun level ts => ∀ e rest, chainOf level ts = .ok (e, rest) →
      ∃ ys, ts = ys ++ rest ∧ Derives level.part ys e)
    (fun level left ts => ∀ xs, Derives level.part xs left →
      ∀ e rest, continuedOf level left ts = .ok (e, rest) →
        ∃ ys, ts = ys ++ rest ∧ Derives level.part (xs ++ ys) e)
    (fun level ts => ∀ e rest, operandOf level ts = .ok (e, rest) →
      ∃ ys, ts = ys ++ rest ∧ Derives level.operandPart ys e)
    (fun ts => ∀ e rest, factorOf ts = .ok (e, rest) →
      ∃ ys, ts = ys ++ rest ∧ Derives .factor ys e)
    ?chain ?stop ?goOn ?tighter ?tightest ?nil ?minus ?opening ?single ?none level ts
  case chain =>
    intro level ts ihoperand ihcontinued e rest h
    rw [chainOf_eq] at h
    obtain ⟨⟨left, middle⟩, hleft, hcontinued⟩ := bind_eq_ok_iff.mp h
    obtain ⟨xs, rfl, hxs⟩ := ihoperand left middle hleft
    obtain ⟨ys, rfl, hys⟩ := ihcontinued left middle (hxs.length_lt_append middle) xs
      (derives_operand level hxs) e rest hcontinued
    exact ⟨xs ++ ys, (List.append_assoc ..).symm, hys⟩
  case stop =>
    intro level left ts hop xs hxs e rest h
    rw [continuedOf_of_none hop] at h
    cases h
    exact ⟨[], rfl, by rwa [List.append_nil]⟩
  case goOn =>
    intro level left ts op after hop _ ihoperand ihcontinued xs hxs e rest h
    rw [continuedOf_of_some hop] at h
    obtain ⟨⟨right, middle⟩, hright, hcontinued⟩ := bind_eq_ok_iff.mp h
    obtain ⟨ys, rfl, hys⟩ := ihoperand right middle hright
    have hlength := hys.length_lt_append middle
    -- what was read so far and the operand become the left operand of what follows
    obtain ⟨zs, rfl, hzs⟩ := derives_binary hop hxs hys
    obtain ⟨more, rfl, hmore⟩ := ihcontinued right middle hlength (xs ++ zs) hzs e rest hcontinued
    exact ⟨zs ++ more, (List.append_assoc ..).symm, by rwa [← List.append_assoc]⟩
  case tighter =>
    intro level ts next hnext ih e rest h
    rw [operandOf_of_tighter hnext] at h
    rw [Level.operandPart_of_tighter hnext]
    exact ih e rest h
  case tightest =>
    intro level ts hnone ih e rest h
    rw [operandOf_of_tightest hnone] at h
    rw [Level.operandPart_of_tightest hnone]
    exact ih e rest h
  case nil =>
    intro e rest h
    rw [factorOf_nil] at h
    cases h
  case minus =>
    intro ts ih e rest h
    obtain ⟨a, ha, rfl⟩ := factorOf_minus_eq_ok_iff.mp h
    obtain ⟨ys, rfl, hys⟩ := ih a rest ha
    exact ⟨_, (List.cons_append ..).symm, .negate hys⟩
  case opening =>
    intro ts ih e rest h
    obtain ⟨ys, rfl, hys⟩ := ih e _ (factorOf_opening_eq_ok_iff.mp h)
    exact ⟨.mark .opening :: ys ++ [.mark .closing], by simp, .parentheses hys⟩
  case single =>
    intro t ts hminus hopening a ha e rest h
    rw [factorOf_cons hminus hopening, ha] at h
    cases h
    exact ⟨[t], rfl, .single (Token.factor?_eq_some_iff.mp ha)⟩
  case none =>
    intro t ts hminus hopening hnone e rest h
    rw [factorOf_cons hminus hopening, hnone] at h
    cases h

/-! ## Completeness -/

/-- Nothing at the start of some tokens continues a chain of a tighter level. -/
def Stops (level : Level) (rest : List Token) : Prop :=
  ∀ tighter : Level, tighter.rank < level.rank → tighter.operator? rest = none

/-- The tokens are read as the start of a chain of a level, before anything that does not continue
an operand of it. -/
def ReadsChain (level : Level) (ts : List Token) (e : Expr) : Prop :=
  ∀ rest, Stops level rest → chainOf level (ts ++ rest) = continuedOf level e rest

/-- The tokens are read as a part of an expression. -/
def Reads : Part → List Token → Expr → Prop
  | .list, ts, e => ReadsChain .list ts e
  | .words, ts, e => ReadsChain .words ts e
  | .sum, ts, e => ReadsChain .sum ts e
  | .product, ts, e => ReadsChain .product ts e
  | .factor, ts, e => ∀ rest, factorOf (ts ++ rest) = .ok (e, rest)

/-- An operand is read before anything that does not continue a tighter chain. -/
theorem operandOf_of_reads {level : Level} {ts : List Token} {e : Expr}
    (h : Reads level.operandPart ts e) {rest : List Token} (hrest : Stops level rest) :
    operandOf level (ts ++ rest) = .ok (e, rest) := by
  have htighter : ∀ next : Level, level.tighter? = some next → ReadsChain next ts e →
      operandOf level (ts ++ rest) = .ok (e, rest) := by
    intro next hnext hreads
    have hrank := Level.rank_of_tighter? hnext
    have hstops : Stops next rest := fun tighter hlt => hrest tighter (by omega)
    rw [operandOf_of_tighter hnext, hreads rest hstops,
      continuedOf_of_none (hrest next (by omega))]
  cases level with
  | list => exact htighter .words rfl h
  | words => exact htighter .sum rfl h
  | sum => exact htighter .product rfl h
  | product =>
      rw [operandOf_of_tightest rfl]
      exact h rest

theorem readsChain_operand (level : Level) {ts : List Token} {e : Expr}
    (h : Reads level.operandPart ts e) : ReadsChain level ts e := by
  intro rest hrest
  rw [chainOf_eq, operandOf_of_reads h hrest]
  rfl

/-- A chain is read on over an operator that ends all tighter chains. -/
theorem readsChain_binary {level : Level} {op : Operator} {xs ys : List Token} {a b : Expr}
    (sign : List Token) (ha : ReadsChain level xs a) (hb : Reads level.operandPart ys b)
    (hop : ∀ rest, level.operator? (sign ++ (ys ++ rest)) = some (op, ys ++ rest))
    (hstops : ∀ rest, Stops level (sign ++ (ys ++ rest))) :
    ReadsChain level (xs ++ (sign ++ ys)) (.binary op a b) := by
  intro rest hrest
  rw [List.append_assoc, List.append_assoc, ha _ (hstops rest), continuedOf_of_some (hop rest),
    operandOf_of_reads hb hrest]
  rfl

/-! ### What ends a chain -/

theorem stops_comma (rest : List Token) : Stops .list (.mark .comma :: rest) := by
  intro tighter hlt
  cases tighter with
  | list => exact absurd hlt (by decide)
  | _ => rfl

/-- What starts an operand continues no sum and no product: it could only do so as a sign. -/
theorem stops_of_opensOperand {t : Token} (h : t.OpensOperand) (rest : List Token) :
    Stops .words (t :: rest) := by
  have hnone : Level.sum.operator? (t :: rest) = none ∧
      Level.product.operator? (t :: rest) = none := by
    rcases h with rfl | hne
    · exact ⟨rfl, rfl⟩
    · cases t with
      | mark m => exact absurd rfl (hne m)
      | _ => exact ⟨rfl, rfl⟩
  intro tighter hlt
  cases tighter with
  | sum => exact hnone.1
  | product => exact hnone.2
  | _ => exact absurd hlt (by decide)

theorem stops_sign {m : Mark} (hm : m = .plus ∨ m = .minus) (rest : List Token) :
    Stops .sum (.mark m :: rest) := by
  intro tighter hlt
  cases tighter with
  | product => rcases hm with rfl | rfl <;> rfl
  | _ => exact absurd hlt (by decide)

theorem stops_product (rest : List Token) : Stops .product rest :=
  fun _ hlt => absurd hlt (Nat.not_lt_zero _)

theorem operator?_closing (level : Level) (rest : List Token) :
    level.operator? (.mark .closing :: rest) = none := by
  cases level <;> rfl

theorem operator?_nil (level : Level) : level.operator? [] = none := by
  cases level <;> rfl

/-! ### Derivations -/

/-- Derived tokens are read as the part that they are. -/
theorem reads_of_derives {part : Part} {ts : List Token} {e : Expr} (h : Derives part ts e) :
    Reads part ts e := by
  induction h with
  | list _ ih => exact readsChain_operand .list ih
  | words _ ih => exact readsChain_operand .words ih
  | sum _ ih => exact readsChain_operand .sum ih
  | product _ ih => exact readsChain_operand .product ih
  | comma _ _ iha ihb =>
      exact readsChain_binary [.mark .comma] iha ihb (fun _ => rfl) fun _ => stops_comma _
  | @space xs ys a b _ hb hstart iha ihb =>
      -- no token stands for the operator: the operand itself ends the tighter chains
      obtain ⟨t, ys, rfl⟩ := List.exists_cons_of_ne_nil hb.ne_nil
      have ht := hstart t rfl
      refine readsChain_binary [] iha ihb (fun rest => ?_) fun _ => stops_of_opensOperand ht _
      exact if_pos (Token.startsOperand_iff.mpr ht)
  | plus _ _ iha ihb =>
      exact readsChain_binary [.mark .plus] iha ihb (fun _ => rfl)
        fun _ => stops_sign (.inl rfl) _
  | minus _ _ iha ihb =>
      exact readsChain_binary [.mark .minus] iha ihb (fun _ => rfl)
        fun _ => stops_sign (.inr rfl) _
  | times _ _ iha ihb =>
      exact readsChain_binary [.mark .times] iha ihb (fun _ => rfl)
        fun _ => stops_product _
  | divide _ _ iha ihb =>
      exact readsChain_binary [.mark .divide] iha ihb (fun _ => rfl)
        fun _ => stops_product _
  | modulo _ _ iha ihb =>
      exact readsChain_binary [.mark .modulo] iha ihb (fun _ => rfl)
        fun _ => stops_product _
  | negate _ ih =>
      intro rest
      exact factorOf_minus_eq_ok_iff.mpr ⟨_, ih rest, rfl⟩
  | @single t e ht =>
      intro rest
      have hfactor := Token.factor?_eq_some_iff.mpr ht
      have hmark : ∀ m, t ≠ .mark m := by
        rintro m rfl
        cases ht
      rw [List.singleton_append, factorOf_cons (hmark _) (hmark _), hfactor]
  | @parentheses ts e _ ih =>
      intro rest
      have hchain := ih (.mark .closing :: rest) fun tighter _ => operator?_closing tighter rest
      rw [continuedOf_of_none (operator?_closing .list rest)] at hchain
      rw [List.append_assoc, List.cons_append]
      exact factorOf_opening_eq_ok_iff.mpr hchain

/-! ## Whole expressions -/

/-- The parser finds exactly the expressions that the grammar derives. -/
theorem ofTokens_eq_ok_iff {expression : String} {ts : List Token} {e : Expr} :
    ofTokens expression ts = .ok e ↔ Derives .list ts e := by
  cases ts with
  | nil =>
      constructor
      · intro h
        cases h
      · intro h
        exact absurd rfl h.ne_nil
  | cons t ts =>
      -- an expression is a chain that leaves nothing over
      have hchain : ofTokens expression (t :: ts) = .ok e ↔
          chainOf .list (t :: ts) = .ok (e, []) := by
        simp only [ofTokens, List.isEmpty_cons, Bool.false_eq_true, if_false, chainOf]
        rcases chain .list (t :: ts) with fault | ⟨a, _ | ⟨t', rest⟩, hrest⟩
        · simp [bind, Except.bind, Except.map]
        · simp [bind, Except.bind, Except.map, pure, Except.pure]
        · simp [bind, Except.bind, Except.map, throw, throwThe, MonadExceptOf.throw]
      rw [hchain]
      constructor
      · intro h
        obtain ⟨ys, heq, hys⟩ := derives_of_chain .list (t :: ts) e [] h
        rw [heq, List.append_nil]
        exact hys
      · intro h
        have hread := reads_of_derives h [] fun tighter _ => operator?_nil tighter
        rwa [List.append_nil, continuedOf_of_none (operator?_nil .list)] at hread

end Expr

/-! ## Tokens of a text -/

namespace Token

/-- Three or six hexadecimal digits write a color. -/
theorem exists_ofHexDigits? {digits : List Char} (hhex : ∀ c ∈ digits, Text.isHexDigit c = true)
    (hlength : digits.length = 3 ∨ digits.length = 6) :
    ∃ color, Color.ofHexDigits? digits = some color := by
  have hvalue : ∀ c ∈ digits, ∃ n, Text.hexValue? c = some n := fun c hc =>
    Option.isSome_iff_exists.mp (hhex c hc)
  rcases hlength with hthree | hsix
  · match digits, hthree with
    | [r, g, b], _ =>
        obtain ⟨red, hr⟩ := hvalue r (by simp)
        obtain ⟨green, hg⟩ := hvalue g (by simp)
        obtain ⟨blue, hb⟩ := hvalue b (by simp)
        exact ⟨⟨17 * red, 17 * green, 17 * blue⟩, by simp [Color.ofHexDigits?, hr, hg, hb]⟩
  · match digits, hsix with
    | [r, r', g, g', b, b'], _ =>
        obtain ⟨red, hr⟩ := hvalue r (by simp)
        obtain ⟨red', hr'⟩ := hvalue r' (by simp)
        obtain ⟨green, hg⟩ := hvalue g (by simp)
        obtain ⟨green', hg'⟩ := hvalue g' (by simp)
        obtain ⟨blue, hb⟩ := hvalue b (by simp)
        obtain ⟨blue', hb'⟩ := hvalue b' (by simp)
        exact ⟨⟨16 * red + red', 16 * green + green', 16 * blue + blue'⟩,
          by simp [Color.ofHexDigits?, hr, hr', hg, hg', hb, hb']⟩

theorem denotes_of_scan {cs rest : List Char} {t : Token} (h : scan? cs = some (t, rest)) :
    (∃ m, t = .mark m) ∨ ∃ e, t.Denotes e := by
  simp only [scan?, Option.orElse_eq_orElse, Option.orElse_eq_or, Option.or_eq_some_iff] at h
  rcases h with h | ⟨-, h | ⟨-, h | ⟨-, h | ⟨-, h | ⟨-, h⟩⟩⟩⟩⟩
  · -- a quoted text
    unfold scanQuoted? at h
    split at h
    · split at h
      · split at h
        · cases h
          exact .inr ⟨_, .quoted _ _⟩
        · cases h
      · cases h
    · cases h
  · -- a color, of which the digits were counted
    unfold scanColor? at h
    split at h
    · next cs =>
      simp only at h
      split at h
      · next hdigits =>
        cases h
        rw [Bool.and_eq_true, Bool.or_eq_true, beq_iff_eq, beq_iff_eq, List.all_eq_true] at hdigits
        obtain ⟨color, hcolor⟩ := exists_ofHexDigits? hdigits.1 hdigits.2
        exact .inr ⟨_, .color hcolor⟩
      · cases h
    · cases h
  · -- a number
    obtain ⟨⟨whole, fraction, after⟩, -, h⟩ := Option.map_eq_some_iff.mp h
    cases h
    exact .inr ⟨_, .number _ _ _⟩
  · -- a constant
    unfold scanConstant? at h
    split at h
    · simp only at h
      split at h
      · cases h
      · cases h
        exact .inr ⟨_, .constant _⟩
    · cases h
  · -- a word or a call
    unfold scanWord? at h
    split at h
    · cases h
    · split at h
      · cases h
        exact .inr ⟨_, .call _ _⟩
      · cases h
        exact .inr ⟨_, .word _⟩
    · cases h
      exact .inr ⟨_, .word _⟩
  · -- a mark
    unfold scanMark? at h
    split at h
    · obtain ⟨m, -, h⟩ := Option.map_eq_some_iff.mp h
      cases h
      exact .inl ⟨m, rfl⟩
    · cases h

/-- What holds of every token that is scanned holds of all tokens of a text. -/
theorem forall_mem_of_scanAll {P : Token → Prop}
    (hP : ∀ cs rest t, scan? cs = some (t, rest) → P t) (cs : List Char) :
    ∀ ts, scanAll cs = .ok ts → ∀ t ∈ ts, P t := by
  induction cs using scanAll.induct with
  | case1 =>
      intro ts h
      rw [scanAll] at h
      cases h
      simp
  | case2 c rest hblank ih =>
      intro ts h
      rw [scanAll, if_pos hblank] at h
      exact ih ts h
  | case3 c rest hblank hnone =>
      intro ts h
      rw [scanAll, if_neg hblank] at h
      split at h
      · cases h
      · next hsome =>
          rw [hnone] at hsome
          cases hsome
  | case4 c rest hblank t after hscan ih =>
      intro ts h
      rw [scanAll, if_neg hblank] at h
      split at h
      · cases h
      · next t' after' hsome =>
          rw [hscan] at hsome
          cases hsome
          -- a refusal further on leaves no tokens, so there is nothing to show of this one
          cases hafter : scanAll after with
          | error bad =>
              rw [hafter] at h
              cases h
          | ok more =>
              rw [hafter] at h
              cases h
              intro u hu
              rcases List.mem_cons.mp hu with rfl | hu
              · exact hP _ _ _ hscan
              · exact ih more hafter u hu

/-- What holds of every scanned token holds of an expression's tokens. -/
theorem forall_mem_of_ofExpression {P : Token → Prop}
    (hP : ∀ cs rest t, scan? cs = some (t, rest) → P t) {expression : String} {ts : List Token}
    (h : ofExpression expression = .ok ts) : ∀ t ∈ ts, P t := by
  refine forall_mem_of_scanAll hP expression.toList ts ?_
  unfold ofExpression at h
  cases hscan : scanAll expression.toList with
  | error bad =>
      rw [hscan] at h
      cases h
  | ok more =>
      rw [hscan] at h
      cases h
      rfl

/-- Every token of a text is a mark or an operand by itself. -/
theorem denotes_of_ofExpression {expression : String} {ts : List Token}
    (h : ofExpression expression = .ok ts) :
    ∀ t ∈ ts, (∃ m, t = .mark m) ∨ ∃ e, t.Denotes e :=
  forall_mem_of_ofExpression (fun _ _ _ => denotes_of_scan) h

end Token

/-! ## Texts -/

/-- Parsing is scanning and then reading the tokens. -/
theorem parse_of_ofExpression {expression : String} {ts : List Token}
    (h : Token.ofExpression expression = .ok ts) :
    Expr.parse expression = Expr.ofTokens expression ts := by
  unfold Expr.parse
  rw [h]
  rfl

/-- A text that is not read is refused at the line that it stands in, and nothing is changed. -/
theorem outcome_evaluate_of_parse {expression : String} {fault : Fault}
    (h : Expr.parse expression = .error fault) (line : Int) (s : State) :
    (Assembly.evaluate expression.toList line).outcome s =
      (.error (.refused (fault.at (some line))), s) := by
  have hcss : Expr.cssOf s.constants expression = .error (.fault fault) := by
    unfold Expr.cssOf Expr.valueOf
    rw [h]
    rfl
  unfold Assembly.evaluate
  rw [Assembly.outcome_bind, Assembly.outcome_get]
  simp only [String.ofList_toList, hcss]
  rfl

/-- The tokens of a text are marks and operands. They are read, all of them, if and only if they are
derived, as the only expression that is derived from them; otherwise the text is refused at the line
that it stands in. -/
theorem parse_iff_derives {expression : String} {ts : List Token}
    (h : Token.ofExpression expression = .ok ts) :
    (∀ t ∈ ts, (∃ m, t = .mark m) ∨ ∃ e, t.Denotes e) ∧
    (∀ e, Expr.parse expression = .ok e ↔ Derives .list ts e) ∧
    (∀ e e', Derives .list ts e → Derives .list ts e' → e = e') ∧
    ((¬ ∃ e, Derives .list ts e) → ∃ fault, Expr.parse expression = .error fault ∧
      ∀ line s, (Assembly.evaluate expression.toList line).outcome s =
        (.error (.refused (fault.at (some line))), s)) := by
  have hiff : ∀ e, Expr.parse expression = .ok e ↔ Derives .list ts e := by
    intro e
    rw [parse_of_ofExpression h]
    exact Expr.ofTokens_eq_ok_iff
  refine ⟨Token.denotes_of_ofExpression h, hiff, ?unique, ?refused⟩
  case unique =>
    intro e e' he he'
    have heq := ((hiff e).mpr he).symm.trans ((hiff e').mpr he')
    exact Except.ok.inj heq
  case refused =>
    intro hnone
    cases hparse : Expr.parse expression with
    | ok e => exact absurd ⟨e, (hiff e).mp hparse⟩ hnone
    | error fault => exact ⟨fault, rfl, outcome_evaluate_of_parse hparse⟩

/-- A minus sign between operands, another one before an operand, and two operands without an
operator are told apart; nothing is derived where an operand is missing. -/
theorem parse_iff_derives_of_signs :
    Expr.parse "1 - -!d (b, c) * 2" = .ok (.binary .space
      (.binary .minus (.literal (.number (Number.ofDigits false ['1'] []) none))
        (.negate (.constant "d")))
      (.binary .times (.binary .comma (.literal (.text "b")) (.literal (.text "c")))
        (.literal (.number (Number.ofDigits false ['2'] []) none)))) ∧
    (¬ ∃ e, Derives .list [.word ['a'], .mark .opening] e) ∧
    ∃ fault, Expr.parse "a (" = .error fault ∧
      ∀ line s, (Assembly.evaluate "a (".toList line).outcome s =
        (.error (.refused (fault.at (some line))), s) := by
  refine ⟨?read, ?underived⟩
  case read =>
    let difference : List Token := [.number ['1'] none none, .mark .minus, .mark .minus, .constant ['d']]
    let list : List Token := [.word ['b'], .mark .comma, .word ['c']]
    let product : List Token :=
      .mark .opening :: list ++ [.mark .closing] ++ [.mark .times, .number ['2'] none none]
    have htokens : Token.ofExpression "1 - -!d (b, c) * 2" = Except.ok (difference ++ product) := by
      dsimp only [difference, product, list]
      cbv
    have hdifference : Derives .words difference _ :=
      .words (.minus (.sum (.product (.single (.number _ _ _))))
        (.product (.negate (.single (.constant _)))))
    have hlist : Derives .list list _ :=
      .comma (.list (.words (.sum (.product (.single (.word _))))))
        (.words (.sum (.product (.single (.word _)))))
    have hproduct : Derives .sum product _ :=
      .sum (.times (.product (.parentheses hlist)) (.single (.number _ _ _)))
    have hopening : ∀ t ∈ product.head?, t.OpensOperand := by
      rintro _ ⟨⟩
      exact .inl rfl
    exact ((parse_iff_derives htokens).2.1 _).mpr (.list (.space hdifference hproduct hopening))
  case underived =>
    have htokens : Token.ofExpression "a (" = .ok [.word ['a'], .mark .opening] := by
      cbv
    have hrefused : Expr.parse "a (" = .error .endOfExpression := by
      cbv
    have hnone : ¬ ∃ e, Derives .list [.word ['a'], .mark .opening] e := by
      rintro ⟨e, he⟩
      have hread := ((parse_iff_derives htokens).2.1 e).mpr he
      rw [hrefused] at hread
      cases hread
    exact ⟨hnone, (parse_iff_derives htokens).2.2.2 hnone⟩

end Stylesheet
