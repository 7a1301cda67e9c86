import Casework.Proofs.Recognition

/-!
The parser accepts exactly the grammar.

What is parsed has a derivation: each rule takes the tokens of one, as long as words and
marks are told apart by their texts. With the converse, and with the bounds never reached,
a list of tokens is parsed if and only if it has a derivation, and the expression is the
one that the derivation stands for.
-/

namespace Casework

namespace Parser

variable {α β : Type} {tokens rest : List Token}

/-- What holds of the result of a parser and of the tokens that it leaves, if it has a
result. -/
def Gives (parser : Parser α) (tokens : List Token) (done : α → List Token → Prop) :
    Prop :=
  match parser.run tokens with
  | .ok result => done result.1 result.2
  | .error _ => True

section Rules

variable {parser : Parser α} {done other : α → List Token → Prop}
  {last : β → List Token → Prop}

theorem gives_pure {value : α} (holds : done value tokens) :
    (pure value : Parser α).Gives tokens done := holds

theorem gives_refuse {token : Token} {cause : SyntaxCause} :
    (refuse token cause : Parser α).Gives tokens done := trivial

theorem gives_endless : (endless : Parser α).Gives tokens done := trivial

theorem Gives.bind {next : α → Parser β} (first : parser.Gives tokens done)
    (second : ∀ value rest, done value rest → (next value).Gives rest last) :
    (parser >>= next).Gives tokens last := by
  unfold Gives at first ⊢
  rw [StateT.run_bind]
  split at first
  next result ran =>
      rw [ran]
      exact second _ _ first
  next error ran =>
      rw [ran]
      trivial

theorem Gives.imp (gives : parser.Gives tokens done)
    (implies : ∀ value rest, done value rest → other value rest) :
    parser.Gives tokens other := by
  unfold Gives at gives ⊢
  split
  next result ran =>
      rw [ran] at gives
      exact implies _ _ gives
  next => trivial

theorem Gives.run {value : α} (gives : parser.Gives tokens done)
    (ran : parser.run tokens = .ok (value, rest)) : done value rest := by
  unfold Gives at gives
  rw [ran] at gives
  exact gives

theorem Settles.gives {value : α} (settles : parser.Settles tokens value rest) :
    parser.Gives tokens fun result left => result = value ∧ left = rest := by
  unfold Settles at settles
  unfold Gives
  split
  next result ran =>
      rw [ran] at settles
      cases settles
      exact ⟨rfl, rfl⟩
  next => trivial

end Rules

/-! ## Tokens -/

theorem gives_peek :
    peek.Gives tokens fun token rest => rest = tokens ∧ ∃ later, tokens =
      token :: later := by
  cases tokens with
  | nil => trivial
  | cons token later => exact And.intro rfl ⟨later, rfl⟩

theorem gives_take :
    take.Gives tokens fun token rest => token.lexeme = .finish ∨ tokens =
      token :: rest := by
  cases tokens with
  | nil => trivial
  | cons token later =>
      rcases token with ⟨lexeme, position⟩
      cases lexeme with
      | finish => exact Or.inl rfl
      | _ => exact Or.inr rfl

theorem gives_accept {text : String} :
    (accept text).Gives tokens fun accepted rest =>
      if accepted then ∃ token, token.lexeme.isWord text = true ∧ tokens = token :: rest
      else rest = tokens := by
  cases tokens with
  | nil => trivial
  | cons token later =>
      cases isWord : token.lexeme.isWord text with
      | true =>
          apply (settles_accept isWord).gives.imp
          rintro _ _ ⟨rfl, rfl⟩
          exact ⟨token, isWord, rfl⟩
      | false =>
          apply (settles_accept_other isWord).gives.imp
          rintro _ _ ⟨rfl, rfl⟩
          exact rfl

theorem gives_takeName {cause : Lexeme → SyntaxCause} :
    (takeName cause).Gives tokens fun named rest =>
      tokens = ⟨.name named.2, named.1⟩ :: rest := by
  apply gives_take.bind
  rintro ⟨lexeme, position⟩ rest taken
  cases lexeme with
  | name text =>
      rcases taken with isFinish | rfl
      · cases isFinish
      · exact gives_pure rfl
  | _ => exact gives_refuse

end Parser

namespace Lexeme.IsDistinct

variable {lexeme : Lexeme} {text : String}

theorem eq_mark (distinct : lexeme.IsDistinct) (isMark : text ∈ markTexts)
    (isWord : lexeme.isWord text = true) : lexeme = .mark text := by
  cases lexeme with
  | name own =>
      cases beq_iff_eq.1 isWord
      exact absurd isMark distinct
  | mark own =>
      cases beq_iff_eq.1 isWord
      rfl
  | _ => cases isWord

theorem eq_name (distinct : lexeme.IsDistinct) (isKeyword : text ∈ Expr.keywords)
    (isWord : lexeme.isWord text = true) : lexeme = .name text := by
  cases lexeme with
  | name own =>
      cases beq_iff_eq.1 isWord
      rfl
  | mark own =>
      cases beq_iff_eq.1 isWord
      exact absurd isKeyword distinct
  | _ => cases isWord

theorem eq_colon (distinct : lexeme.IsDistinct) (written : lexeme.text = ":") :
    lexeme = .mark ":" := by
  cases lexeme with
  | name own =>
      cases written
      exact absurd (by decide) distinct
  | mark own => exact congrArg Lexeme.mark written
  | number own | quoted own => exact absurd written distinct
  | finish => exact absurd written (by decide)

end Lexeme.IsDistinct

namespace Grammar

open Casework.Parser

def Distinct (tokens : List Token) : Prop :=
  ∀ token ∈ tokens, token.lexeme.IsDistinct

theorem Distinct.tail {front rest : List Token} (distinct : Distinct (front ++ rest)) :
    Distinct rest :=
  fun token isMember => distinct token (List.mem_append_right front isMember)

theorem Distinct.of_cons {token : Token} {rest : List Token}
    (distinct : Distinct (token :: rest)) :
    Distinct rest :=
  fun other isMember => distinct other (List.mem_cons_of_mem token isMember)

theorem Distinct.head {token : Token} {rest : List Token}
    (distinct : Distinct (token :: rest)) :
    token.lexeme.IsDistinct :=
  distinct token List.mem_cons_self

section Rules

variable {α β δ : Type} {tokens : List Token} {valid : δ → Prop} {tree : δ → α}
  {spelled : δ → List Token} {last : β → List Token → Prop}

/-- A parser takes the tokens of a derivation of some kind, and its result is what the
derivation stands for. -/
def Derives (valid : δ → Prop) (tree : δ → α) (spelled : δ → List Token)
    (parser : Parser α) : Prop :=
  ∀ tokens, Distinct tokens → parser.Gives tokens fun value rest =>
    ∃ derivation, valid derivation ∧ tree derivation = value ∧
      spelled derivation ++ rest = tokens

theorem Derives.bind {parser : Parser α} {next : α → Parser β}
    (derives : Derives valid tree spelled parser) (distinct : Distinct tokens)
    (second : ∀ derivation rest, valid derivation → spelled derivation ++ rest = tokens →
      Distinct rest → (next (tree derivation)).Gives rest last) :
    (parser >>= next).Gives tokens last := by
  apply (derives tokens distinct).bind
  rintro _ rest ⟨derivation, isValid, rfl, rfl⟩
  exact second derivation rest isValid rfl distinct.tail

theorem gives_allowance : Expr.allowance.Gives tokens fun _ rest => rest = tokens := rfl

variable {text : String} {yes no : Parser β}

theorem gives_ifMark (distinct : Distinct tokens) (isMark : text ∈ markTexts)
    (accepted : ∀ position rest, tokens = mark text position :: rest → Distinct rest →
      yes.Gives rest last)
    (refused : no.Gives tokens last) :
    (do if ← accept text then yes else no : Parser β).Gives tokens last := by
  apply gives_accept.bind
  intro isAccepted rest result
  cases isAccepted with
  | true =>
      rcases result with ⟨⟨lexeme, position⟩, isWord, rfl⟩
      cases distinct.head.eq_mark isMark isWord
      exact accepted position rest rfl distinct.of_cons
  | false =>
      cases result
      exact refused

theorem gives_ifWord (distinct : Distinct tokens) (isKeyword : text ∈ Expr.keywords)
    (accepted : ∀ position rest, tokens = word text position :: rest → Distinct rest →
      yes.Gives rest last)
    (refused : no.Gives tokens last) :
    (do if ← accept text then yes else no : Parser β).Gives tokens last := by
  apply gives_accept.bind
  intro isAccepted rest result
  cases isAccepted with
  | true =>
      rcases result with ⟨⟨lexeme, position⟩, isWord, rfl⟩
      cases distinct.head.eq_name isKeyword isWord
      exact accepted position rest rfl distinct.of_cons
  | false =>
      cases result
      exact refused

theorem gives_expectMark (distinct : Distinct tokens) (isMark : text ∈ markTexts) :
    (expect text).Gives tokens fun _ rest =>
      Distinct rest ∧ ∃ position, tokens = mark text position :: rest := by
  apply gives_ifMark distinct isMark
  · exact fun position rest spells remain => gives_pure ⟨remain, position, spells⟩
  · exact gives_peek.bind fun _ _ _ => gives_refuse

theorem gives_expectWord (distinct : Distinct tokens) (isKeyword : text ∈ Expr.keywords) :
    (expect text).Gives tokens fun _ rest =>
      Distinct rest ∧ ∃ position, tokens = word text position :: rest := by
  apply gives_ifWord distinct isKeyword
  · exact fun position rest spells remain => gives_pure ⟨remain, position, spells⟩
  · exact gives_peek.bind fun _ _ _ => gives_refuse

theorem gives_takeName_proper {cause : Lexeme → SyntaxCause}
    (distinct : Distinct tokens) :
    (takeName cause).Gives tokens fun named rest =>
      Distinct rest ∧ ∃ name : Name, named.2 = name.text ∧ tokens =
        name.token named.1 :: rest := by
  apply gives_takeName.imp
  rintro ⟨position, text⟩ rest rfl
  exact ⟨distinct.of_cons, ⟨text, distinct.head⟩, rfl, rfl⟩

end Rules

/-! ## Repetitions -/

/-- The parser for what is inside takes the tokens of an expression. -/
def Nested (expression : Parser Expr) : Prop :=
  Derives (Expression.Valid false) Expression.tree Expression.tokens expression

variable {expression : Parser Expr}

theorem derives_parseItems (nested : Nested expression) (count : Nat) :
    Derives (Items.Valid false) Items.tree Items.tokens
      (Expr.parseItems expression count) := by
  induction count with
  | zero => exact fun _ _ => gives_endless
  | succ count induction =>
      intro tokens distinct
      apply nested.bind distinct
      rintro item rest valid rfl distinct
      apply gives_ifMark distinct (by decide)
      · rintro position later rfl _
        exact gives_pure ⟨.last item position, valid, rfl, by simp [Items.tokens]⟩
      · apply (gives_expectMark distinct (by decide)).bind
        rintro _ later ⟨remain, comma, rfl⟩
        apply induction.bind remain
        rintro items final itemsValid rfl _
        exact gives_pure ⟨.next item comma items, ⟨valid, itemsValid⟩,
          rfl, by simp [Items.tokens]⟩

theorem gives_parseFieldValue (nested : Nested expression) {tokens : List Token}
    (distinct : Distinct tokens) (position : Position) (name : Name) :
    (Expr.parseFieldValue expression position name.text).Gives tokens fun value rest =>
      ∃ entry : Entry, entry.Valid false ∧
        (∀ tail, entry.tree tail = .cons position name.text value tail) ∧
        Distinct rest ∧ entry.tokens ++ rest = name.token position :: tokens := by
  apply gives_ifMark distinct (by decide)
  · rintro sign rest rfl distinct
    apply (nested rest distinct).imp
    rintro _ later ⟨value, valid, rfl, rfl⟩
    exact ⟨.full position name sign value, valid, fun _ => rfl, distinct.tail, rfl⟩
  · exact gives_pure ⟨.short position name, trivial, fun _ => rfl, distinct, rfl⟩

theorem derives_parseFields (nested : Nested expression) (count : Nat) :
    Derives (Entries.Valid false) Entries.tree Entries.tokens
      (Expr.parseFields expression count) := by
  induction count with
  | zero => exact fun _ _ => gives_endless
  | succ count induction =>
      intro tokens distinct
      apply (gives_takeName_proper distinct).bind
      rintro ⟨position, _⟩ rest ⟨remain, name, rfl, rfl⟩
      apply (gives_parseFieldValue nested remain position name).bind
      rintro value later ⟨entry, valid, isTree, left, spells⟩
      apply gives_ifMark left (by decide)
      · rintro closing final rfl _
        refine gives_pure ⟨.last entry closing, valid, isTree .nil, ?_⟩
        simpa [Entries.tokens] using spells
      · apply (gives_expectMark left (by decide)).bind
        rintro _ following ⟨further, comma, rfl⟩
        apply induction.bind further
        rintro entries final entriesValid rfl _
        refine gives_pure ⟨.next entry comma entries, ⟨valid, entriesValid⟩,
          isTree entries.tree, ?_⟩
        simpa [Entries.tokens] using spells

theorem gives_seesRest {tokens : List Token} :
    Expr.seesRest.Gives tokens fun isRest rest => rest = tokens ∧ ∃ token later, tokens =
      token :: later ∧
      if isRest then token.lexeme.isWord "..." = true
      else token.lexeme.isWord "..." = true → ∃ colon final, later = colon :: final ∧
        colon.lexeme.text = ":" := by
  match tokens with
  | [] => trivial
  | [token] =>
      cases isDots : token.lexeme.isWord "..." with
      | true =>
          have refused : Expr.seesRest.run [token] =
              (if token.lexeme.isWord "..." then throw ⟨none, .pastEnd⟩ else
                pure false : Parser Bool).run
                [token] := rfl
          rw [isDots] at refused
          unfold Gives
          rw [refused]
          trivial
      | false =>
          apply (settles_seesRest_other isDots).gives.imp
          rintro _ _ ⟨rfl, rfl⟩
          exact ⟨rfl, token, [], rfl, by simp [isDots]⟩
  | token :: following :: final =>
      refine And.intro rfl ⟨token, _, rfl, ?_⟩
      dsimp only
      cases isDots : token.lexeme.isWord "..." with
      | true => cases isColon : following.lexeme.text == ":" <;> simp_all
      | false => simp

inductive ChoiceEnd (tokens rest : List Token) : Prop where
  | semicolon (position : Position) (spells : tokens = mark ";" position :: rest)
  | closing (position : Position) (later : List Token)
    (spells : tokens = word "esac" position :: later)
      (same : rest = tokens)

theorem gives_endChoice {tokens : List Token} (distinct : Distinct tokens) :
    Expr.endChoice.Gives tokens fun _ rest => Distinct rest ∧ ChoiceEnd tokens rest := by
  apply gives_ifMark distinct (by decide)
  · exact fun position rest spells remain =>
      gives_pure ⟨remain, .semicolon position spells⟩
  · have seen : (sees "esac").Gives tokens fun isEnd rest => rest = tokens ∧
        ∃ token later, tokens = token :: later ∧ isEnd = token.lexeme.isWord "esac" :=
      gives_peek.bind fun token rest ⟨same, later, spells⟩ =>
        gives_pure ⟨same, token, later, spells, rfl⟩
    apply seen.bind
    rintro _ _ ⟨rfl, ⟨lexeme, position⟩, later, rfl, rfl⟩
    split
    next isWord =>
        cases distinct.head.eq_name (by decide) isWord
        exact gives_pure ⟨distinct, .closing position later rfl rfl⟩
    next => exact gives_peek.bind fun _ _ _ => gives_refuse

theorem Branches.exists_next (branch : Branch) {branches : Branches}
    {tokens rest final : List Token} (valid : branch.Valid false)
    (furtherValid : branches.Valid false) (ended : ChoiceEnd tokens rest)
    (spells : branches.tokens ++ final = rest) :
    ∃ all : Branches, all.Valid false ∧ all.tree = branch.tree branches.tree ∧
      all.tokens ++ final = branch.tokens ++ tokens := by
  cases ended with
  | semicolon position separated =>
      refine ⟨.next branch position branches, ⟨valid, furtherValid⟩, rfl, ?_⟩
      rw [Branches.tokens, separated, ← spells, List.append_assoc, List.cons_append]
  | closing position later closed same =>
      -- The closing word comes first, so there are no further branches.
      rw [same, closed] at spells
      cases branches with
      | done other =>
          refine ⟨.last branch other, valid, rfl, ?_⟩
          rw [closed, ← spells, Branches.tokens, Branches.tokens, List.append_assoc]
      | last other _ | next other _ _ =>
          rw [Branches.tokens, List.append_assoc] at spells
          exact absurd spells other.tokens_ne_esac

theorem Atom.first_of_isDots {atom : Atom} (isDots : atom.IsDots) :
    atom.first.lexeme = .mark "..." := by
  cases atom with
  | dots position => rfl
  | _ => exact isDots.elim

theorem gives_pattern {fuel : Nat}
    (nested : Nested (Expr.parseNested fuel)) {token : Token} {later : List Token}
    (distinct : Distinct (token :: later)) (dotted : token.lexeme.isWord "..." = true →
      ∃ colon final, later = colon :: final ∧ colon.lexeme.text = ":")
      {next : Expr → Parser Choices}
    {last : Choices → List Token → Prop}
    (further : ∀ (pattern : Expr) (rest : List Token), Distinct rest →
      (∀ body : Expression, body.Valid false → ∃ branch : Branch, branch.Valid false ∧
        (∀ tail, branch.tree tail = .cons token.position pattern body.tree tail) ∧
        ∀ final, body.tokens ++ final = rest → branch.tokens ++ final = token :: later) →
      (next pattern).Gives rest last) :
    (do
      let pattern ← Expr.parseNested fuel
      expect ":"
      next pattern : Parser Choices).Gives (token :: later) last := by
  cases isDots : token.lexeme.isWord "..." with
  | true =>
      rcases token with ⟨lexeme, position⟩
      cases distinct.head.eq_mark (by decide) isDots
      rcases dotted isDots with ⟨⟨colon, place⟩, final, rfl, written⟩
      cases distinct.of_cons.head.eq_colon written
      have follow : Follow endsExpression (mark ":" place :: final) := .cons rfl _
      apply (settles_dots follow fuel).gives.bind
      rintro _ _ ⟨rfl, rfl⟩
      apply (gives_expectMark distinct.of_cons (by decide)).bind
      rintro _ rest ⟨remain, _, ⟨⟩⟩
      refine further _ final remain fun body valid => ?_
      refine ⟨.dots position place body, valid, fun _ => rfl, ?_⟩
      rintro rest rfl
      rfl
  | false =>
      apply nested.bind distinct
      intro pattern rest valid spells remain
      rcases pattern.exists_tokens with ⟨following, spelled⟩
      have first : pattern.leading.first = token := by
        rw [spelled] at spells
        exact (List.cons.inj spells).1
      have notDots : ¬ pattern.leading.IsDots := by
        intro starts
        have isMark := Atom.first_of_isDots starts
        rw [first] at isMark
        rw [isMark] at isDots
        cases isDots
      apply (gives_expectMark remain (by decide)).bind
      rintro _ final ⟨left, colon, rfl⟩
      refine further _ final left fun body bodyValid => ?_
      refine ⟨.pattern pattern colon body, ⟨valid, notDots, bodyValid⟩, fun _ => ?_, ?_⟩
      · rw [Branch.tree, first]
      · rintro rest rfl
        rw [← spells, Branch.tokens, List.append_assoc]
        rfl

theorem derives_parseChoices {fuel : Nat}
    (nested : Nested (Expr.parseNested fuel)) (count : Nat) :
    Derives (Branches.Valid false) Branches.tree Branches.tokens
      (Expr.parseChoices (Expr.parseNested fuel) count) := by
  induction count with
  | zero => exact fun _ _ => gives_endless
  | succ count induction =>
      intro tokens distinct
      apply gives_ifWord distinct (by decide)
      · rintro position rest rfl _
        exact gives_pure ⟨.done position, trivial, rfl, rfl⟩
      · apply gives_peek.bind
        rintro token _ ⟨rfl, later, rfl⟩
        apply gives_seesRest.bind
        rintro isRest _ ⟨rfl, _, _, ⟨⟩, seen⟩
        cases isRest with
        | true =>
            rcases token with ⟨lexeme, position⟩
            cases distinct.head.eq_mark (by decide) seen
            apply settles_take_mark.gives.bind
            rintro _ _ ⟨rfl, rfl⟩
            apply (gives_endChoice distinct.of_cons).bind
            rintro _ rest ⟨remain, ended⟩
            apply induction.bind remain
            intro branches final valid spells _
            exact gives_pure
              (Branches.exists_next (.rest position) trivial valid ended spells)
        | false =>
            apply gives_pattern nested distinct seen
            intro pattern rest remain branches
            apply nested.bind remain
            intro body middle bodyValid bodySpells left
            rcases branches body bodyValid with ⟨branch, valid, isTree, spells⟩
            apply (gives_endChoice left).bind
            rintro _ following ⟨further, ended⟩
            apply induction.bind further
            intro choices final choicesValid choicesSpells _
            apply gives_pure
            rw [← isTree, ← spells middle bodySpells]
            exact Branches.exists_next branch valid choicesValid ended choicesSpells

/-! ## Rules -/

theorem derives_parseSelections (count : Nat) (inner : Expr) :
    Derives (fun _ => True) (selectAll inner) (List.flatMap Selection.tokens)
      (Expr.parseSelections count inner) := by
  induction count generalizing inner with
  | zero => exact fun _ _ => gives_endless
  | succ count induction =>
      intro tokens distinct
      apply gives_peek.bind
      rintro ⟨_, point⟩ _ ⟨rfl, later, rfl⟩
      apply gives_ifMark distinct (by decide)
      · rintro _ rest ⟨⟩ remain
        apply (gives_takeName_proper remain).bind
        rintro ⟨place, _⟩ following ⟨further, field, rfl, rfl⟩
        apply (induction _ following further).imp
        rintro _ final ⟨selections, _, rfl, rfl⟩
        exact ⟨⟨point, place, field⟩ :: selections, trivial, rfl, rfl⟩
      · exact gives_pure ⟨[], trivial, rfl, rfl⟩

variable {fuel : Nat}

theorem derives_parseAtom (nested : Nested (Expr.parseNested fuel)) :
    Derives (Atom.Valid false) Atom.tree Atom.tokens
      (Expr.parseAtom (Expr.parseNested fuel)) := by
  intro tokens distinct
  apply gives_take.bind
  rintro ⟨lexeme, position⟩ rest taken
  rcases taken with isFinish | rfl
  · cases isFinish
    exact gives_refuse
  have remain := distinct.of_cons
  dsimp only
  split
  next text =>
      split
      next value reads =>
          exact gives_pure ⟨.number position text value reads, trivial, rfl, rfl⟩
      next => exact gives_refuse
  next text =>
      split
      next value reads =>
          exact gives_pure ⟨.string position text value reads, trivial, rfl, rfl⟩
      next => exact gives_refuse
  next text =>
      split
      next isCase =>
          cases beq_iff_eq.1 isCase
          apply nested.bind remain
          rintro value following valid rfl left
          apply (gives_expectWord left (by decide)).bind
          rintro _ later ⟨further, place, rfl⟩
          apply gives_allowance.bind
          rintro count _ rfl
          apply (derives_parseChoices nested count).bind further
          rintro branches final branchesValid rfl _
          refine gives_pure
            ⟨.caseOf position value place branches, ⟨valid, branchesValid⟩, rfl, ?_⟩
          simp [Atom.tokens, word]
      next =>
          split
          next => exact gives_refuse
          next free =>
              let own : Name := ⟨text, distinct.head⟩
              apply gives_ifMark remain (by decide)
              · rintro sign following rfl left
                apply (gives_takeName_proper left).bind
                rintro ⟨place, _⟩ later ⟨_, field, rfl, rfl⟩
                exact gives_pure
                  ⟨.static position own sign place field free, trivial, rfl, rfl⟩
              · exact gives_pure ⟨.name position own free, trivial, rfl, rfl⟩
  next => exact gives_pure ⟨.dots position, trivial, rfl, rfl⟩
  next =>
      apply gives_ifMark remain (by decide)
      · rintro closing later rfl _
        exact gives_pure ⟨.unit position closing, trivial, rfl, rfl⟩
      · apply nested.bind remain
        rintro inner following valid rfl left
        apply (gives_expectMark left (by decide)).bind
        rintro _ later ⟨_, closing, rfl⟩
        refine gives_pure ⟨.parenthesized position inner closing, valid, rfl, ?_⟩
        simp [Atom.tokens, mark]
  next =>
      apply gives_ifMark remain (by decide)
      · rintro closing later rfl _
        exact gives_pure ⟨.emptyList position closing, trivial, rfl, rfl⟩
      · apply gives_allowance.bind
        rintro count _ rfl
        apply (derives_parseItems nested count).bind remain
        rintro items final valid rfl _
        exact gives_pure ⟨.list position items, valid, rfl, rfl⟩
  next =>
      apply gives_ifMark remain (by decide)
      · rintro closing later rfl _
        exact gives_pure ⟨.emptyRecord position closing, trivial, rfl, rfl⟩
      · apply gives_allowance.bind
        rintro count _ rfl
        apply (derives_parseFields nested count).bind remain
        rintro entries final valid rfl _
        exact gives_pure ⟨.record position entries, valid, rfl, rfl⟩
  next => exact gives_refuse

theorem derives_parsePostfix (nested : Nested (Expr.parseNested fuel)) :
    Derives (Postfix.Valid false) Postfix.tree Postfix.tokens
      (Expr.parsePostfix (Expr.parseNested fuel)) := by
  intro tokens distinct
  apply (derives_parseAtom nested).bind distinct
  rintro atom rest valid rfl remain
  apply gives_allowance.bind
  rintro count _ rfl
  apply (derives_parseSelections count atom.tree _ remain).imp
  rintro _ final ⟨selections, _, rfl, rfl⟩
  exact ⟨.mk atom selections, valid, rfl, by simp [Postfix.tokens]⟩

theorem derives_parseApplication (nested : Nested (Expr.parseNested fuel)) :
    Derives (Application.Valid false) Application.tree Application.tokens
      (Expr.parseApplication (Expr.parseNested fuel)) := by
  intro tokens distinct
  apply (derives_parsePostfix nested).bind distinct
  rintro head rest valid rfl remain
  have alone : (pure head.tree : Parser Expr).Gives rest fun value final =>
      ∃ derivation : Application, derivation.Valid false ∧ derivation.tree = value ∧
        derivation.tokens ++ final = head.tokens ++ rest :=
    gives_pure ⟨.plain head, valid, rfl, rfl⟩
  split
  next position name isSymbol =>
      apply gives_peek.bind
      rintro token _ ⟨rfl, later, rfl⟩
      split
      next starts =>
          rw [Bool.and_eq_true, bne_iff_ne] at starts
          apply (derives_parsePostfix nested).bind remain
          intro argument final argumentValid spells _
          have notDots : ¬ argument.leading.IsDots := by
            intro isDots
            rcases argument.exists_tokens with ⟨following, spelled⟩
            rw [spelled] at spells
            have isMark := Atom.first_of_isDots isDots
            rw [(List.cons.inj spells).1] at isMark
            rw [isMark] at starts
            cases starts.2
          refine gives_pure ⟨.apply head argument,
            ⟨valid, argumentValid, ⟨position, name, isSymbol, starts.1⟩, fun _ =>
              notDots⟩, ?_, ?_⟩
          · rw [Application.tree, isSymbol]
            rfl
          · rw [Application.tokens, List.append_assoc, spells]
      next => exact isSymbol ▸ alone
  next => exact alone

theorem derives_parseFactors (nested : Nested (Expr.parseNested fuel))
    (count : Nat) (left : Expr) :
    Derives (Factors.Valid false)
      (fun factors : Factors => factors.tree left) Factors.tokens
      (Expr.parseFactors (Expr.parseNested fuel) count left) := by
  induction count generalizing left with
  | zero => exact fun _ _ => gives_endless
  | succ count induction =>
      intro tokens distinct
      apply gives_peek.bind
      rintro ⟨_, sign⟩ _ ⟨rfl, later, rfl⟩
      apply gives_ifMark distinct (by decide)
      · rintro _ rest ⟨⟩ remain
        apply (derives_parseApplication nested).bind remain
        rintro factor following valid rfl further
        apply (induction _ following further).imp
        rintro _ final ⟨factors, factorsValid, rfl, rfl⟩
        exact ⟨.cons sign factor factors, ⟨valid, factorsValid⟩,
          rfl, by simp [Factors.tokens, mark]⟩
      · exact gives_pure ⟨.nil, trivial, rfl, rfl⟩

theorem derives_parseProduct (nested : Nested (Expr.parseNested fuel)) :
    Derives (Product.Valid false) Product.tree Product.tokens
      (Expr.parseProduct (Expr.parseNested fuel)) := by
  intro tokens distinct
  apply (derives_parseApplication nested).bind distinct
  rintro first rest valid rfl remain
  apply gives_allowance.bind
  rintro count _ rfl
  apply (derives_parseFactors nested count first.tree _ remain).imp
  rintro _ final ⟨factors, factorsValid, rfl, rfl⟩
  exact ⟨.mk first factors, ⟨valid, factorsValid⟩, rfl, by simp [Product.tokens]⟩

theorem derives_parseTerms (nested : Nested (Expr.parseNested fuel))
    (count : Nat) (left : Expr) :
    Derives (Terms.Valid false) (fun terms : Terms => terms.tree left) Terms.tokens
      (Expr.parseTerms (Expr.parseNested fuel) count left) := by
  induction count generalizing left with
  | zero => exact fun _ _ => gives_endless
  | succ count induction =>
      intro tokens distinct
      apply gives_peek.bind
      rintro ⟨_, sign⟩ _ ⟨rfl, later, rfl⟩
      apply gives_ifMark distinct (by decide)
      · rintro _ rest ⟨⟩ remain
        apply (derives_parseProduct nested).bind remain
        rintro term following valid rfl further
        apply (induction _ following further).imp
        rintro _ final ⟨terms, termsValid, rfl, rfl⟩
        exact ⟨.add sign term terms, ⟨valid, termsValid⟩,
          rfl, by simp [Terms.tokens, mark]⟩
      · apply gives_ifMark distinct (by decide)
        · rintro _ rest ⟨⟩ remain
          apply (derives_parseProduct nested).bind remain
          rintro term following valid rfl further
          apply (induction _ following further).imp
          rintro _ final ⟨terms, termsValid, rfl, rfl⟩
          exact ⟨.subtract sign term terms, ⟨valid, termsValid⟩,
            rfl, by simp [Terms.tokens, mark]⟩
        · exact gives_pure ⟨.nil, trivial, rfl, rfl⟩

theorem derives_parseAdditive (nested : Nested (Expr.parseNested fuel)) :
    Derives (Additive.Valid false) Additive.tree Additive.tokens
      (Expr.parseAdditive (Expr.parseNested fuel)) := by
  intro tokens distinct
  apply (derives_parseProduct nested).bind distinct
  rintro first rest valid rfl remain
  apply gives_allowance.bind
  rintro count _ rfl
  apply (derives_parseTerms nested count first.tree _ remain).imp
  rintro _ final ⟨terms, termsValid, rfl, rfl⟩
  exact ⟨.mk first terms, ⟨valid, termsValid⟩, rfl, by simp [Additive.tokens]⟩

theorem nested_parseNested (fuel : Nat) : Nested (Expr.parseNested fuel) := by
  induction fuel with
  | zero => exact fun _ _ => gives_endless
  | succ fuel nested =>
      intro tokens distinct
      apply (derives_parseAdditive nested).bind distinct
      rintro left rest valid rfl remain
      apply gives_peek.bind
      rintro ⟨_, sign⟩ _ ⟨rfl, later, rfl⟩
      apply gives_ifMark remain (by decide)
      · rintro _ following ⟨⟩ further
        apply nested.bind further
        rintro right final rightValid rfl _
        exact gives_pure ⟨.cons left sign right, ⟨valid, rightValid⟩,
          rfl, by simp [Expression.tokens, mark]⟩
      · exact gives_pure ⟨.plain left, valid, rfl, rfl⟩

/-! ## Whole sources -/

section Whole

variable {tokens : List Token} {finish : Position}

theorem eq_of_append_finish {front later : List Token} {last : Token}
    (inner : ∀ token ∈ tokens, token.lexeme ≠ .finish)
    (spells : front ++ ⟨.finish, finish⟩ :: later = tokens ++ [last]) :
    front = tokens := by
  rcases List.append_eq_append_iff.1 spells with
    ⟨middle, rfl, ends⟩ | ⟨middle, tooLong, ends⟩
  · -- What comes after the front starts with the end, which is not among the tokens.
    cases middle with
    | nil => exact (List.append_nil _).symm
    | cons first middle =>
        have isFirst := (List.cons.inj ends).1
        exact absurd (isFirst ▸ rfl) (inner first (by simp))
  · cases middle with
    | nil => simpa using tooLong
    | cons first middle =>
        have length := congrArg List.length ends
        simp at length

theorem gives_parseWhole (distinct : Distinct tokens)
    (inner : ∀ token ∈ tokens, token.lexeme ≠ .finish) (finish : Position) (fuel : Nat) :
    (Expr.parseWhole fuel).Gives (tokens ++ [⟨.finish, finish⟩]) fun tree _ =>
      ∃ derivation : Derivation tokens, derivation.expression.tree = tree := by
  have all : Distinct (tokens ++ [⟨.finish, finish⟩]) := by
    intro token isMember
    rcases List.mem_append.1 isMember with isInner | isLast
    · exact distinct token isInner
    · cases List.mem_singleton.1 isLast
      trivial
  apply (nested_parseNested fuel).bind all
  intro expression rest valid spells _
  apply gives_peek.bind
  rintro ⟨lexeme, position⟩ _ ⟨rfl, later, rfl⟩
  dsimp only
  split
  next =>
      apply gives_pure
      exact ⟨⟨expression, valid, eq_of_append_finish inner spells⟩, rfl⟩
  next => exact gives_refuse

theorem Derivation.ofTokens_eq (derivation : Derivation tokens) :
    Expr.ofTokens (tokens ++ [⟨.finish, finish⟩]) = .ok derivation.expression.tree := by
  rcases derivation with ⟨expression, valid, rfl⟩
  generalize isFuel : (expression.tokens ++ [Token.mk .finish finish]).length + 1 = fuel
  have settles : (Expr.parseWhole fuel).Settles
      (expression.tokens ++ [⟨.finish, finish⟩]) expression.tree
      [⟨.finish, finish⟩] := by
    apply (expression.settles valid (.cons rfl _) fuel).bind
    exact settles_peek.bind settles_pure
  have reads : (Expr.parseWhole fuel).Reads (expression.tokens ++ [⟨.finish, finish⟩])
      fun _ _ => True :=
    Expr.reads_parseWhole ⟨_, finish, rfl⟩ (by omega)
  rw [Expr.ofTokens, isFuel, settles.run_eq reads]
  rfl

theorem exists_derivation_of_ofTokens
    (proper : ∀ token ∈ tokens, token.lexeme ≠ .finish ∧ token.lexeme.IsDistinct)
    {tree : Expr} (parsed : Expr.ofTokens (tokens ++ [⟨.finish, finish⟩]) = .ok tree) :
    ∃ derivation : Derivation tokens, derivation.expression.tree = tree := by
  rw [Expr.ofTokens] at parsed
  have gives := gives_parseWhole (fun token isMember => (proper token isMember).2)
    (fun token isMember => (proper token isMember).1) finish
    ((tokens ++ [Token.mk .finish finish]).length + 1)
  cases ran : (Expr.parseWhole ((tokens ++ [Token.mk .finish finish]).length + 1)).run
      (tokens ++ [⟨.finish, finish⟩]) with
  | ok result =>
      rw [ran] at parsed
      cases parsed
      exact gives.run ran
  | error error =>
      rw [ran] at parsed
      cases parsed

/-- Tokens before the end of the source are parsed if and only if the grammar derives
them, in one way only, and the expression is the one that the derivation stands for.
Otherwise there is an error that can be reported: no parser gives up at a bound or reads
past the end. -/
theorem ofTokens_eq_ok_iff (tokens : List Token) (finish : Position)
    (proper : ∀ token ∈ tokens, token.lexeme ≠ .finish ∧ token.lexeme.IsDistinct) :
    (∀ tree, Expr.ofTokens (tokens ++ [⟨.finish, finish⟩]) = .ok tree ↔
      ∃ derivation : Derivation tokens, derivation.expression.tree = tree) ∧
    (∀ left right : Derivation tokens, left = right) ∧
    ∀ error, Expr.ofTokens (tokens ++ [⟨.finish, finish⟩]) = .error error →
      error.cause.isPanic = false := by
  refine ⟨fun tree => ⟨exists_derivation_of_ofTokens proper, ?_⟩, Derivation.unique,
    fun error failed => ?_⟩
  · rintro ⟨derivation, rfl⟩
    exact derivation.ofTokens_eq
  · have ends : Ends (Expr.ofTokens (tokens ++ [⟨.finish, finish⟩])) fun _ => True :=
      Ends.bind (Expr.reads_parseWhole ⟨tokens, finish, rfl⟩ (Nat.le_succ _))
        fun _ _ => trivial
    rw [failed] at ends
    exact ends

end Whole

theorem ofTokens_application_eq_ok_iff :
    (∀ tree, Expr.ofTokens [⟨.name "f", .first⟩, ⟨.name "x", ⟨1, 3⟩⟩, ⟨.finish, ⟨1, 4⟩⟩] =
      .ok tree ↔
      ∃ derivation : Derivation [⟨.name "f", .first⟩, ⟨.name "x", ⟨1, 3⟩⟩],
        derivation.expression.tree = tree) ∧
    Expr.ofTokens [⟨.name "f", .first⟩, ⟨.name "x", ⟨1, 3⟩⟩, ⟨.finish, ⟨1, 4⟩⟩] =
      .ok (.apply .first "f" (.symbol ⟨1, 3⟩ "x")) := by
  refine ⟨(ofTokens_eq_ok_iff [⟨.name "f", .first⟩, ⟨.name "x", ⟨1, 3⟩⟩] ⟨1, 4⟩ ?_).1,
    rfl⟩
  intro token isMember
  simp only [List.mem_cons, List.not_mem_nil, or_false] at isMember
  rcases isMember with rfl | rfl
  · exact ⟨nofun, show "f" ∉ markTexts by decide⟩
  · exact ⟨nofun, show "x" ∉ markTexts by decide⟩

/-- If `...` might start an argument, more would be derived than is parsed. -/
theorem ofTokens_dottedArgument :
    (∃ expression : Expression, expression.Valid true ∧
      expression.tokens = [⟨.name "f", .first⟩, ⟨.mark "...", ⟨1, 3⟩⟩]) ∧
    Expr.ofTokens [⟨.name "f", .first⟩, ⟨.mark "...", ⟨1, 3⟩⟩, ⟨.finish, ⟨1, 6⟩⟩] =
      .error ⟨some ⟨1, 3⟩, .afterExpression (.mark "...")⟩ := by
  constructor
  · let head : Name := ⟨"f", by decide⟩
    let dots : Postfix := .mk (.dots ⟨1, 3⟩) []
    let function : Postfix :=
      .mk (.name .first head (show "f" ∉ Expr.keywords by decide)) []
    let application : Application := .apply function dots
    refine ⟨.plain (.mk (.mk application .nil) .nil), ?_, rfl⟩
    exact ⟨⟨⟨trivial, trivial, ⟨.first, "f", rfl, by decide⟩, nofun⟩, trivial⟩, trivial⟩
  · rfl

end Grammar

end Casework
