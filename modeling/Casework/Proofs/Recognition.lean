import Casework.Proofs.Parsing
import Casework.Proofs.Unambiguity

/-!
Whatever the grammar derives is parsed.

A parser that is given the tokens of a derivation takes just these, if a token follows
that ends the rule, and its result is the expression that the derivation stands for. That
the bounds on nesting and on repetitions suffice is known from elsewhere, so a parser that
reaches one of them counts as settled here.
-/

namespace Casework

namespace Parser

variable {α β : Type} {tokens middle rest : List Token}

/-- A parser has no other result, and leaves no other tokens, unless it gives up at a
bound. -/
def Settles (parser : Parser α) (tokens : List Token) (value : α) (rest : List Token) :
    Prop :=
  match parser.run tokens with
  | .ok result => result = (value, rest)
  | .error error => error.cause.isPanic = true

theorem Settles.run_eq {parser : Parser α} {value : α} {done : α → List Token → Prop}
    (settles : parser.Settles tokens value rest) (reads : parser.Reads tokens done) :
    parser.run tokens = .ok (value, rest) := by
  unfold Settles at settles
  unfold Reads Ends at reads
  split at settles
  next result ran => rw [ran, settles]
  next error ran =>
      rw [ran] at reads
      exact absurd (settles.symm.trans reads) nofun

theorem settles_pure {value : α} : (pure value : Parser α).Settles tokens value tokens :=
  rfl

theorem settles_endless {value : α} : (endless : Parser α).Settles tokens value rest :=
  rfl

theorem Settles.bind {parser : Parser α} {next : α → Parser β} {value : α} {result : β}
    (first : parser.Settles tokens value middle)
    (second : (next value).Settles middle result rest) :
    (parser >>= next).Settles tokens result rest := by
  unfold Settles at first ⊢
  rw [StateT.run_bind]
  split at first
  next ran =>
      subst first
      rw [ran]
      exact second
  next error ran =>
      rw [ran]
      exact first

/-! ## Tokens -/

variable {token : Token} {text : String}

theorem settles_peek : peek.Settles (token :: rest) token (token :: rest) := rfl

theorem settles_take_mark {position : Position} :
    take.Settles (⟨.mark text, position⟩ :: rest) ⟨.mark text, position⟩ rest := rfl

theorem settles_take_name {position : Position} :
    take.Settles (⟨.name text, position⟩ :: rest) ⟨.name text, position⟩ rest := rfl

theorem settles_accept (isWord : token.lexeme.isWord text = true) :
    (accept text).Settles (token :: rest) true rest := by
  have seen : (sees text).Settles (token :: rest) (token.lexeme.isWord text)
      (token :: rest) := rfl
  apply seen.bind
  rw [isWord]
  rcases token with ⟨lexeme, position⟩
  cases lexeme with
  | name => exact settles_take_name.bind settles_pure
  | mark => exact settles_take_mark.bind settles_pure
  | _ => cases isWord

theorem settles_accept_other (isOther : token.lexeme.isWord text = false) :
    (accept text).Settles (token :: rest) false (token :: rest) := by
  have seen : (sees text).Settles (token :: rest) (token.lexeme.isWord text)
      (token :: rest) := rfl
  apply seen.bind
  rw [isOther]
  exact settles_pure

section Rules

variable {yes no : Parser β} {result : β}

theorem settles_ifAccept (isWord : token.lexeme.isWord text = true)
    (accepted : yes.Settles middle result rest) :
    (do if ← accept text then yes else no : Parser β).Settles
      (token :: middle) result rest :=
  (settles_accept isWord).bind accepted

theorem settles_ifAccept_other (isOther : token.lexeme.isWord text = false)
    (refused : no.Settles (token :: middle) result rest) :
    (do if ← accept text then yes else no : Parser β).Settles
      (token :: middle) result rest :=
  (settles_accept_other isOther).bind refused

end Rules

theorem settles_expect (isWord : token.lexeme.isWord text = true) :
    (expect text).Settles (token :: rest) () rest :=
  settles_ifAccept isWord settles_pure

theorem settles_takeName {cause : Lexeme → SyntaxCause} {position : Position} :
    (takeName cause).Settles (⟨.name text, position⟩ :: rest) (position, text) rest := rfl

end Parser

namespace Grammar

open Casework.Parser

theorem settles_allowance {tokens : List Token} :
    Expr.allowance.Settles tokens (tokens.length + 1) tokens := rfl

theorem settles_parseSelections {rest : List Token} (selections : List Selection)
    (follow : Follow endsPostfix rest) (count : Nat) (inner : Expr) :
    (Expr.parseSelections count inner).Settles
      (selections.flatMap Selection.tokens ++ rest)
      (selectAll inner selections) rest := by
  induction selections generalizing count inner with
  | nil =>
      cases count with
      | zero => exact settles_endless
      | succ count =>
          rcases follow with ⟨token, later, rfl, ends⟩
          apply settles_peek.bind
          apply settles_ifAccept_other _ settles_pure
          simp only [endsPostfix, Bool.and_eq_true, Bool.not_eq_true'] at ends
          exact ends.2
  | cons selection later induction =>
      cases count with
      | zero => exact settles_endless
      | succ count =>
          apply settles_peek.bind
          apply settles_ifAccept rfl
          apply settles_takeName.bind
          exact induction count _

section Ends

variable {tokens rest : List Token}

theorem settles_noFactors (follow : Follow endsProduct rest)
    (expression : Parser Expr) {count : Nat} (left : Expr) :
    (Expr.parseFactors expression count left).Settles rest left rest := by
  cases count with
  | zero => exact settles_endless
  | succ count =>
      rcases follow with ⟨token, later, rfl, ends⟩
      simp only [endsProduct, Bool.and_eq_true, Bool.not_eq_true'] at ends
      apply settles_peek.bind
      exact settles_ifAccept_other ends.2 settles_pure

theorem settles_noTerms (follow : Follow endsAdditive rest)
    (expression : Parser Expr) {count : Nat} (left : Expr) :
    (Expr.parseTerms expression count left).Settles rest left rest := by
  cases count with
  | zero => exact settles_endless
  | succ count =>
      rcases follow with ⟨token, later, rfl, ends⟩
      simp only [endsAdditive, Bool.and_eq_true, Bool.not_eq_true'] at ends
      apply settles_peek.bind
      apply settles_ifAccept_other ends.1.2
      exact settles_ifAccept_other ends.2 settles_pure

theorem settles_alone {fuel : Nat} {left : Expr}
    (settles : (Expr.parseAdditive (Expr.parseNested fuel)).Settles tokens left rest)
    (follow : Follow endsExpression rest) :
    (Expr.parseNested (fuel + 1)).Settles tokens left rest := by
  apply settles.bind
  rcases follow with ⟨token, later, rfl, ends⟩
  simp only [endsExpression, Bool.and_eq_true, Bool.not_eq_true'] at ends
  apply settles_peek.bind
  exact settles_ifAccept_other ends.2 settles_pure

theorem settles_dots {position : Position}
    (follow : Follow endsExpression rest) (fuel : Nat) :
    (Expr.parseNested fuel).Settles (mark "..." position :: rest)
      (.symbol position "...") rest := by
  cases fuel with
  | zero => exact settles_endless
  | succ fuel =>
      have atom : (Expr.parseAtom (Expr.parseNested fuel)).Settles
          (mark "..." position :: rest)
          (.symbol position "...") rest := settles_take_mark.bind settles_pure
      have postfixed : (Expr.parsePostfix (Expr.parseNested fuel)).Settles
          (mark "..." position :: rest)
          (.symbol position "...") rest := by
        apply atom.bind
        apply settles_allowance.bind
        exact settles_parseSelections
          [] follow.additive.product.application.afterPostfix _ _
      have application : (Expr.parseApplication (Expr.parseNested fuel)).Settles
          (mark "..." position :: rest) (.symbol position "...") rest := by
        apply postfixed.bind
        rcases follow with ⟨token, later, rfl, _⟩
        exact settles_peek.bind settles_pure
      apply settles_alone _ follow
      have product : (Expr.parseProduct (Expr.parseNested fuel)).Settles
          (mark "..." position :: rest) (.symbol position "...") rest := by
        apply application.bind
        apply settles_allowance.bind
        exact settles_noFactors follow.additive.product _ _
      apply product.bind
      apply settles_allowance.bind
      exact settles_noTerms follow.additive _ _

end Ends

theorem settles_parseFree {tokens rest : List Token} {name : Name} (free : name.IsFree)
    {expression : Parser Expr} {position : Position} {result : Expr} {token : Token}
    (settles : (Expr.parseName position name.text).Settles tokens result rest) :
    (do
      if name.text == "case" then Expr.parseCase expression position
      else if name.text ∈ Expr.keywords then refuse token (.unexpected token.lexeme)
      else Expr.parseName position name.text : Parser Expr).Settles tokens
        result rest := by
  have notCase : name.text ≠ "case" := by
    intro isCase
    exact free (by rw [isCase]; decide)
  rw [if_neg (by simpa using notCase), if_neg free]
  exact settles

theorem Items.exists_tokens (items : Items) :
    ∃ token rest, items.tokens = token :: rest ∧ token.lexeme.isWord "]" = false := by
  cases items with
  | last item closing | next item comma later =>
      rcases item.exists_tokens with ⟨following, spelled⟩
      rw [Items.tokens, spelled]
      exact ⟨_, _, rfl, item.leading.isWord_first (by decide)⟩

theorem Entries.exists_tokens (entries : Entries) :
    ∃ token rest, entries.tokens = token :: rest ∧
      token.lexeme.isWord "\x7d" = false := by
  have named (position : Position) (name : Name) :
      (name.token position).lexeme.isWord "\x7d" = false :=
      name.isWord_eq_false (by decide)
  cases entries with
  | last entry closing | next entry comma later =>
      cases entry <;> exact ⟨_, _, rfl, named _ _⟩

theorem Atom.isWord_dots {atom : Atom} (notDots : ¬ atom.IsDots) :
    atom.first.lexeme.isWord "..." = false := by
  cases atom with
  | dots => exact absurd trivial notDots
  | name _ own _ => exact own.isWord_eq_false (by decide)
  | static _ owner _ _ _ _ => exact owner.isWord_eq_false (by decide)
  | _ => rfl

theorem endsBranch.text_ne {lexeme : Lexeme} (ends : endsBranch lexeme = true) :
    lexeme.text ≠ ":" := by
  simp only [endsBranch, endsExpression, endsAdditive, endsProduct, endsApplication,
    Bool.and_eq_true, Bool.not_eq_true'] at ends
  cases lexeme with
  | name text | mark text => simpa [Lexeme.isWord, Lexeme.text] using ends.2
  | number text | quoted text => simp [Expr.startsArgument] at ends
  | finish => decide

theorem settles_seesRest {middle : List Token} {position : Position}
    (follow : Follow endsBranch middle) :
    Expr.seesRest.Settles (mark "..." position :: middle) true
      (mark "..." position :: middle) := by
  rcases follow with ⟨token, later, rfl, ends⟩
  have seen : Expr.seesRest.Settles (mark "..." position :: token :: later)
      (token.lexeme.text != ":")
      (mark "..." position :: token :: later) := rfl
  rw [bne_iff_ne.2 (endsBranch.text_ne ends)] at seen
  exact seen

theorem settles_seesRest_other {token : Token} {rest : List Token}
    (isOther : token.lexeme.isWord "..." = false) :
    Expr.seesRest.Settles (token :: rest) false (token :: rest) := by
  cases rest with
  | nil =>
      have seen : Expr.seesRest.run [token] =
          (if token.lexeme.isWord "..." then throw ⟨none, .pastEnd⟩ else
            pure false : Parser Bool).run
            [token] := rfl
      unfold Settles
      rw [seen, isOther]
      rfl
  | cons following later =>
      have seen : Expr.seesRest.Settles (token :: following :: later)
          (token.lexeme.isWord "..." && following.lexeme.text != ":")
          (token :: following :: later) := rfl
      rw [isOther] at seen
      exact seen

theorem settles_closing {rest : List Token} {closing : Position}
    (expression : Parser Expr) (count : Nat) :
    (Expr.parseChoices expression count).Settles
      (word "esac" closing :: rest) .nil rest := by
  cases count with
  | zero => exact settles_endless
  | succ count => exact settles_ifAccept rfl settles_pure

mutual

theorem Expression.settles {rest : List Token} (derivation : Expression)
    (valid : derivation.Valid false) (follow : Follow endsExpression rest) (fuel : Nat) :
    (Expr.parseNested fuel).Settles (derivation.tokens ++ rest) derivation.tree rest := by
  cases fuel with
  | zero => exact settles_endless
  | succ fuel =>
      cases derivation with
      | plain left =>
          exact settles_alone (left.settles valid follow.additive fuel) follow
      | cons left sign right =>
          rw [Expression.tokens, List.append_assoc]
          apply (left.settles valid.1 (.cons rfl _) fuel).bind
          apply settles_peek.bind
          apply settles_ifAccept rfl
          exact (right.settles valid.2 follow fuel).bind settles_pure
termination_by structural derivation

theorem Additive.settles {rest : List Token} (derivation : Additive)
    (valid : derivation.Valid false) (follow : Follow endsAdditive rest) (fuel : Nat) :
    (Expr.parseAdditive (Expr.parseNested fuel)).Settles
      (derivation.tokens ++ rest) derivation.tree
      rest := by
  cases derivation with
  | mk first terms =>
      rw [Additive.tokens, List.append_assoc]
      apply (first.settles valid.1 (follow.terms terms) fuel).bind
      apply settles_allowance.bind
      exact terms.settles valid.2 follow fuel _ _
termination_by structural derivation

theorem Terms.settles {rest : List Token} (derivation : Terms)
    (valid : derivation.Valid false) (follow : Follow endsAdditive rest)
    (fuel count : Nat) (left : Expr) :
    (Expr.parseTerms (Expr.parseNested fuel) count left).Settles
      (derivation.tokens ++ rest)
      (derivation.tree left) rest := by
  cases count with
  | zero => exact settles_endless
  | succ count =>
      cases derivation with
      | nil => exact settles_noTerms follow _ _
      | add sign term later =>
          rw [Terms.tokens, List.cons_append, List.append_assoc]
          apply settles_peek.bind
          apply settles_ifAccept rfl
          apply (term.settles valid.1 (follow.terms later) fuel).bind
          exact later.settles valid.2 follow fuel count _
      | subtract sign term later =>
          rw [Terms.tokens, List.cons_append, List.append_assoc]
          apply settles_peek.bind
          apply settles_ifAccept_other rfl
          apply settles_ifAccept rfl
          apply (term.settles valid.1 (follow.terms later) fuel).bind
          exact later.settles valid.2 follow fuel count _
termination_by structural derivation

theorem Product.settles {rest : List Token} (derivation : Product)
    (valid : derivation.Valid false) (follow : Follow endsProduct rest) (fuel : Nat) :
    (Expr.parseProduct (Expr.parseNested fuel)).Settles
      (derivation.tokens ++ rest) derivation.tree
      rest := by
  cases derivation with
  | mk first factors =>
      rw [Product.tokens, List.append_assoc]
      apply (first.settles valid.1 (follow.factors factors) fuel).bind
      apply settles_allowance.bind
      exact factors.settles valid.2 follow fuel _ _
termination_by structural derivation

theorem Factors.settles {rest : List Token} (derivation : Factors)
    (valid : derivation.Valid false) (follow : Follow endsProduct rest)
    (fuel count : Nat) (left : Expr) :
    (Expr.parseFactors (Expr.parseNested fuel) count left).Settles
      (derivation.tokens ++ rest)
      (derivation.tree left) rest := by
  cases count with
  | zero => exact settles_endless
  | succ count =>
      cases derivation with
      | nil => exact settles_noFactors follow _ _
      | cons sign factor later =>
          rw [Factors.tokens, List.cons_append, List.append_assoc]
          apply settles_peek.bind
          apply settles_ifAccept rfl
          apply (factor.settles valid.1 (follow.factors later) fuel).bind
          exact later.settles valid.2 follow fuel count _
termination_by structural derivation

theorem Application.settles {rest : List Token} (derivation : Application)
    (valid : derivation.Valid false) (follow : Follow endsApplication rest) (fuel : Nat) :
    (Expr.parseApplication (Expr.parseNested fuel)).Settles
      (derivation.tokens ++ rest) derivation.tree
      rest := by
  cases derivation with
  | plain head =>
      apply (head.settles valid follow.afterPostfix fuel).bind
      rcases follow with ⟨token, later, rfl, ends⟩
      simp only [endsApplication, Bool.and_eq_true, Bool.not_eq_true'] at ends
      rw [Application.tree]
      split
      · apply settles_peek.bind
        rw [ends.2, Bool.and_false]
        exact settles_pure
      · exact settles_pure
  | apply head argument =>
      rcases valid with
        ⟨headValid, argumentValid, ⟨position, name, isName, notDots⟩, argumentStarts⟩
      rw [Application.tokens, List.append_assoc]
      apply (head.settles headValid (.argument argument rest) fuel).bind
      have argumentSettles := argument.settles argumentValid follow.afterPostfix fuel
      rw [Application.tree, isName]
      rcases argument.exists_tokens with ⟨following, spelled⟩
      rw [spelled] at argumentSettles ⊢
      apply settles_peek.bind
      rw [Atom.startsArgument_first (argumentStarts rfl), bne_iff_ne.2 notDots]
      exact argumentSettles.bind settles_pure
termination_by structural derivation

theorem Postfix.settles {rest : List Token} (derivation : Postfix)
    (valid : derivation.Valid false) (follow : Follow endsPostfix rest) (fuel : Nat) :
    (Expr.parsePostfix (Expr.parseNested fuel)).Settles
      (derivation.tokens ++ rest) derivation.tree
      rest := by
  cases derivation with
  | mk atom selections =>
      rw [Postfix.tokens, List.append_assoc]
      apply (atom.settles valid (follow.selections selections) fuel).bind
      apply settles_allowance.bind
      exact settles_parseSelections selections follow _ _
termination_by structural derivation

theorem Atom.settles {rest : List Token} (derivation : Atom)
    (valid : derivation.Valid false) (follow : Follow endsAtom rest) (fuel : Nat) :
    (Expr.parseAtom (Expr.parseNested fuel)).Settles
      (derivation.tokens ++ rest) derivation.tree
      rest := by
  cases derivation with
  | number position text value reads =>
      have taken : take.Settles (⟨.number text, position⟩ :: rest)
          ⟨.number text, position⟩ rest := rfl
      apply taken.bind
      dsimp only
      rw [reads]
      exact settles_pure
  | string position text value reads =>
      have taken : take.Settles (⟨.quoted text, position⟩ :: rest)
          ⟨.quoted text, position⟩ rest := rfl
      apply taken.bind
      dsimp only
      rw [reads]
      exact settles_pure
  | dots position => exact settles_take_mark.bind settles_pure
  | name position own free =>
      apply settles_take_name.bind
      apply settles_parseFree free
      rcases follow with ⟨token, later, rfl, ends⟩
      exact settles_ifAccept_other (by simpa [endsAtom] using ends) settles_pure
  | static position owner sign place field free =>
      apply settles_take_name.bind
      apply settles_parseFree free
      apply settles_ifAccept rfl
      exact settles_takeName.bind settles_pure
  | unit opening closing =>
      apply settles_take_mark.bind
      exact settles_ifAccept rfl settles_pure
  | parenthesized opening inner closing =>
      rw [Atom.tokens, List.cons_append, List.append_assoc]
      apply settles_take_mark.bind
      have innerSettles :=
        inner.settles valid (.cons rfl rest : Follow _ (mark ")" closing :: rest)) fuel
      rcases inner.exists_tokens with ⟨following, spelled⟩
      rw [spelled] at innerSettles ⊢
      apply settles_ifAccept_other (inner.leading.isWord_first (by decide))
      apply innerSettles.bind
      exact (settles_expect rfl).bind settles_pure
  | emptyList opening closing =>
      apply settles_take_mark.bind
      exact settles_ifAccept rfl settles_pure
  | list opening items =>
      rw [Atom.tokens, List.cons_append]
      apply settles_take_mark.bind
      have itemsSettle :=
        @Items.settles rest items valid fuel ((items.tokens ++ rest).length + 1)
      rcases items.exists_tokens with ⟨token, following, spelled, notClosing⟩
      rw [spelled] at itemsSettle ⊢
      apply settles_ifAccept_other notClosing
      apply settles_allowance.bind
      exact itemsSettle.bind settles_pure
  | emptyRecord opening closing =>
      apply settles_take_mark.bind
      exact settles_ifAccept rfl settles_pure
  | record opening entries =>
      rw [Atom.tokens, List.cons_append]
      apply settles_take_mark.bind
      have entriesSettle :=
        @Entries.settles rest entries valid fuel ((entries.tokens ++ rest).length + 1)
      rcases entries.exists_tokens with ⟨token, following, spelled, notClosing⟩
      rw [spelled] at entriesSettle ⊢
      apply settles_ifAccept_other notClosing
      apply settles_allowance.bind
      exact entriesSettle.bind settles_pure
  | caseOf position value place branches =>
      rw [Atom.tokens, List.cons_append, List.append_assoc]
      apply settles_take_name.bind
      apply (value.settles valid.1 (.cons rfl _) fuel).bind
      apply (settles_expect rfl).bind
      apply settles_allowance.bind
      exact (branches.settles valid.2 fuel _).bind settles_pure
termination_by structural derivation

theorem Items.settles {rest : List Token} (derivation : Items)
    (valid : derivation.Valid false) (fuel count : Nat) :
    (Expr.parseItems (Expr.parseNested fuel) count).Settles
      (derivation.tokens ++ rest) derivation.tree
      rest := by
  cases count with
  | zero => exact settles_endless
  | succ count =>
      cases derivation with
      | last item closing =>
          rw [Items.tokens, List.append_assoc]
          apply (item.settles valid (.cons rfl _) fuel).bind
          exact settles_ifAccept rfl settles_pure
      | next item comma later =>
          rw [Items.tokens, List.append_assoc]
          apply (item.settles valid.1 (.cons rfl _) fuel).bind
          apply settles_ifAccept_other rfl
          apply (settles_expect rfl).bind
          exact (later.settles valid.2 fuel count).bind settles_pure
termination_by structural derivation

theorem Entry.settles {rest : List Token} (derivation : Entry)
    (valid : derivation.Valid false) (follow : Follow endsEntry rest) (fuel : Nat) :
    ∃ position name value middle,
      (∀ tail, derivation.tree tail = .cons position name value tail) ∧
      (takeName .expectedField).Settles (derivation.tokens ++ rest)
        (position, name) middle ∧
      (Expr.parseFieldValue (Expr.parseNested fuel) position name).Settles middle
        value rest := by
  cases derivation with
  | short position name =>
      refine ⟨position, name.text, .symbol position name.text, rest, fun _ =>
        rfl, settles_takeName, ?_⟩
      rcases follow with ⟨token, later, rfl, ends⟩
      simp only [endsEntry, Bool.and_eq_true, Bool.not_eq_true'] at ends
      exact settles_ifAccept_other ends.2 settles_pure
  | full position name sign value =>
      refine ⟨position, name.text, value.tree, mark "=" sign ::
        (value.tokens ++ rest), fun _ => rfl, settles_takeName, ?_⟩
      exact settles_ifAccept rfl (value.settles valid follow.entry fuel)
termination_by structural derivation

theorem Entries.settles {rest : List Token} (derivation : Entries)
    (valid : derivation.Valid false) (fuel count : Nat) :
    (Expr.parseFields (Expr.parseNested fuel) count).Settles (derivation.tokens ++ rest)
      derivation.tree rest := by
  cases count with
  | zero => exact settles_endless
  | succ count =>
      cases derivation with
      | last entry closing =>
          have follow : Follow endsEntry (mark "\x7d" closing :: rest) := .cons rfl _
          rcases entry.settles valid follow fuel with
            ⟨position, name, value, middle, spelled, named, valued⟩
          rw [Entries.tokens, List.append_assoc, Entries.tree, spelled]
          apply named.bind
          apply valued.bind
          exact settles_ifAccept rfl settles_pure
      | next entry comma later =>
          have follow : Follow endsEntry (mark "," comma :: (later.tokens ++ rest)) :=
            .cons rfl _
          rcases entry.settles valid.1 follow fuel
            with ⟨position, name, value, middle, spelled, named, valued⟩
          rw [Entries.tokens, List.append_assoc, Entries.tree, spelled]
          apply named.bind
          apply valued.bind
          apply settles_ifAccept_other rfl
          apply (settles_expect rfl).bind
          exact (later.settles valid.2 fuel count).bind settles_pure
termination_by structural derivation

/-- A branch is read before the branches after it. -/
theorem Branch.settles {middle later rest : List Token} (derivation : Branch)
    (valid : derivation.Valid false) (follow : Follow endsBranch middle)
    {fuel count : Nat} {choices : Choices}
    (ended : Expr.endChoice.Settles middle () later)
    (further : (Expr.parseChoices (Expr.parseNested fuel) count).Settles
      later choices rest) :
    (Expr.parseChoices (Expr.parseNested fuel) (count + 1)).Settles
      (derivation.tokens ++ middle)
      (derivation.tree choices) rest := by
  cases derivation with
  | rest position =>
      apply settles_ifAccept_other rfl
      apply settles_peek.bind
      apply (settles_seesRest follow).bind
      apply settles_take_mark.bind
      apply ended.bind
      exact further.bind settles_pure
  | dots position colon body =>
      apply settles_ifAccept_other rfl
      apply settles_peek.bind
      have seen : Expr.seesRest.Settles
          (mark "..." position :: mark ":" colon :: (body.tokens ++ middle)) false
          (mark "..." position :: mark ":" colon :: (body.tokens ++ middle)) := rfl
      apply seen.bind
      apply (settles_dots (.cons rfl _) fuel).bind
      apply (settles_expect rfl).bind
      apply (body.settles valid follow.branch fuel).bind
      apply ended.bind
      exact further.bind settles_pure
  | pattern pattern colon body =>
      rcases valid with ⟨patternValid, notDots, bodyValid⟩
      have patternSettles := pattern.settles patternValid
        (.cons rfl _ : Follow _ (mark ":" colon :: (body.tokens ++ middle))) fuel
      rcases pattern.exists_tokens with ⟨following, spelled⟩
      rw [Branch.tokens, Branch.tree, List.append_assoc]
      rw [spelled] at patternSettles ⊢
      apply settles_ifAccept_other (pattern.leading.isWord_first (by decide))
      apply settles_peek.bind
      apply (settles_seesRest_other (Atom.isWord_dots notDots)).bind
      apply patternSettles.bind
      apply (settles_expect rfl).bind
      apply (body.settles bodyValid follow.branch fuel).bind
      apply ended.bind
      exact further.bind settles_pure
termination_by structural derivation

theorem Branches.settles {rest : List Token} (derivation : Branches)
    (valid : derivation.Valid false) (fuel count : Nat) :
    (Expr.parseChoices (Expr.parseNested fuel) count).Settles (derivation.tokens ++ rest)
      derivation.tree rest := by
  cases count with
  | zero => exact settles_endless
  | succ count =>
      cases derivation with
      | done closing => exact settles_closing _ _
      | last branch closing =>
          rw [Branches.tokens, List.append_assoc]
          have ended : Expr.endChoice.Settles (word "esac" closing :: rest) ()
              (word "esac" closing :: rest) := settles_ifAccept_other rfl rfl
          exact branch.settles valid (.cons rfl _) ended (settles_closing _ _)
      | next branch semicolon later =>
          rw [Branches.tokens, List.append_assoc]
          have ended : Expr.endChoice.Settles
              (mark ";" semicolon :: (later.tokens ++ rest)) ()
              (later.tokens ++ rest) := settles_ifAccept rfl settles_pure
          exact branch.settles valid.1 (.cons rfl _) ended
            (later.settles valid.2 fuel count)
termination_by structural derivation

end

end Grammar

end Casework
