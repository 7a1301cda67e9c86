import Casework.Proofs.Grammar

/-!
The grammar of expressions is unambiguous.

Two derivations that spell the same tokens are the same, even when different tokens
follow: where one of them ends, the next token cannot go on with the other. The main
statement is that a list of tokens has at most one derivation.
-/

namespace Casework.Grammar

theorem Name.eq_of_text {left right : Name} (same : left.text = right.text) :
    left = right := by
  cases left
  cases right
  cases same
  rfl

theorem Name.token_inj {left right : Name} {place other : Position} :
    left.token place = right.token other ↔ left = right ∧ place = other := by
  constructor
  · intro same
    simp only [Name.token, Token.mk.injEq, Lexeme.name.injEq] at same
    exact ⟨Name.eq_of_text same.1, same.2⟩
  · rintro ⟨rfl, rfl⟩
    rfl

@[simp] theorem mark_inj {text other : String} {place second : Position} :
    mark text place = mark other second ↔ text = other ∧ place = second := by
  simp [mark]

@[simp] theorem word_inj {text other : String} {place second : Position} :
    word text place = word other second ↔ text = other ∧ place = second := by
  simp [word]

@[simp] theorem mark_ne_token {text : String} {place other : Position} {name : Name} :
    mark text place ≠ name.token other := by
  simp [mark, Name.token]

@[simp] theorem token_ne_mark {text : String} {place other : Position} {name : Name} :
    name.token other ≠ mark text place := by
  simp [mark, Name.token]

theorem Name.IsFree.ne_word {name : Name} (free : name.IsFree) {text : String}
    (isKeyword : text ∈ Expr.keywords) {place other : Position} :
    name.token place ≠ word text other := by
  intro same
  simp only [Name.token, word, Token.mk.injEq, Lexeme.name.injEq] at same
  exact free (same.1 ▸ isKeyword)

theorem Follow.ne_mark {ends : Lexeme → Bool} {text : String} {place : Position}
    {rest : List Token} (excludes : ends (.mark text) = false) :
    ¬ Follow ends (mark text place :: rest) := by
  rintro ⟨token, later, same, holds⟩
  cases same
  rw [mark] at holds
  rw [excludes] at holds
  cases holds

theorem Atom.startsArgument_first {atom : Atom} (notDots : ¬ atom.IsDots) :
    Expr.startsArgument atom.first.lexeme = true := by
  cases atom with
  | dots => exact absurd trivial notDots
  | name position own free =>
      simpa [first, Name.token, Expr.startsArgument] using .inr free
  | static position owner sign place field free =>
      simpa [first, Name.token, Expr.startsArgument] using .inr free
  | _ => rfl

theorem Postfix.not_follow {argument : Postfix} (notDots : ¬ argument.leading.IsDots)
    {rest : List Token} : ¬ Follow endsApplication (argument.tokens ++ rest) := by
  rcases argument.exists_tokens with ⟨following, spelled⟩
  rw [spelled]
  rintro ⟨token, later, same, holds⟩
  cases same
  simp [endsApplication, Atom.startsArgument_first notDots] at holds

/-- An expression that does not start with `...` has another first token. -/
theorem Expression.tokens_ne_dots {expression : Expression}
    (notDots : ¬ expression.leading.IsDots) {place : Position} {rest other : List Token} :
    expression.tokens ++ rest ≠ mark "..." place :: other := by
  rcases expression.exists_tokens with ⟨following, spelled⟩
  rw [spelled]
  intro same
  have first : expression.leading.first = mark "..." place := (List.cons.inj same).1
  have starts := Atom.startsArgument_first notDots
  rw [first] at starts
  cases starts

theorem Expression.tokens_ne_closing (expression : Expression) {text : String}
    {place : Position} (excluded : text ∈ nonStarts) {rest other : List Token} :
    expression.tokens ++ rest ≠ mark text place :: other := by
  rcases expression.exists_tokens with ⟨following, spelled⟩
  rw [spelled]
  intro same
  have first : expression.leading.first = mark text place := (List.cons.inj same).1
  have notWord := expression.leading.isWord_first excluded
  rw [first, mark, Lexeme.isWord, beq_self_eq_true] at notWord
  cases notWord

theorem Items.tokens_ne_closing (items : Items) {place : Position}
    {rest other : List Token} :
    items.tokens ++ rest ≠ mark "]" place :: other := by
  cases items with
  | last item closing | next item comma later =>
      rw [Items.tokens, List.append_assoc]
      exact item.tokens_ne_closing (by decide)

theorem Entries.tokens_ne_closing (entries : Entries) {place : Position}
    {rest other : List Token} :
    entries.tokens ++ rest ≠ mark "\x7d" place :: other := by
  cases entries with
  | last entry closing | next entry comma later =>
      cases entry <;> simp [Entries.tokens, Entry.tokens]

theorem Branch.tokens_ne_esac (branch : Branch) {place : Position}
    {rest other : List Token} :
    branch.tokens ++ rest ≠ word "esac" place :: other := by
  cases branch with
  | rest position | dots position colon body => simp [Branch.tokens, mark, word]
  | pattern pattern colon body =>
      rcases pattern.exists_tokens with ⟨following, spelled⟩
      rw [Branch.tokens, spelled]
      intro same
      have first : pattern.leading.first = word "esac" place := (List.cons.inj same).1
      have notWord := pattern.leading.isWord_first (show "esac" ∈ nonStarts by decide)
      rw [first, word, Lexeme.isWord, beq_self_eq_true] at notWord
      cases notWord

theorem selections_unique {left right : List Selection} {rest other : List Token}
    (followLeft : Follow endsPostfix rest) (followRight : Follow endsPostfix other)
    (same : left.flatMap Selection.tokens ++ rest =
      right.flatMap Selection.tokens ++ other) :
    left = right ∧ rest = other := by
  induction left generalizing right with
  | nil =>
      cases right with
      | nil => exact ⟨rfl, same⟩
      | cons selection later =>
          rw [List.flatMap_nil, List.nil_append] at same
          rw [same] at followLeft
          exact absurd followLeft (Follow.ne_mark rfl)
  | cons selection later induction =>
      cases right with
      | nil =>
          rw [List.flatMap_nil, List.nil_append] at same
          rw [← same] at followRight
          exact absurd followRight (Follow.ne_mark rfl)
      | cons second further =>
          rcases selection with ⟨point, place, field⟩
          rcases second with ⟨otherPoint, otherPlace, otherField⟩
          simp only [List.flatMap_cons, Selection.tokens, List.cons_append,
            List.nil_append, List.cons.injEq, mark_inj, Name.token_inj] at same
          rcases same with ⟨⟨_, rfl⟩, ⟨rfl, rfl⟩, remaining⟩
          rcases induction remaining with ⟨rfl, rfl⟩
          exact ⟨rfl, rfl⟩

/-! ## Atoms

What an atom is whose tokens start as those of another.
-/

section Atoms

variable {right : Atom} {rest other : List Token}
  {opening closing position place sign : Position} {text : String}

theorem Atom.eq_number {value : Number} {reads : Number.read? text = some value}
    (same : (Atom.number position text value reads).tokens ++ rest =
      right.tokens ++ other) :
    .number position text value reads = right ∧ rest = other := by
  cases right with
  | number _ _ _ readsToo =>
      simp only [Atom.tokens, List.cons_append, List.nil_append,
        List.cons.injEq, Token.mk.injEq, Lexeme.number.injEq] at same
      rcases same with ⟨⟨rfl, rfl⟩, rfl⟩
      cases reads.symm.trans readsToo
      exact ⟨rfl, rfl⟩
  | _ => simp [Atom.tokens, mark, word, Name.token] at same

theorem Atom.eq_string {value : List UInt8} {reads : Text.unquote? text = some value}
    (same : (Atom.string position text value reads).tokens ++ rest =
      right.tokens ++ other) :
    .string position text value reads = right ∧ rest = other := by
  cases right with
  | string _ _ _ readsToo =>
      simp only [Atom.tokens, List.cons_append, List.nil_append,
        List.cons.injEq, Token.mk.injEq, Lexeme.quoted.injEq] at same
      rcases same with ⟨⟨rfl, rfl⟩, rfl⟩
      cases reads.symm.trans readsToo
      exact ⟨rfl, rfl⟩
  | _ => simp [Atom.tokens, mark, word, Name.token] at same

theorem Atom.eq_dots
    (same : (Atom.dots position).tokens ++ rest = right.tokens ++ other) :
    .dots position = right ∧ rest = other := by
  cases right with
  | dots _ => simpa [Atom.tokens] using same
  | _ => simp [Atom.tokens, mark, word, Name.token] at same

/-- A name that is not followed by `#` is not the owner of a static field. -/
theorem Atom.eq_name {own : Name} {free : own.IsFree} (follow : Follow endsAtom rest)
    (same : (Atom.name position own free).tokens ++ rest = right.tokens ++ other) :
    .name position own free = right ∧ rest = other := by
  cases right with
  | name _ _ _ => simpa [Atom.tokens, Name.token_inj, and_comm, and_assoc] using same
  | static _ _ _ _ _ _ =>
      simp only [Atom.tokens, List.cons_append, List.nil_append, List.cons.injEq] at same
      rw [same.2] at follow
      exact absurd follow (Follow.ne_mark rfl)
  | caseOf _ _ _ _ =>
      simp only [Atom.tokens, List.cons_append, List.cons.injEq] at same
      exact absurd same.1 (free.ne_word (by decide))
  | _ => simp [Atom.tokens, mark, Name.token] at same

theorem Atom.eq_static {owner field : Name} {free : owner.IsFree}
    (follow : Follow endsAtom other)
    (same : (Atom.static position owner sign place field free).tokens ++ rest =
      right.tokens ++ other) :
    .static position owner sign place field free = right ∧ rest = other := by
  cases right with
  | name _ _ _ =>
      simp only [Atom.tokens, List.cons_append, List.nil_append, List.cons.injEq] at same
      rw [← same.2] at follow
      exact absurd follow (Follow.ne_mark rfl)
  | static _ _ _ _ _ _ =>
      simp only [Atom.tokens, List.cons_append, List.nil_append,
        List.cons.injEq, mark_inj, Name.token_inj] at same
      rcases same with ⟨⟨rfl, rfl⟩, ⟨_, rfl⟩, ⟨rfl, rfl⟩, rfl⟩
      exact ⟨rfl, rfl⟩
  | caseOf _ _ _ _ =>
      simp only [Atom.tokens, List.cons_append, List.cons.injEq] at same
      exact absurd same.1 (free.ne_word (by decide))
  | _ => simp [Atom.tokens, mark, Name.token] at same

theorem Atom.eq_unit
    (same : (Atom.unit opening closing).tokens ++ rest = right.tokens ++ other) :
    .unit opening closing = right ∧ rest = other := by
  cases right with
  | unit _ _ => simpa [Atom.tokens, and_assoc] using same
  | parenthesized _ inner _ =>
      simp only [Atom.tokens, List.cons_append, List.append_assoc,
        List.cons.injEq] at same
      exact absurd same.2.symm (inner.tokens_ne_closing (by decide))
  | _ => simp [Atom.tokens, mark, word, Name.token] at same

theorem Atom.eq_emptyList
    (same : (Atom.emptyList opening closing).tokens ++ rest = right.tokens ++ other) :
    .emptyList opening closing = right ∧ rest = other := by
  cases right with
  | emptyList _ _ => simpa [Atom.tokens, and_assoc] using same
  | list _ items =>
      simp only [Atom.tokens, List.cons_append, List.cons.injEq] at same
      exact absurd same.2.symm items.tokens_ne_closing
  | _ => simp [Atom.tokens, mark, word, Name.token] at same

theorem Atom.eq_emptyRecord
    (same : (Atom.emptyRecord opening closing).tokens ++ rest = right.tokens ++ other) :
    .emptyRecord opening closing = right ∧ rest = other := by
  cases right with
  | emptyRecord _ _ => simpa [Atom.tokens, and_assoc] using same
  | record _ entries =>
      simp only [Atom.tokens, List.cons_append, List.cons.injEq] at same
      exact absurd same.2.symm entries.tokens_ne_closing
  | _ => simp [Atom.tokens, mark, word, Name.token] at same

theorem Atom.exists_parenthesized {inner : Expression}
    (same : (Atom.parenthesized opening inner closing).tokens ++ rest =
      right.tokens ++ other) :
    ∃ second last, right = .parenthesized opening second last ∧
      inner.tokens ++ (mark ")" closing :: rest) = second.tokens ++
        (mark ")" last :: other) := by
  cases right with
  | unit _ _ =>
      simp only [Atom.tokens, List.cons_append, List.append_assoc,
        List.cons.injEq] at same
      exact absurd same.2 (inner.tokens_ne_closing (by decide))
  | parenthesized _ second last =>
      simp only [Atom.tokens, List.cons_append, List.append_assoc, List.nil_append,
        List.cons.injEq, mark_inj, true_and] at same
      exact ⟨second, last, by rw [same.1], same.2⟩
  | _ => simp [Atom.tokens, mark, word, Name.token] at same

theorem Atom.exists_list {items : Items}
    (same : (Atom.list opening items).tokens ++ rest = right.tokens ++ other) :
    ∃ others, right = .list opening others ∧ items.tokens ++ rest =
      others.tokens ++ other := by
  cases right with
  | emptyList _ _ =>
      simp only [Atom.tokens, List.cons_append, List.cons.injEq] at same
      exact absurd same.2 items.tokens_ne_closing
  | list _ others =>
      simp only [Atom.tokens, List.cons_append, List.cons.injEq, mark_inj,
        true_and] at same
      exact ⟨others, by rw [same.1], same.2⟩
  | _ => simp [Atom.tokens, mark, word, Name.token] at same

theorem Atom.exists_record {entries : Entries}
    (same : (Atom.record opening entries).tokens ++ rest = right.tokens ++ other) :
    ∃ others, right = .record opening others ∧ entries.tokens ++ rest =
      others.tokens ++ other := by
  cases right with
  | emptyRecord _ _ =>
      simp only [Atom.tokens, List.cons_append, List.cons.injEq] at same
      exact absurd same.2 entries.tokens_ne_closing
  | record _ others =>
      simp only [Atom.tokens, List.cons_append, List.cons.injEq, mark_inj,
        true_and] at same
      exact ⟨others, by rw [same.1], same.2⟩
  | _ => simp [Atom.tokens, mark, word, Name.token] at same

theorem Atom.exists_caseOf {value : Expression} {branches : Branches}
    (same : (Atom.caseOf position value place branches).tokens ++ rest =
      right.tokens ++ other) :
    ∃ second last others, right = .caseOf position second last others ∧
      value.tokens ++ (word "of" place :: (branches.tokens ++ rest)) =
        second.tokens ++ (word "of" last :: (others.tokens ++ other)) := by
  cases right with
  | name _ _ free | static _ _ _ _ _ free =>
      simp only [Atom.tokens, List.cons_append, List.cons.injEq] at same
      exact absurd same.1.symm (free.ne_word (by decide))
  | caseOf _ second last others =>
      simp only [Atom.tokens, List.cons_append, List.append_assoc,
        List.cons.injEq, word_inj, true_and] at same
      exact ⟨second, last, others, by rw [same.1], same.2⟩
  | _ => simp [Atom.tokens, mark, word] at same

end Atoms

/-! ## The rules -/

mutual

theorem Expression.unique {left right : Expression} {rest other : List Token}
    (validLeft : left.Valid false) (validRight : right.Valid false)
    (followLeft : Follow endsExpression rest) (followRight : Follow endsExpression other)
    (same : left.tokens ++ rest = right.tokens ++ other) :
    left = right ∧ rest = other := by
  match left, right with
  | .plain sum, .plain second =>
      rcases sum.unique validLeft validRight followLeft.additive followRight.additive
        same with ⟨rfl, rfl⟩
      exact ⟨rfl, rfl⟩
  | .plain sum, .cons second sign tail =>
      rw [Expression.tokens, Expression.tokens, List.append_assoc] at same
      have further : Follow endsAdditive (mark "::" sign :: tail.tokens ++ other) :=
        .cons rfl _
      rcases sum.unique validLeft validRight.1 followLeft.additive further
        same with ⟨_, rfl⟩
      exact absurd followLeft (Follow.ne_mark rfl)
  | .cons sum sign tail, .plain second =>
      rw [Expression.tokens, Expression.tokens, List.append_assoc] at same
      have further : Follow endsAdditive (mark "::" sign :: tail.tokens ++ rest) :=
        .cons rfl _
      rcases sum.unique validLeft.1 validRight further followRight.additive
        same with ⟨_, rfl⟩
      exact absurd followRight (Follow.ne_mark rfl)
  | .cons sum sign tail, .cons second otherSign otherTail =>
      rw [Expression.tokens, Expression.tokens, List.append_assoc,
        List.append_assoc] at same
      rcases sum.unique validLeft.1 validRight.1 (.cons rfl _) (.cons rfl _) same
        with ⟨rfl, signed⟩
      simp only [List.cons.injEq, mark_inj, true_and] at signed
      rcases tail.unique validLeft.2 validRight.2 followLeft followRight
        signed.2 with ⟨rfl, rfl⟩
      rw [signed.1]
      exact ⟨rfl, rfl⟩
termination_by structural left

theorem Additive.unique {left right : Additive} {rest other : List Token}
    (validLeft : left.Valid false) (validRight : right.Valid false)
    (followLeft : Follow endsAdditive rest) (followRight : Follow endsAdditive other)
    (same : left.tokens ++ rest = right.tokens ++ other) :
    left = right ∧ rest = other := by
  match left, right with
  | .mk first terms, .mk second others =>
      rw [Additive.tokens, Additive.tokens, List.append_assoc, List.append_assoc] at same
      rcases first.unique validLeft.1 validRight.1 (followLeft.terms terms)
        (followRight.terms others) same
        with ⟨rfl, further⟩
      rcases terms.unique validLeft.2 validRight.2 followLeft followRight
        further with ⟨rfl, rfl⟩
      exact ⟨rfl, rfl⟩
termination_by structural left

theorem Terms.unique {left right : Terms} {rest other : List Token}
    (validLeft : left.Valid false) (validRight : right.Valid false)
    (followLeft : Follow endsAdditive rest) (followRight : Follow endsAdditive other)
    (same : left.tokens ++ rest = right.tokens ++ other) :
    left = right ∧ rest = other := by
  match left, right with
  | .nil, .nil => exact ⟨rfl, same⟩
  | .nil, .add .. | .nil, .subtract .. =>
      rw [Terms.tokens, List.nil_append] at same
      rw [same] at followLeft
      exact absurd followLeft (Follow.ne_mark rfl)
  | .add .., .nil | .subtract .., .nil =>
      rw [Terms.tokens, Terms.tokens, List.nil_append] at same
      rw [← same] at followRight
      exact absurd followRight (Follow.ne_mark rfl)
  | .add sign term later, .add otherSign second further
  | .subtract sign term later, .subtract otherSign second further =>
      simp only [Terms.tokens, List.cons_append, List.append_assoc,
        List.cons.injEq, mark_inj, true_and] at same
      rcases same with ⟨rfl, same⟩
      rcases term.unique validLeft.1 validRight.1 (followLeft.terms later)
        (followRight.terms further) same
        with ⟨rfl, remaining⟩
      rcases later.unique validLeft.2 validRight.2 followLeft followRight
        remaining with ⟨rfl, rfl⟩
      exact ⟨rfl, rfl⟩
  | .add .., .subtract .. | .subtract .., .add .. => simp [Terms.tokens] at same
termination_by structural left

theorem Product.unique {left right : Product} {rest other : List Token}
    (validLeft : left.Valid false) (validRight : right.Valid false)
    (followLeft : Follow endsProduct rest) (followRight : Follow endsProduct other)
    (same : left.tokens ++ rest = right.tokens ++ other) :
    left = right ∧ rest = other := by
  match left, right with
  | .mk first factors, .mk second others =>
      rw [Product.tokens, Product.tokens, List.append_assoc, List.append_assoc] at same
      rcases first.unique validLeft.1 validRight.1 (followLeft.factors factors)
        (followRight.factors others) same with ⟨rfl, further⟩
      rcases factors.unique validLeft.2 validRight.2 followLeft followRight
        further with ⟨rfl, rfl⟩
      exact ⟨rfl, rfl⟩
termination_by structural left

theorem Factors.unique {left right : Factors} {rest other : List Token}
    (validLeft : left.Valid false) (validRight : right.Valid false)
    (followLeft : Follow endsProduct rest) (followRight : Follow endsProduct other)
    (same : left.tokens ++ rest = right.tokens ++ other) :
    left = right ∧ rest = other := by
  match left, right with
  | .nil, .nil => exact ⟨rfl, same⟩
  | .nil, .cons .. =>
      rw [Factors.tokens, List.nil_append] at same
      rw [same] at followLeft
      exact absurd followLeft (Follow.ne_mark rfl)
  | .cons .., .nil =>
      rw [Factors.tokens, Factors.tokens, List.nil_append] at same
      rw [← same] at followRight
      exact absurd followRight (Follow.ne_mark rfl)
  | .cons sign factor later, .cons otherSign second further =>
      simp only [Factors.tokens, List.cons_append, List.append_assoc,
        List.cons.injEq, mark_inj, true_and] at same
      rcases same with ⟨rfl, same⟩
      rcases factor.unique validLeft.1 validRight.1 (followLeft.factors later)
        (followRight.factors further) same with ⟨rfl, remaining⟩
      rcases later.unique validLeft.2 validRight.2 followLeft followRight
        remaining with ⟨rfl, rfl⟩
      exact ⟨rfl, rfl⟩
termination_by structural left

theorem Application.unique {left right : Application} {rest other : List Token}
    (validLeft : left.Valid false) (validRight : right.Valid false)
    (followLeft : Follow endsApplication rest)
    (followRight : Follow endsApplication other) (same : left.tokens ++ rest =
      right.tokens ++ other) : left = right ∧ rest = other := by
  match left, right with
  | .plain head, .plain second =>
      rcases head.unique validLeft validRight followLeft.afterPostfix
        followRight.afterPostfix same
        with ⟨rfl, rfl⟩
      exact ⟨rfl, rfl⟩
  | .plain head, .apply second argument =>
      rw [Application.tokens, Application.tokens, List.append_assoc] at same
      rcases head.unique validLeft validRight.1 followLeft.afterPostfix
        (.argument argument other) same
        with ⟨_, rfl⟩
      exact absurd followLeft (Postfix.not_follow (validRight.2.2.2 rfl))
  | .apply head argument, .plain second =>
      rw [Application.tokens, Application.tokens, List.append_assoc] at same
      rcases head.unique validLeft.1 validRight (.argument argument rest)
        followRight.afterPostfix same
        with ⟨_, rfl⟩
      exact absurd followRight (Postfix.not_follow (validLeft.2.2.2 rfl))
  | .apply head argument, .apply second further =>
      rw [Application.tokens, Application.tokens, List.append_assoc,
        List.append_assoc] at same
      rcases head.unique validLeft.1 validRight.1 (.argument argument rest)
        (.argument further other) same
        with ⟨rfl, remaining⟩
      rcases argument.unique validLeft.2.1 validRight.2.1 followLeft.afterPostfix
        followRight.afterPostfix remaining with ⟨rfl, rfl⟩
      exact ⟨rfl, rfl⟩
termination_by structural left

theorem Postfix.unique {left right : Postfix} {rest other : List Token}
    (validLeft : left.Valid false) (validRight : right.Valid false)
    (followLeft : Follow endsPostfix rest) (followRight : Follow endsPostfix other)
    (same : left.tokens ++ rest = right.tokens ++ other) :
    left = right ∧ rest = other := by
  match left, right with
  | .mk atom selections, .mk second others =>
      rw [Postfix.tokens, Postfix.tokens, List.append_assoc, List.append_assoc] at same
      rcases atom.unique validLeft validRight (followLeft.selections selections)
        (followRight.selections others) same with ⟨rfl, further⟩
      rcases selections_unique followLeft followRight further with ⟨rfl, rfl⟩
      exact ⟨rfl, rfl⟩
termination_by structural left

theorem Atom.unique {left right : Atom} {rest other : List Token}
    (validLeft : left.Valid false) (validRight : right.Valid false)
    (followLeft : Follow endsAtom rest) (followRight : Follow endsAtom other)
    (same : left.tokens ++ rest = right.tokens ++ other) :
    left = right ∧ rest = other := by
  match left with
  | .number position text value reads => exact Atom.eq_number same
  | .string position text value reads => exact Atom.eq_string same
  | .dots position => exact Atom.eq_dots same
  | .name position own free => exact Atom.eq_name followLeft same
  | .static position owner sign place field free => exact Atom.eq_static followRight same
  | .unit opening closing => exact Atom.eq_unit same
  | .emptyList opening closing => exact Atom.eq_emptyList same
  | .emptyRecord opening closing => exact Atom.eq_emptyRecord same
  | .parenthesized opening inner closing =>
      rcases Atom.exists_parenthesized same with ⟨second, last, rfl, spelled⟩
      rcases inner.unique validLeft validRight (.cons rfl _) (.cons rfl _) spelled
        with ⟨rfl, closed⟩
      simpa using closed
  | .list opening items =>
      rcases Atom.exists_list same with ⟨others, rfl, spelled⟩
      rcases items.unique validLeft validRight spelled with ⟨rfl, rfl⟩
      exact ⟨rfl, rfl⟩
  | .record opening entries =>
      rcases Atom.exists_record same with ⟨others, rfl, spelled⟩
      rcases entries.unique validLeft validRight spelled with ⟨rfl, rfl⟩
      exact ⟨rfl, rfl⟩
  | .caseOf position value place branches =>
      rcases Atom.exists_caseOf same with ⟨second, last, others, rfl, spelled⟩
      rcases value.unique validLeft.1 validRight.1 (.cons rfl _) (.cons rfl _) spelled
        with ⟨rfl, further⟩
      simp only [List.cons.injEq, word_inj, true_and] at further
      rcases further with ⟨rfl, further⟩
      rcases branches.unique validLeft.2 validRight.2 further with ⟨rfl, rfl⟩
      exact ⟨rfl, rfl⟩
termination_by structural left

theorem Items.unique {left right : Items} {rest other : List Token}
    (validLeft : left.Valid false) (validRight : right.Valid false)
    (same : left.tokens ++ rest = right.tokens ++ other) :
    left = right ∧ rest = other := by
  match left, right with
  | .last item closing, .last second otherClosing =>
      simp only [Items.tokens, List.append_assoc, List.cons_append,
        List.nil_append] at same
      rcases item.unique validLeft validRight (.cons rfl _) (.cons rfl _) same
        with ⟨rfl, closed⟩
      simpa using closed
  | .last item closing, .next second comma later =>
      simp only [Items.tokens, List.append_assoc, List.cons_append,
        List.nil_append] at same
      rcases item.unique validLeft validRight.1 (.cons rfl _) (.cons rfl _) same
        with ⟨_, closed⟩
      simp at closed
  | .next item comma later, .last second closing =>
      simp only [Items.tokens, List.append_assoc, List.cons_append,
        List.nil_append] at same
      rcases item.unique validLeft.1 validRight (.cons rfl _) (.cons rfl _) same
        with ⟨_, closed⟩
      simp at closed
  | .next item comma later, .next second otherComma further =>
      simp only [Items.tokens, List.append_assoc, List.cons_append] at same
      rcases item.unique validLeft.1 validRight.1 (.cons rfl _) (.cons rfl _) same with
        ⟨rfl, separated⟩
      simp only [List.cons.injEq, mark_inj, true_and] at separated
      rcases separated with ⟨rfl, separated⟩
      rcases later.unique validLeft.2 validRight.2 separated with ⟨rfl, rfl⟩
      exact ⟨rfl, rfl⟩
termination_by structural left

theorem Entry.unique {left right : Entry} {rest other : List Token}
    (validLeft : left.Valid false) (validRight : right.Valid false)
    (followLeft : Follow endsEntry rest) (followRight : Follow endsEntry other)
    (same : left.tokens ++ rest = right.tokens ++ other) :
    left = right ∧ rest = other := by
  match left, right with
  | .short position name, .short _ _ =>
      simpa [Entry.tokens, Name.token_inj, and_comm, and_assoc] using same
  | .short position name, .full _ _ _ _ =>
      simp only [Entry.tokens, List.cons_append, List.nil_append, List.cons.injEq] at same
      rw [same.2] at followLeft
      exact absurd followLeft (Follow.ne_mark rfl)
  | .full position name sign value, .short _ _ =>
      simp only [Entry.tokens, List.cons_append, List.nil_append, List.cons.injEq] at same
      rw [← same.2] at followRight
      exact absurd followRight (Follow.ne_mark rfl)
  | .full position name sign value, .full _ _ _ second =>
      simp only [Entry.tokens, List.cons_append, List.cons.injEq, mark_inj, true_and,
        Name.token_inj] at same
      rcases same with ⟨⟨rfl, rfl⟩, rfl, same⟩
      rcases value.unique validLeft validRight followLeft.entry followRight.entry
        same with ⟨rfl, rfl⟩
      exact ⟨rfl, rfl⟩
termination_by structural left

theorem Entries.unique {left right : Entries} {rest other : List Token}
    (validLeft : left.Valid false) (validRight : right.Valid false)
    (same : left.tokens ++ rest = right.tokens ++ other) :
    left = right ∧ rest = other := by
  match left, right with
  | .last entry closing, .last second otherClosing =>
      simp only [Entries.tokens, List.append_assoc, List.cons_append,
        List.nil_append] at same
      rcases entry.unique validLeft validRight (.cons rfl _) (.cons rfl _) same
        with ⟨rfl, closed⟩
      simpa using closed
  | .last entry closing, .next second comma later =>
      simp only [Entries.tokens, List.append_assoc, List.cons_append,
        List.nil_append] at same
      rcases entry.unique validLeft validRight.1 (.cons rfl _) (.cons rfl _) same
        with ⟨_, closed⟩
      simp at closed
  | .next entry comma later, .last second closing =>
      simp only [Entries.tokens, List.append_assoc, List.cons_append,
        List.nil_append] at same
      rcases entry.unique validLeft.1 validRight (.cons rfl _) (.cons rfl _) same
        with ⟨_, closed⟩
      simp at closed
  | .next entry comma later, .next second otherComma further =>
      simp only [Entries.tokens, List.append_assoc, List.cons_append] at same
      rcases entry.unique validLeft.1 validRight.1 (.cons rfl _) (.cons rfl _) same with
        ⟨rfl, separated⟩
      simp only [List.cons.injEq, mark_inj, true_and] at separated
      rcases separated with ⟨rfl, separated⟩
      rcases later.unique validLeft.2 validRight.2 separated with ⟨rfl, rfl⟩
      exact ⟨rfl, rfl⟩
termination_by structural left

theorem Branch.unique {left right : Branch} {rest other : List Token}
    (validLeft : left.Valid false) (validRight : right.Valid false)
    (followLeft : Follow endsBranch rest) (followRight : Follow endsBranch other)
    (same : left.tokens ++ rest = right.tokens ++ other) :
    left = right ∧ rest = other := by
  match left, right with
  | .rest position, .rest _ => simpa [Branch.tokens] using same
  | .rest position, .dots _ _ _ =>
      simp only [Branch.tokens, List.cons_append, List.nil_append,
        List.cons.injEq] at same
      rw [same.2] at followLeft
      exact absurd followLeft (Follow.ne_mark rfl)
  | .dots position colon body, .rest _ =>
      simp only [Branch.tokens, List.cons_append, List.nil_append,
        List.cons.injEq] at same
      rw [← same.2] at followRight
      exact absurd followRight (Follow.ne_mark rfl)
  | .dots position colon body, .dots _ _ second =>
      simp only [Branch.tokens, List.cons_append, List.cons.injEq, mark_inj,
        true_and] at same
      rcases same with ⟨rfl, rfl, same⟩
      rcases body.unique validLeft validRight followLeft.branch followRight.branch
        same with ⟨rfl, rfl⟩
      exact ⟨rfl, rfl⟩
  | .rest position, .pattern _ _ _ | .dots position _ _, .pattern _ _ _ =>
      simp only [Branch.tokens, List.cons_append, List.append_assoc] at same
      exact absurd same.symm (Expression.tokens_ne_dots validRight.2.1)
  | .pattern _ _ _, .rest position | .pattern _ _ _, .dots position _ _ =>
      simp only [Branch.tokens, List.cons_append, List.append_assoc] at same
      exact absurd same (Expression.tokens_ne_dots validLeft.2.1)
  | .pattern pattern colon body, .pattern second otherColon otherBody =>
      simp only [Branch.tokens, List.append_assoc, List.cons_append] at same
      rcases pattern.unique validLeft.1 validRight.1 (.cons rfl _) (.cons rfl _) same
        with ⟨rfl, further⟩
      simp only [List.cons.injEq, mark_inj, true_and] at further
      rcases further with ⟨rfl, further⟩
      rcases body.unique validLeft.2.2 validRight.2.2 followLeft.branch
        followRight.branch further
        with ⟨rfl, rfl⟩
      exact ⟨rfl, rfl⟩
termination_by structural left

theorem Branches.unique {left right : Branches} {rest other : List Token}
    (validLeft : left.Valid false) (validRight : right.Valid false)
    (same : left.tokens ++ rest = right.tokens ++ other) :
    left = right ∧ rest = other := by
  match left, right with
  | .done closing, .done _ => simpa [Branches.tokens] using same
  | .done closing, .last branch _ | .done closing, .next branch _ _ =>
      simp only [Branches.tokens, List.append_assoc] at same
      exact absurd same.symm branch.tokens_ne_esac
  | .last branch _, .done closing | .next branch _ _, .done closing =>
      simp only [Branches.tokens, List.append_assoc] at same
      exact absurd same branch.tokens_ne_esac
  | .last branch closing, .last second otherClosing =>
      simp only [Branches.tokens, List.append_assoc, List.cons_append,
        List.nil_append] at same
      rcases branch.unique validLeft validRight (.cons rfl _) (.cons rfl _) same
        with ⟨rfl, closed⟩
      simpa using closed
  | .last branch closing, .next second semicolon later =>
      simp only [Branches.tokens, List.append_assoc, List.cons_append,
        List.nil_append] at same
      rcases branch.unique validLeft validRight.1 (.cons rfl _) (.cons rfl _) same
        with ⟨_, closed⟩
      simp [mark, word] at closed
  | .next branch semicolon later, .last second closing =>
      simp only [Branches.tokens, List.append_assoc, List.cons_append,
        List.nil_append] at same
      rcases branch.unique validLeft.1 validRight (.cons rfl _) (.cons rfl _) same
        with ⟨_, closed⟩
      simp [mark, word] at closed
  | .next branch semicolon later, .next second otherSemicolon further =>
      simp only [Branches.tokens, List.append_assoc, List.cons_append] at same
      rcases branch.unique validLeft.1 validRight.1 (.cons rfl _) (.cons rfl _) same with
        ⟨rfl, separated⟩
      simp only [List.cons.injEq, mark_inj, true_and] at separated
      rcases separated with ⟨rfl, separated⟩
      rcases later.unique validLeft.2 validRight.2 separated with ⟨rfl, rfl⟩
      exact ⟨rfl, rfl⟩
termination_by structural left

end

/-- A list of tokens has at most one derivation. -/
theorem Derivation.unique {tokens : List Token} (left right : Derivation tokens) :
    left = right := by
  rcases left with ⟨left, validLeft, spellsLeft⟩
  rcases right with ⟨right, validRight, spellsRight⟩
  have follow : Follow endsExpression [⟨.finish, .first⟩] := .cons rfl _
  have same : left.tokens ++ [⟨.finish, .first⟩] = right.tokens ++
      [⟨.finish, .first⟩] := by
    rw [spellsLeft, spellsRight]
  cases (left.unique validLeft validRight follow follow same).1
  rfl

end Casework.Grammar
