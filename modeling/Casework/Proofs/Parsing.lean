import Casework.Expr.Parser
import Casework.Proofs.Scanning

/-!
Parsing comes to an end.

A rule of the grammar takes a token before it uses the parser for what is inside, and
every pass of a repetition takes one. So the bounds on nesting and on repetitions are
never reached, and the end of the source is never left behind.
-/

namespace Casework

namespace Parser

variable {α β : Type} {tokens rest later : List Token}

/-- What holds of the result of a parser and of the tokens that it leaves. -/
def Reads (parser : Parser α) (tokens : List Token) (done : α → List Token → Prop) :
    Prop :=
  Ends (parser.run tokens) fun result => done result.1 result.2

/-- Tokens that are left, not more than there were. -/
structure Remain (tokens rest : List Token) : Prop where
  ended : Ended rest
  le : rest.length ≤ tokens.length

/-- Tokens that are left, fewer than there were. -/
structure Shrink (tokens rest : List Token) : Prop where
  ended : Ended rest
  lt : rest.length < tokens.length

theorem Shrink.remain (shrink : Shrink tokens rest) : Remain tokens rest :=
  ⟨shrink.ended, Nat.le_of_lt shrink.lt⟩

theorem Remain.refl (ended : Ended tokens) : Remain tokens tokens :=
  ⟨ended, Nat.le_refl _⟩

theorem Remain.trans (first : Remain tokens rest) (second : Remain rest later) :
    Remain tokens later :=
  ⟨second.ended, Nat.le_trans second.le first.le⟩

theorem Shrink.trans (first : Shrink tokens rest) (second : Remain rest later) :
    Shrink tokens later :=
  ⟨second.ended, Nat.lt_of_le_of_lt second.le first.lt⟩

section Rules

variable {parser : Parser α} {done other : α → List Token → Prop}
  {last : β → List Token → Prop}

theorem reads_pure {value : α} (holds : done value tokens) :
    (pure value : Parser α).Reads tokens done := holds

theorem Reads.bind {next : α → Parser β} (first : parser.Reads tokens done)
    (second : ∀ value rest, done value rest → (next value).Reads rest last) :
    (parser >>= next).Reads tokens last := by
  unfold Reads
  rw [StateT.run_bind]
  exact Ends.bind first fun result => second result.1 result.2

theorem Reads.imp (reads : parser.Reads tokens done)
    (implies : ∀ value rest, done value rest → other value rest) :
    parser.Reads tokens other :=
  Ends.imp reads fun result => implies result.1 result.2

end Rules

/-! ## Tokens -/

theorem reads_refuse {done : α → List Token → Prop} {cause : SyntaxCause}
    (reported : cause.isPanic = false) (token : Token) :
    (refuse token cause : Parser α).Reads tokens done := reported

theorem reads_peek (ended : Ended tokens) :
    peek.Reads tokens fun _ rest => rest = tokens := by
  rcases ended.exists_cons with ⟨token, rest, rfl, _⟩
  exact reads_pure rfl

theorem reads_take_cons (token : Token) (rest : List Token) :
    take.Reads (token :: rest) fun taken remaining => taken = token ∧
      (token.lexeme ≠ .finish ∧ remaining = rest ∨ token.lexeme = .finish ∧ remaining =
        token :: rest) := by
  rcases token with ⟨lexeme, position⟩
  cases lexeme with
  | finish => exact And.intro rfl (.inr ⟨rfl, rfl⟩)
  | _ => exact And.intro rfl (.inl ⟨fun isFinish => (nomatch isFinish), rfl⟩)

theorem reads_take (ended : Ended tokens) :
    take.Reads tokens fun token rest =>
      Shrink tokens rest ∨ token.lexeme = .finish ∧ rest = tokens := by
  rcases ended.exists_cons with ⟨token, rest, rfl, further⟩
  apply (reads_take_cons token rest).imp
  rintro _ remaining ⟨rfl, ⟨notFinish, rfl⟩ | finish⟩
  · exact .inl ⟨further notFinish, Nat.lt_succ_self _⟩
  · exact .inr finish

theorem reads_take_word {token : Token} {text : String} (ended : Ended (token :: rest))
    (isWord : token.lexeme.isWord text = true) :
    take.Reads (token :: rest) fun _ remaining => Shrink (token :: rest) remaining := by
  rcases ended.exists_cons with ⟨_, _, same, further⟩
  cases same
  apply (reads_take_cons token rest).imp
  rintro _ remaining ⟨_, ⟨notFinish, rfl⟩ | ⟨isFinish, _⟩⟩
  · exact ⟨further notFinish, Nat.lt_succ_self _⟩
  · rw [isFinish] at isWord
    cases isWord

theorem reads_accept (ended : Ended tokens) (text : String) :
    (accept text).Reads tokens fun accepted rest =>
      if accepted then Shrink tokens rest else rest = tokens := by
  rcases ended.exists_cons with ⟨token, rest, rfl, _⟩
  have seen : (sees text).Reads (token :: rest) fun isSeen remaining =>
      isSeen = token.lexeme.isWord text ∧ remaining = token :: rest := And.intro rfl rfl
  apply seen.bind
  rintro isSeen _ ⟨rfl, rfl⟩
  split
  next isWord =>
      apply (reads_take_word ended isWord).bind
      exact fun _ remaining shrink => reads_pure shrink
  next => exact reads_pure rfl

theorem reads_ifAccept {yes no : Parser β} {last : β → List Token → Prop}
    (ended : Ended tokens) (text : String)
    (accepted : ∀ rest, Shrink tokens rest → yes.Reads rest last)
    (refused : no.Reads tokens last) :
    (do if ← accept text then yes else no : Parser β).Reads tokens last := by
  apply (reads_accept ended text).bind
  intro isAccepted rest result
  cases isAccepted with
  | true => exact accepted rest result
  | false =>
      cases result
      exact refused

theorem reads_expect (ended : Ended tokens) (text : String) :
    (expect text).Reads tokens fun _ rest => Shrink tokens rest := by
  apply reads_ifAccept ended text
  · exact fun rest taken => reads_pure taken
  · apply (reads_peek ended).bind
    rintro token _ rfl
    exact reads_refuse rfl token

theorem reads_takeName (ended : Ended tokens) {cause : Lexeme → SyntaxCause}
    (reported : ∀ lexeme, (cause lexeme).isPanic = false) :
    (takeName cause).Reads tokens fun _ rest => Shrink tokens rest := by
  apply (reads_take ended).bind
  rintro token rest (shrink | ⟨isFinish, _⟩)
  · split
    · exact reads_pure shrink
    · exact reads_refuse (reported _) token
  · rw [isFinish]
    exact reads_refuse (reported _) token

end Parser

namespace Expr

open Casework.Parser

variable {tokens : List Token} {expression : Parser Expr} {bound fuel : Nat}

/-- The parser for what is inside takes tokens, as long as there are not too many of
them. -/
def Nests {α : Type} (expression : Parser α) (bound : Nat) : Prop :=
  ∀ tokens, Ended tokens → tokens.length ≤ bound →
    expression.Reads tokens fun _ rest => Shrink tokens rest

theorem reads_allowance :
    allowance.Reads tokens fun count rest => rest = tokens ∧ count = tokens.length + 1 :=
  And.intro rfl rfl

/-! ## Repetitions -/

theorem reads_parseItems (nests : Nests expression bound) (ended : Ended tokens)
    (small : tokens.length ≤ bound) (enough : tokens.length < fuel) :
    (parseItems expression fuel).Reads tokens fun _ rest => Shrink tokens rest := by
  induction fuel generalizing tokens with
  | zero => omega
  | succ fuel induction =>
      apply (nests tokens ended small).bind
      intro item first taken
      apply reads_ifAccept taken.ended
      · exact fun rest closed => reads_pure (taken.trans closed.remain)
      · apply (reads_expect taken.ended ",").bind
        intro _ second comma
        have both := taken.trans comma.remain
        have lt := both.lt
        apply (induction both.ended (by omega) (by omega)).bind
        intro items rest further
        exact reads_pure (both.trans further.remain)

theorem reads_parseFieldValue (nests : Nests expression bound) (ended : Ended tokens)
    (small : tokens.length ≤ bound) (position : Position) (name : String) :
    (parseFieldValue expression position name).Reads tokens fun _ rest =>
      Remain tokens rest := by
  apply reads_ifAccept ended
  · intro first sign
    have lt := sign.lt
    apply (nests first sign.ended (by omega)).imp
    exact fun _ rest taken => (sign.trans taken.remain).remain
  · exact reads_pure (.refl ended)

theorem reads_parseFields (nests : Nests expression bound) (ended : Ended tokens)
    (small : tokens.length ≤ bound) (enough : tokens.length < fuel) :
    (parseFields expression fuel).Reads tokens fun _ rest => Shrink tokens rest := by
  induction fuel generalizing tokens with
  | zero => omega
  | succ fuel induction =>
      apply (reads_takeName ended fun _ => rfl).bind
      rintro ⟨position, name⟩ first named
      have namedLt := named.lt
      apply (reads_parseFieldValue nests named.ended (by omega) position name).bind
      intro value second valued
      have taken := named.trans valued
      apply reads_ifAccept taken.ended
      · exact fun rest closed => reads_pure (taken.trans closed.remain)
      · apply (reads_expect taken.ended ",").bind
        intro _ third comma
        have both := taken.trans comma.remain
        have lt := both.lt
        apply (induction both.ended (by omega) (by omega)).bind
        intro fields rest further
        exact reads_pure (both.trans further.remain)

theorem reads_seesRest (ended : Ended tokens) :
    seesRest.Reads tokens fun isRest rest => rest = tokens ∧
      (isRest = true → take.Reads tokens fun _ remaining => Shrink tokens remaining) := by
  rcases ended with ⟨front, position, rfl⟩
  match front with
  | [] => exact And.intro rfl fun isRest => (nomatch isRest)
  | [token] =>
      refine And.intro rfl fun isRest => ?_
      exact reads_take_word ⟨[token], position, rfl⟩ (Bool.and_eq_true_iff.1 isRest).1
  | token :: following :: front =>
      refine And.intro rfl fun isRest => ?_
      exact reads_take_word ⟨token :: following :: front, position, rfl⟩
        (Bool.and_eq_true_iff.1 isRest).1

theorem reads_endChoice (ended : Ended tokens) :
    endChoice.Reads tokens fun _ rest => Remain tokens rest := by
  apply reads_ifAccept ended
  · exact fun rest taken => reads_pure taken.remain
  · have seen : (sees "esac").Reads tokens fun _ rest => rest = tokens :=
      (reads_peek ended).bind fun _ _ same => reads_pure same
    apply seen.bind
    rintro isEnd _ rfl
    split
    · exact reads_pure (.refl ended)
    · apply (reads_peek ended).bind
      rintro token _ rfl
      exact reads_refuse rfl token

theorem reads_parseChoices (nests : Nests expression bound) (ended : Ended tokens)
    (small : tokens.length ≤ bound) (enough : tokens.length < fuel) :
    (parseChoices expression fuel).Reads tokens fun _ rest => Shrink tokens rest := by
  induction fuel generalizing tokens with
  | zero => omega
  | succ fuel induction =>
      apply reads_ifAccept ended
      · exact fun rest taken => reads_pure taken
      · apply (reads_peek ended).bind
        rintro token _ rfl
        apply (reads_seesRest ended).bind
        rintro isRest _ ⟨rfl, notEnd⟩
        split
        next isDots =>
          apply (notEnd isDots).bind
          intro _ first dots
          apply (reads_endChoice dots.ended).bind
          intro _ second separated
          have both := dots.trans separated
          have lt := both.lt
          apply (induction both.ended (by omega) (by omega)).bind
          intro choices rest further
          exact reads_pure (both.trans further.remain)
        next =>
          apply (nests _ ended small).bind
          intro pattern first taken
          apply (reads_expect taken.ended ":").bind
          intro _ second colon
          have both := taken.trans colon.remain
          have lt := both.lt
          apply (nests second both.ended (by omega)).bind
          intro body third bodied
          apply (reads_endChoice bodied.ended).bind
          intro _ fourth separated
          have all := both.trans (bodied.remain.trans separated)
          have allLt := all.lt
          apply (induction all.ended (by omega) (by omega)).bind
          intro choices rest further
          exact reads_pure (all.trans further.remain)

/-! ## Rules -/

theorem reads_parseCase (nests : Nests expression bound) (ended : Ended tokens)
    (small : tokens.length ≤ bound) (position : Position) :
    (parseCase expression position).Reads tokens fun _ rest => Remain tokens rest := by
  apply (nests tokens ended small).bind
  intro value first taken
  apply (reads_expect taken.ended "of").bind
  intro _ second word
  have both := taken.trans word.remain
  have lt := both.lt
  apply reads_allowance.bind
  rintro _ _ ⟨rfl, rfl⟩
  apply (reads_parseChoices nests both.ended (by omega) (Nat.lt_succ_self _)).bind
  intro choices rest further
  exact reads_pure (both.trans further.remain).remain

theorem reads_parseName (ended : Ended tokens) (position : Position) (name : String) :
    (parseName position name).Reads tokens fun _ rest => Remain tokens rest := by
  apply reads_ifAccept ended
  · intro first sign
    apply (reads_takeName sign.ended fun _ => rfl).bind
    rintro ⟨_, field⟩ rest named
    exact reads_pure (sign.trans named.remain).remain
  · exact reads_pure (.refl ended)

theorem reads_parseParenthesized (nests : Nests expression bound) (ended : Ended tokens)
    (small : tokens.length ≤ bound) (position : Position) :
    (parseParenthesized expression position).Reads tokens fun _ rest =>
      Remain tokens rest := by
  apply reads_ifAccept ended
  · exact fun rest closed => reads_pure closed.remain
  · apply (nests tokens ended small).bind
    intro inner first taken
    apply (reads_expect taken.ended ")").bind
    intro _ rest closed
    exact reads_pure (taken.trans closed.remain).remain

theorem reads_bracketed {α : Type} {close : String} {empty : α} {items : Nat → Parser α}
    {wrap : α → Expr} (ended : Ended tokens)
    (itemsRead : (items (tokens.length + 1)).Reads tokens fun _ rest =>
      Shrink tokens rest) :
    (do
      if ← accept close then return wrap empty
      return wrap (← items (← allowance)) : Parser Expr).Reads tokens fun _ rest =>
        Remain tokens rest := by
  apply reads_ifAccept ended
  · exact fun rest closed => reads_pure closed.remain
  · apply reads_allowance.bind
    rintro _ _ ⟨rfl, rfl⟩
    apply itemsRead.bind
    exact fun _ rest taken => reads_pure taken.remain

theorem nests_parseAtom (nests : Nests expression bound) :
    Nests (parseAtom expression) (bound + 1) := by
  intro tokens ended small
  apply (reads_take ended).bind
  rintro ⟨lexeme, position⟩ first (taken | ⟨isFinish, _⟩)
  · have lt := taken.lt
    have inside : first.length ≤ bound := by omega
    have further {parser : Parser Expr}
        (reads : parser.Reads first fun _ rest => Remain first rest) :
        parser.Reads first fun _ rest => Shrink tokens rest :=
      reads.imp fun _ rest remain => taken.trans remain
    dsimp only
    split
    · split
      · exact reads_pure taken
      · exact reads_refuse rfl _
    · split
      · exact reads_pure taken
      · exact reads_refuse rfl _
    · split
      · exact further (reads_parseCase nests taken.ended inside position)
      · split
        · exact reads_refuse rfl _
        · exact further (reads_parseName taken.ended position _)
    · exact reads_pure taken
    · exact further (reads_parseParenthesized nests taken.ended inside position)
    · apply further (reads_bracketed taken.ended ?_)
      exact reads_parseItems nests taken.ended inside (Nat.lt_succ_self _)
    · apply further (reads_bracketed taken.ended ?_)
      exact reads_parseFields nests taken.ended inside (Nat.lt_succ_self _)
    · exact reads_refuse rfl _
  · cases isFinish
    exact reads_refuse rfl _

theorem reads_parseSelections (ended : Ended tokens) (enough : tokens.length < fuel)
    (inner : Expr) :
    (parseSelections fuel inner).Reads tokens fun _ rest => Remain tokens rest := by
  induction fuel generalizing tokens inner with
  | zero => omega
  | succ fuel induction =>
      apply (reads_peek ended).bind
      rintro point _ rfl
      apply reads_ifAccept ended
      · intro first sign
        apply (reads_takeName sign.ended fun _ => rfl).bind
        rintro ⟨_, field⟩ second named
        have both := sign.trans named.remain
        have lt := both.lt
        apply (induction both.ended (by omega) _).imp
        exact fun _ rest further => (both.trans further).remain
      · exact reads_pure (.refl ended)

theorem nests_parsePostfix (nests : Nests expression bound) :
    Nests (parsePostfix expression) (bound + 1) := by
  intro tokens ended small
  apply (nests_parseAtom nests tokens ended small).bind
  intro atom first taken
  apply reads_allowance.bind
  rintro _ _ ⟨rfl, rfl⟩
  apply (reads_parseSelections taken.ended (Nat.lt_succ_self _) atom).imp
  exact fun _ rest further => taken.trans further

theorem nests_parseApplication (nests : Nests expression bound) :
    Nests (parseApplication expression) (bound + 1) := by
  intro tokens ended small
  apply (nests_parsePostfix nests tokens ended small).bind
  intro head first taken
  split
  · apply (reads_peek taken.ended).bind
    rintro token _ rfl
    split
    · have lt := taken.lt
      apply (nests_parsePostfix nests _ taken.ended (by omega)).bind
      exact fun argument rest further => reads_pure (taken.trans further.remain)
    · exact reads_pure taken
  · exact reads_pure taken

theorem reads_parseFactors (nests : Nests expression bound) (ended : Ended tokens)
    (small : tokens.length ≤ bound + 1) (enough : tokens.length < fuel) (left : Expr) :
    (parseFactors expression fuel left).Reads tokens fun _ rest =>
      Remain tokens rest := by
  induction fuel generalizing tokens left with
  | zero => omega
  | succ fuel induction =>
      apply (reads_peek ended).bind
      rintro sign _ rfl
      apply reads_ifAccept ended
      · intro first signed
        have signedLt := signed.lt
        apply (nests_parseApplication nests first signed.ended (by omega)).bind
        intro right second factor
        have both := signed.trans factor.remain
        have lt := both.lt
        apply (induction both.ended (by omega) (by omega) _).imp
        exact fun _ rest further => (both.trans further).remain
      · exact reads_pure (.refl ended)

theorem nests_parseProduct (nests : Nests expression bound) :
    Nests (parseProduct expression) (bound + 1) := by
  intro tokens ended small
  apply (nests_parseApplication nests tokens ended small).bind
  intro left first taken
  have lt := taken.lt
  apply reads_allowance.bind
  rintro _ _ ⟨rfl, rfl⟩
  apply (reads_parseFactors nests taken.ended (by omega) (Nat.lt_succ_self _) left).imp
  exact fun _ rest further => taken.trans further

theorem reads_parseTerms (nests : Nests expression bound) (ended : Ended tokens)
    (small : tokens.length ≤ bound + 1) (enough : tokens.length < fuel) (left : Expr) :
    (parseTerms expression fuel left).Reads tokens fun _ rest => Remain tokens rest := by
  induction fuel generalizing tokens left with
  | zero => omega
  | succ fuel induction =>
      -- A term after either sign.
      have term (combine : Expr → Expr) {first : List Token}
          (signed : Shrink tokens first) :
          (do parseTerms expression fuel (combine (← parseProduct expression)) :
            Parser Expr).Reads first
            fun _ rest => Remain tokens rest := by
        have signedLt := signed.lt
        apply (nests_parseProduct nests first signed.ended (by omega)).bind
        intro right second product
        have both := signed.trans product.remain
        have lt := both.lt
        apply (induction both.ended (by omega) (by omega) _).imp
        exact fun _ rest further => (both.trans further).remain
      apply (reads_peek ended).bind
      rintro sign _ rfl
      apply reads_ifAccept ended
      · exact fun first signed => term (.binary sign.position .add left) signed
      · apply reads_ifAccept ended
        · exact fun first signed => term (.binary sign.position .subtract left) signed
        · exact reads_pure (.refl ended)

theorem nests_parseAdditive (nests : Nests expression bound) :
    Nests (parseAdditive expression) (bound + 1) := by
  intro tokens ended small
  apply (nests_parseProduct nests tokens ended small).bind
  intro left first taken
  have lt := taken.lt
  apply reads_allowance.bind
  rintro _ _ ⟨rfl, rfl⟩
  apply (reads_parseTerms nests taken.ended (by omega) (Nat.lt_succ_self _) left).imp
  exact fun _ rest further => taken.trans further

theorem nests_parseWith (nests : Nests expression bound) :
    Nests (parseWith expression) (bound + 1) := by
  intro tokens ended small
  apply (nests_parseAdditive nests tokens ended small).bind
  intro left first taken
  apply (reads_peek taken.ended).bind
  rintro sign _ rfl
  apply reads_ifAccept taken.ended
  · intro second signed
    have both := taken.trans signed.remain
    have lt := both.lt
    apply (nests second both.ended (by omega)).bind
    exact fun right rest further => reads_pure (both.trans further.remain)
  · exact reads_pure taken

theorem nests_parseNested (fuel : Nat) : Nests (parseNested fuel) fuel := by
  induction fuel with
  | zero =>
      intro tokens ended small
      rcases ended.exists_cons with ⟨token, rest, rfl, _⟩
      cases small
  | succ fuel induction => exact nests_parseWith induction

/-! ## Whole sources -/

theorem reads_parseWhole (ended : Ended tokens) (small : tokens.length ≤ fuel) :
    (parseWhole fuel).Reads tokens fun _ _ => True := by
  apply (nests_parseNested fuel tokens ended small).bind
  intro expression first taken
  apply (reads_peek taken.ended).bind
  rintro token _ rfl
  split
  · exact reads_pure trivial
  · exact reads_refuse rfl token

theorem ends_parse (source : Source) : Ends (parse source) fun _ => True := by
  apply (Token.ends_scan source).bind
  intro tokens ended
  apply Ends.bind (reads_parseWhole ended (Nat.le_succ _))
  exact fun _ _ => trivial

end Expr

end Casework
