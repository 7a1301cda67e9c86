import Casework.Token.Scanner

/-!
Scanning comes to an end.

Every token and every comment takes at least one character, so the bounds on repetitions
are never reached. The tokens of a source end with the end of the source.
-/

namespace Casework

/-- Tells whether a source is refused for a reason that is no fault of the source. -/
def SyntaxCause.isPanic : SyntaxCause → Bool
  | pastEnd => true
  | endless => true
  | _ => false

/-- What holds of the result of reading. A failure can be reported. -/
def Ends {α : Type} (outcome : Except SyntaxError α) (done : α → Prop) : Prop :=
  match outcome with
  | .ok value => done value
  | .error error => error.cause.isPanic = false

namespace Ends

variable {α β : Type} {outcome : Except SyntaxError α} {done other : α → Prop}
  {last : β → Prop}

theorem pure {value : α} (holds : done value) : Ends (Pure.pure value) done := holds

theorem throw {error : SyntaxError} (reported : error.cause.isPanic = false) :
    Ends (MonadExcept.throw error) done := reported

theorem bind {next : α → Except SyntaxError β} (first : Ends outcome done)
    (second : ∀ value, done value → Ends (next value) last) :
    Ends (outcome >>= next) last := by
  cases outcome with
  | ok value => exact second value first
  | error error => exact first

theorem throw_bind {error : SyntaxError} {next : α → Except SyntaxError β}
    (reported : error.cause.isPanic = false) :
    Ends (MonadExcept.throw error >>= next) last := reported

theorem imp (ends : Ends outcome done) (implies : ∀ value, done value → other value) :
    Ends outcome other := by
  cases outcome with
  | ok value => exact implies value ends
  | error error => exact ends

end Ends

/-- Tokens that end with the end of the source. -/
def Ended (tokens : List Token) : Prop :=
  ∃ front position, tokens = front ++ [⟨.finish, position⟩]

theorem Ended.exists_cons {tokens : List Token} (ended : Ended tokens) :
    ∃ token rest, tokens = token :: rest ∧ (token.lexeme ≠ .finish → Ended rest) := by
  rcases ended with ⟨front, position, rfl⟩
  cases front with
  | nil => exact ⟨_, _, rfl, fun notFinish => absurd rfl notFinish⟩
  | cons token front => exact ⟨token, _, rfl, fun _ => ⟨front, position, rfl⟩⟩

namespace Token

variable {place : Option Position} {glyphs : List Glyph} {character : Char}

/-! ## Taking characters -/

theorem length_pos_of_current? (found : current? glyphs = some character) :
    0 < glyphs.length := by
  cases glyphs with
  | nil => cases found
  | cons glyph rest => exact Nat.succ_pos _

theorem ends_look (place : Option Position) (rest : List Glyph) :
    Ends (look place rest) fun _ => True := by
  cases rest with
  | nil => trivial
  | cons glyph rest =>
      unfold look
      dsimp only
      split
      · exact .throw rfl
      · split
        · exact .throw rfl
        · trivial

theorem ends_advance (place : Option Position) (glyphs : List Glyph) :
    Ends (advance place glyphs) fun rest => rest = glyphs.drop 1 :=
  (ends_look place _).bind fun _ _ => .pure rfl

theorem ends_advance_le (place : Option Position) (glyphs : List Glyph) :
    Ends (advance place glyphs) fun rest => rest.length ≤ glyphs.length := by
  apply (ends_advance place glyphs).imp
  rintro _ rfl
  rw [List.length_drop]
  exact Nat.sub_le _ _

theorem ends_advance_lt (place : Option Position)
    (found : current? glyphs = some character) :
    Ends (advance place glyphs) fun rest => rest.length < glyphs.length := by
  have positive := length_pos_of_current? found
  apply (ends_advance place glyphs).imp
  rintro _ rfl
  rw [List.length_drop]
  omega

theorem ends_takeWhile (place : Option Position) (holds : Char → Bool)
    (glyphs : List Glyph) :
    Ends (takeWhile place holds glyphs) fun result =>
      result.2.length < glyphs.length ∨
        result.2 = glyphs ∧ ∀ character, current? glyphs = some character →
          holds character = false := by
  induction glyphs with
  | nil => exact .pure (.inr ⟨rfl, fun _ found => (nomatch found)⟩)
  | cons glyph rest induction =>
      unfold takeWhile
      split
      next absent =>
          refine .pure (.inr ⟨rfl, fun character found => ?_⟩)
          change glyph.character? = some character at found
          rw [found] at absent
          exact Option.filter_eq_none_iff.1 absent character rfl |> Bool.eq_false_iff.2
      next character present =>
          apply (ends_look place rest).bind
          intro _ _
          apply induction.bind
          intro result shorter
          refine .pure (.inl ?_)
          rcases shorter with less | ⟨same, _⟩
          · exact Nat.lt_succ_of_lt less
          · dsimp only
            rw [same]
            exact Nat.lt_succ_self _

theorem ends_takeWhile_le (place : Option Position) (holds : Char → Bool)
    (glyphs : List Glyph) :
    Ends (takeWhile place holds glyphs) fun result => result.2.length ≤
      glyphs.length := by
  apply (ends_takeWhile place holds glyphs).imp
  rintro result (less | ⟨same, _⟩)
  · exact Nat.le_of_lt less
  · exact Nat.le_of_eq (congrArg List.length same)

theorem ends_takeWhile_lt (place : Option Position) {holds : Char → Bool}
    (found : current? glyphs = some character) (passes : holds character) :
    Ends (takeWhile place holds glyphs) fun result => result.2.length <
      glyphs.length := by
  apply (ends_takeWhile place holds glyphs).imp
  rintro result (less | ⟨_, fails⟩)
  · exact less
  · rw [fails character found] at passes
    cases passes

/-! ## Spaces and comments -/

theorem ends_skipBlock (place : Option Position) (starred : Bool) (glyphs : List Glyph) :
    Ends (skipBlock place starred glyphs) fun rest => rest.length ≤ glyphs.length := by
  induction glyphs generalizing starred with
  | nil => exact .throw rfl
  | cons glyph rest induction =>
      unfold skipBlock
      apply (ends_look place rest).bind
      intro _ _
      split
      · exact .pure (Nat.le_succ _)
      · exact (induction _).imp fun _ shorter => Nat.le_succ_of_le shorter

theorem ends_skipComment (place : Option Position) (glyphs : List Glyph) :
    Ends (skipComment place glyphs) fun rest => rest.length ≤ glyphs.length := by
  unfold skipComment
  split
  · apply (ends_advance_le place glyphs).bind
    intro rest shorter
    exact (ends_skipBlock place false rest).imp fun _ less => Nat.le_trans less shorter
  · apply (ends_takeWhile_le place _ glyphs).bind
    intro result shorter
    exact .pure shorter

theorem ends_skipBlanks {fuel : Nat} (enough : glyphs.length < fuel) :
    Ends (skipBlanks fuel place glyphs) fun rest => rest.length ≤ glyphs.length := by
  induction fuel generalizing place glyphs with
  | zero => omega
  | succ fuel induction =>
      unfold skipBlanks
      apply (ends_takeWhile_le place _ glyphs).bind
      rintro ⟨blanks, rest⟩ shorter
      dsimp only at shorter ⊢
      split
      next position second _ _ =>
          split
          · apply (ends_advance_lt (some position)
              (rfl : current? (⟨some '/', position⟩ :: _) = some '/')).bind
            intro inner less
            apply (ends_skipComment (some position) inner).bind
            intro following innerLess
            refine Ends.imp (induction ?_) fun final finalLess => ?_
            · omega
            · omega
          · exact .pure shorter
      next => exact .pure shorter

/-! ## Strings -/

theorem ends_escapeDigits (place : Option Position)
    (digit? : Char → Option Nat) (count : Nat) (glyphs : List Glyph) :
    Ends (escapeDigits place digit? count glyphs) fun result => result.2.length ≤
      glyphs.length := by
  induction count generalizing glyphs with
  | zero => exact .pure (Nat.le_refl _)
  | succ count induction =>
      unfold escapeDigits
      split
      · exact .throw rfl
      · apply (ends_advance_le place glyphs).bind
        intro rest shorter
        apply (induction rest).bind
        intro result less
        exact .pure (Nat.le_trans less shorter)

theorem ends_scanCode (place : Option Position) (glyphs : List Glyph)
    (letter : Char) (count : Nat) :
    Ends (do
      let rest ← advance place glyphs
      let (taken, rest) ← escapeDigits place Text.hexValue? count rest
      return (letter :: taken, rest)) fun result : List Char × List Glyph =>
        result.2.length ≤ glyphs.length := by
  apply (ends_advance_le place glyphs).bind
  intro rest shorter
  apply (ends_escapeDigits place _ count rest).bind
  intro result less
  exact .pure (Nat.le_trans less shorter)

theorem ends_scanEscape (place : Option Position) (glyphs : List Glyph) :
    Ends (scanEscape place glyphs) fun result => result.2.length ≤ glyphs.length := by
  unfold scanEscape
  split
  · exact .throw rfl
  · split
    · exact (ends_advance_le place glyphs).bind fun _ shorter => .pure shorter
    · split
      · exact ends_escapeDigits place _ 3 glyphs
      · split
        · exact ends_scanCode place glyphs _ 2
        · exact ends_scanCode place glyphs _ 4
        · exact ends_scanCode place glyphs _ 8
        · exact .throw rfl

theorem ends_scanString_rest (place : Option Position) {fuel bound : Nat}
    {remaining : List Glyph} (ends : Ends (scanString place fuel remaining) fun result =>
      result.2.length ≤ remaining.length)
    (shorter : remaining.length ≤ bound) (character : Char) (taken : List Char) :
    Ends (do
      let (following, rest) ← scanString place fuel remaining
      return (character :: taken ++ following, rest))
        fun result : List Char × List Glyph =>
        result.2.length ≤ bound :=
  ends.bind fun _ less => .pure (Nat.le_trans less shorter)

theorem ends_scanString (place : Option Position) {fuel : Nat}
    (enough : glyphs.length < fuel) :
    Ends (scanString place fuel glyphs) fun result => result.2.length ≤
      glyphs.length := by
  induction fuel generalizing glyphs with
  | zero => omega
  | succ fuel induction =>
      unfold scanString
      split
      · exact .throw rfl
      next character found =>
          dsimp only
          split
          · exact .throw_bind rfl
          · apply (ends_advance_lt place found).bind
            intro rest less
            have following {remaining : List Glyph}
                (shorter : remaining.length ≤ rest.length) :=
              have within : remaining.length < fuel := by omega
              ends_scanString_rest place (induction within)
                (Nat.le_trans shorter (Nat.le_of_lt less))
                character
            split
            · exact .pure (Nat.le_of_lt less)
            · split
              · exact (ends_scanEscape place rest).bind fun result shorter =>
                  following shorter _
              · exact following (Nat.le_refl _) _

/-! ## Numbers -/

theorem ends_takeDigits (place : Option Position) (isDigit : Char → Bool)
    (glyphs : List Glyph) :
    Ends (takeDigits place isDigit glyphs) fun result => result.2.length ≤
      glyphs.length :=
  ends_takeWhile_le place _ glyphs

theorem ends_scanExponent_digits (place : Option Position) {bound : Nat}
    {remaining : List Glyph} (shorter : remaining.length ≤ bound) (letter : Char)
    (sign : List Char) :
    Ends (do
      let (digits, rest) ← takeDigits place Char.isDigit remaining
      unless hasDigit digits do throw ⟨place, .noExponentDigits⟩
      return (letter :: sign ++ digits, rest)) fun result : List Char × List Glyph =>
        result.2.length ≤ bound := by
  apply (ends_takeDigits place _ remaining).bind
  intro result less
  dsimp only
  split
  · exact .pure (Nat.le_trans less shorter)
  · exact .throw rfl

theorem ends_scanExponent (place : Option Position) (opening : Opening)
    (glyphs : List Glyph) :
    Ends (scanExponent place opening glyphs) fun result => result.2.length ≤
      glyphs.length := by
  unfold scanExponent
  split
  · exact .pure (Nat.le_refl _)
  · dsimp only
    split
    · exact .throw_bind rfl
    · split
      · exact .throw_bind rfl
      · apply (ends_advance_le place glyphs).bind
        intro rest shorter
        have signed {remaining : List Glyph} (less : remaining.length ≤ rest.length) :=
          ends_scanExponent_digits place (Nat.le_trans less shorter)
        split
        · exact (ends_advance_le place rest).bind fun _ less => signed less _ _
        · exact (ends_advance_le place rest).bind fun _ less => signed less _ _
        · exact signed (Nat.le_refl _) _ _

theorem ends_scanOpening (place : Option Position) (glyphs : List Glyph) :
    Ends (scanOpening place glyphs) fun result =>
      result.2.2.length < glyphs.length ∨ result.1 = .plain ∧ result.2.2 = glyphs := by
  unfold scanOpening
  split
  · exact .pure (.inr ⟨rfl, rfl⟩)
  next isZero =>
      have found : current? glyphs = some '0' := by
        simpa using isZero
      apply (ends_advance_lt place found).bind
      intro rest less
      split
      · apply (ends_advance_le place rest).bind
        intro following shorter
        exact .pure (.inl (Nat.lt_of_le_of_lt shorter less))
      · exact .pure (.inl less)

theorem ends_finishNumber (place : Option Position) (opening : Opening) (pointed : Bool)
    (start whole point fraction : List Char) (glyphs : List Glyph) :
    Ends
      (finishNumber place opening pointed start whole point fraction glyphs) fun result =>
      result.2.length ≤ glyphs.length := by
  unfold finishNumber
  dsimp only
  split
  · apply (ends_scanExponent place opening glyphs).bind
    rintro ⟨exponent, rest⟩ shorter
    have written : ∀ text : List Char, Ends (do
        if text.contains '_' && !Number.separatorsAllowed text then
          throw ⟨place, .misplacedSeparator⟩
        return (text, rest)) fun result : List Char × List Glyph => result.2.length ≤
          glyphs.length := by
      intro text
      dsimp only
      split
      · exact .throw_bind rfl
      · exact .pure shorter
    split
    · exact .throw_bind rfl
    · split
      · split
        · exact .throw_bind rfl
        · exact written _
      · exact written _
  · exact .throw_bind rfl

theorem ends_scanNumber (place : Option Position)
    (found : current? glyphs = some character)
    (starts : character.isDigit ∨ character = '.') :
    Ends (scanNumber place glyphs) fun result => result.2.length < glyphs.length := by
  unfold scanNumber
  apply (ends_scanOpening place glyphs).bind
  rintro ⟨opening, start, rest⟩ opened
  apply (ends_takeWhile place _ rest).bind
  rintro ⟨whole, remaining⟩ taken
  have progress : remaining.length < glyphs.length ∨
      remaining.length ≤ glyphs.length ∧ current? remaining = some '.' := by
    dsimp only at opened taken
    rcases opened with less | ⟨rfl, rfl⟩
    · rcases taken with more | ⟨rfl, _⟩
      · exact .inl (Nat.lt_trans more less)
      · exact .inl less
    · rcases taken with more | ⟨rfl, fails⟩
      · exact .inl more
      · rcases starts with isDigit | rfl
        · have failed := fails character found
          simp [Opening.isTaken, isDigit] at failed
        · exact .inr ⟨Nat.le_refl _, found⟩
  dsimp only
  split
  next isPoint =>
      have point : current? remaining = some '.' := by simpa using isPoint
      apply (ends_advance_lt place point).bind
      intro following less
      split
      · exact .throw_bind rfl
      · apply (ends_takeDigits place _ following).bind
        rintro ⟨fraction, last⟩ lastLess
        apply (ends_finishNumber place opening true start whole _ fraction last).imp
        intro result shorter
        dsimp only at lastLess
        omega
  next noPoint =>
      apply (ends_finishNumber place opening false start whole _ _ remaining).imp
      intro result shorter
      rcases progress with less | ⟨_, point⟩
      · omega
      · rw [point] at noPoint
        exact absurd rfl noPoint

/-! ## Tokens -/

theorem ends_scanMark (position : Position) (found : current? glyphs = some character) :
    Ends (scanMark position character glyphs) fun result => result.2.length <
      glyphs.length := by
  unfold scanMark
  apply (ends_advance_lt (some position) found).bind
  intro rest less
  split
  · exact (ends_advance_le none rest).bind fun _ shorter =>
      .pure (Nat.lt_of_le_of_lt shorter less)
  · exact (ends_advance_le none rest).bind fun _ shorter =>
      .pure (Nat.lt_of_le_of_lt shorter less)
  · dsimp only
    split
    · apply (ends_advance_le none _).bind
      intro following shorter
      rw [List.length_drop] at shorter
      exact .pure (Nat.lt_of_le_of_lt (Nat.le_trans shorter (Nat.sub_le _ _)) less)
    · exact .throw rfl
  · split
    · exact .pure less
    · exact .throw rfl

theorem ends_scanLexeme (position : Position) (found : current? glyphs = some character) :
    Ends (scanLexeme position character glyphs) fun result => result.2.length <
      glyphs.length := by
  unfold scanLexeme
  dsimp only
  split
  next starts =>
      have continues : continuesName character := by simp [continuesName, starts]
      exact (ends_takeWhile_lt (some position) found continues).bind
        fun _ less => .pure less
  · split
    next isDigit =>
        exact (ends_scanNumber (some position) found (.inl isDigit)).bind
          fun _ less => .pure less
    · split
      next isPoint =>
          have point : character = '.' := by
            rw [Bool.and_eq_true, beq_iff_eq] at isPoint
            exact isPoint.1
          exact (ends_scanNumber (some position) found (.inr point)).bind
            fun _ less => .pure less
      · split
        · apply (ends_advance_lt (some position) found).bind
          intro rest less
          apply (ends_scanString (some position) (Nat.lt_succ_self _)).bind
          intro result shorter
          exact .pure (Nat.lt_of_le_of_lt shorter less)
        · exact (ends_scanMark position found).bind fun _ less => .pure less

theorem ends_scanFrom (finish : Position) {fuel : Nat} (enough : glyphs.length < fuel) :
    Ends (scanFrom finish fuel glyphs) Ended := by
  induction fuel generalizing glyphs with
  | zero => omega
  | succ fuel induction =>
      unfold scanFrom
      apply (ends_skipBlanks (Nat.lt_succ_self _)).bind
      intro rest shorter
      split
      next character position _ =>
          apply (ends_scanLexeme position
            (rfl : current? (⟨some character, position⟩ :: _) = _)).bind
          intro result less
          refine Ends.bind (induction (by omega)) fun tokens ended => .pure ?_
          rcases ended with ⟨front, last, rfl⟩
          exact ⟨_ :: front, last, rfl⟩
      next => exact .pure ⟨[], finish, rfl⟩

/-- The tokens of a source end with its end, or the source is refused for a reason of its
own. -/
theorem ends_scan (source : Source) : Ends (scan source) Ended := by
  unfold scan
  apply (ends_look none _).bind
  intro _ _
  split
  · apply (ends_advance none _).bind
    intro glyphs _
    exact ends_scanFrom source.finish (Nat.lt_succ_self _)
  · exact ends_scanFrom source.finish (Nat.lt_succ_self _)

end Token

end Casework
