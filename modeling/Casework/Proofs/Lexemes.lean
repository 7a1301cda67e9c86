import Casework.Proofs.Grammar
import Casework.Proofs.Scanning

/-!
What scanned tokens look like.

A name is a run of its letters and digits, a mark is one of the marks, and a string starts
with its quote. A number is whatever the scanner takes for one; what matters is that it
takes the same characters again wherever they stand, as long as what follows them cannot
go on with a number.
-/

namespace Casework.Token

theorem bind_eq_ok {α β : Type} {outcome : Except SyntaxError α}
    {next : α → Except SyntaxError β} {result : β} (ran : outcome >>= next = .ok result) :
    ∃ value, outcome = .ok value ∧ next value = .ok result := by
  cases outcome with
  | ok value => exact ⟨value, rfl, ran⟩
  | error error => cases ran

/-! ## Characters -/

/-- The glyphs start with the given characters, and others follow. -/
def Spells : List Glyph → List Char → List Glyph → Prop
  | glyphs, [], rest => glyphs = rest
  | glyphs, character :: taken, rest =>
      ∃ position later, glyphs = ⟨some character, position⟩ :: later ∧
        Spells later taken rest

def Checked (glyphs : List Glyph) : Prop :=
  ∀ place, look place glyphs = .ok ()

def NoNul (characters : List Char) : Prop :=
  ∀ character ∈ characters, character.toNat ≠ 0

section Spells

variable {glyphs middle rest : List Glyph} {taken later : List Char} {character : Char}

theorem Spells.append (first : Spells glyphs taken middle)
    (second : Spells middle later rest) :
    Spells glyphs (taken ++ later) rest := by
  induction taken generalizing glyphs with
  | nil =>
      cases first
      exact second
  | cons character taken induction =>
      rcases first with ⟨position, following, rfl, spelled⟩
      exact ⟨position, following, rfl, induction spelled⟩

theorem Spells.split (spelled : Spells glyphs (taken ++ later) rest) :
    ∃ middle, Spells glyphs taken middle ∧ Spells middle later rest := by
  induction taken generalizing glyphs with
  | nil => exact ⟨glyphs, rfl, spelled⟩
  | cons character taken induction =>
      rcases spelled with ⟨position, following, rfl, spelled⟩
      rcases induction spelled with ⟨middle, first, second⟩
      exact ⟨middle, ⟨position, following, rfl, first⟩, second⟩

theorem Spells.length_eq (spelled : Spells glyphs taken rest) :
    glyphs.length = taken.length + rest.length := by
  induction taken generalizing glyphs with
  | nil =>
      cases spelled
      exact (Nat.zero_add _).symm
  | cons character taken induction =>
      rcases spelled with ⟨position, following, rfl, spelled⟩
      rw [List.length_cons, List.length_cons, induction spelled]
      omega

theorem checked_nil : Checked [] := fun _ => rfl

theorem checked_cons {position : Position} (notNul : character.toNat ≠ 0) :
    Checked (⟨some character, position⟩ :: rest) := by
  intro place
  simp only [look, notNul, if_false]
  rfl

theorem Spells.checked (spelled : Spells glyphs taken rest) (noNul : NoNul taken)
    (checked : Checked rest) : Checked glyphs := by
  cases taken with
  | nil =>
      cases spelled
      exact checked
  | cons character taken =>
      rcases spelled with ⟨position, following, rfl, _⟩
      exact checked_cons (noNul character List.mem_cons_self)

theorem Spells.current?_eq (spelled : Spells glyphs taken rest) :
    current? glyphs = (taken.head?.or (current? rest)) := by
  cases taken with
  | nil =>
      cases spelled
      rfl
  | cons character taken =>
      rcases spelled with ⟨position, following, rfl, _⟩
      rfl

theorem advance_cons {glyph : Glyph} (checked : Checked rest) (place : Option Position) :
    advance place (glyph :: rest) = .ok rest := by
  rw [advance]
  change look place rest >>= _ = _
  rw [checked place]
  rfl

theorem advance_eq_ok {place : Option Position} (found : current? glyphs = some character)
    (advanced : advance place glyphs = .ok rest) : Spells glyphs [character] rest := by
  cases glyphs with
  | nil => cases found
  | cons glyph following =>
      rcases glyph with ⟨_, position⟩
      cases (show _ = some character from found)
      rcases bind_eq_ok advanced with ⟨_, _, same⟩
      cases same
      exact ⟨position, _, rfl, rfl⟩

theorem NoNul.append (first : NoNul taken) (second : NoNul later) :
    NoNul (taken ++ later) := by
  intro character isMember
  rcases List.mem_append.1 isMember with isFirst | isSecond
  · exact first character isFirst
  · exact second character isSecond

end Spells

/-! ## Runs of characters -/

section TakeWhile

variable {place : Option Position} {holds : Char → Bool} {glyphs rest : List Glyph}
  {taken : List Char}

theorem takeWhile_eq_ok (ran : takeWhile place holds glyphs = .ok (taken, rest)) :
    Spells glyphs taken rest ∧ (∀ character ∈ taken, holds character = true) ∧
      ∀ character, current? rest = some character → holds character = false := by
  induction glyphs generalizing taken with
  | nil =>
      cases ran
      exact ⟨rfl, nofun, nofun⟩
  | cons glyph following induction =>
      unfold takeWhile at ran
      split at ran
      next absent =>
          cases ran
          refine ⟨rfl, nofun, fun character found => ?_⟩
          change glyph.character? = some character at found
          rw [found] at absent
          exact Bool.eq_false_iff.2 (Option.filter_eq_none_iff.1 absent character rfl)
      next character present =>
          rcases bind_eq_ok ran with ⟨_, _, ran⟩
          rcases bind_eq_ok ran with ⟨⟨more, last⟩, ranMore, ended⟩
          cases ended
          rcases induction ranMore with ⟨spelled, all, stop⟩
          rcases Option.filter_eq_some_iff.1 present with ⟨found, passes⟩
          rcases glyph with ⟨_, position⟩
          cases (show _ = some character from found)
          exact ⟨⟨position, following, rfl, spelled⟩,
            List.forall_mem_cons.2 ⟨passes, all⟩, stop⟩

theorem takeWhile_spelled (spelled : Spells glyphs taken rest)
    (all : ∀ character ∈ taken, holds character = true) (noNul : NoNul taken)
    (stop : ∀ character, current? rest = some character → holds character = false)
    (checked : Checked rest) : takeWhile place holds glyphs = .ok (taken, rest) := by
  induction taken generalizing glyphs with
  | nil =>
      cases spelled
      cases rest with
      | nil => rfl
      | cons glyph following =>
          have absent : glyph.character?.filter holds = none := by
            rw [Option.filter_eq_none_iff]
            intro character found
            exact Bool.eq_false_iff.1 (stop character found)
          unfold takeWhile
          rw [absent]
          rfl
  | cons character taken induction =>
      rcases spelled with ⟨position, following, rfl, spelled⟩
      have followingNoNul : NoNul taken := fun other isMember =>
        noNul other (List.mem_cons_of_mem _ isMember)
      have present : (some character).filter holds = some character := by
        rw [Option.filter_some, if_pos (all character List.mem_cons_self)]
      unfold takeWhile
      dsimp only
      rw [present]
      dsimp only
      rw [spelled.checked followingNoNul checked place,
        induction spelled (fun other isMember =>
          all other (List.mem_cons_of_mem _ isMember)) followingNoNul]
      rfl

end TakeWhile

/-! ## Names -/

theorem toNat_ne_zero_of_continuesName {character : Char}
    (continues : continuesName character = true) :
    character.toNat ≠ 0 := by
  intro isNul
  have same : character = Char.ofNat 0 := by rw [← isNul, Char.ofNat_toNat]
  subst same
  revert continues
  decide

/-- A character that no name and no number goes on with, or the end. -/
def Stops (next? : Option Char) : Prop :=
  ∀ character, next? = some character → continuesName character = false ∧ character ≠ '.'

/-! ## Numbers -/

/-- Where a number ended, another character may stand, one that stops every number. -/
structure Agrees (rest left : List Glyph) : Prop where
  checked : Checked left
  same_or_stops : current? left = current? rest ∨ Stops (current? left)

/-- A scanner takes the same characters wherever they stand, if what follows agrees. The
characters taken are those that the result tells. -/
def IsLocal {α : Type}
    (scan : Option Position → List Glyph → Except SyntaxError (α × List Glyph))
    (wrote : α → List Char → Prop) : Prop :=
  ∀ place glyphs value rest, scan place glyphs = .ok (value, rest) → ∃ taken,
    wrote value taken ∧
    NoNul taken ∧ Spells glyphs taken rest ∧
    ∀ other again left, Spells again taken left → Agrees rest left → scan other again =
    .ok (value, left)

section IsLocal

variable {α β : Type}
  {scan : Option Position → List Glyph → Except SyntaxError (α × List Glyph)}
  {wrote : α → List Char → Prop}

theorem Agrees.front {taken : List Char} {glyphs rest again left : List Glyph}
    (agrees : Agrees rest left) (noNul : NoNul taken) (spelled : Spells glyphs taken rest)
    (spelledAgain : Spells again taken left) :
    Agrees glyphs again where
  checked := spelledAgain.checked noNul agrees.checked
  same_or_stops := by
    rw [spelled.current?_eq, spelledAgain.current?_eq]
    cases taken with
    | nil => exact agrees.same_or_stops
    | cons character taken => exact .inl rfl

theorem Agrees.absent {rest left : List Glyph} (agrees : Agrees rest left)
    (holds : Char → Prop) (goesOn : ∀ character, holds character →
      continuesName character = true ∨ character = '.')
    (absent : ∀ character, current? rest = some character → ¬ holds character) :
    ∀ character, current? left = some character → ¬ holds character := by
  intro character found
  rcases agrees.same_or_stops with same | stops
  · exact absent character (same ▸ found)
  · intro passes
    rcases goesOn character passes with continued | isPoint
    · exact Bool.false_ne_true ((stops character found).1.symm.trans continued)
    · exact (stops character found).2 isPoint

theorem IsLocal.bind
    {next : α → Option Position → List Glyph → Except SyntaxError (β × List Glyph)}
    {further : α → β → List Char → Prop} (first : IsLocal scan wrote)
    (second : ∀ value, IsLocal (next value) (further value)) :
    IsLocal (fun place glyphs => do
      let (value, rest) ← scan place glyphs
      next value place rest) fun result taken =>
        ∃ value front back, wrote value front ∧ further value result back ∧ taken =
          front ++ back := by
  intro place glyphs result rest ran
  rcases bind_eq_ok ran with ⟨⟨value, middle⟩, firstRan, secondRan⟩
  rcases first place glyphs value middle firstRan with
    ⟨front, wroteFront, noNul, spelled, again⟩
  rcases second value place middle result rest secondRan
    with ⟨back, wroteBack, furtherNoNul, furtherSpelled, furtherAgain⟩
  refine ⟨front ++ back, ⟨value, front, back, wroteFront, wroteBack, rfl⟩,
    noNul.append furtherNoNul, spelled.append furtherSpelled, ?_⟩
  intro other glyphs left spelledAgain agrees
  rcases spelledAgain.split with ⟨middle, frontAgain, backAgain⟩
  dsimp only
  rw [again other glyphs middle frontAgain
    (agrees.front furtherNoNul furtherSpelled backAgain)]
  exact furtherAgain other middle left backAgain agrees

theorem IsLocal.after (isLocal : IsLocal scan wrote) {character : Char}
    (notNul : character.toNat ≠ 0) {place : Option Position}
    {glyphs middle rest : List Glyph} {value : α} (found : current? glyphs =
      some character) (advanced : advance place glyphs = .ok middle)
    (ran : scan place middle = .ok (value, rest)) :
    ∃ taken, wrote value taken ∧ NoNul (character :: taken) ∧
      Spells glyphs (character :: taken) rest ∧
      ∀ other again left, Spells again (character :: taken) left → Agrees rest left →
        current? again = some character ∧
          ∃ following, advance other again = .ok following ∧ scan other following =
            .ok (value, left) := by
  rcases isLocal place middle value rest ran with
    ⟨taken, wroteTaken, noNul, spelled, rescans⟩
  refine ⟨taken, wroteTaken, List.forall_mem_cons.2 ⟨notNul, noNul⟩,
    (advance_eq_ok found advanced).append spelled, ?_⟩
  rintro other _ left ⟨position, following, rfl, spelledAgain⟩ agrees
  refine ⟨rfl, following,
    advance_cons (spelledAgain.checked noNul agrees.checked) other, ?_⟩
  exact rescans other following left spelledAgain agrees

theorem isLocal_takeWhile {holds : Char → Bool}
    (continues : ∀ character, holds character = true → continuesName character = true) :
    IsLocal (fun place => takeWhile place holds) fun value taken => taken = value := by
  intro place glyphs value rest ran
  rcases takeWhile_eq_ok ran with ⟨spelled, all, stop⟩
  have noNul : NoNul value := fun character isMember =>
    toNat_ne_zero_of_continuesName (continues character (all character isMember))
  refine ⟨value, rfl, noNul, spelled, fun other again left spelledAgain agrees => ?_⟩
  have stopAgain := agrees.absent (fun character => holds character = true)
    (fun character passes => .inl (continues character passes))
    fun character found => Bool.eq_false_iff.1 (stop character found)
  exact takeWhile_spelled spelledAgain all noNul
    (fun character found =>
      Bool.eq_false_iff.2 (stopAgain character found)) agrees.checked

end IsLocal

theorem toNat_of_isDigit {character : Char} (isDigit : character.isDigit = true) :
    48 ≤ character.toNat ∧ character.toNat ≤ 57 := by
  simp only [Char.isDigit, ge_iff_le, Bool.and_eq_true, decide_eq_true_eq,
    UInt32.le_iff_toNat_le] at isDigit
  exact isDigit

theorem continuesName_of_isDigit {character : Char} (isDigit : character.isDigit = true) :
    continuesName character = true := by
  have small : character.toNat < 0x80 :=
    Nat.lt_of_le_of_lt (toNat_of_isDigit isDigit).2 (by decide)
  simp [continuesName, Text.isDecimalDigit, small, isDigit]

theorem toNat_of_isAlpha {character : Char} (isAlpha : character.isAlpha = true) :
    65 ≤ character.toNat ∧ character.toNat ≤ 122 := by
  rcases Bool.or_eq_true_iff.1 isAlpha with isUpper | isLower
  · have bounds : 65 ≤ character.toNat ∧ character.toNat ≤ 90 := of_decide_eq_true isUpper
    omega
  · rcases Bool.and_eq_true_iff.1 isLower with ⟨low, high⟩
    have low : 97 ≤ character.toNat := of_decide_eq_true low
    have high : character.toNat ≤ 122 := of_decide_eq_true high
    omega

theorem continuesName_of_isAlpha {character : Char} (isAlpha : character.isAlpha = true) :
    continuesName character = true := by
  have small : character.toNat < 0x80 :=
    Nat.lt_of_le_of_lt (toNat_of_isAlpha isAlpha).2 (by decide)
  simp [continuesName, startsName, Text.isLetter, small, isAlpha]

theorem continuesName_of_hexValue? {character : Char}
    (isDigit : (Text.hexValue? character).isSome = true) :
    continuesName character = true := by
  unfold Text.hexValue? at isDigit
  split at isDigit
  next decimal => exact continuesName_of_isDigit decimal
  next =>
      apply continuesName_of_isAlpha
      refine Bool.or_eq_true_iff.2 ?_
      split at isDigit
      next lower =>
          simp only [Bool.and_eq_true, decide_eq_true_eq, Char.le_def] at lower
          exact .inr (Bool.and_eq_true_iff.2
            ⟨decide_eq_true lower.1,
              decide_eq_true (UInt32.le_trans lower.2 (by decide))⟩)
      next =>
          split at isDigit
          next upper =>
              simp only [Bool.and_eq_true, decide_eq_true_eq, Char.le_def] at upper
              exact .inl (decide_eq_true ⟨upper.1, UInt32.le_trans upper.2 (by decide)⟩)
          next => cases isDigit

theorem isLocal_takeDigits {isDigit : Char → Bool}
    (continues : ∀ character, isDigit character = true → continuesName character = true) :
    IsLocal (fun place => takeDigits place isDigit) fun value taken => taken = value := by
  apply isLocal_takeWhile
  intro character passes
  rcases Bool.or_eq_true_iff.1 passes with isUnderscore | passes
  · cases beq_iff_eq.1 isUnderscore
    decide
  · exact continues character passes

theorem Opening.continues_of_isTaken (opening : Opening) (character : Char)
    (isTaken : opening.isTaken character = true) : continuesName character = true := by
  cases opening with
  | hexadecimal => exact continuesName_of_hexValue? isTaken
  | _ => exact continuesName_of_isDigit isTaken

theorem continuesName_of_toLower {character : Char}
    (isAlpha : character.toLower.isAlpha = true) :
    continuesName character = true := by
  apply continuesName_of_isAlpha
  by_cases isUpper : character.isUpper = true
  · exact Bool.or_eq_true_iff.2 (.inl isUpper)
  · have same : character.toLower = character := dif_neg fun range =>
      isUpper (decide_eq_true range)
    rwa [same] at isAlpha

theorem Opening.continues_of_ofLetter? {letter : Char} {opening : Opening}
    (found : ofLetter? letter = some opening) : continuesName letter = true := by
  apply continuesName_of_toLower
  unfold ofLetter? at found
  split at found
  case h_4 => cases found
  all_goals
    next isLetter =>
      rw [isLetter]
      decide

def opened (place : Option Position) (glyphs : List Glyph) :
    Except SyntaxError ((Opening × List Char) × List Glyph) := do
  let (opening, start, rest) ← scanOpening place glyphs
  return ((opening, start), rest)

theorem isLocal_opened : IsLocal opened fun value taken => taken = value.2 := by
  intro place glyphs value rest ran
  rcases bind_eq_ok ran with ⟨⟨opening, start, following⟩, ran, same⟩
  cases same
  unfold scanOpening at ran
  split at ran
  next notZero =>
      cases ran
      refine ⟨[], rfl, nofun, rfl, ?_⟩
      rintro other again _ rfl agrees
      have notZeroAgain : (current? again != some '0') = true := by
        rw [bne_iff_ne] at notZero ⊢
        intro isZero
        refine agrees.absent (· = '0') ?_ ?_ '0' isZero rfl
        · rintro _ rfl
          exact .inl (by decide)
        · rintro _ found rfl
          exact notZero found
      unfold opened scanOpening
      rw [if_pos notZeroAgain]
      rfl
  next isZero =>
      have found : current? glyphs = some '0' := by simpa using isZero
      rcases bind_eq_ok ran with ⟨middle, advanced, ran⟩
      have spelled := advance_eq_ok found advanced
      split at ran
      next letter opening opens =>
          rcases bind_eq_ok ran with ⟨last, advancedAgain, ended⟩
          cases ended
          rcases Option.bind_eq_some_iff.1 opens with ⟨_, foundLetter, isOpening⟩
          rcases Option.map_eq_some_iff.1 isOpening with ⟨_, ofLetter, ⟨⟩⟩
          have notNul :=
            toNat_ne_zero_of_continuesName (Opening.continues_of_ofLetter? ofLetter)
          refine ⟨['0', letter], rfl,
            List.forall_mem_cons.2 ⟨by decide, List.forall_mem_singleton.2 notNul⟩,
            spelled.append (advance_eq_ok foundLetter advancedAgain), ?_⟩
          rintro other _ left ⟨_, _, rfl, position, following, rfl, rfl⟩ agrees
          have opensAgain : (current? (⟨some letter, position⟩ :: following)).bind
              (fun letter => (Opening.ofLetter? letter).map (letter, ·)) =
              some (letter, opening) := by
            rw [current?, List.head?_cons, Option.bind_some, Option.bind_some, ofLetter,
              Option.map_some]
          unfold opened scanOpening
          rw [if_neg (by simp [current?]), advance_cons (checked_cons notNul)]
          dsimp only [Except.bind, bind]
          rw [opensAgain]
          dsimp only
          rw [advance_cons agrees.checked]
          rfl
      next noLetter =>
          cases ran
          refine ⟨['0'], rfl, List.forall_mem_singleton.2 (by decide), spelled, ?_⟩
          rintro other _ left ⟨_, following, rfl, rfl⟩ agrees
          have noLetterAgain :
              (current? following).bind
              (fun letter => (Opening.ofLetter? letter).map (letter, ·)) =
                none := by
            rw [Option.bind_eq_none_iff]
            intro letter foundLetter
            rw [Option.map_eq_none_iff, Option.eq_none_iff_forall_ne_some]
            intro opening ofLetter
            refine agrees.absent
              (fun letter => ∃ opening, Opening.ofLetter? letter = some opening)
              ?_ ?_ letter foundLetter ⟨opening, ofLetter⟩
            · rintro letter ⟨opening, ofLetter⟩
              exact .inl (Opening.continues_of_ofLetter? ofLetter)
            · rintro letter found ⟨opening, ofLetter⟩
              rw [found, Option.bind_some, ofLetter] at noLetter
              cases noLetter
          unfold opened scanOpening
          rw [if_neg (by simp [current?]), advance_cons agrees.checked]
          dsimp only [Except.bind, bind]
          rw [noLetterAgain]
          rfl

def exponentDigits (letter : Char) (sign : List Char) (place : Option Position)
    (glyphs : List Glyph) :
    Except SyntaxError (List Char × List Glyph) := do
  let (digits, rest) ← takeDigits place Char.isDigit glyphs
  unless hasDigit digits do throw ⟨place, .noExponentDigits⟩
  return (letter :: sign ++ digits, rest)

theorem isLocal_exponentDigits (letter : Char) (sign : List Char) :
    IsLocal (exponentDigits letter sign) fun value taken =>
      value = letter :: sign ++ taken ∧ hasDigit taken = true := by
  intro place glyphs value rest ran
  rcases bind_eq_ok ran with ⟨⟨digits, following⟩, taken, ended⟩
  dsimp only at ended
  split at ended
  next some =>
      cases ended
      rcases isLocal_takeDigits (fun _ => continuesName_of_isDigit) place
        glyphs digits _ taken
        with ⟨_, rfl, noNul, spelled, rescans⟩
      refine ⟨_, ⟨rfl, some⟩, noNul, spelled,
        fun other again left spelledAgain agrees => ?_⟩
      unfold exponentDigits
      have takenAgain := rescans other again left spelledAgain agrees
      dsimp only at takenAgain
      rw [takenAgain]
      change (if _ then _ else _) = _
      rw [if_pos some]
      rfl
  next => cases ended

def exponentAfter (letter : Char) (place : Option Position) (glyphs : List Glyph) :
    Except SyntaxError (List Char × List Glyph) :=
  match current? glyphs with
  | some '+' => do exponentDigits letter ['+'] place (← advance place glyphs)
  | some '-' => do exponentDigits letter ['-'] place (← advance place glyphs)
  | _ => exponentDigits letter [] place glyphs

theorem isLocal_exponentAfter (letter : Char) :
    IsLocal (exponentAfter letter) fun value taken => value = letter :: taken := by
  intro place glyphs value rest ran
  have signed (sign : Char) (notNul : sign.toNat ≠ 0)
      (chosen : ∀ other again, current? again = some sign →
        exponentAfter letter other again = advance other again >>=
        exponentDigits letter [sign] other)
      (found : current? glyphs = some sign) :
      ∃ taken, value = letter :: taken ∧ NoNul taken ∧ Spells glyphs taken rest ∧
        ∀ other again left, Spells again taken left → Agrees rest left →
          exponentAfter letter other again = .ok (value, left) := by
    rw [chosen place glyphs found] at ran
    rcases bind_eq_ok ran with ⟨middle, advanced, ran⟩
    rcases (isLocal_exponentDigits letter [sign]).after notNul found advanced ran
      with ⟨taken, ⟨rfl, _⟩, noNul, spelled, rescans⟩
    refine ⟨sign :: taken, rfl, noNul, spelled,
      fun other again left spelledAgain agrees => ?_⟩
    rcases rescans other again left spelledAgain agrees
      with ⟨foundAgain, following, advancedAgain, ranAgain⟩
    rw [chosen other again foundAgain, advancedAgain]
    exact ranAgain
  have plus (other : Option Position) (again : List Glyph)
      (found : current? again = some '+') :
      exponentAfter letter other again = advance other again >>=
      exponentDigits letter ['+'] other := by
    rw [exponentAfter, found]
    rfl
  have minus (other : Option Position) (again : List Glyph)
      (found : current? again = some '-') :
      exponentAfter letter other again = advance other again >>=
      exponentDigits letter ['-'] other := by
    rw [exponentAfter, found]
    rfl
  unfold exponentAfter at ran
  split at ran
  next found => exact signed '+' (by decide) plus found
  next found => exact signed '-' (by decide) minus found
  next noPlus noMinus =>
      rcases isLocal_exponentDigits letter [] place glyphs value rest ran
        with ⟨taken, ⟨rfl, some⟩, noNul, spelled, rescans⟩
      refine ⟨taken, rfl, noNul, spelled, fun other again left spelledAgain agrees => ?_⟩
      -- There is a digit, so what is looked at does not depend on what follows the
      -- number.
      have same : current? again = current? glyphs := by
        rw [spelled.current?_eq, spelledAgain.current?_eq]
        cases taken with
        | nil => cases some
        | cons digit taken => rfl
      unfold exponentAfter
      rw [same]
      split
      next found => exact absurd found noPlus
      next found => exact absurd found noMinus
      next => exact rescans other again left spelledAgain agrees

def startsExponent (letter : Char) : Bool :=
  letter.toLower == 'e' || letter.toLower == 'p'

theorem continuesName_of_startsExponent {letter : Char}
    (starts : startsExponent letter = true) :
    continuesName letter = true := by
  apply continuesName_of_toLower
  rcases Bool.or_eq_true_iff.1 starts with isE | isP
  · rw [beq_iff_eq.1 isE]
    decide
  · rw [beq_iff_eq.1 isP]
    decide

/-- Whether the letter of an exponent fits the opening of the number. -/
def Opening.allows (opening : Opening) (letter : Char) : Bool :=
  !(letter.toLower == 'e' && opening != .plain && opening != .zero) &&
    !(letter.toLower == 'p' && opening != .hexadecimal)

theorem scanExponent_none {place : Option Position} {opening : Opening}
    {glyphs : List Glyph} (absent : (current? glyphs).filter startsExponent = none) :
    scanExponent place opening glyphs = .ok ([], glyphs) := by
  unfold scanExponent
  split
  next => rfl
  next letter found => cases absent.symm.trans found

theorem scanExponent_some {place : Option Position} {opening : Opening}
    {glyphs : List Glyph} {letter : Char}
    (found : (current? glyphs).filter startsExponent = some letter)
    {result : List Char × List Glyph} :
    scanExponent place opening glyphs = .ok result ↔
      opening.allows letter = true ∧ advance place glyphs >>= exponentAfter letter place =
        .ok result := by
  unfold scanExponent Opening.allows
  split
  next absent => cases absent.symm.trans found
  next same =>
      cases found.symm.trans same
      dsimp only
      split
      next refused => exact ⟨(by cases ·), fun allowed => by simp [refused] at allowed⟩
      next allowed =>
          split
          next refused =>
              exact ⟨(by cases ·), fun allowed => by simp [refused] at allowed⟩
          next allowedToo =>
              rw [Bool.not_eq_true] at allowed allowedToo
              rw [allowed, allowedToo]
              exact ⟨fun ran => ⟨rfl, ran⟩, And.right⟩

theorem isLocal_scanExponent (opening : Opening) :
    IsLocal (fun place => scanExponent place opening) fun value taken =>
      value = taken := by
  intro place glyphs value rest ran
  dsimp only at ran
  cases found : (current? glyphs).filter startsExponent with
  | none =>
      rw [scanExponent_none found] at ran
      cases ran
      refine ⟨[], rfl, nofun, rfl, ?_⟩
      rintro other again _ rfl agrees
      apply scanExponent_none
      rw [Option.filter_eq_none_iff] at found ⊢
      exact agrees.absent (startsExponent · = true)
        (fun _ starts => .inl (continuesName_of_startsExponent starts)) found
  | some letter =>
      rcases (scanExponent_some found).1 ran with ⟨allowed, ran⟩
      rcases bind_eq_ok ran with ⟨middle, advanced, ran⟩
      rcases Option.filter_eq_some_iff.1 found with ⟨foundLetter, starts⟩
      have notNul :=
        toNat_ne_zero_of_continuesName (continuesName_of_startsExponent starts)
      rcases (isLocal_exponentAfter letter).after notNul foundLetter advanced ran
        with ⟨taken, rfl, noNul, spelled, rescans⟩
      refine ⟨letter :: taken, rfl, noNul, spelled,
        fun other again left spelledAgain agrees => ?_⟩
      rcases rescans other again left spelledAgain agrees
        with ⟨foundAgain, following, advancedAgain, ranAgain⟩
      have filtered : (current? again).filter startsExponent = some letter := by
        rw [foundAgain, Option.filter_some, if_pos starts]
      refine (scanExponent_some filtered).2 ⟨allowed, ?_⟩
      rw [advancedAgain]
      exact ranAgain

def closeNumber (opening : Opening) (pointed : Bool) (whole exponent text : List Char)
    (place : Option Position) (rest : List Glyph) :
    Except SyntaxError (List Char × List Glyph) := do
  let whollyInteger := !pointed && exponent.isEmpty
  if opening == .hexadecimal && pointed && exponent.isEmpty then
    throw ⟨place, .missingExponent⟩
  if whollyInteger then
    if let some digit :=
      whole.find? (fun digit => digit != '_' && !opening.isValid digit) then
      throw ⟨place, .invalidDigit digit opening.radix⟩
  if text.contains '_' && !Number.separatorsAllowed text then
    throw ⟨place, .misplacedSeparator⟩
  return (text, rest)

theorem closeNumber_eq_ok {opening : Opening} {pointed : Bool}
    {whole exponent text value : List Char} {place : Option Position}
    {rest last : List Glyph} (ran : closeNumber opening pointed whole exponent text place
      rest = .ok (value, last)) :
    value = text ∧ last = rest ∧
      ∀ other left, closeNumber opening pointed whole exponent text other left =
        .ok (text, left) := by
  have separated {place : Option Position} {rest last : List Glyph} {value : List Char}
      (ran : (do
        if text.contains '_' && !Number.separatorsAllowed text then
          throw ⟨place, .misplacedSeparator⟩
        return (text, rest) : Except SyntaxError (List Char × List Glyph)) =
          .ok (value, last)) :
      value = text ∧ last = rest ∧
      (text.contains '_' && !Number.separatorsAllowed text) = false := by
    dsimp only at ran
    split at ran
    next => cases ran
    next fine =>
        cases ran
        exact ⟨rfl, rfl, Bool.eq_false_iff.2 fine⟩
  unfold closeNumber at ran ⊢
  dsimp only at ran ⊢
  split at ran
  next => cases ran
  next hasExponent =>
      split at ran
      next isInteger =>
          split at ran
          next => cases ran
          next valid =>
              rcases separated ran with ⟨rfl, rfl, fine⟩
              refine ⟨rfl, rfl, fun other left => ?_⟩
              rw [if_neg hasExponent, if_pos isInteger, fine]
              rfl
      next notInteger =>
          rcases separated ran with ⟨rfl, rfl, fine⟩
          refine ⟨rfl, rfl, fun other left => ?_⟩
          rw [if_neg hasExponent, if_neg notInteger, fine]
          rfl

theorem isLocal_finishNumber (opening : Opening) (pointed : Bool)
    (start whole point fraction : List Char) :
    IsLocal (fun place => finishNumber place opening pointed start whole point fraction)
      fun value taken => value = start ++ whole ++ point ++ fraction ++ taken := by
  have unfolded (place : Option Position) (glyphs : List Glyph)
      (hasDigits : (hasDigit whole || hasDigit fraction || opening == .zero) = true) :
      finishNumber place opening pointed start whole point fraction glyphs = (do
        let (exponent, rest) ← scanExponent place opening glyphs
        closeNumber opening pointed whole exponent
          (start ++ whole ++ point ++ fraction ++ exponent)
          place rest) := by
    unfold finishNumber
    rw [if_pos hasDigits]
    rfl
  intro place glyphs value rest ran
  dsimp only at ran
  by_cases hasDigits : (hasDigit whole || hasDigit fraction || opening == .zero) = true
  · rw [unfolded place glyphs hasDigits] at ran
    rcases bind_eq_ok ran with ⟨⟨exponent, following⟩, scanned, closed⟩
    rcases isLocal_scanExponent opening place glyphs exponent following scanned
      with ⟨_, rfl, noNul, spelled, rescans⟩
    rcases closeNumber_eq_ok closed with ⟨rfl, rfl, closes⟩
    refine ⟨exponent, rfl, noNul, spelled, fun other again left spelledAgain agrees => ?_⟩
    have scannedAgain := rescans other again left spelledAgain agrees
    dsimp only at scannedAgain ⊢
    rw [unfolded other again hasDigits, scannedAgain]
    exact closes other left
  · unfold finishNumber at ran
    rw [if_neg hasDigits] at ran
    cases ran

def numberAfter (opening : Opening) (start whole : List Char) (place : Option Position)
    (glyphs : List Glyph) : Except SyntaxError (List Char × List Glyph) := do
  if current? glyphs == some '.' then
    let rest ← advance place glyphs
    if opening == .octal || opening == .binary then
      throw ⟨place, .radixPoint opening.radix⟩
    let (fraction, rest) ← takeDigits place opening.isTaken rest
    finishNumber place opening true start whole ['.'] fraction rest
  else finishNumber place opening false start whole [] [] glyphs

theorem isLocal_numberAfter (opening : Opening) (start whole : List Char) :
    IsLocal (numberAfter opening start whole) fun value taken => value = start ++
      whole ++ taken := by
  have fraction : IsLocal (fun place glyphs => do
      let (fraction, rest) ← takeDigits place opening.isTaken glyphs
      finishNumber place opening true start whole ['.'] fraction rest) _ :=
    (isLocal_takeDigits opening.continues_of_isTaken).bind fun digits =>
      isLocal_finishNumber opening true start whole ['.'] digits
  intro place glyphs value rest ran
  unfold numberAfter at ran
  split at ran
  next isPoint =>
      have found : current? glyphs = some '.' := by simpa using isPoint
      rcases bind_eq_ok ran with ⟨middle, advanced, ran⟩
      dsimp only at ran
      split at ran
      next => cases ran
      next allowed =>
          rcases fraction.after (by decide) found advanced ran
            with ⟨_, ⟨digits, _, exponent, rfl, rfl, rfl⟩, noNul, spelled, rescans⟩
          refine ⟨_, by simp, noNul, spelled,
            fun other again left spelledAgain agrees => ?_⟩
          rcases rescans other again left spelledAgain agrees
            with ⟨foundAgain, following, advancedAgain, ranAgain⟩
          unfold numberAfter
          rw [foundAgain, if_pos (by rfl), advancedAgain]
          change (if _ then _ else _) = _
          rw [if_neg allowed]
          exact ranAgain
  next notPoint =>
      rcases isLocal_finishNumber opening false start whole []
        [] place glyphs value rest ran
        with ⟨taken, rfl, noNul, spelled, rescans⟩
      refine ⟨taken, by simp, noNul, spelled,
        fun other again left spelledAgain agrees => ?_⟩
      have notPointAgain : ¬ (current? again == some '.') = true := by
        intro isPoint
        refine (agrees.front noNul spelled spelledAgain).absent (· = '.')
          (fun _ isPoint => .inr isPoint) ?_
          '.' (by simpa using isPoint) rfl
        rintro _ found rfl
        exact notPoint (by rw [found]; rfl)
      unfold numberAfter
      rw [if_neg notPointAgain]
      exact rescans other again left spelledAgain agrees

theorem isLocal_scanNumber : IsLocal scanNumber fun value taken => value = taken := by
  have whole : IsLocal (fun place glyphs => do
      let (value, rest) ← opened place glyphs
      let (whole, rest) ← takeDigits place value.1.isTaken rest
      numberAfter value.1 value.2 whole place rest) _ :=
    isLocal_opened.bind fun value =>
      (isLocal_takeDigits value.1.continues_of_isTaken).bind fun whole =>
        isLocal_numberAfter value.1 value.2 whole
  have unfolded (place : Option Position) (glyphs : List Glyph) :
      scanNumber place glyphs = (do
      let (value, rest) ← opened place glyphs
      let (whole, rest) ← takeDigits place value.1.isTaken rest
      numberAfter value.1 value.2 whole place rest) := by
    unfold scanNumber opened
    cases scanOpening place glyphs with
    | error error => rfl
    | ok result => rfl
  intro place glyphs value rest ran
  rw [unfolded] at ran
  rcases whole place glyphs value rest ran
    with ⟨_, ⟨⟨opening, start⟩, _, _, rfl, ⟨digits, _, further, rfl, rfl, rfl⟩, rfl⟩,
      noNul, spelled, rescans⟩
  refine ⟨_, by simp, noNul, spelled, fun other again left spelledAgain agrees => ?_⟩
  rw [unfolded]
  exact rescans other again left spelledAgain agrees

/-- A text that is taken for a number wherever it stands, unless what follows goes on with
it. -/
structure IsNumberText (text : List Char) : Prop where
  starts : ∃ first rest, text = first :: rest ∧
    (first.isDigit = true ∨ first = '.' ∧ rest.head?.any Char.isDigit = true)
  noNul : NoNul text
  rescans : ∀ place glyphs left, Spells glyphs text left → Checked left →
    Stops (current? left) →
    scanNumber place glyphs = .ok (text, left)

theorem isNumberText_of_scanNumber {place : Option Position} {glyphs rest : List Glyph}
    {text : List Char} {first : Char} (found : current? glyphs = some first)
    (starts : first.isDigit = true ∨ first = '.' ∧
      (current? (glyphs.drop 1)).any Char.isDigit = true)
    (ran : scanNumber place glyphs = .ok (text, rest)) : IsNumberText text := by
  rcases isLocal_scanNumber place glyphs text rest ran with
    ⟨_, rfl, noNul, spelled, rescans⟩
  have alone (place : Option Position) (glyphs left : List Glyph)
      (spelled : Spells glyphs text left)
      (checked : Checked left) (stops : Stops (current? left)) : scanNumber place glyphs =
      .ok (text, left) :=
    rescans place glyphs left spelled ⟨checked, .inr stops⟩
  refine ⟨?_, noNul, alone⟩
  cases text with
  | nil => cases alone none [] [] rfl checked_nil nofun
  | cons character text =>
      refine ⟨character, text, rfl, ?_⟩
      have same : first = character :=
        Option.some.inj (found.symm.trans spelled.current?_eq)
      subst same
      rcases starts with isDigit | ⟨rfl, digitFollows⟩
      · exact .inl isDigit
      · refine .inr ⟨rfl, ?_⟩
        rcases spelled with ⟨position, following, rfl, spelled⟩
        cases text with
        | nil =>
            cases alone none [⟨some '.', position⟩] [] ⟨position, [], rfl, rfl⟩
              checked_nil nofun
        | cons digit text =>
            rcases spelled with ⟨place, later, rfl, _⟩
            exact digitFollows

end Casework.Token

namespace Casework

open Token

/-! ## Lexemes -/

def Lexeme.IsScanned : Lexeme → Prop
  | name text => ∃ first rest, text.toList = first :: rest ∧ startsName first = true ∧
      ∀ character ∈ rest, continuesName character = true
  | number text => IsNumberText text.toList
  | quoted text => ∃ body, text.toList = '"' :: body
  | mark text => text ∈ markTexts
  | finish => False

theorem Lexeme.IsScanned.isDistinct {lexeme : Lexeme} (scanned : lexeme.IsScanned) :
    lexeme.IsDistinct := by
  cases lexeme with
  | name text =>
      rcases scanned with ⟨first, rest, written, starts, _⟩
      intro isMark
      have noName : ∀ text ∈ markTexts, text.toList.head?.any startsName = false := by
        decide
      have none := noName text isMark
      rw [written, List.head?_cons, Option.any_some, starts] at none
      cases none
  | number text =>
      rcases scanned.starts with ⟨first, rest, written, isDigit | ⟨isPoint, _⟩⟩
      · rintro rfl
        cases written
        cases isDigit
      · rintro rfl
        cases written
        cases isPoint
  | quoted text =>
      rcases scanned with ⟨body, written⟩
      rintro rfl
      cases written
  | mark text =>
      have noKeyword : ∀ text ∈ markTexts, text ∉ Expr.keywords := by decide
      exact noKeyword text scanned
  | finish => trivial

theorem Lexeme.IsScanned.ne_finish {lexeme : Lexeme} (scanned : lexeme.IsScanned) :
    lexeme ≠ .finish := by
  rintro rfl
  exact scanned

namespace Token

theorem mem_markTexts_of_scanMark {position : Position} {character : Char}
    {glyphs rest : List Glyph} {text : String}
    (ran : scanMark position character glyphs = .ok (text, rest)) : text ∈ markTexts := by
  rcases bind_eq_ok ran with ⟨following, _, ran⟩
  split at ran
  next =>
      rcases bind_eq_ok ran with ⟨_, _, ended⟩
      cases ended
      decide
  next =>
      rcases bind_eq_ok ran with ⟨_, _, ended⟩
      cases ended
      decide
  next =>
      dsimp only at ran
      split at ran
      next =>
          rcases bind_eq_ok ran with ⟨_, _, ended⟩
          cases ended
          decide
      next => cases ran
  next =>
      split at ran
      next isMark =>
          cases ran
          exact List.mem_append_left _ (List.mem_map_of_mem isMark)
      next => cases ran

theorem isScanned_of_scanLexeme {position : Position} {character : Char}
    {glyphs rest : List Glyph} {lexeme : Lexeme}
    (found : current? glyphs = some character)
    (ran : scanLexeme position character glyphs = .ok (lexeme, rest)) :
    lexeme.IsScanned := by
  unfold scanLexeme at ran
  dsimp only at ran
  split at ran
  next starts =>
      rcases bind_eq_ok ran with ⟨⟨text, following⟩, taken, ended⟩
      cases ended
      rcases takeWhile_eq_ok taken with ⟨spelled, all, stop⟩
      cases text with
      | nil =>
          cases spelled
          have stopped := stop character found
          simp [continuesName, starts] at stopped
      | cons first text =>
          have same : character = first :=
            Option.some.inj (found.symm.trans spelled.current?_eq)
          subst same
          exact ⟨character, text, String.toList_ofList, starts,
            (List.forall_mem_cons.1 all).2⟩
  next =>
      split at ran
      next isDigit =>
          rcases bind_eq_ok ran with ⟨⟨text, following⟩, scanned, ended⟩
          cases ended
          have isNumber := isNumberText_of_scanNumber found (.inl isDigit) scanned
          rwa [← String.toList_ofList (l := text)] at isNumber
      next =>
          split at ran
          next isPoint =>
              rw [Bool.and_eq_true, beq_iff_eq] at isPoint
              rcases bind_eq_ok ran with ⟨⟨text, following⟩, scanned, ended⟩
              cases ended
              have isNumber := isNumberText_of_scanNumber found (.inr isPoint) scanned
              rwa [← String.toList_ofList (l := text)] at isNumber
          next =>
              split at ran
              next isQuote =>
                  rcases bind_eq_ok ran with ⟨_, _, ran⟩
                  rcases bind_eq_ok ran with ⟨⟨text, following⟩, _, ended⟩
                  cases ended
                  exact ⟨text, by rw [String.toList_ofList, beq_iff_eq.1 isQuote]⟩
              next =>
                  rcases bind_eq_ok ran with ⟨⟨text, following⟩, scanned, ended⟩
                  cases ended
                  exact mem_markTexts_of_scanMark scanned

theorem isScanned_of_scanFrom {finish : Position} {fuel : Nat} {glyphs : List Glyph}
    {tokens : List Token} (ran : scanFrom finish fuel glyphs = .ok tokens) :
    ∃ front, tokens = front ++ [⟨.finish, finish⟩] ∧ ∀ token ∈ front,
      token.lexeme.IsScanned := by
  induction fuel generalizing glyphs tokens with
  | zero => cases ran
  | succ fuel induction =>
      rcases bind_eq_ok ran with ⟨rest, _, ran⟩
      split at ran
      next =>
          rcases bind_eq_ok ran with ⟨⟨lexeme, remaining⟩, scanned, ran⟩
          rcases bind_eq_ok ran with ⟨later, scannedLater, ended⟩
          cases ended
          rcases induction scannedLater with ⟨front, rfl, all⟩
          have isScanned := isScanned_of_scanLexeme rfl scanned
          exact ⟨_ :: front, rfl, List.forall_mem_cons.2 ⟨isScanned, all⟩⟩
      next =>
          cases ran
          exact ⟨[], rfl, nofun⟩

theorem isScanned_of_scan {source : Source} {tokens : List Token}
    (ran : scan source = .ok tokens) :
    ∃ front, tokens = front ++ [⟨.finish, source.finish⟩] ∧ ∀ token ∈ front,
      token.lexeme.IsScanned := by
  rcases bind_eq_ok ran with ⟨_, _, ran⟩
  dsimp only at ran
  split at ran
  next =>
      rcases bind_eq_ok ran with ⟨_, _, ran⟩
      exact isScanned_of_scanFrom ran
  next => exact isScanned_of_scanFrom ran

end Token

end Casework
