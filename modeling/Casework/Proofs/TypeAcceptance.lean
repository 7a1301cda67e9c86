import Casework.Proofs.TypeBuilding

/-!
The parser of types accepts exactly the grammar.

What is parsed has a derivation, as long as names and marks are told apart by their texts:
each rule takes the tokens of one. With the converse, a list of tokens is parsed if and
only if it has a derivation, and the nodes that are added to a graph are those that the
derivation stands for. Any other list is refused with an error of the syntax: no rule
gives up at a bound or reads past the end.
-/

namespace Casework

/-- A name is spelled like no mark, and a mark not like the word before the type of a
field. -/
def Lexeme.IsApart : Lexeme → Prop
  | name text => text ∉ markTexts
  | mark text => text ≠ "is"
  | _ => True

theorem Lexeme.IsApart.eq_mark {lexeme : Lexeme} {text : String} (apart : lexeme.IsApart)
    (isMark : text ∈ markTexts) (isWord : lexeme.isWord text = true) :
    lexeme = .mark text := by
  cases lexeme with
  | name own =>
      cases beq_iff_eq.1 isWord
      exact absurd isMark apart
  | mark own =>
      cases beq_iff_eq.1 isWord
      rfl
  | _ => cases isWord

theorem Lexeme.IsApart.eq_is {lexeme : Lexeme} (apart : lexeme.IsApart)
    (isWord : lexeme.isWord "is" = true) : lexeme = .name "is" := by
  cases lexeme with
  | name own =>
      cases beq_iff_eq.1 isWord
      rfl
  | mark own =>
      cases beq_iff_eq.1 isWord
      exact absurd rfl apart
  | _ => cases isWord

theorem Lexeme.IsScanned.isApart {lexeme : Lexeme} (scanned : lexeme.IsScanned) :
    lexeme.IsApart := by
  cases lexeme with
  | name text => exact scanned.isDistinct
  | mark text =>
      rintro rfl
      exact absurd (show "is" ∈ markTexts from scanned) (by decide)
  | _ => trivial

namespace TypeGraph

open Casework.Parser Stateful TypeGrammar TypeParser
open Grammar (Name mark word)

variable {graph later : TypeGraph} {tokens rest : List Token} {named : Row}

/-- Tokens up to the end of the source that are told apart by their texts. -/
structure Proper (tokens : List Token) : Prop where
  ended : Ended tokens
  apart : ∀ token ∈ tokens, token.lexeme.IsApart

theorem Proper.of_cons {token : Token} (proper : Proper (token :: rest))
    (isGoing : token.lexeme ≠ .finish) : Proper rest := by
  rcases proper.ended.exists_cons with ⟨_, _, same, further⟩
  cases same
  exact ⟨further isGoing, fun other member =>
    proper.apart other (List.mem_cons_of_mem _ member)⟩

theorem Proper.head {token : Token} (proper : Proper (token :: rest)) :
    token.lexeme.IsApart :=
  proper.apart token List.mem_cons_self

def Refused (failure : Failure) (_ : TypeGraph) : Prop :=
  ∃ error : SyntaxError, failure = .badSyntax error ∧ error.cause.isPanic = false

namespace TypeParser

/-! ## Steps -/

section Steps

variable {α β δ : Type} {last : β → Reading → TypeGraph → Prop} {text : String}

theorem refuses {cause : SyntaxCause} (reported : cause.isPanic = false)
    {state : Reading} (token : Token) {done : α → Reading → TypeGraph → Prop} :
    Yields (reading (refuse token cause) : TypeParser α) state graph done Refused :=
  ⟨_, rfl, reported⟩

theorem yields_reads_bind {parser : Parser α} {next : α → TypeParser β}
    {done : α → List Token → Prop} (reads : parser.Reads tokens done)
    (second : ∀ value rest, done value rest → Yields (next value)
      ⟨rest, named⟩ graph last Refused) :
    Yields (reading parser >>= next) ⟨tokens, named⟩ graph last Refused := by
  have first : Yields (reading parser) ⟨tokens, named⟩ graph (fun value after later =>
      later = graph ∧ after.named = named ∧ done value after.tokens) Refused := by
    apply yields_get_bind
    unfold Reads at reads
    rcases ran : parser.run tokens with error | ⟨value, rest⟩ <;> rw [ran] at reads
    · exact ⟨error, rfl, reads⟩
    · exact And.intro rfl ⟨rfl, reads⟩
  apply first.bind
  rintro value ⟨rest, _⟩ _ ⟨rfl, rfl, holds⟩
  exact second value rest holds

theorem yields_given_bind {parser : Parser α} {next : α → TypeParser β}
    {done other : α → List Token → Prop} (gives : parser.Gives tokens done)
    (reads : parser.Reads tokens other)
    (second : ∀ value rest, done value rest → Yields (next value)
      ⟨rest, named⟩ graph last Refused) :
    Yields (reading parser >>= next) ⟨tokens, named⟩ graph last Refused := by
  have both : parser.Reads tokens done := by
    unfold Gives at gives
    unfold Reads at reads ⊢
    rcases ran : parser.run tokens with error | ⟨value, rest⟩ <;> rw [ran] at gives reads
    · exact reads
    · exact gives
  exact yields_reads_bind both second

theorem yields_acceptMark_bind {next : Bool → TypeParser β} (proper : Proper tokens)
    (isMark : text ∈ markTexts)
    (accepted : ∀ place rest, tokens = mark text place :: rest → Proper rest →
      Yields (next true) ⟨rest, named⟩ graph last Refused)
    (refused : Yields (next false) ⟨tokens, named⟩ graph last Refused) :
    Yields (accept text >>= next) ⟨tokens, named⟩ graph last Refused := by
  apply yields_given_bind gives_accept (reads_accept proper.ended text)
  intro isAccepted rest result
  cases isAccepted with
  | true =>
      rcases result with ⟨⟨lexeme, place⟩, isWord, rfl⟩
      cases proper.head.eq_mark isMark isWord
      exact accepted place rest rfl (proper.of_cons nofun)
  | false =>
      cases result
      exact refused

theorem yields_ifMark {yes no : TypeParser β} (proper : Proper tokens)
    (isMark : text ∈ markTexts)
    (accepted : ∀ place rest, tokens = mark text place :: rest → Proper rest →
      Yields yes ⟨rest, named⟩ graph last Refused)
    (refused : Yields no ⟨tokens, named⟩ graph last Refused) :
    Yields (do if ← accept text then yes else no) ⟨tokens, named⟩ graph last Refused :=
  yields_acceptMark_bind proper isMark accepted refused

theorem gives_expect : (Parser.expect text).Gives tokens fun _ rest =>
    ∃ token, token.lexeme.isWord text = true ∧ tokens = token :: rest := by
  apply gives_accept.bind
  intro isAccepted rest result
  cases isAccepted with
  | true => exact gives_pure result
  | false => exact gives_peek.bind fun _ _ _ => gives_refuse

theorem yields_expectMark_bind {next : Unit → TypeParser β} (proper : Proper tokens)
    (isMark : text ∈ markTexts)
    (second : ∀ place rest, tokens = mark text place :: rest → Proper rest →
      Yields (next ()) ⟨rest, named⟩ graph last Refused) :
    Yields (expect text >>= next) ⟨tokens, named⟩ graph last Refused := by
  apply yields_given_bind gives_expect (reads_expect proper.ended text)
  rintro _ rest ⟨⟨lexeme, place⟩, isWord, rfl⟩
  cases proper.head.eq_mark isMark isWord
  exact second place rest rfl (proper.of_cons nofun)

theorem yields_expectIs_bind {next : Unit → TypeParser β} (proper : Proper tokens)
    (second : ∀ place rest, tokens = word "is" place :: rest → Proper rest →
      Yields (next ()) ⟨rest, named⟩ graph last Refused) :
    Yields (expect "is" >>= next) ⟨tokens, named⟩ graph last Refused := by
  apply yields_given_bind gives_expect (reads_expect proper.ended "is")
  rintro _ rest ⟨⟨lexeme, place⟩, isWord, rfl⟩
  cases proper.head.eq_is isWord
  exact second place rest rfl (proper.of_cons nofun)

theorem yields_properName_bind {next : Position × String → TypeParser β}
    {cause : Lexeme → SyntaxCause} (reported : ∀ lexeme, (cause lexeme).isPanic = false)
    (proper : Proper tokens) (second : ∀ place (name : Name) rest, tokens =
      name.token place :: rest → Proper rest →
      Yields (next (place, name.text)) ⟨rest, named⟩ graph last Refused) :
    Yields (reading (takeName cause) >>= next) ⟨tokens, named⟩ graph last Refused := by
  apply yields_given_bind gives_takeName (reads_takeName proper.ended reported)
  rintro ⟨place, text⟩ rest rfl
  exact second place ⟨text, proper.head⟩ rest rfl (proper.of_cons nofun)

theorem yields_anyToken_bind {next : Token → TypeParser β} (proper : Proper tokens)
    (finished : ∀ place, Yields (next ⟨.finish, place⟩)
      ⟨tokens, named⟩ graph last Refused)
    (taken : ∀ token rest, tokens = token :: rest → Proper rest →
      Yields (next token) ⟨rest, named⟩ graph last Refused) :
    Yields (reading take >>= next) ⟨tokens, named⟩ graph last Refused := by
  rcases proper.ended.exists_cons with ⟨token, more, rfl, _⟩
  apply yields_reads_bind (reads_take_cons token more)
  rintro ⟨lexeme, place⟩ remaining ⟨rfl, ⟨isGoing, rfl⟩ | ⟨isFinish, rfl⟩⟩
  · exact taken _ remaining rfl (proper.of_cons isGoing)
  · cases isFinish
    exact finished place

theorem yields_properTag_bind {next : String → TypeParser β} (proper : Proper tokens)
    (second : ∀ place (tag : Tag) rest, tokens = tag.name.token place ::
      rest → Proper rest →
      Yields (next tag.name.text) ⟨rest, named⟩ graph last Refused) :
    Yields (takeTag >>= next) ⟨tokens, named⟩ graph last Refused := by
  have takes : Yields takeTag ⟨tokens, named⟩ graph
      (fun text after later => later = graph ∧ after.named = named ∧ Proper after.tokens ∧
        ∃ place, ∃ tag : Tag, text = tag.name.text ∧ tokens = tag.name.token place ::
        after.tokens) Refused := by
    apply yields_anyToken_bind proper
    · exact fun place => refuses rfl _
    rintro ⟨lexeme, place⟩ rest rfl remain
    dsimp only
    split
    next text =>
        split
        next isTag =>
            exact yields_pure
              ⟨rfl, rfl, remain, place, ⟨⟨text, proper.head⟩, isTag⟩, rfl, rfl⟩
        next => exact refuses rfl _
    next => exact refuses rfl _
  apply takes.bind
  rintro _ ⟨rest, _⟩ _ ⟨rfl, rfl, remain, place, tag, rfl, spells⟩
  exact second place tag rest spells remain

theorem yields_typeVariable_keeps (name : String) :
    Yields (typeVariable name) ⟨tokens, named⟩ graph
      (fun _ after _ => after.tokens = tokens) Refused := by
  apply yields_get_bind
  split
  next => exact yields_pure rfl
  next => exact (rfl : tokens = tokens)

/-! ## Derivations -/

def Derives (spelled : δ → List Token) (parser : TypeParser α) (bound : Nat) : Prop :=
  ∀ tokens named graph, Proper tokens → tokens.length ≤ bound →
    Yields parser ⟨tokens, named⟩ graph (fun _ after _ => Proper after.tokens ∧
      after.tokens.length < tokens.length ∧ ∃ derivation, spelled derivation ++
      after.tokens = tokens)
      Refused

theorem Derives.bind {spelled : δ → List Token} {parser : TypeParser α}
    {next : α → TypeParser β} {bound : Nat} (derives : Derives spelled parser bound)
    (proper : Proper tokens) (small : tokens.length ≤ bound)
    (second : ∀ derivation value rest named graph, tokens = spelled derivation ++
      rest → Proper rest →
      rest.length < tokens.length → Yields (next value)
        ⟨rest, named⟩ graph last Refused) :
    Yields (parser >>= next) ⟨tokens, named⟩ graph last Refused := by
  apply (derives tokens named graph proper small).bind
  rintro value ⟨rest, after⟩ later ⟨further, less, derivation, rfl⟩
  exact second derivation value rest after later rfl further less

end Steps

variable {bound : Nat} {type : TypeParser Ref}

theorem yields_plainEntry (nested : Derives Written.tokens type bound)
    (proper : Proper tokens) (small : tokens.length ≤ bound + 1) (pointed : Bool) :
    Yields (do
      let (_, name) ← reading (takeName .expectedField)
      expect "is"
      return (pointed, name, ← type)) ⟨tokens, named⟩ graph
        (fun _ after _ => Proper after.tokens ∧
        after.tokens.length < tokens.length ∧ ∃ place name sign type,
          (Field.plain place name sign type).tokens ++ after.tokens =
            tokens) Refused := by
  apply yields_properName_bind (fun _ => rfl) proper
  rintro place name rest rfl remain
  apply yields_expectIs_bind remain
  rintro sign rest rfl remain
  simp only [List.length_cons] at small ⊢
  apply nested.bind remain (by omega)
  rintro inner ref later named graph rfl further less
  exact yields_pure ⟨further, by dsimp only; omega, place, name, sign, inner, rfl⟩

theorem derives_parseEntry (nested : Derives Written.tokens type bound) :
    Derives Field.tokens (parseEntry type) (bound + 1) := by
  intro tokens named graph proper small
  apply yields_acceptMark_bind proper (by decide)
  · rintro point rest rfl remain
    simp only [List.length_cons] at small ⊢
    apply (yields_plainEntry nested remain (by omega) true).imp
    rintro _ ⟨later, _⟩ _ ⟨further, less, place, name, sign, inner, rfl⟩
    exact ⟨further, by dsimp only at less ⊢; omega,
      .pointed point place name sign inner, rfl⟩
  · apply (yields_plainEntry nested proper small false).imp
    rintro _ ⟨later, _⟩ _ ⟨further, less, place, name, sign, inner, rfl⟩
    exact ⟨further, less, .plain place name sign inner, rfl⟩

inductive FieldsEnd (tokens rest : List Token) : Prop where
  | closing (place : Position) (spells : tokens = mark "\x7d" place :: rest)
  | comma (place : Position) (fields : TypeGrammar.Fields)
      (spells : tokens = mark "," place :: (fields.tokens ++ rest))

theorem FieldsEnd.exists_fields {rest later : List Token} (ended : FieldsEnd rest later)
    (field : Field) :
    ∃ fields : TypeGrammar.Fields, fields.tokens ++ later = field.tokens ++ rest := by
  cases ended with
  | closing place spells =>
      exact ⟨.last field place, by simp [TypeGrammar.Fields.tokens, spells]⟩
  | comma place fields spells =>
      exact ⟨.next field place fields, by simp [TypeGrammar.Fields.tokens, spells]⟩

theorem yields_fieldsEnd (nested : Derives Written.tokens type bound)
    (proper : Proper tokens) (small : tokens.length ≤ bound) {fuel : Nat}
    (enough : tokens.length < fuel) :
    Yields (parseFields type fuel false) ⟨tokens, named⟩ graph
      (fun _ after _ => Proper after.tokens ∧
      after.tokens.length < tokens.length ∧ FieldsEnd tokens after.tokens) Refused := by
  induction fuel generalizing tokens named graph with
  | zero => omega
  | succ fuel induction =>
      rw [parseFields_succ]
      apply yields_ifMark proper (by decide)
      · rintro place rest rfl remain
        exact yields_pure ⟨remain, Nat.lt_succ_self _, .closing place rfl⟩
      · apply yields_expectMark_bind proper (by decide)
        rintro place rest rfl remain
        simp only [List.length_cons] at small enough ⊢
        apply (derives_parseEntry nested).bind remain (by omega)
        rintro field ⟨pointed, entry⟩ rest named graph rfl remain less
        apply (induction remain (by omega) (by omega)).bind
        rintro ⟨fields, isOpen⟩ ⟨later, _⟩ _ ⟨further, fewer, ended⟩
        rcases ended.exists_fields field with ⟨all, spells⟩
        refine yields_pure ⟨further, ?_, .comma place all (by rw [spells])⟩
        dsimp only at fewer ⊢
        omega

theorem yields_parseEntries (nested : Derives Written.tokens type bound)
    (proper : Proper tokens) (small : tokens.length ≤ bound) {fuel : Nat}
    (enough : tokens.length ≤ fuel) :
    Yields (parseEntries type fuel) ⟨tokens, named⟩ graph
      (fun _ after _ => Proper after.tokens ∧
      after.tokens.length < tokens.length ∧
        ∃ fields : TypeGrammar.Fields, fields.tokens ++ after.tokens =
          tokens) Refused := by
  apply (derives_parseEntry nested).bind proper (by omega)
  rintro field ⟨pointed, entry⟩ rest named graph rfl remain less
  apply (yields_fieldsEnd nested remain (by omega) (by omega)).bind
  rintro ⟨fields, isOpen⟩ ⟨later, _⟩ _ ⟨further, fewer, ended⟩
  exact yields_pure ⟨further, fewer.trans less, ended.exists_fields field⟩

theorem yields_parseNamed_derived (nested : Derives Written.tokens type bound)
    (proper : Proper tokens) (small : tokens.length ≤ bound) (token : Token)
    (place : Position) (name : String) :
    Yields (parseNamed type token name) ⟨tokens, named⟩ graph
      (fun _ after _ => Proper after.tokens ∧
      after.tokens.length ≤ tokens.length ∧
        ∃ atom : Atom, atom.tokens ++ after.tokens = word name place ::
          tokens) Refused := by
  have primitive (own : PrimitiveWord) (kind : Primitive) :
      Yields (Build.newPrimitive kind : TypeParser Ref) ⟨tokens, named⟩ graph
      (fun _ after _ =>
        Proper after.tokens ∧ after.tokens.length ≤ tokens.length ∧
          ∃ atom : Atom, atom.tokens ++ after.tokens = word own.text place ::
          tokens) Refused :=
    yields_make ⟨proper, Nat.le_refl _, .primitive place own, rfl⟩
  unfold parseNamed
  split
  · exact primitive .number _
  · exact primitive .string _
  · exact primitive .boolean _
  · exact primitive .bool _
  · apply yields_expectMark_bind proper (by decide)
    rintro opening rest rfl remain
    simp only [List.length_cons] at small ⊢
    apply nested.bind remain (by omega)
    rintro element ref rest named graph rfl remain less
    apply yields_expectMark_bind remain (by decide)
    rintro closing later rfl further
    apply yields_make
    simp only [List.length_cons] at less
    exact ⟨further, by dsimp only; omega,
      .list place opening element closing, by simp [Atom.tokens, mark]⟩
  · exact refuses rfl _

theorem derives_parseAtom (nested : Derives Written.tokens type bound) :
    Derives Atom.tokens (parseAtom type) (bound + 1) := by
  intro tokens named graph proper small
  apply yields_anyToken_bind proper
  · exact fun place => refuses rfl _
  rintro ⟨lexeme, place⟩ rest rfl remain
  simp only [List.length_cons] at small ⊢
  have inside : rest.length ≤ bound := by omega
  split
  next name =>
      apply (yields_parseNamed_derived nested remain inside _ place name).imp
      rintro _ after _ ⟨further, le, spells⟩
      exact ⟨further, Nat.lt_succ_of_le le, spells⟩
  next =>
      apply yields_properName_bind (fun _ => rfl) remain
      rintro own name rest rfl remain
      apply (yields_typeVariable_keeps name.text).imp
      rintro _ ⟨_, _⟩ _ rfl
      exact ⟨remain, Nat.lt_succ_of_lt (Nat.lt_succ_self _),
        .variable place own name, rfl⟩
  next =>
      apply yields_ifMark remain (by decide)
      · rintro closing rest rfl remain
        exact yields_make ⟨remain, Nat.lt_succ_of_lt (Nat.lt_succ_self _),
          .unit place closing, rfl⟩
      · apply nested.bind remain inside
        rintro inner ref rest named graph rfl remain less
        apply yields_expectMark_bind remain (by decide)
        rintro closing later rfl further
        simp only [List.length_cons] at less
        refine yields_pure
          ⟨further, by dsimp only; omega, .parenthesized place inner closing, ?_⟩
        simp [Atom.tokens, mark]
  next =>
      apply yields_get_bind
      have fields : Yields (parseFields type (rest.length + 1) true) ⟨rest, named⟩ graph
          (fun _ after _ => Proper after.tokens ∧ after.tokens.length < rest.length ∧
            ∃ atom : Atom, atom.tokens ++ after.tokens = mark "\x7b" place ::
            rest) Refused := by
        rw [parseFields_succ]
        apply yields_ifMark remain (by decide)
        · rintro closing rest rfl remain
          exact yields_pure ⟨remain, Nat.lt_succ_self _, .emptyStruct place closing, rfl⟩
        · apply (yields_parseEntries nested remain inside (Nat.le_refl _)).imp
          rintro _ ⟨later, _⟩ _ ⟨further, less, fields, rfl⟩
          exact ⟨further, less, .struct place fields, rfl⟩
      apply fields.bind
      rintro ⟨entries, pointed⟩ ⟨later, _⟩ _ ⟨further, less, atom, spells⟩
      exact yields_makeRow ⟨further, Nat.lt_succ_of_lt less, atom, spells⟩
  next => exact refuses rfl _

theorem yields_parseTags_derived (nested : Derives Written.tokens type bound)
    (proper : Proper tokens) (small : tokens.length ≤ bound + 1) {fuel : Nat}
    (enough : tokens.length < fuel) :
    Yields (parseTags type fuel) ⟨tokens, named⟩ graph
      (fun _ after _ => Proper after.tokens ∧
      after.tokens.length < tokens.length ∧ ∃ tags : Tags, tags.tokens ++ after.tokens =
        tokens) Refused := by
  induction fuel generalizing tokens named graph with
  | zero => omega
  | succ fuel induction =>
      apply yields_properTag_bind proper
      rintro place tag rest rfl remain
      simp only [List.length_cons] at small enough ⊢
      apply (derives_parseAtom nested).bind remain (by omega)
      rintro payload ref rest named graph rfl remain less
      apply yields_ifMark remain (by decide)
      · rintro bar rest rfl remain
        simp only [List.length_cons] at less
        apply yields_ifMark remain (by decide)
        · rintro dots rest rfl remain
          simp only [List.length_cons] at less
          refine yields_pure
            ⟨remain, by dsimp only; omega, .dots place tag payload bar dots, ?_⟩
          simp [Tags.tokens]
        · apply (induction remain (by omega) (by omega)).bind
          rintro ⟨others, isOpen⟩ ⟨later, _⟩ _ ⟨further, fewer, tags, spells⟩
          refine yields_pure
            ⟨further, fewer.trans (by omega), .next place tag payload bar tags, ?_⟩
          rw [← spells, Tags.tokens, List.cons_append, List.append_assoc]
          rfl
      · exact yields_pure ⟨remain, Nat.lt_succ_of_lt less, .last place tag payload, rfl⟩

theorem derives_parseAlternatives (nested : Derives Written.tokens type bound) :
    Derives Alternatives.tokens (parseAlternatives type) (bound + 1) := by
  intro tokens named graph proper small
  apply yields_reads_bind (reads_peek proper.ended)
  rintro token _ rfl
  split
  · apply yields_get_bind
    apply (yields_parseTags_derived nested proper small (Nat.lt_succ_self _)).bind
    rintro ⟨entries, isOpen⟩ ⟨later, _⟩ _ ⟨further, less, tags, rfl⟩
    exact yields_makeRow ⟨further, less, .variant tags, rfl⟩
  · apply (derives_parseAtom nested _ _ _ proper small).imp
    rintro _ ⟨later, _⟩ _ ⟨further, less, atom, rfl⟩
    exact ⟨further, less, .atom atom, rfl⟩

theorem derives_parseNested (fuel : Nat) :
    Derives Written.tokens (parseNested fuel) fuel := by
  induction fuel with
  | zero =>
      intro tokens named graph proper small
      rcases proper.ended.exists_cons with ⟨token, rest, rfl, _⟩
      cases small
  | succ fuel nested =>
      intro tokens named graph proper small
      apply (derives_parseAlternatives nested).bind proper small
      rintro left argument rest named graph rfl remain less
      apply yields_ifMark remain (by decide)
      · rintro arrow rest rfl remain
        simp only [List.length_cons] at less
        apply nested.bind remain (by omega)
        rintro right result later named graph rfl further fewer
        apply yields_make
        exact ⟨further, by dsimp only; omega,
          .function left arrow right, by simp [Written.tokens]⟩
      · exact yields_pure ⟨remain, less, .plain left, rfl⟩

end TypeParser

/-! ## Whole sources -/

section Whole

variable {finish : Position}

theorem yields_parseWhole_derivation (proper : Proper (tokens ++ [⟨.finish, finish⟩]))
    (inner : ∀ token ∈ tokens, token.lexeme ≠ .finish) {fuel : Nat}
    (enough : tokens.length < fuel) :
    Yields (parseWhole fuel) ⟨tokens ++ [⟨.finish, finish⟩], named⟩ graph
      (fun _ _ _ => Nonempty (Derivation tokens)) Refused := by
  apply (derives_parseNested fuel).bind proper (by rw [List.length_append]; exact enough)
  intro type ref rest named graph spells remain _
  apply yields_given_bind gives_peek (reads_peek remain.ended)
  rintro ⟨lexeme, position⟩ _ ⟨rfl, later, rfl⟩
  dsimp only
  split
  next => exact yields_pure ⟨type, Grammar.eq_of_append_finish inner spells.symm⟩
  next => exact refuses rfl _

end Whole

end TypeGraph

namespace TypeGrammar

open Casework.TypeGraph Casework.TypeGraph.TypeParser Casework.Parser Stateful

/-- A type has been built in a graph: its derivation stands for it, the nodes that have
been added are one for each type constructor and one for each name of a variable, and the
others have been kept. -/
structure Written.IsBuilt (type : Written) (graph : TypeGraph) (ref : Ref)
    (later : TypeGraph) : Prop where
  grown : graph.size ≤ later.size
  kept : ∀ ref node, graph.node ref = .ok node → later.node ref = .ok node
  built : ∃ (nodes : List Ref) (fresh : List (String × Ref)),
    type.Builds later (fun name ref => (name, ref) ∈ fresh) ref nodes ∧
    (fresh.map Prod.fst).Nodup ∧ (∀ name, name ∈ fresh.map Prod.fst ↔ name ∈ type.names) ∧
    (nodes ++ fresh.map Prod.snd).Perm (graph.added later)

theorem Written.yields_parseWhole (type : Written) (graph : TypeGraph)
    (finish : Position) (fuel : Nat) :
    Yields (parseWhole fuel) { tokens := type.tokens ++ [⟨.finish, finish⟩] } graph
      (fun ref _ later => type.IsBuilt graph ref later) GivesUp := by
  have knows : Knows { tokens := type.tokens ++ [⟨.finish, finish⟩] } graph :=
    ⟨fun _ member => (List.not_mem_nil member).elim, .nil⟩
  apply (builds_written type fuel knows (.cons rfl _) rfl).bind
  rintro ref after later ⟨remaining, nodes, builds, adds⟩
  apply yields_peek_bind remaining
  apply yields_pure
  rcases adds.added with ⟨fresh, entries, added⟩
  have placed : ∀ name ref, after.Names name ref → (name, ref) ∈ fresh :=
    fun name ref isName => by
    simpa [entries, Row.empty] using Row.mem_of_get? isName
  have labels : after.named.labels = fresh.map Prod.fst := by
    rw [Row.labels, entries]
    rfl
  refine ⟨adds.size, adds.kept, nodes, fresh, builds.mono (fun _ _ => id) placed,
    labels ▸ adds.knows.distinct, fun name => ?_, added⟩
  rw [← labels, adds.met]
  exact or_iff_right List.not_mem_nil

variable {tokens : List Token} {finish : Position}

theorem Derivation.yields_ofTokens (derivation : Derivation tokens) (graph : TypeGraph) :
    (ofTokens (tokens ++ [⟨.finish, finish⟩])).Yields graph
      (fun ref later => derivation.type.IsBuilt graph ref later) GivesUp := by
  rcases derivation with ⟨type, rfl⟩
  exact Build.Yields.bind (type.yields_parseWhole graph finish _) fun _ _ built =>
    Build.yields_pure built

theorem yields_ofTokens_derivation (graph : TypeGraph)
    (finish : Position)
    (proper : ∀ token ∈ tokens, token.lexeme ≠ .finish ∧ token.lexeme.IsApart) :
    (ofTokens (tokens ++ [⟨.finish, finish⟩])).Yields graph
      (fun _ _ => Nonempty (Derivation tokens)) Refused := by
  have all : Proper (tokens ++ [⟨.finish, finish⟩]) := by
    refine ⟨⟨tokens, finish, rfl⟩, fun token isMember => ?_⟩
    rcases List.mem_append.1 isMember with isInner | isLast
    · exact (proper token isInner).2
    · cases List.mem_singleton.1 isLast
      trivial
  have enough : tokens.length < (tokens ++ [Token.mk .finish finish]).length + 1 := by
    rw [List.length_append]
    omega
  have whole : Yields (parseWhole ((tokens ++ [Token.mk .finish finish]).length + 1))
      { tokens := tokens ++ [⟨.finish, finish⟩] } graph
      (fun _ _ _ => Nonempty (Derivation tokens)) Refused :=
    yields_parseWhole_derivation all
      (fun token isMember => (proper token isMember).1) enough
  exact Build.Yields.bind whole fun _ _ derived => Build.yields_pure derived

theorem yields_parseType_derivation (graph : TypeGraph) (source : Source) :
    (Build.parseType source).Yields graph
      (fun ref later => ∃ (tokens : List Token) (derivation : Derivation tokens),
        Token.scan source = .ok (tokens ++ [⟨.finish, source.finish⟩]) ∧
          derivation.type.IsBuilt graph ref later)
      Refused := by
  unfold Build.parseType
  have ended := Token.ends_scan source
  cases scanned : Token.scan source with
  | error error =>
      rw [scanned] at ended
      exact Build.yields_throw ⟨error, rfl, ended⟩
  | ok tokens =>
      rcases Token.isScanned_of_scan scanned with ⟨front, rfl, all⟩
      have proper : ∀ token ∈ front, token.lexeme ≠ .finish ∧ token.lexeme.IsApart :=
        fun token isMember =>
        ⟨(all token isMember).ne_finish, (all token isMember).isApart⟩
      have derived := yields_ofTokens_derivation graph source.finish proper
      unfold Build.Yields
      split
      next ran =>
          rcases derived.of_ok ran with ⟨derivation⟩
          exact ⟨front, derivation, rfl, (derivation.yields_ofTokens graph).of_ok ran⟩
      next ran => exact derived.of_error ran

/-- Tokens before the end of the source are parsed if and only if the grammar derives
them, in one way only, and what is added to a graph is what the derivation stands for.
Otherwise there is an error of the syntax that can be reported: no parser gives up at a
bound or reads past the end. The condition only describes the tokens that scanning makes:
the end is none of them, no name is spelled like a mark, and no mark like the word before
the type of a field. -/
theorem ofTokens_iff_derivation (graph : TypeGraph) (tokens : List Token)
    (finish : Position)
    (proper : ∀ token ∈ tokens, token.lexeme ≠ .finish ∧ token.lexeme.IsApart) :
    ((∃ ref later, (ofTokens (tokens ++ [⟨.finish, finish⟩])).on graph =
      (.ok ref, later)) ↔
      Nonempty (Derivation tokens)) ∧
    (∀ left right : Derivation tokens, left = right) ∧
    (∀ (derivation : Derivation tokens) ref later,
      (ofTokens (tokens ++ [⟨.finish, finish⟩])).on graph = (.ok ref, later) →
        derivation.type.IsBuilt graph ref later) ∧
    ∀ failure later, (ofTokens (tokens ++ [⟨.finish, finish⟩])).on graph =
      (.error failure, later) →
      ∃ error : SyntaxError, failure = .badSyntax error ∧
        error.cause.isPanic = false := by
  have derived := yields_ofTokens_derivation graph finish proper
  refine ⟨⟨?_, ?_⟩, Derivation.eq, ?_, fun failure later failed =>
    derived.of_error failed⟩
  · rintro ⟨ref, later, parsed⟩
    exact derived.of_ok parsed
  · rintro ⟨derivation⟩
    rcases ran : (ofTokens (tokens ++ [⟨.finish, finish⟩])).on graph with
      ⟨failure | ref, later⟩
    · -- Giving up at a bound is no error that is reported.
      rcases derived.of_error ran with ⟨error, rfl, reported⟩
      have gaveUp : error.cause.isPanic = true :=
        (derivation.yields_ofTokens graph).of_error ran
      rw [reported] at gaveUp
      cases gaveUp
    · exact ⟨ref, later, ran⟩
  · exact fun derivation ref later parsed =>
      (derivation.yields_ofTokens graph).of_ok parsed

theorem ofTokens_iff_derivation_identity :
    Nonempty (Derivation [⟨.mark "'", .first⟩, ⟨.name "a", ⟨1, 2⟩⟩, ⟨.mark "->", ⟨1, 4⟩⟩,
      ⟨.mark "'", ⟨1, 7⟩⟩, ⟨.name "a", ⟨1, 8⟩⟩]) ∧
    ((ofTokens [⟨.mark "'", .first⟩, ⟨.name "a", ⟨1, 2⟩⟩, ⟨.mark "->", ⟨1, 4⟩⟩,
      ⟨.mark "'", ⟨1, 7⟩⟩,
      ⟨.name "a", ⟨1, 8⟩⟩, ⟨.finish, ⟨1, 9⟩⟩]).on {}).2.nodes =
        #[{ form := .var none }, { form := .function ⟨1⟩ ⟨1⟩ }] := by
  refine ⟨?_, rfl⟩
  apply (ofTokens_iff_derivation {}
    [⟨.mark "'", .first⟩, ⟨.name "a", ⟨1, 2⟩⟩, ⟨.mark "->", ⟨1, 4⟩⟩, ⟨.mark "'", ⟨1, 7⟩⟩,
      ⟨.name "a", ⟨1, 8⟩⟩] ⟨1, 9⟩ ?_).1.1 ⟨⟨2⟩, _, rfl⟩
  intro token isMember
  simp only [List.mem_cons, List.not_mem_nil, or_false] at isMember
  rcases isMember with rfl | rfl | rfl | rfl | rfl
  · exact ⟨nofun, show "'" ≠ "is" by decide⟩
  · exact ⟨nofun, show "a" ∉ markTexts by decide⟩
  · exact ⟨nofun, show "->" ≠ "is" by decide⟩
  · exact ⟨nofun, show "'" ≠ "is" by decide⟩
  · exact ⟨nofun, show "a" ∉ markTexts by decide⟩

end TypeGrammar

end Casework
