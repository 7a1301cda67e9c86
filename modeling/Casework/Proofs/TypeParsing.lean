import Casework.Proofs.ExprEffects
import Casework.Proofs.Parsing
import Casework.TypeGraph.Parser

/-!
Parsing types comes to an end.

As with expressions, a rule takes a token before it uses the parser for what is inside.
Types are built from types that have been built before, so the graph stays tidy and every
type variable that has been met is a node.
-/

namespace Casework.TypeGraph

open Casework.Parser Stateful TypeParser

variable {graph middle later : TypeGraph} {state between after : Reading} {calm : Prop}

/-- Tokens end with the end of the source, and type variables are nodes of a tidy
graph. -/
structure Sound (graph : TypeGraph) (state : Reading) : Prop where
  tidy : graph.Tidy
  ended : Ended state.tokens
  named : ∀ ref ∈ state.named.refs, graph.Has ref

structure Goes (state : Reading) (graph : TypeGraph) (after : Reading)
    (later : TypeGraph) : Prop where
  sound : later.Sound after
  grown : graph.size ≤ later.size
  le : after.tokens.length ≤ state.tokens.length

/-- A type has been built, and at least one token has been taken. -/
structure Takes (state : Reading) (graph : TypeGraph) (after : Reading)
    (later : TypeGraph) : Prop where
  sound : later.Sound after
  grown : graph.size ≤ later.size
  lt : after.tokens.length < state.tokens.length

theorem Takes.goes (takes : Takes state graph after later) :
    Goes state graph after later :=
  ⟨takes.sound, takes.grown, Nat.le_of_lt takes.lt⟩

theorem Takes.trans (first : Takes state graph between middle)
    (second : Goes between middle after later) :
    Takes state graph after later :=
  ⟨second.sound, first.grown.trans second.grown, second.le.trans_lt first.lt⟩

theorem Goes.takes (first : Goes state graph between middle)
    (second : Takes between middle after later) :
    Takes state graph after later :=
  ⟨second.sound, first.grown.trans second.grown, second.lt.trans_le first.le⟩

theorem Goes.has (goes : Goes state graph after later) {ref : Ref} (has : graph.Has ref) :
    later.Has ref :=
  has.mono goes.grown

theorem Sound.goes (sound : graph.Sound state) : Goes state graph state graph :=
  ⟨sound, Nat.le_refl _, Nat.le_refl _⟩

theorem Sound.take (sound : graph.Sound state) {rest : List Token}
    (shrink : Shrink state.tokens rest) :
    Takes state graph { state with tokens := rest } graph :=
  ⟨⟨sound.tidy, shrink.ended, sound.named⟩, Nat.le_refl _, shrink.lt⟩

theorem Sound.build (sound : graph.Sound state) (becomes : graph.Becomes later) :
    Goes state graph state later :=
  ⟨⟨becomes.tidy, sound.ended, fun ref member => becomes.has (sound.named ref member)⟩,
    becomes.grown, Nat.le_refl _⟩

namespace TypeParser

section Rules

variable {α β : Type} {parser : Parser α} {done : α → List Token → Prop}
  {last : β → Reading → TypeGraph → Prop}

/-! ## Tokens -/

theorem yields_reading (reads : parser.Reads state.tokens done) :
    Yields (reading parser) state graph (fun value after later =>
      graph = later ∧ after = { state with tokens := after.tokens } ∧
        done value after.tokens)
      (Reported calm) := by
  apply yields_get_bind
  unfold Reads at reads
  rcases ran : parser.run state.tokens with error | ⟨value, rest⟩ <;> rw [ran] at reads
  · exact fun _ => reads
  · exact And.intro rfl ⟨rfl, reads⟩

theorem yields_reading_bind {next : α → TypeParser β}
    (reads : parser.Reads state.tokens done) (second : ∀ value rest, done value rest →
      Yields (next value) { state with tokens := rest } graph last (Reported calm)) :
    Yields (reading parser >>= next) state graph last (Reported calm) := by
  apply (yields_reading reads).bind
  rintro value after _ ⟨rfl, same, holds⟩
  rw [same]
  exact second value after.tokens holds

theorem yields_refuse {last : α → Reading → TypeGraph → Prop} {cause : SyntaxCause}
    (reported : cause.isPanic = false) (token : Token) :
    Yields (reading (refuse token cause) : TypeParser α) state graph last
      (Reported calm) :=
  fun _ => reported

theorem yields_ifAccept {yes no : TypeParser β}
    (sound : graph.Sound state) (text : String) (accepted : ∀ between,
      Takes state graph between graph → Yields yes between graph last (Reported calm))
    (refused : Yields no state graph last (Reported calm)) :
    Yields (do if ← accept text then yes else no) state graph last (Reported calm) := by
  apply yields_reading_bind (reads_accept sound.ended text)
  intro isAccepted rest result
  cases isAccepted with
  | true => exact accepted _ (sound.take result)
  | false =>
      cases result
      exact refused

theorem yields_accept_bind {next : Bool → TypeParser β}
    (sound : graph.Sound state) {text : String}
    (rest : ∀ accepted between, Goes state graph between graph →
      Yields (next accepted) between graph last (Reported calm)) :
    Yields (accept text >>= next) state graph last (Reported calm) := by
  apply yields_reading_bind (reads_accept sound.ended text)
  intro isAccepted remaining result
  cases isAccepted with
  | true => exact rest true _ (sound.take result).goes
  | false =>
      cases result
      exact rest false _ sound.goes

theorem yields_expect_bind {next : Unit → TypeParser β}
    (sound : graph.Sound state) (text : String)
    (rest : ∀ between, Takes state graph between graph →
      Yields (next ()) between graph last (Reported calm)) :
    Yields (expect text >>= next) state graph last (Reported calm) := by
  apply yields_reading_bind (reads_expect sound.ended text)
  exact fun _ _ shrink => rest _ (sound.take shrink)

end Rules

theorem yields_build (sound : graph.Sound state) {build : Build Ref}
    (builds : build.Yields graph (Build.Makes graph) (Reported calm)) :
    Yields (liftM build : TypeParser Ref) state graph
      (fun ref after later => Goes state graph after later ∧ later.Has ref)
        (Reported calm) := by
  apply (yields_lift builds).imp
  rintro ref _ later ⟨rfl, becomes, has⟩
  exact ⟨sound.build becomes, has⟩

theorem yields_typeVariable (sound : graph.Sound state) (name : String) :
    Yields (typeVariable name) state graph
      (fun ref after later => Goes state graph after later ∧ later.Has ref)
        (Reported calm) := by
  apply yields_get_bind
  split
  next ref found =>
      exact yields_pure ⟨sound.goes, sound.named ref (Row.mem_refs_of_get? found)⟩
  next =>
      apply yields_lift_bind (Build.yields_newVar sound.tidy)
      rintro ref later ⟨becomes, has⟩
      apply yields_modify_bind
      have goes := sound.build becomes
      refine yields_pure
        ⟨⟨⟨becomes.tidy, sound.ended, fun own member => ?_⟩, goes.grown, goes.le⟩, has⟩
      rcases Row.mem_refs_put member with old | rfl
      · exact goes.sound.named own old
      · exact has

/-! ## Repetitions -/

/-- The parser for what is inside builds a type and takes tokens, as long as there are not
too many of them. -/
def Nests (type : TypeParser Ref) (bound : Nat) : Prop :=
  ∀ state graph, graph.Sound state → state.tokens.length ≤ bound →
    Yields type state graph
    (fun ref after later => Takes state graph after later ∧ later.Has ref)
      (Reported True)

variable {type : TypeParser Ref} {bound fuel : Nat}

theorem yields_parseField (nests : Nests type bound)
    (small : state.tokens.length ≤ bound + 1) (following : ∀ next graph,
      graph.Sound next → next.tokens.length < state.tokens.length →
      Yields (parseFields type fuel false) next graph (fun fields after later =>
        Takes next graph after later ∧ ∀ entry ∈ fields.1, later.Has entry.2)
          (Reported True))
    (sound : graph.Sound state) :
    Yields (do
      let pointed ← accept "."
      let (_, name) ← reading (takeName .expectedField)
      expect "is"
      let field ← type
      let (fields, someLaterPointed) ← parseFields type fuel false
      return ((name, field) :: fields, pointed || someLaterPointed)) state graph
      (fun fields after later => Takes state graph after later ∧ ∀ entry ∈ fields.1,
        later.Has entry.2)
      (Reported True) := by
  apply yields_accept_bind sound
  intro pointed point pointGoes
  apply yields_reading_bind (reads_takeName pointGoes.sound.ended fun _ => rfl)
  rintro ⟨_, name⟩ rest named
  have nameTaken := pointGoes.sound.take named
  apply yields_expect_bind nameTaken.sound
  intro word wordTaken
  have head := pointGoes.takes (nameTaken.trans wordTaken.goes)
  have headLt := head.lt
  apply (nests word graph head.sound (by omega)).bind
  rintro field afterField middle ⟨taken, fieldHas⟩
  have all := head.trans taken.goes
  apply (following afterField middle taken.sound all.lt).bind
  rintro ⟨fields, someLaterPointed⟩ after later ⟨further, fieldsHave⟩
  refine yields_pure ⟨all.trans further.goes, fun entry member => ?_⟩
  rcases List.mem_cons.1 member with rfl | inFields
  · exact further.goes.has fieldHas
  · exact fieldsHave entry inFields

theorem yields_parseFields (nests : Nests type bound) (sound : graph.Sound state)
    (small : state.tokens.length ≤ bound) (enough : state.tokens.length < fuel)
    (first : Bool) :
    Yields (parseFields type fuel first) state graph (fun fields after later =>
      Takes state graph after later ∧ ∀ entry ∈ fields.1, later.Has entry.2)
        (Reported True) := by
  induction fuel generalizing state graph first with
  | zero => omega
  | succ fuel induction =>
      have field (comma : Reading) (started : Goes state graph comma graph) :=
        have le := started.le
        (yields_parseField nests (by omega) (fun next middle sound less =>
          induction sound (by omega) (by omega) false) started.sound).imp
            fun _ _ _ done => And.intro (started.takes done.1) done.2
      apply yields_ifAccept sound
      · exact fun between closed =>
          yields_pure ⟨closed, fun _ member => (List.not_mem_nil member).elim⟩
      · cases first with
        | true => exact field state sound.goes
        | false =>
            exact yields_expect_bind sound "," fun between comma =>
              field between comma.goes

theorem yields_takeTag (sound : graph.Sound state) :
    Yields takeTag state graph
      (fun _ after later => graph = later ∧ Takes state graph after graph)
      (Reported True) := by
  apply yields_reading_bind (reads_take sound.ended)
  rintro ⟨lexeme, position⟩ rest (shrink | ⟨isFinish, _⟩)
  · dsimp only
    split
    · split
      · exact yields_pure ⟨rfl, sound.take shrink⟩
      · exact yields_refuse rfl _
    · exact yields_refuse rfl _
  · cases isFinish
    exact yields_refuse rfl _

/-! ## Rules -/

theorem yields_parseNamed (nests : Nests type bound) (sound : graph.Sound state)
    (small : state.tokens.length ≤ bound) (token : Token) (name : String) :
    Yields (parseNamed type token name) state graph
      (fun ref after later => Goes state graph after later ∧ later.Has ref)
        (Reported True) := by
  unfold parseNamed
  split
  · exact yields_build sound (Build.yields_newPrimitive sound.tidy _)
  · exact yields_build sound (Build.yields_newPrimitive sound.tidy _)
  · exact yields_build sound (Build.yields_newPrimitive sound.tidy _)
  · exact yields_build sound (Build.yields_newPrimitive sound.tidy _)
  · apply yields_expect_bind sound
    intro opened openTaken
    have openLt := openTaken.lt
    apply (nests opened graph openTaken.sound (by omega)).bind
    rintro element between middle ⟨taken, elementHas⟩
    apply yields_expect_bind taken.sound
    intro closed closeTaken
    have both := openTaken.trans (taken.trans closeTaken.goes).goes
    apply (yields_build both.sound (Build.yields_newList both.sound.tidy elementHas)).imp
    rintro ref after later ⟨built, has⟩
    exact ⟨(both.trans built).goes, has⟩
  · exact yields_refuse rfl _

theorem nests_parseAtom (nests : Nests type bound) :
    Nests (parseAtom type) (bound + 1) := by
  intro state graph sound small
  apply yields_reading_bind (reads_take sound.ended)
  rintro ⟨lexeme, position⟩ rest (shrink | ⟨isFinish, _⟩)
  · have lt := shrink.lt
    have taken := sound.take shrink
    have inside : rest.length ≤ bound := by omega
    have further {parser : TypeParser Ref}
        (yields : Yields parser { state with tokens := rest } graph
          (fun ref after later =>
            Goes { state with tokens := rest } graph after later ∧ later.Has ref)
        (Reported True)) : Yields parser { state with tokens := rest } graph
        (fun ref after later => Takes state graph after later ∧ later.Has ref)
          (Reported True) :=
      yields.imp fun _ _ _ done => ⟨taken.trans done.1, done.2⟩
    dsimp only
    split
    · exact further (yields_parseNamed nests taken.sound inside _ _)
    · apply yields_reading_bind (reads_takeName taken.sound.ended fun _ => rfl)
      rintro ⟨_, name⟩ following named
      have nameTaken := taken.sound.take named
      apply (yields_typeVariable nameTaken.sound name).imp
      rintro ref after later ⟨goes, has⟩
      exact ⟨taken.trans (nameTaken.trans goes).goes, has⟩
    · apply further
      apply yields_ifAccept taken.sound
      · intro closed closeTaken
        apply (yields_build closeTaken.sound
          (Build.yields_newPrimitive closeTaken.sound.tidy _)).imp
        rintro ref after later ⟨built, has⟩
        exact ⟨(closeTaken.trans built).goes, has⟩
      · apply (nests _ graph taken.sound inside).bind
        rintro inner between middle ⟨innerTaken, innerHas⟩
        apply yields_expect_bind innerTaken.sound
        intro closed closeTaken
        exact yields_pure ⟨(innerTaken.trans closeTaken.goes).goes, innerHas⟩
    · apply further
      apply yields_get_bind
      apply (yields_parseFields nests taken.sound inside (Nat.lt_succ_self _) true).bind
      rintro ⟨fields, pointed⟩ between middle ⟨fieldsTaken, fieldsHave⟩
      have built : Yields (if pointed then Build.newOpen .struct fields
          else Build.newClosed .struct fields : TypeParser Ref) between middle
          (fun ref after later => Goes between middle after later ∧ later.Has ref)
          (Reported True) := by
        split
        · exact yields_build fieldsTaken.sound
            (Build.yields_newOpen fieldsTaken.sound.tidy _ fieldsHave)
        · exact yields_build fieldsTaken.sound
            (Build.yields_newClosed fieldsTaken.sound.tidy _ fieldsHave)
      apply built.imp
      rintro ref after later ⟨goes, has⟩
      exact ⟨(fieldsTaken.trans goes).goes, has⟩
    · exact yields_refuse rfl _
  · cases isFinish
    exact yields_refuse rfl _

theorem yields_parseTags (nests : Nests type bound) (sound : graph.Sound state)
    (small : state.tokens.length ≤ bound + 1) (enough : state.tokens.length < fuel) :
    Yields (parseTags type fuel) state graph (fun tags after later =>
      Takes state graph after later ∧ ∀ entry ∈ tags.1, later.Has entry.2)
        (Reported True) := by
  induction fuel generalizing state graph with
  | zero => omega
  | succ fuel induction =>
      apply (yields_takeTag sound).bind
      rintro tag first _ ⟨rfl, tagTaken⟩
      have tagLt := tagTaken.lt
      apply (nests_parseAtom nests first graph tagTaken.sound (by omega)).bind
      rintro payload second middle ⟨payloadTaken, payloadHas⟩
      have both := tagTaken.trans payloadTaken.goes
      have alone : ∀ entry ∈ [(tag, payload)], middle.Has entry.2 := by
        intro entry member
        rw [List.mem_singleton.1 member]
        exact payloadHas
      apply yields_ifAccept both.sound
      · intro third barTaken
        have all := both.trans barTaken.goes
        have allLt := all.lt
        apply yields_ifAccept all.sound
        · exact fun after dots => yields_pure ⟨all.trans dots.goes, alone⟩
        · apply (induction all.sound (by omega) (by omega)).bind
          rintro ⟨tags, isOpen⟩ after later ⟨further, tagsHave⟩
          refine yields_pure ⟨all.trans further.goes, fun entry member => ?_⟩
          rcases List.mem_cons.1 member with rfl | inTags
          · exact further.goes.has payloadHas
          · exact tagsHave entry inTags
      · exact yields_pure ⟨both, alone⟩

theorem nests_parseAlternatives (nests : Nests type bound) :
    Nests (parseAlternatives type) (bound + 1) := by
  intro state graph sound small
  apply yields_reading_bind (reads_peek sound.ended)
  rintro token _ rfl
  split
  · apply yields_get_bind
    apply (yields_parseTags nests sound small (Nat.lt_succ_self _)).bind
    rintro ⟨tags, isOpen⟩ between middle ⟨taken, tagsHave⟩
    have built : Yields (if isOpen then Build.newOpen .variant tags
        else Build.newClosed .variant tags : TypeParser Ref) between middle
        (fun ref after later => Goes between middle after later ∧ later.Has ref)
        (Reported True) := by
      split
      · exact yields_build taken.sound (Build.yields_newOpen taken.sound.tidy _ tagsHave)
      · exact yields_build taken.sound
          (Build.yields_newClosed taken.sound.tidy _ tagsHave)
    apply built.imp
    rintro ref after later ⟨goes, has⟩
    exact ⟨taken.trans goes, has⟩
  · exact nests_parseAtom nests state graph sound small

theorem nests_parseWith (nests : Nests type bound) :
    Nests (parseWith type) (bound + 1) := by
  intro state graph sound small
  apply (nests_parseAlternatives nests state graph sound small).bind
  rintro argument first middle ⟨taken, argumentHas⟩
  apply yields_ifAccept taken.sound
  · intro second arrow
    have both := taken.trans arrow.goes
    have lt := both.lt
    apply (nests second middle both.sound (by omega)).bind
    rintro result third last ⟨further, resultHas⟩
    have all := both.trans further.goes
    apply (yields_build all.sound (Build.yields_newFunction all.sound.tidy
      (further.goes.has argumentHas) resultHas)).imp
    rintro ref after later ⟨goes, has⟩
    exact ⟨all.trans goes, has⟩
  · exact yields_pure ⟨taken, argumentHas⟩

theorem nests_parseNested (fuel : Nat) : Nests (parseNested fuel) fuel := by
  induction fuel with
  | zero =>
      intro state graph sound small
      rcases sound.ended.exists_cons with ⟨token, rest, same, _⟩
      rw [same] at small
      cases small
  | succ fuel induction => exact nests_parseWith induction

theorem yields_parseWhole (sound : graph.Sound state)
    (small : state.tokens.length ≤ fuel) :
    Yields (parseWhole fuel) state graph (fun ref _ later => Build.Makes graph ref later)
      (Reported True) := by
  apply (nests_parseNested fuel state graph sound small).bind
  rintro ref between later ⟨taken, has⟩
  apply yields_reading_bind (reads_peek taken.sound.ended)
  rintro token _ rfl
  split
  · exact yields_pure ⟨⟨taken.sound.tidy, taken.grown⟩, has⟩
  · exact yields_refuse rfl _

end TypeParser

theorem yields_ofTokens (tidy : graph.Tidy) {tokens : List Token} (ended : Ended tokens) :
    (ofTokens tokens).Yields graph (Build.Makes graph) (Reported True) := by
  have sound : graph.Sound { tokens := tokens } :=
    ⟨tidy, ended, fun _ member => (nomatch member)⟩
  have whole : ((parseWhole (tokens.length + 1)).run { tokens := tokens }).Yields graph
      (fun result => Build.Makes graph result.1) (Reported True) :=
    yields_parseWhole sound (Nat.le_succ _)
  exact whole.bind fun result later made => Build.yields_pure made

theorem yields_parseType (tidy : graph.Tidy) (source : Source) :
    (Build.parseType source).Yields graph (Build.Makes graph) (Reported True) := by
  have scanned := Token.ends_scan source
  unfold Build.parseType
  split
  next tokens ran =>
      rw [ran] at scanned
      exact yields_ofTokens tidy scanned
  next error ran =>
      rw [ran] at scanned
      exact Build.yields_throw fun _ => scanned

end Casework.TypeGraph
