import Casework.Proofs.Fitting
import Casework.Proofs.PatternTyping
import Casework.Proofs.Scanning

/-!
What checking patterns does to types.

Every pattern is checked against a type of the copy, or against a type of its own that the
copy is then unified with. Either way nothing is done to a node of the original, whether
the pattern is accepted or refused. And a pattern is refused for a reason that can be
reported, never because of a misuse of the graph.
-/

namespace Casework

mutual

/-- Tells whether a failure is a misuse of a type graph or of a list of tokens, which a
caller must not cause. -/
def Failure.isPanic : Failure → Bool
  | .fault _ => true
  | .badSyntax error => error.cause.isPanic
  | .within _ inner => inner.isPanic
  | .several failures => Failure.anyPanic failures
  | _ => false

def Failure.anyPanic : List Failure → Bool
  | [] => false
  | failure :: rest => failure.isPanic || Failure.anyPanic rest

end

/-- All fields of foreign classes have primitive types. -/
def Setting.Primitive (setting : Setting) : Prop :=
  ∀ name static, setting.static? name = some static → ∃ primitive, static.kind =
    .primitive primitive

theorem Form.exists_variant_of_kind {form : Form} (isVariant : form.kind = .variant) :
    ∃ members bound, form = .row .variant members bound := by
  cases form with
  | row kind members bound =>
      cases kind with
      | struct => cases isVariant
      | variant => exact ⟨members, bound, rfl⟩
  | _ => cases isVariant

theorem Form.exists_list_of_kind {form : Form} (isList : form.kind = .list) :
    ∃ element, form = .list element := by
  cases form with
  | list element => exact ⟨element, rfl⟩
  | row kind members bound => cases kind <;> cases isList
  | _ => cases isList

namespace TypeGraph

variable {original graph middle later : TypeGraph} {unfolding base : Nat}
  {ref target : Ref} {node : Node} {calm : Prop} {failure : Failure}

/-- A failure that leaves the original as it is. In a calm situation it is no misuse. -/
def Harmless (original : TypeGraph) (calm : Prop) (failure : Failure)
    (later : TypeGraph) : Prop :=
  (∀ ref, original.Has ref → later.node ref = original.node ref) ∧
    (calm → failure.isPanic = false)

def Proceeds (original : TypeGraph) (unfolding base : Nat) (graph later : TypeGraph) :
    Prop :=
  Advances original unfolding base graph.size graph later

theorem Copying.harmless (copying : Copying original unfolding base graph)
    (reported : failure.isPanic = false) : Harmless original calm failure graph :=
  ⟨copying.frozen, fun _ => reported⟩

namespace Proceeds

theorem copying (proceeds : Proceeds original unfolding base graph later) :
    Copying original unfolding base later :=
  Advances.copying proceeds

theorem grown (proceeds : Proceeds original unfolding base graph later) :
    graph.size ≤ later.size :=
  proceeds.spares.grown

theorem has (proceeds : Proceeds original unfolding base graph later)
    (has : graph.Has ref) :
    later.Has ref :=
  has.mono proceeds.grown

theorem trans (first : Proceeds original unfolding base graph middle)
    (second : Proceeds original unfolding base middle later) :
    Proceeds original unfolding base graph later :=
  Advances.trans first (Advances.mono second first.grown)

theorem lower (proceeds : Proceeds original unfolding graph.size graph later)
    (copying : Copying original unfolding base graph) :
    Proceeds original unfolding base graph later :=
  Advances.lower proceeds copying copying.small (Nat.le_refl _)

end Proceeds

theorem Copying.proceeds (copying : Copying original unfolding base graph) :
    Proceeds original unfolding base graph graph :=
  copying.refl graph.size

def IsVariant (graph : TypeGraph) (ref : Ref) (members : Row) (bound : Option Row) :
    Prop :=
  ∃ node, graph.node ref = .ok node ∧ node.link = none ∧ node.form =
    .row .variant members bound

theorem Copying.bind_new (copying : Copying original unfolding base graph)
    {form : Form} {bound : Node} (bare : form.refs = []) (fair : form.Fair)
    (plain : form.isPlain) (rooted : graph.Rooted ref ref node) (high : base < ref.number)
    (isVar : node.form.kind = .var)
    (alters : (graph.allocate { form := form }).2.Alters later ref node bound)
    (same : bound.form = node.form)
    (linked : bound.link = some (graph.allocate { form := form }).1) :
    Proceeds original unfolding base graph later ∧
      later.node (graph.allocate { form := form }).1 = .ok { form := form } := by
  have noPosition := Form.isPosition_of_isPlain plain
  have allocated :=
    copying.allocate form (fun part member => by rw [bare] at member; cases member) fair
    (Form.snug_of_isPlain plain) noPosition graph.size
  have different : (graph.allocate { form := form }).1 ≠ ref := fun equal =>
    not_has_allocate graph _ (equal ▸ rooted.has)
  have goal : (graph.allocate { form := form }).2.Rooted
      (graph.allocate { form := form }).1
      (graph.allocate { form := form }).1 { form := form } := rooted_allocate rfl
  rcases Form.exists_var_of_kind isVar with ⟨origin, nodeForm⟩
  have stored : bound.stored = node.stored ++ [(graph.allocate { form := form }).1] := by
    rw [Node.stored, Node.stored, same, linked, rooted.unlinked, nodeForm]
    rfl
  have isNew : graph.size < ((graph.allocate { form := form }).1).number := Int.lt_succ _
  have small := copying.small
  have changed := allocated.copying.alter alters high
    (alters.wellFormed_of_linked rooted.unlinked linked goal different
      allocated.copying.wellFormed goal.has (fun part member => by rwa [same] at member)
      (by rw [same, nodeForm]; trivial))
    (fun part member => by
      rw [stored, Node.stored, rooted.unlinked, nodeForm] at member
      rw [List.mem_singleton.1 member]
      omega)
    (by rw [same, nodeForm]; trivial) (.inl same)
  have newLater := (alters.others _ different).trans goal.found
  refine ⟨⟨changed.1, allocated.spares.trans ⟨alters.size.ge, changed.2, ?_⟩⟩, newLater⟩
  refine alters.forests (copying.wellFormed.closed_allocate)
    (fun before => by rwa [same]) stored
    (.leaf newLater plain ?_) ?_
  · rw [Node.stored_of_unlinked rfl]
    exact bare
  · intro own member
    rw [List.mem_singleton.1 member]
    exact isNew

theorem Copying.put_new (copying : Copying original unfolding base graph)
    {members : Row} {tag : String} {put : Node} (found : graph.node ref = .ok node)
    (unlinked : node.link = none) (form : node.form = .row .variant members none)
    (absent : members.get? tag = none) (high : base < ref.number)
    (alters : (graph.allocate { form := .var none }).2.Alters later ref node put)
    (newForm : put.form = .row .variant
      (members.put tag (graph.allocate { form := .var none }).1) none)
    (link : put.link = none) :
    Proceeds original unfolding base graph later ∧
      later.Has (graph.allocate { form := .var none }).1 := by
  have allocated := copying.allocate (.var none) (fun _ member => (nomatch member))
    trivial trivial rfl
    graph.size
  have different : (graph.allocate { form := .var none }).1 ≠ ref := fun equal =>
    not_has_allocate graph _ (equal ▸ has_of_node found)
  have newFound :=
    (alters.others _ different).trans (graph.node_allocate_self { form := .var none })
  have isNew : graph.size <
      ((graph.allocate { form := .var none }).1).number := Int.lt_succ _
  have small := copying.small
  have stored : put.stored = node.stored ++
      [(graph.allocate { form := .var none }).1] := by
    rw [Node.stored_of_unlinked link, Node.stored_of_unlinked unlinked, newForm, form]
    simp [Form.refs, Row.refs, Row.entries_put_of_absent absent]
  have parts := copying.above ref node high found
  have fair : members.Fair none := by
    have nodeFair := copying.wellFormed.fair ref node found
    rwa [form] at nodeFair
  have changed := allocated.copying.alter alters high
    (alters.wellFormed (link.trans unlinked.symm) allocated.copying.wellFormed
      (fun part member => by
        have held : part ∈ put.stored := put.mem_stored_of_refs member
        rw [stored, List.mem_append] at held
        rcases held with old | new
        · exact allocated.has (copying.wellFormed.stored ref node found part old)
        · rw [List.mem_singleton.1 new]
          exact graph.has_allocate _)
      (newForm ▸ fair.put_unbounded))
    (fun part member => by
      rw [stored, List.mem_append] at member
      rcases member with old | new
      · exact parts part old
      · rw [List.mem_singleton.1 new]
        omega)
    (newForm ▸ trivial) (.inr (newForm ▸ rfl))
  refine ⟨⟨changed.1, allocated.spares.trans ⟨alters.size.ge, changed.2, ?_⟩⟩,
    has_of_node newFound⟩
  refine alters.forests copying.wellFormed.closed_allocate (fun _ => newForm ▸ rfl) stored
    (.leaf newFound rfl rfl) ?_
  intro own member
  rw [List.mem_singleton.1 member]
  exact isNew

end TypeGraph

namespace Build

open TypeGraph

variable {original graph middle : TypeGraph} {unfolding base : Nat}
  {ref type : Ref} {calm : Prop} {failed : Failure → TypeGraph → Prop}

theorem yields_rejected {α : Type} {done : α → TypeGraph → Prop}
    (copying : Copying original unfolding base graph) (place : Position)
    (cause : CompileCause) :
    (reject place cause : Build α).Yields graph done (Harmless original calm) :=
  yields_throw (copying.harmless rfl)

/-! ## Marks -/

theorem yields_remark (copying : Copying original unfolding base graph)
    (has : graph.Has ref) (high : base < ref.number) (change : Marks → Marks) :
    (remark ref change).Yields graph
      (fun _ later => Proceeds original unfolding base graph later) failed := by
  rcases has_iff.1 has with ⟨node, found⟩
  exact yields_update has (copying.remark (alters_update found _) high rfl rfl _)

theorem yields_marks {node : Node} (found : graph.node ref = .ok node) :
    (marks ref).Yields graph (fun _ later => graph = later) failed :=
  yields_read found rfl

theorem yields_listForms {node : Node} (found : graph.root ref = .ok node) :
    (listForms ref).Yields graph (fun _ later => graph = later) failed :=
  yields_read found rfl

theorem yields_hasAny (has : graph.Has ref) :
    (hasAny ref).Yields graph (fun _ later => graph = later) failed := by
  rcases has_iff.1 has with ⟨node, found⟩
  apply yields_read_bind found
  exact yields_pure rfl

theorem yields_remarkRoot (copying : Copying original unfolding base graph)
    (has : graph.Has ref) (high : base < ref.number) (change : Marks → Marks) :
    (do remark (← deref ref) change : Build Unit).Yields graph
      (fun _ later => Proceeds original unfolding base graph later) failed := by
  rcases copying.wellFormed.settles ref has with ⟨target, node, rooted⟩
  apply yields_look_bind rooted.deref
  exact yields_remark copying rooted.has (copying.above_of_leads rooted.leads high) change

theorem yields_noteMatched (copying : Copying original unfolding base graph)
    (has : graph.Has ref) (high : base < ref.number) (tag : String) :
    (noteMatched ref tag).Yields graph
      (fun _ later => Proceeds original unfolding base graph later) failed := by
  rcases copying.wellFormed.settles ref has with ⟨target, node, rooted⟩
  apply yields_updateRoot rooted
  exact copying.remark (alters_update rooted.found _)
    (copying.above_of_leads rooted.leads high) rfl rfl _

/-! ## Reading -/

theorem yields_members {node : Node} (found : graph.root ref = .ok node) :
    (members ref).Yields graph
      (fun row later => row = node.form.members?.getD .empty ∧ graph = later) failed :=
  yields_read found ⟨rfl, rfl⟩

theorem yields_member? {node : Node} (found : graph.root ref = .ok node) (name : String) :
    (member? ref name).Yields graph
      (fun type? later => type? = (node.form.members?.getD .empty).get? name ∧ graph =
        later) failed := by
  apply (yields_members found).bind
  rintro row _ ⟨rfl, rfl⟩
  exact yields_pure ⟨rfl, rfl⟩

theorem yields_bound? {node : Node} (found : graph.root ref = .ok node) :
    (bound? ref).Yields graph
      (fun bound later => bound = node.form.bound? ∧ graph = later) failed :=
  yields_read found ⟨rfl, rfl⟩

theorem yields_text (tidy : original.Tidy)
    (copying : Copying original unfolding base graph) (has : graph.Has ref) :
    (text ref).Yields graph (fun _ later => graph = later) failed := by
  rcases copying.text tidy has with ⟨text, shown⟩
  exact yields_look shown rfl

theorem yields_allows {node : Node} (found : graph.root ref = .ok node) (name : String) :
    (allows ref name).Yields graph
      (fun allowed later => allowed = node.form.bound?.all (·.contains name) ∧ graph =
        later) failed := by
  apply (yields_bound? found).bind
  rintro bound _ ⟨rfl, rfl⟩
  exact yields_pure ⟨rfl, rfl⟩

/-! ## Types of patterns -/

theorem yields_allocate_copying
    (copying : Copying original unfolding base graph) (form : Form)
    (parts : ∀ part ∈ form.refs, graph.Has part ∧ base < part.number) (fair : form.Fair)
    (plain : form.isPlain) :
    (allocate { form := form }).Yields graph
      (fun ref later => Proceeds original unfolding base graph later ∧
      graph.size < ref.number ∧ later.Rooted ref ref { form := form } ∧
        ∀ nodes, graph.Forest form.refs nodes → ∃ all,
          later.Forest [ref] all) failed := by
  apply yields_allocate
  refine ⟨?_, Int.lt_succ _, rooted_allocate rfl, fun nodes trees => ?_⟩
  · exact copying.allocate form parts fair (Form.snug_of_isPlain plain)
      (Form.isPosition_of_isPlain plain) _
  · have isNew : (graph.allocate { form := form }).1 ∉ nodes ++ [] := by
      rw [List.append_nil]
      exact fun member => not_has_allocate graph _ (trees.has member)
    exact ⟨_, .cons (graph.node_allocate_self { form := form }) plain
      (trees.frame fun ref _ => keeps_allocate) .nil isNew (List.disjoint_nil_right _)⟩

theorem yields_newVar_copying (copying : Copying original unfolding base graph) :
    newVar.Yields graph (fun ref later => Proceeds original unfolding base graph later ∧
      graph.size < ref.number ∧ later.Has ref ∧ ∃ nodes,
        later.Forest [ref] nodes) failed := by
  apply (yields_allocate_copying copying (.var none) (fun _ member => (nomatch member))
    trivial rfl).imp
  rintro ref later ⟨proceeds, isNew, rooted, trees⟩
  exact ⟨proceeds, isNew, rooted.has, trees [] .nil⟩

theorem yields_unifyAt_copying (tidy : original.Tidy)
    (copying : Copying original unfolding base graph)
    (built : Proceeds original unfolding graph.size graph middle)
    (place : Position) {right : Ref} {nodes : List Ref} (has : graph.Has type)
    (high : base < type.number) (rightHas : middle.Has right)
    (rightHigh : graph.size < right.number) (tree : middle.Forest [right] nodes) :
    (unifyAt place type right).Yields middle
      (fun _ later => Proceeds original unfolding base graph later ∧
        middle.size ≤ later.size ∧
        later.Same type right ∧ middle.Lasting later)
      (Harmless original calm) := by
  have started := built.lower copying
  have unified := yields_unify_copying tidy started.copying built.copying
    (built.has has) high has.2
    rightHas rightHigh tree
  apply Yields.tryCatch (unified.imp _)
  · rintro failure later ⟨⟨clash, rfl⟩, copyingLater⟩
    exact yields_rejected copyingLater place _
  · rintro _ later ⟨advances, same, lasting⟩
    exact ⟨Advances.trans started advances, advances.spares.grown, same, lasting⟩

theorem yields_bindNew_bind {β : Type} {next : Ref → Build β}
    {last : β → TypeGraph → Prop} {node : Node}
    (copying : Copying original unfolding base graph) (form : Form)
    (bare : form.refs = []) (fair : form.Fair) (plain : form.isPlain)
    (found : graph.node ref = .ok node) (unlinked : node.link = none)
    (high : base < ref.number) (isVar : node.form.kind = .var)
    (rest : ∀ (new : Ref) later, Proceeds original unfolding base graph later →
      base < new.number →
      later.node new = .ok { form := form } → (next new).Yields later last failed) :
    (allocate { form := form } >>= fun new => bind ref new >>= fun _ => next new).Yields
      graph last failed := by
  have foundLater := node_allocate_of_ok found { form := form }
  have alters := alters_update foundLater fun node =>
    { node with
      link := if (graph.allocate { form := form }).1.number = 0 then none
        else some (graph.allocate { form := form }).1 }
  have nonzero : (graph.allocate { form := form }).1.number ≠ 0 := by
    have positive := (graph.has_allocate { form := form }).1
    omega
  have linked : (if (graph.allocate { form := form }).1.number = 0 then none
      else some (graph.allocate { form := form }).1) =
      some (graph.allocate { form := form }).1 :=
    if_neg nonzero
  have bound := copying.bind_new bare fair plain (.self found unlinked) high isVar
    alters rfl linked
  have newHigh : base < ((graph.allocate { form := form }).1).number := by
    have small := copying.small
    change (base : Int) < graph.size + 1
    omega
  apply yields_allocate_bind
  unfold bind
  rw [bind_assoc]
  apply yields_read_bind foundLater
  rw [isVar, unlinked]
  apply yields_update_bind (has_of_node foundLater)
  exact rest _ _ bound.1 newHigh bound.2

theorem yields_newList_bind {β : Type} {next : Ref → Build β}
    {last : β → TypeGraph → Prop} (copying : Copying original unfolding base graph)
    (rest : ∀ (element list : Ref) middle nodes,
      Proceeds original unfolding graph.size graph middle →
      graph.size < list.number → middle.Rooted list list { form := .list element } →
        middle.Forest [list] nodes → (next list).Yields middle last failed) :
    (newVar >>= fun element => newList element >>= next).Yields graph last failed := by
  apply (yields_newVar_copying copying.rebase).bind
  rintro element first ⟨allocated, elementNew, elementHas, nodes, tree⟩
  have parts : ∀ part ∈ (Form.list element).refs, first.Has part ∧ graph.size <
      part.number := by
    intro part member
    rw [List.mem_singleton.1 member]
    exact ⟨elementHas, elementNew⟩
  apply (yields_allocate_copying allocated.copying (.list element) parts trivial rfl).bind
  rintro list second ⟨allocatedToo, listNew, listRooted, trees⟩
  have grown := allocated.grown
  rcases trees nodes tree with ⟨all, listTree⟩
  exact rest element list second all (allocated.trans allocatedToo) (by omega)
    listRooted listTree

end Build

namespace Elaborate

open TypeGraph

variable {original graph middle : TypeGraph} {unfolding base : Nat}
  {ref type : Ref} {calm : Prop}

/-! ## Patterns without parts -/

theorem yields_coverAll (copying : Copying original unfolding base graph)
    (has : graph.Has type) (high : base < type.number)
    {failed : Failure → TypeGraph → Prop} :
    (coverAll type).Yields graph
      (fun _ later => Proceeds original unfolding base graph later) failed := by
  apply (Build.yields_remark copying has high _).bind
  intro _ middle marked
  rcases marked.copying.wellFormed.settles type (marked.has has) with
    ⟨target, node, rooted⟩
  apply Build.yields_look_bind rooted.deref
  apply Build.yields_read_bind (TypeGraph.Rooted.self rooted.found rooted.unlinked).root
  split
  · apply (Build.yields_remark marked.copying rooted.has
      (marked.copying.above_of_leads rooted.leads high) _).imp
    exact fun _ later marking => marked.trans marking
  · exact Build.yields_pure marked

theorem yields_unit (tidy : original.Tidy)
    (copying : Copying original unfolding base graph) (has : graph.Has type)
    (high : base < type.number) (place : Position) :
    (unit place type).Yields graph
      (fun _ later => Proceeds original unfolding base graph later)
      (Harmless original calm) := by
  apply (Build.yields_allocate_copying copying.rebase (.primitive .unit)
    (fun _ member => (nomatch member)) trivial rfl).bind
  rintro primitive first ⟨allocated, isNew, rooted, trees⟩
  rcases trees [] .nil with ⟨nodes, tree⟩
  apply (Build.yields_unifyAt_copying tidy copying allocated place has high rooted.has
    isNew tree).bind
  rintro _ second ⟨unified, _, _⟩
  apply (Build.yields_remark unified.copying (unified.has has) high _).bind
  intro _ later marked
  exact Build.yields_pure (unified.trans marked)

theorem yields_emptyList (tidy : original.Tidy)
    (copying : Copying original unfolding base graph) (has : graph.Has type)
    (high : base < type.number) (place : Position) :
    (emptyList place type).Yields graph
      (fun _ later => Proceeds original unfolding base graph later)
      (Harmless original calm) := by
  apply Build.yields_newList_bind copying
  intro element list first nodes built isNew rooted tree
  apply (Build.yields_unifyAt_copying tidy copying built place has high rooted.has
    isNew tree).bind
  rintro _ second ⟨unified, _, _⟩
  apply (Build.yields_remarkRoot unified.copying (unified.has has) high _).bind
  intro _ later marked
  exact Build.yields_pure (unified.trans marked)

def ConstantTyped (graph : TypeGraph) (code : Code) : Prop :=
  ∀ value type, code = .constant value type →
    ∃ target node primitive, graph.Rooted type target node ∧ node.form =
    .primitive primitive

theorem yields_literal (tidy : original.Tidy)
    (copying : Copying original unfolding base graph) (has : graph.Has type)
    (high : base < type.number) (pattern : Expr) {code : Code}
    (typed : ConstantTyped graph code) (codeHas : graph.Has code.type) :
    (literal pattern code type).Yields graph
      (fun _ later => Proceeds original unfolding base graph later)
      (Harmless original calm) := by
  cases code with
  | constant value constantType =>
      rcases typed value constantType rfl with
        ⟨own, ownNode, primitive, ownRooted, ownForm⟩
      rcases copying.wellFormed.settles type has with ⟨target, node, rooted⟩
      have targetHigh := copying.above_of_leads rooted.leads high
      have self := TypeGraph.Rooted.self rooted.found rooted.unlinked
      apply Build.yields_read_bind ownRooted.root
      apply Build.yields_look_bind rooted.deref
      apply Build.yields_read_bind self.root
      have finished : ∀ covered later, Proceeds original unfolding base graph later →
          later.Has covered → base < covered.number → (do
            Build.remark covered fun marks => { marks with partly := true }
            return Pattern.literal value constantType : Build Pattern).Yields later
              (fun _ later => Proceeds original unfolding base graph later)
              (Harmless original calm) := by
        intro covered later proceeds coveredHas coveredHigh
        apply (Build.yields_remark proceeds.copying coveredHas coveredHigh _).bind
        intro _ last marked
        exact Build.yields_pure (proceeds.trans marked)
      have ownKind : ownNode.form.kind = .primitive primitive := by rw [ownForm]; rfl
      rw [ownKind]
      dsimp only
      split
      next isVar =>
          apply Build.yields_bindNew_bind copying (.primitive primitive) rfl trivial
            rfl rooted.found
            rooted.unlinked targetHigh isVar
          intro new later proceeds newHigh newFound
          exact finished new later proceeds (has_of_node newFound) newHigh
      next notVar =>
          split
          · exact finished target graph copying.proceeds rooted.has targetHigh
          · rcases copying.text tidy codeHas with ⟨ownText, shown⟩
            rcases copying.text tidy rooted.has with ⟨expected, shownToo⟩
            apply Build.yields_look_bind shown
            apply Build.yields_look_bind shownToo
            exact (Build.yields_rejected copying _ _).stop
  | _ => exact Build.yields_rejected copying _ _

/-! ## Variants -/

theorem yields_variantRoot (tidy : original.Tidy)
    (copying : Copying original unfolding base graph) (has : graph.Has type)
    (high : base < type.number) (place : Position) (tag : String) :
    (variantRoot place tag type).Yields graph (fun variant later =>
      Proceeds original unfolding base graph later ∧ base < variant.number ∧
        ∃ members bound, later.IsVariant variant members bound)
          (Harmless original calm) := by
  rcases copying.wellFormed.settles type has with ⟨target, node, rooted⟩
  have targetHigh := copying.above_of_leads rooted.leads high
  apply Build.yields_look_bind rooted.deref
  apply Build.yields_read_bind (TypeGraph.Rooted.self rooted.found rooted.unlinked).root
  split
  next isVar =>
      apply Build.yields_bindNew_bind copying (.row .variant (.ofList []) none) rfl
        (Row.fair_ofList []) rfl
        rooted.found rooted.unlinked targetHigh isVar
      intro new later proceeds newHigh newFound
      exact Build.yields_pure ⟨proceeds, newHigh, _, _, _, newFound, rfl, rfl⟩
  next isVariant =>
      rcases Form.exists_variant_of_kind isVariant with ⟨members, bound, form⟩
      exact Build.yields_pure ⟨copying.proceeds, targetHigh, members, bound,
        node, rooted.found, rooted.unlinked, form⟩
  next =>
      rcases copying.text tidy rooted.has with ⟨text, shown⟩
      apply Build.yields_look_bind shown
      exact Build.yields_rejected copying _ _

theorem yields_payloadType (copying : Copying original unfolding base graph)
    {variant : Ref} {tag : String} {members : Row} {bound : Option Row}
    (isVariant : graph.IsVariant variant members bound) (high : base < variant.number)
    (allowed : bound.all (·.contains tag)) {failed : Failure → TypeGraph → Prop} :
    (payloadType variant tag).Yields graph (fun payload later =>
      Proceeds original unfolding base graph later ∧ base < payload.number ∧
        later.Has payload) failed := by
  rcases isVariant with ⟨node, found, unlinked, form⟩
  have rooted : graph.Rooted variant variant node := .self found unlinked
  have fair : members.Fair bound := by
    have nodeFair := copying.wellFormed.fair variant node found
    rwa [form] at nodeFair
  apply (Build.yields_member? rooted.root tag).bind
  rintro type? _ ⟨isType, rfl⟩
  rw [form] at isType
  change type? = members.get? tag at isType
  cases type? with
  | some payload =>
      have stored : payload ∈ node.form.refs := by
        rw [form]
        exact List.mem_append_left _ (Row.mem_refs_of_get? isType.symm)
      refine Build.yields_pure
        ⟨copying.proceeds, ?_, copying.wellFormed.has_part found stored⟩
      exact copying.above variant node high found payload (node.mem_stored_of_refs stored)
  | none =>
      have unbounded := fair.unbounded isType.symm allowed
      subst unbounded
      apply (Build.yields_bound? rooted.root).bind
      rintro bound _ ⟨rfl, rfl⟩
      rw [form]
      apply Build.yields_allocate_bind
      have foundLater := node_allocate_of_ok found { form := .var none }
      have rootedLater := rooted.allocate { form := .var none }
      unfold Build.putMember
      dsimp only
      rw [bind_assoc]
      apply Build.yields_look_bind rootedLater.root
      rw [form]
      apply Build.yields_updateRoot_bind rootedLater
      have alters := alters_update foundLater fun node =>
        let payload := (graph.allocate { form := .var none }).1
        { node with form := .row .variant (members.put tag payload) none }
      have put := copying.put_new found unlinked form isType.symm high alters rfl unlinked
      refine Build.yields_pure ⟨put.1, ?_, put.2⟩
      have small := copying.small
      change (base : Int) < graph.size + 1
      omega

end Elaborate

/-- The types that checking patterns keeps track of. -/
structure Elaboration.Known (original graph : TypeGraph) (state : Elaboration) :
    Prop where
  scope : ∀ binding ∈ state.scope, graph.Has binding.type
  registered : ∀ ref ∈ state.registered, original.size < ref.number ∧ graph.Has ref

def Elaboration.Gathers (low : Nat) (graph : TypeGraph) (state : Elaboration) : Prop :=
  ∀ refs, state.gathered = some refs → ∀ ref ∈ refs, low < ref.number ∧ graph.Has ref

open TypeGraph in
/-- Patterns can be checked against types above the base. -/
structure Elaboration.Ready (original : TypeGraph) (unfolding base low : Nat)
    (graph : TypeGraph) (state : Elaboration) : Prop where
  copying : Copying original unfolding base graph
  small : low ≤ base
  known : state.Known original graph
  gathers : state.Gathers low graph

open TypeGraph in
/-- Checking a pattern has gone on from a graph, and more patterns can be checked. -/
structure Elaboration.Continues (original : TypeGraph) (unfolding base low : Nat)
    (graph : TypeGraph) (after : Elaboration) (later : TypeGraph) : Prop where
  proceeds : Proceeds original unfolding base graph later
  ready : after.Ready original unfolding base low later

section Tracking

open TypeGraph

variable {original graph middle later : TypeGraph} {unfolding base low : Nat} {ref : Ref}
  {state after : Elaboration}

theorem Elaboration.Known.mono (known : state.Known original graph)
    (grown : graph.size ≤ later.size) :
    state.Known original later :=
  ⟨fun binding member => (known.scope binding member).mono grown,
    fun ref member =>
    ⟨(known.registered ref member).1, (known.registered ref member).2.mono grown⟩⟩

theorem Elaboration.Gathers.mono (gathers : state.Gathers low graph)
    (grown : graph.size ≤ later.size) :
    state.Gathers low later :=
  fun refs isRefs ref member =>
    ⟨(gathers refs isRefs ref member).1, (gathers refs isRefs ref member).2.mono grown⟩

namespace Elaboration

theorem Ready.start (copying : Copying original unfolding original.size graph) :
    Ready original unfolding original.size original.size graph {} :=
  ⟨copying, Nat.le_refl _, ⟨nofun, nofun⟩, nofun⟩

theorem Ready.startChoice
    (ready : state.Ready original unfolding base low graph) {scope : Scope}
    (within : ∀ binding ∈ scope, graph.Has binding.type) :
    Ready original unfolding base low graph
      { state with scope := scope, nextSlot := 0 } :=
  ⟨ready.copying, ready.small, ⟨within, ready.known.registered⟩, ready.gathers⟩

theorem Ready.proceeded (ready : state.Ready original unfolding base low graph)
    (proceeds : Proceeds original unfolding base graph later) :
    state.Continues original unfolding base low graph later :=
  ⟨proceeds, proceeds.copying, ready.small, ready.known.mono proceeds.grown,
    ready.gathers.mono proceeds.grown⟩

theorem Ready.continues (ready : state.Ready original unfolding base low graph) :
    state.Continues original unfolding base low graph graph :=
  ready.proceeded ready.copying.proceeds

theorem Ready.rebase (ready : state.Ready original unfolding base low graph) :
    state.Ready original unfolding graph.size low graph :=
  ⟨ready.copying.rebase, ready.small.trans ready.copying.small,
    ready.known, ready.gathers⟩

theorem Continues.trans (first : state.Continues original unfolding base low graph middle)
    (second : after.Continues original unfolding base low middle later) :
    after.Continues original unfolding base low graph later :=
  ⟨first.proceeds.trans second.proceeds, second.ready⟩

theorem Continues.proceeded
    (continues : state.Continues original unfolding base low graph middle)
    (proceeds : Proceeds original unfolding base middle later) :
    state.Continues original unfolding base low graph later :=
  continues.trans (continues.ready.proceeded proceeds)

theorem Continues.has
    (continues : after.Continues original unfolding base low graph later)
    (has : graph.Has ref) : later.Has ref :=
  continues.proceeds.has has

theorem Ready.resumed {higher : Nat}
    (ready : state.Ready original unfolding higher low middle)
    (proceeds : Proceeds original unfolding base graph later)
    (grown : middle.size ≤ later.size) (small : low ≤ base) :
    state.Continues original unfolding base low graph later :=
  ⟨proceeds, proceeds.copying, small, ready.known.mono grown, ready.gathers.mono grown⟩

end Elaboration

end Tracking

namespace Elaborate

open TypeGraph Elaboration Stateful

variable {original graph middle : TypeGraph} {unfolding base low : Nat}
  {ref type : Ref} {calm : Prop} {state : Elaboration}
  {failed : Failure → TypeGraph → Prop}

theorem yields_reject_bind {α β : Type} {done : β → Elaboration → TypeGraph → Prop}
    (copying : Copying original unfolding base graph) (place : Position)
    (cause : CompileCause) (next : α → Elaborate β) :
    (liftM (Build.reject place cause : Build α) >>= next).Yields state graph done
      (Harmless original calm) :=
  yields_lift_stop (Build.yields_rejected copying place cause)

theorem yields_lift_proceeds {α : Type} {build : Build α}
    (ready : state.Ready original unfolding base low graph)
    (yields : build.Yields graph
      (fun _ later => Proceeds original unfolding base graph later) failed) :
    (liftM build : Elaborate α).Yields state graph
      (fun _ after later => after.Continues original unfolding base low graph later)
        failed := by
  apply (yields_lift yields).imp
  rintro _ _ later ⟨rfl, proceeds⟩
  exact ready.proceeded proceeds

theorem yields_touch
    (ready : state.Ready original unfolding base low graph) {variant : Ref}
    {members : Row} {bound : Option Row}
    (isVariant : graph.IsVariant variant members bound) (high : base < variant.number)
    (inside : Bool) :
    (touch inside variant).Yields state graph (fun _ after later =>
      after.Continues original unfolding base low graph later ∧
        later.IsVariant variant members bound) failed := by
  apply yields_get_bind
  split
  · exact yields_pure ⟨ready.continues, isVariant⟩
  · rcases isVariant with ⟨node, found, unlinked, form⟩
    have alters := alters_update found fun node =>
      { node with marks := { node.marks with collecting := true } }
    have proceeds := ready.copying.remark alters high rfl rfl graph.size
    have remarked :
        (Build.remark variant fun marks => { marks with collecting := true }).Yields graph
        (fun _ later => Proceeds original unfolding base graph later ∧
          later.IsVariant variant members bound) failed :=
      Build.yields_update (has_of_node found)
        ⟨proceeds, _, alters.changed, unlinked, form⟩
    apply yields_lift_bind remarked
    rintro _ later ⟨marked, variantLater⟩
    have continues := ready.proceeded marked
    apply yields_set
    refine ⟨⟨marked, continues.ready.copying, ready.small,
      ⟨continues.ready.known.scope, ?_⟩, continues.ready.gathers⟩, variantLater⟩
    intro own member
    dsimp only at member
    split at member
    · exact continues.ready.known.registered own member
    · rcases List.mem_append.1 member with old | new
      · exact continues.ready.known.registered own old
      · rw [List.mem_singleton.1 new]
        have floor := ready.copying.low
        rcases variantLater with ⟨_, variantFound, _⟩
        exact ⟨by omega, has_of_node variantFound⟩

theorem yields_enterTag (tidy : original.Tidy)
    (ready : state.Ready original unfolding base low graph) (has : graph.Has type)
    (high : base < type.number) (inside : Bool) (place : Position) (tag : String) :
    (enterTag inside place tag type).Yields state graph (fun payload after later =>
      after.Continues original unfolding base low graph later ∧ later.Has payload ∧
        base < payload.number)
      (Harmless original calm) := by
  unfold enterTag
  dsimp only
  split
  · apply yields_lift_bind (yields_variantRoot tidy ready.copying has high place tag)
    rintro variant first ⟨proceeds, variantHigh, members, bound, isVariant⟩
    have begun := ready.proceeded proceeds
    rcases isVariant with ⟨node, found, unlinked, form⟩
    apply yields_lift_bind
      (Build.yields_allows (TypeGraph.Rooted.self found unlinked).root tag)
    rintro allowed _ ⟨isAllowed, rfl⟩
    rw [form] at isAllowed
    split
    next allows =>
        rw [isAllowed] at allows
        apply (yields_touch begun.ready ⟨node, found, unlinked, form⟩
          variantHigh inside).bind
        rintro _ touched second ⟨touching, variantSecond⟩
        apply yields_lift_bind
          (yields_payloadType touching.ready.copying variantSecond variantHigh allows)
        rintro payload third ⟨entering, payloadHigh, payloadHas⟩
        have variantHas := entering.has (touching.has (has_of_node found))
        apply yields_lift_bind
          (Build.yields_noteMatched entering.copying variantHas variantHigh tag)
        intro _ later noting
        exact yields_pure ⟨begun.trans (touching.proceeded (entering.trans noting)),
          noting.has payloadHas, payloadHigh⟩
    next =>
        apply yields_lift_bind
          (Build.yields_text tidy proceeds.copying (has_of_node found))
        rintro text _ rfl
        exact yields_reject_bind proceeds.copying _ _ _
  · exact yields_reject_bind ready.copying _ _ _

end Elaborate

end Casework
