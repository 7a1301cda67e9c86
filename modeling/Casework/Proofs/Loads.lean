import Casework.Proofs.Parts
import Casework.Proofs.Soundness

/-!
Loads find what was stored for their names.

A name that a choice binds is stored by the test of the choice, and loaded in its body. In
between, other cases may be entered and left, and choices of the same case may have stored
to the same slot before. The main statement is that nothing comes in between: on every
route to a load the last store to its slot is the one that was written for the binding
that the name stands for.
-/

namespace Casework

/-! ## Where code stores -/

def StoresAbove (low : Int) (code : List Instruction) : Prop :=
  ∀ slot ∈ storedSlots code, low ≤ slot

namespace StoresAbove

variable {low lower : Int} {code first second : List Instruction}

theorem append (left : StoresAbove low first) (right : StoresAbove low second) :
    StoresAbove low (first ++ second) := by
  intro slot member
  rw [storedSlots_append] at member
  exact (List.mem_append.1 member).elim (left slot) (right slot)

theorem mono (stores : StoresAbove low code) (le : lower ≤ low) :
    StoresAbove lower code :=
  fun slot member => Int.le_trans le (stores slot member)

theorem quiet (quiet : storedSlots code = []) : StoresAbove low code := by
  intro slot member
  rw [quiet] at member
  cases member

theorem unused (unused : slotUses code = []) : StoresAbove low code :=
  quiet (by rw [← storedSlots_slotUses, unused]; rfl)

end StoresAbove

theorem Pattern.storesAbove_entry {pattern : Pattern} {outer : List Int} {slotCount : Nat}
    (fit : NamesFit outer.length slotCount pattern.bindings) (base : Int)
    (prepared : Prepared) (supply : Supply) :
    StoresAbove base (pattern.entry (outer ++ [base]) prepared supply) := by
  intro slot member
  rw [storedSlots_of_slotUses (pattern.slotUses_entry _ prepared supply)] at member
  exact (fit.mem_slotNumbers member).1

mutual

theorem Code.storesAbove_emit :
    ∀ (code : Code) {bases : List Int} {supply : Supply} {scope : Scope},
    code.Numbered bases.length scope →
    StoresAbove supply.slot ((code.emit bases).run supply).1
  | .constant _ _, _, _, _, _ => .quiet rfl
  | .static _ _ _, _, _, _, _ => .quiet rfl
  | .name _, _, _, _, _ => .quiet rfl
  | .tag name payload type, bases, supply, scope, numbered =>
      (payload.storesAbove_emit numbered).append (.quiet rfl)
  | .call routine left right type, bases, supply, scope, numbered =>
      ((left.storesAbove_emit numbered.1).append
        ((right.storesAbove_emit numbered.2).mono
          (left.slot_le_emit bases supply))).append (.quiet rfl)
  | .list items type, bases, supply, scope, numbered => by
      refine ((items.storesAbove_emit numbered).append (.quiet rfl)).append (.unused ?_)
      exact slotUses_replicate rfl items.length
  | .select record field type, bases, supply, scope, numbered =>
      (record.storesAbove_emit numbered).append (.quiet rfl)
  | .caseOf report value arms, bases, supply, scope, numbered => by
      let after := ((value.emit bases).run supply).2
      let armCode := (arms.emit (bases ++ [after.slot]) (after.labelAfter 0) .start).run
        (Code.armSupply report after)
      have taken : supply.slot ≤ after.slot := value.slot_le_emit bases supply
      have armsStore : StoresAbove after.slot armCode.1.1 :=
        arms.storesAbove_emit numbered.2.2
          (Int.le_add_of_nonneg_right (Int.natCast_nonneg _))
      exact (((value.storesAbove_emit numbered.1).append (armsStore.mono taken)).append
        (.unused (slotUses_popMany _))).append (.quiet rfl)
termination_by structural code => code

theorem Codes.storesAbove_emit :
    ∀ (items : Codes) {bases : List Int} {supply : Supply} {scope : Scope},
    items.Numbered bases.length scope →
    StoresAbove supply.slot ((items.emit bases).run supply).1
  | .nil, _, _, _, _ => .quiet rfl
  | .cons head tail, bases, supply, _, numbered =>
      (head.storesAbove_emit numbered.1).append
        ((tail.storesAbove_emit numbered.2).mono (head.slot_le_emit bases supply))
termination_by structural items => items

theorem Arms.storesAbove_emit :
    ∀ (arms : Arms) {outer : List Int} {base : Int} {finish : Label}
    {prepared : Prepared} {supply : Supply} {scope : Scope} {slotCount : Nat},
    arms.Numbered outer.length scope slotCount → base ≤ supply.slot →
    StoresAbove base ((arms.emit (outer ++ [base]) finish prepared).run supply).1.1
  | .nil, _, _, _, _, _, _, _, _, _ => .quiet rfl
  | .rest _ tail, _, _, _, _, _, _, _, numbered, taken =>
      tail.storesAbove_emit numbered.2 taken
  | .cons pattern body tail, outer, base, finish, prepared, supply, scope,
      slotCount, numbered,
      taken => by
      have entered := pattern.slot_bodySupply (outer ++ [base]) supply
      have written :=
        body.slot_le_emit (outer ++ [base]) (pattern.bodySupply (outer ++ [base]) supply)
      have bodyNumbered : body.Numbered (outer ++ [base]).length
          (pattern.bindings.reverse ++ scope) := by
        rw [List.length_append]
        exact numbered.2.1
      have bodyStores := (body.storesAbove_emit bodyNumbered).mono
        (show base ≤ (pattern.bodySupply (outer ++ [base]) supply).slot by omega)
      rw [Arms.run_emit_cons_choice]
      refine .append
        (.append (.append (pattern.storesAbove_entry numbered.1 base prepared supply)
          (.append bodyStores (.quiet rfl))) (.quiet rfl)) ?_
      exact tail.storesAbove_emit numbered.2.2 (by omega)
termination_by structural arms => arms

end

/-! ## What is recalled in a body -/

/-- The names of a choice are stored below a limit, one after the other in the slots of
its case. -/
structure Entry.Fits (entry : Entry) (level : Nat) (bases : List Int) (limit : Int) :
    Prop where
  level_lt : level < bases.length
  named : entry.pattern.bindings.map (·.slot) =
    (List.range entry.pattern.bindings.length).map (.inCase level)
  stored : entry.stores.map Prod.snd = slotNumbers bases entry.pattern.bindings
  below : ∀ store ∈ entry.stores, store.2 < limit

namespace Entry.Fits

variable {entry : Entry} {level : Nat} {bases : List Int} {limit : Int}

theorem mono (fits : entry.Fits level bases limit) {more : Int} (le : limit ≤ more) :
    entry.Fits level bases more where
  level_lt := fits.level_lt
  named := fits.named
  stored := fits.stored
  below store member := Int.lt_of_lt_of_le (fits.below store member) le

theorem slot_eq (fits : entry.Fits level bases limit) {index : Nat} {binding : Binding}
    (found : entry.pattern.bindings[index]? = some binding) :
    binding.slot = .inCase level index := by
  have slots := congrArg (·[index]?) fits.named
  obtain ⟨small, _⟩ := List.getElem?_eq_some_iff.1 found
  simp only [List.getElem?_map, found, List.getElem?_range small,
    Option.map_some] at slots
  exact Option.some.inj slots

theorem inCase (fits : entry.Fits level bases limit) (base : Int) :
    entry.Fits level (bases ++ [base]) limit where
  level_lt := by
    rw [List.length_append]
    exact Nat.lt_add_right _ fits.level_lt
  named := fits.named
  stored := by
    rw [fits.stored]
    refine List.map_congr_left fun binding member => ?_
    obtain ⟨index, found⟩ := List.getElem?_of_mem member
    refine (Slot.number_append ?_ [base]).symm
    rw [fits.slot_eq found]
    exact fits.level_lt
  below := fits.below

theorem exists_store (fits : entry.Fits level bases limit) {index : Nat}
    {binding : Binding} (found : entry.pattern.bindings[index]? = some binding) :
    ∃ site, entry.stores[index]? = some (site, binding.slot.number bases) := by
  have slots := congrArg (·[index]?) fits.stored
  simp only [slotNumbers, List.getElem?_map, found, Option.map_some] at slots
  cases stored : entry.stores[index]? with
  | none =>
      rw [stored] at slots
      cases slots
  | some store =>
      rw [stored] at slots
      exact ⟨store.1, by rw [← Option.some.inj slots]⟩

end Entry.Fits

structure Recalled (entries : List Entry) (bases : List Int) (limit : Int)
    (latest : Latest) : Prop where
  fits : ∀ level (entry : Entry), entries[level]? = some entry →
    entry.Fits level bases limit
  last : ∀ entry ∈ entries, ∀ store ∈ entry.stores, latest store.2 = some store.1

namespace Recalled

variable {entries : List Entry} {bases : List Int} {limit : Int} {latest later : Latest}

theorem after (recalled : Recalled entries bases limit latest) {more : Int}
    (le : limit ≤ more) (same : ∀ slot, slot < limit → later slot = latest slot) :
    Recalled entries bases more later where
  fits level entry found := (recalled.fits level entry found).mono le
  last entry member store isStore := by
    obtain ⟨level, found⟩ := List.getElem?_of_mem member
    rw [same _ ((recalled.fits level entry found).below store isStore)]
    exact recalled.last entry member store isStore

theorem inCase (recalled : Recalled entries bases limit latest) (base : Int) :
    Recalled entries (bases ++ [base]) limit latest where
  fits level entry found := (recalled.fits level entry found).inCase base
  last := recalled.last

theorem through (recalled : Recalled entries bases limit latest) {place : Nat}
    {code : List Instruction} (stores : StoresAbove limit code) {way : Way}
    (through : way ∈ (Way.running latest).through place code) {more : Int}
    (le : limit ≤ more) :
    Recalled entries bases more way.latest := by
  refine recalled.after le fun slot small => ?_
  refine Way.latest_of_mem_through (fun stored => ?_) through
  have above := stores slot stored
  omega

theorem snoc (recalled : Recalled entries bases limit latest) {entry : Entry}
    (own : entry.Fits entries.length bases limit)
    (stored : ∀ store ∈ entry.stores, latest store.2 = some store.1) :
    Recalled (entries ++ [entry]) bases limit latest where
  fits level other found := by
    rcases Nat.lt_or_ge level entries.length with small | large
    · rw [List.getElem?_append_left small] at found
      exact recalled.fits level other found
    · rw [List.getElem?_append_right large] at found
      obtain ⟨zero, equal⟩ := List.getElem?_eq_some_iff.1 found
      obtain rfl : level = entries.length := by
        rw [List.length_singleton] at zero
        omega
      rw [← equal, List.getElem_singleton]
      exact own
  last other member := by
    rcases List.mem_append.1 member with earlier | last
    · exact recalled.last other earlier
    · rw [List.mem_singleton.1 last]
      exact stored

theorem enter {base : Int} (recalled : Recalled entries bases base latest)
    {outer : List Int} (inner : bases = outer ++ [base])
    (level : outer.length = entries.length) {pattern : Pattern} {slotCount : Nat}
    (fit : NamesFit outer.length slotCount pattern.bindings) (prepared : Prepared)
    {supply : Supply} (taken : base + slotCount ≤ supply.slot) (place : Nat) :
    let code := pattern.entry bases prepared supply
    Recalled (entries ++ [⟨pattern, place, code⟩]) bases supply.slot
    (latest.along place code) := by
  intro code
  subst inner
  have slots : storedSlots code = slotNumbers (outer ++ [base]) pattern.bindings :=
    storedSlots_of_slotUses (pattern.slotUses_entry _ prepared supply)
  have outside : Recalled entries (outer ++ [base]) supply.slot
      (latest.along place code) := by
    refine recalled.after (by omega) fun slot small =>
      Latest.along_of_not_mem fun stored => ?_
    have above := pattern.storesAbove_entry fit base prepared supply slot stored
    omega
  refine outside.snoc ⟨?_, ?_, ?_, fun store member => ?_⟩ fun store isStore => ?_
  · rw [List.length_append, level]
    exact Nat.lt_succ_self _
  · rw [← level]
    exact fit.1
  · exact (map_snd_storesFrom place code).trans slots
  · have isSlot : store.2 ∈ slotNumbers (outer ++ [base]) pattern.bindings := by
      rw [← slots, ← map_snd_storesFrom place code]
      exact List.mem_map_of_mem member
    have bounds := fit.mem_slotNumbers isSlot
    omega
  · refine Latest.along_of_mem ?_ isStore
    rw [slots]
    exact fit.nodup

end Recalled

/-! ## Names -/

/-- A name at a spot stands for the innermost binding of its spelling, which is made by a
choice around the spot, and one of the stores of that choice was written for it. -/
structure Spot.Resolves (spot : Spot) (env : Scope) (binding : Binding) (site : Nat) :
    Prop where
  innermost : (spot.scope env).find? binding.name = some binding
  stored : ∃ level index entry, binding.slot = .inCase level index ∧
    spot.entries[level]? = some entry ∧ entry.pattern.bindings[index]? = some binding ∧
    entry.stores[index]? = some (site, binding.slot.number spot.bases)

theorem Recalled.resolves {spot : Spot} {limit : Int} {latest : Latest} {env : Scope}
    (recalled : Recalled spot.entries spot.bases limit latest) {binding : Binding}
    (innermost : (spot.scope env).find? binding.name = some binding) :
    binding ∈ env ∨ ∃ site, spot.Resolves env binding site ∧
      latest (binding.slot.number spot.bases) = some site := by
  refine (List.mem_append.1 (List.mem_of_find?_eq_some innermost)).symm.imp id
    fun inEntries => ?_
  obtain ⟨entry, isEntry, member⟩ := List.mem_flatMap.1 (List.mem_reverse.1 inEntries)
  obtain ⟨level, entryFound⟩ := List.getElem?_of_mem isEntry
  obtain ⟨index, found⟩ := List.getElem?_of_mem member
  have fits := recalled.fits level entry entryFound
  obtain ⟨site, stored⟩ := fits.exists_store found
  refine ⟨site,
    ⟨innermost, level, index, entry, fits.slot_eq found, entryFound, found, stored⟩, ?_⟩
  exact recalled.last entry isEntry _ (List.mem_of_getElem? stored)

def Visit.Explained (visit : Visit) (env : Scope) (parts : List Part) : Prop :=
  ∀ slot, visit.instruction = .load slot → ∃ part ∈ parts, ∃ binding,
    part.spot.place = visit.place ∧ part.code = .name binding ∧
    binding.slot.number part.spot.bases = slot ∧
    (binding ∈ env ∨ ∃ site, part.spot.Resolves env binding site ∧
      visit.latest slot = some site)

section Explained

variable {env : Scope} {parts more : List Part} {visit : Visit} {way : Way} {place : Nat}
  {code : List Instruction}

theorem Visit.Explained.mono (explained : visit.Explained env parts)
    (subset : parts ⊆ more) :
    visit.Explained env more := by
  intro slot loads
  obtain ⟨part, member, rest⟩ := explained slot loads
  exact ⟨part, subset member, rest⟩

theorem explained_of_slotUses {bases : List Int} {bindings : List Binding}
    (uses : slotUses code = nameStores bases bindings)
    (visited : visit ∈ way.visits place code) :
    visit.Explained env parts := by
  intro slot loads
  have member := Way.mem_of_mem_visits visited
  rw [loads] at member
  exact absurd member (load_not_mem uses slot)

theorem explained_of_unused (unused : slotUses code = [])
    (visited : visit ∈ way.visits place code) :
    visit.Explained env parts :=
  explained_of_slotUses (show slotUses code = nameStores [] [] from unused) visited

end Explained

theorem Code.exists_recalled {code : Code} {entries : List Entry} {bases : List Int}
    {supply : Supply} {scope : Scope} {latest : Latest}
    (recalled : Recalled entries bases supply.slot latest)
    (numbered : code.Numbered bases.length scope) {place : Nat} {way : Way}
    (through : way ∈ (Way.running latest).through place
      ((code.emit bases).run supply).1) :
    ∃ later, way = .running later ∧
      Recalled entries bases ((code.emit bases).run supply).2.slot later := by
  obtain ⟨later, rfl⟩ := Way.exists_running (code.escapes_emit bases supply) through
  exact ⟨later, rfl, recalled.through (code.storesAbove_emit numbered) through
    (code.slot_le_emit bases supply)⟩

/-! ## Choices -/

namespace Arms

variable {pattern : Pattern} {body : Code} {bases : List Int} {finish : Label}
  {prepared : Prepared} {supply : Supply} {place : Nat} {latest : Latest}

theorem run_emit_single (pattern : Pattern) (body : Code) (bases : List Int)
    (finish : Label) (prepared : Prepared) (supply : Supply) :
    (((Arms.cons pattern body .nil).emit bases finish prepared).run supply).1.1 =
      choiceCode pattern body bases finish prepared supply := by
  rw [run_emit_cons_choice]
  exact List.append_nil _

theorem storesAbove_choiceCode {outer : List Int} {base : Int} {scope : Scope}
    {slotCount : Nat} (inner : bases = outer ++ [base])
    (fit : NamesFit outer.length slotCount pattern.bindings)
    (numbered : body.Numbered (outer.length + 1) (pattern.bindings.reverse ++ scope))
    (taken : base ≤ supply.slot) :
    StoresAbove base (choiceCode pattern body bases finish prepared supply) := by
  have alone : (Arms.cons pattern body .nil).Numbered outer.length scope slotCount :=
    ⟨fit, numbered, trivial⟩
  rw [← run_emit_single, inner]
  exact (Arms.cons pattern body .nil).storesAbove_emit alone taken

theorem mem_visits_body {visit : Visit}
    (visited : visit ∈ (Way.running latest).visits place
      (choiceCode pattern body bases finish prepared supply)) {slot : Int}
    (loads : visit.instruction = .load slot) :
    let entry := pattern.entry bases prepared supply
    visit ∈ (Way.running (latest.along place entry)).visits (place + entry.length)
      ((body.emit bases).run (pattern.bodySupply bases supply)).1 := by
  intro entry
  have absent : supply.labelAfter 0 ∉
      definedLabels ((body.emit bases).run (pattern.bodySupply bases supply)).1 := by
    refine (body.labels_emit bases (pattern.bodySupply bases supply)).not_mem_of_lt ?_
    have started := pattern.label_lt_bodySupply bases supply
    rw [Supply.number_labelAfter]
    omega
  -- Neither the entry nor the instructions after the body load.
  have other :
      ∀ {code : List Instruction} {way : Way} {place : Nat} {bindings : List Binding},
      slotUses code = nameStores bases bindings → visit ∉ way.visits place code := by
    intro code way place bindings uses member
    have inCode := Way.mem_of_mem_visits member
    rw [loads] at inCode
    exact load_not_mem uses slot inCode
  have quiet : ∀ {instruction : Instruction}, instruction.usesSlot = false →
      slotUses [instruction] = nameStores bases [] := fun unused =>
      slotUses_replicate unused 1
  rcases Way.mem_visits_append.1 visited with visited | ⟨way, _, atLabel⟩
  · rcases Way.mem_visits_append.1 visited with inEntry | ⟨way, through, visited⟩
    · exact absurd inEntry (other (pattern.slotUses_entry bases prepared supply))
    · rcases Way.mem_visits_append.1 visited with inBody | ⟨way, _, atJump⟩
      · rcases pattern.storesAll_entry bases prepared supply place latest way through with
          rfl | ⟨target, isExit, later, rfl⟩
        · exact inBody
        · cases List.mem_singleton.1 isExit
          rw [Way.visits_seeking absent] at inBody
          cases inBody
      · exact absurd atJump (other (quiet rfl))
  · exact absurd atLabel (other (quiet rfl))

theorem through_choiceCode {way : Way}
    (through : way ∈ (Way.running latest).through place
      (choiceCode pattern body bases finish prepared supply)) :
    (∃ later, way = .running later) ∨ ∃ later, way = .seeking finish later := by
  cases way with
  | running later => exact .inl ⟨later, rfl⟩
  | seeking target later =>
      rcases Way.target_of_mem_through through with escape | ⟨_, before, impossible⟩
      · rw [← run_emit_single] at escape
        have confined :=
          (Arms.cons pattern body .nil).confined_emit bases finish prepared supply
        obtain rfl := List.mem_singleton.1 (confined target escape)
        exact .inr ⟨later, rfl⟩
      · cases impossible

end Arms

/-! ## Loads -/

variable {env : Scope}

mutual

theorem Code.explained_visit : ∀ (code : Code) (spot : Spot) (latest : Latest),
    spot.bases.length = spot.entries.length → code.Numbered spot.bases.length
      (spot.scope env) →
    Recalled spot.entries spot.bases spot.supply.slot latest →
    ∀ visit ∈ (Way.running latest).visits spot.place
      ((code.emit spot.bases).run spot.supply).1,
      visit.Explained env (code.parts spot)
  | .constant _ _, spot, latest, _, _, _, visit, visited =>
      explained_of_unused rfl visited
  | .static _ _ _, spot, latest, _, _, _, visit, visited =>
      explained_of_unused rfl visited
  | .name binding, spot, latest, _, innermost, recalled, visit, visited => by
      have here : visit ∈ (Way.running latest).visits spot.place
        [.load (binding.slot.number spot.bases)] := visited
      obtain rfl : visit =
        ⟨spot.place, .load (binding.slot.number spot.bases), latest⟩ := by
        simpa [Way.visits] using here
      intro slot loads
      cases loads
      exact ⟨_, List.mem_singleton_self _, binding, rfl, rfl, rfl,
        recalled.resolves innermost⟩
  | .tag name payload type, spot, latest, level, numbered, recalled, visit, visited => by
      rcases Way.mem_visits_append.1 visited with inner | ⟨way, _, last⟩
      · exact (payload.explained_visit spot latest level numbered recalled
          visit inner).mono
          (List.subset_cons_self _ _)
      · exact explained_of_unused rfl last
  | .call routine left right type, spot, latest, level, numbered, recalled,
    visit, visited => by
      rcases Way.mem_visits_append.1 visited with operands | ⟨way, _, last⟩
      · refine Visit.Explained.mono ?_ (List.subset_cons_self _ _)
        rcases Way.mem_visits_append.1 operands with inLeft | ⟨way, through, inRight⟩
        · exact (left.explained_visit spot latest level numbered.1 recalled
            visit inLeft).mono
            (List.subset_append_left _ _)
        · obtain ⟨later, rfl, still⟩ := Code.exists_recalled recalled numbered.1 through
          exact (right.explained_visit
            (spot.past ((left.emit spot.bases).run spot.supply)) later level numbered.2
            still visit inRight).mono (List.subset_append_right _ _)
      · exact explained_of_unused rfl last
  | .list items type, spot, latest, level, numbered, recalled, visit, visited => by
      rcases Way.mem_visits_append.1 visited with pushed | ⟨way, _, last⟩
      · rcases Way.mem_visits_append.1 pushed with inner | ⟨way, _, last⟩
        · exact (items.explained_visit spot latest level numbered recalled
            visit inner).mono
            (List.subset_cons_self _ _)
        · exact explained_of_unused rfl last
      · exact explained_of_unused (slotUses_replicate rfl items.length) last
  | .select record field type, spot, latest, level, numbered, recalled, visit, visited =>
      by
      rcases Way.mem_visits_append.1 visited with inner | ⟨way, _, last⟩
      · exact (record.explained_visit spot latest level numbered recalled
          visit inner).mono
          (List.subset_cons_self _ _)
      · exact explained_of_unused rfl last
  | .caseOf report value arms, spot, latest, level, numbered, recalled, visit, visited =>
      by
      let after := spot.past ((value.emit spot.bases).run spot.supply)
      rw [Code.run_emit_caseOf] at visited
      rcases Way.mem_visits_append.1 visited with visited | ⟨way, _, last⟩
      · rcases Way.mem_visits_append.1 visited with visited | ⟨way, _, popped⟩
        · rcases Way.mem_visits_append.1 visited with inValue | ⟨way, through, inArms⟩
          · exact (value.explained_visit spot latest level numbered.1 recalled
              visit inValue).mono
              (List.subset_append_left _ _)
          · obtain ⟨later, rfl, still⟩ := Code.exists_recalled recalled numbered.1 through
            have choices : arms.Numbered spot.bases.length
                ((after.inArms report).scope env)
              report.slotCount := numbered.2.2
            refine (arms.explained_visit (after.supply.labelAfter 0) .start
              (after.inArms report) spot.bases after.supply.slot later rfl level choices
              (Int.le_refl _) ?_
              (still.inCase _) visit inArms).mono ?_
            · change (after.supply.labelAfter 0).number < (after.supply.label + 1 : Nat)
              rw [Supply.number_labelAfter]
              omega
            · exact List.Subset.trans (List.subset_cons_self _ _)
                (List.subset_append_right _ _)
        · exact explained_of_unused (slotUses_popMany _) popped
      · exact explained_of_unused rfl last
termination_by structural code => code

theorem Codes.explained_visit : ∀ (items : Codes) (spot : Spot) (latest : Latest),
    spot.bases.length = spot.entries.length → items.Numbered spot.bases.length
      (spot.scope env) →
    Recalled spot.entries spot.bases spot.supply.slot latest →
    ∀ visit ∈ (Way.running latest).visits spot.place
      ((items.emit spot.bases).run spot.supply).1,
      visit.Explained env (items.parts spot)
  | .nil, _, _, _, _, _, visit, visited => by cases visited
  | .cons head tail, spot, latest, level, numbered, recalled, visit, visited => by
      rcases Way.mem_visits_append.1 visited with inHead | ⟨way, through, inTail⟩
      · exact (head.explained_visit spot latest level numbered.1 recalled
        visit inHead).mono
          (List.subset_append_left _ _)
      · obtain ⟨later, rfl, still⟩ := Code.exists_recalled recalled numbered.1 through
        exact (tail.explained_visit
          (spot.past ((head.emit spot.bases).run spot.supply)) later level numbered.2
          still visit inTail).mono (List.subset_append_right _ _)
termination_by structural items => items

theorem Arms.explained_visit :
    ∀ (arms : Arms) (finish : Label) (prepared : Prepared) (spot : Spot)
    (outer : List Int) (base : Int) (latest : Latest) {slotCount : Nat},
    spot.bases = outer ++ [base] → outer.length = spot.entries.length →
    arms.Numbered outer.length (spot.scope env) slotCount → base + slotCount ≤
      spot.supply.slot →
    finish.number < spot.supply.label → Recalled spot.entries spot.bases base latest →
    ∀ visit ∈ (Way.running latest).visits spot.place
      ((arms.emit spot.bases finish prepared).run spot.supply).1.1,
      visit.Explained env (arms.parts finish prepared spot)
  | .nil, _, _, _, _, _, _, _, _, _, _, _, _, _, visit, visited => by cases visited
  | .rest _ tail, finish, prepared, spot, outer, base, latest, _, bases, level,
      numbered, taken, given,
      recalled, visit, visited =>
      tail.explained_visit finish prepared spot outer base latest bases level
        numbered.2 taken given
        recalled visit visited
  | .cons pattern body tail, finish, prepared, spot, outer, base, latest,
      slotCount, bases, level,
      numbered, taken, given, recalled, visit, visited => by
      let done :=
  ((body.emit spot.bases).run (pattern.bodySupply spot.bases spot.supply)).2
      have entered := pattern.slot_bodySupply spot.bases spot.supply
      have written : (pattern.bodySupply spot.bases spot.supply).slot ≤ done.slot :=
        body.slot_le_emit spot.bases (pattern.bodySupply spot.bases spot.supply)
      have started := pattern.label_lt_bodySupply spot.bases spot.supply
      have labels : (pattern.bodySupply spot.bases spot.supply).label ≤ done.label :=
        (body.labels_emit spot.bases (pattern.bodySupply spot.bases spot.supply)).1
      rw [Arms.run_emit_cons_choice] at visited
      rcases Way.mem_visits_append.1 visited with inChoice | ⟨way, through, inOthers⟩
      · intro slot loads
        have inBody := Arms.mem_visits_body inChoice loads
        have deeper : spot.bases.length = outer.length + 1 := by simp [bases]
        have bodyLevel : spot.bases.length =
            (spot.inBody pattern prepared).entries.length := by
          rw [deeper, level, Spot.inBody, List.length_append]
          rfl
        have bodyNumbered : body.Numbered spot.bases.length
            ((spot.inBody pattern prepared).scope env) := by
          rw [deeper, spot.scope_inBody]
          exact numbered.2.1
        have stored : Recalled (spot.inBody pattern prepared).entries spot.bases
            (pattern.bodySupply spot.bases spot.supply).slot
            (latest.along spot.place
              (pattern.entry spot.bases prepared spot.supply)) := by
          rw [entered]
          exact recalled.enter bases level numbered.1 prepared taken spot.place
        exact (body.explained_visit (spot.inBody pattern prepared) _ bodyLevel
          bodyNumbered stored visit inBody).mono (List.subset_append_left _ _) slot loads
      · refine Visit.Explained.mono ?_ (List.subset_append_right _ _)
        rcases Arms.through_choiceCode through with ⟨later, rfl⟩ | ⟨later, rfl⟩
        · have stores : StoresAbove base
              (Arms.choiceCode pattern body spot.bases finish prepared spot.supply) :=
            Arms.storesAbove_choiceCode bases numbered.1 numbered.2.1 (by omega)
          exact tail.explained_visit finish (prepared.switch pattern).2
            (spot.pastChoice pattern body finish prepared) outer base later bases
            level numbered.2.2
            (show base + slotCount ≤ done.slot by omega)
            (show finish.number < done.label by omega)
            (recalled.through stores through (Int.le_refl _)) visit inOthers
        · have absent := (tail.labels_emit spot.bases finish (prepared.switch pattern).2
            done).not_mem_of_lt (show finish.number < done.label by omega)
          rw [Way.visits_seeking absent] at inOthers
          cases inOthers
termination_by structural arms => arms

end

/-! ## Fixtures -/

namespace Fixture

theorem numbered_of_check {fixture : Fixture} {checked : CheckedCase}
    (accepted : fixture.check = .ok checked) : checked.code.Numbered 0 checked.scope := by
  have holds := (holds_of_check (fun setting _ scope expression =>
    expression.numbered_compile setting 0 scope) accepted).2
  let instantiation : Instantiation := ⟨fun _ _ => False, fun _ _ _ => False⟩
  exact holds _ (checked.graph.models_fits instantiation)

/-- The slots of an accepted fixture do not clash. The names of its environment have the
first ones. In each case the names of a choice are numbered in order, and there are as
many slots as the largest choice has names. No two cases share a slot, however they are
nested, and none of them takes one of the environment. On every route to a load from a
slot after those of the environment, the last store to the slot is the one that was
written for the binding that the loaded name stands for. -/
theorem slots_of_compile {fixture : Fixture} {compiled : CompiledCase}
    (accepted : fixture.compile = .ok compiled) :
    let parts := compiled.checked.code.parts (.start fixture.env.length)
    (∀ binding ∈ compiled.checked.scope, ∃ number : Nat, binding.slot = .absolute number ∧
      number < fixture.env.length) ∧
    (∀ part ∈ parts, part.Stands compiled.listing.code ∧
      ∀ report value arms, part.code = .caseOf report value arms →
        (∀ pattern ∈ arms.patterns, pattern.bindings.map (·.slot) =
          (List.range pattern.bindings.length).map (.inCase part.spot.bases.length)) ∧
        (arms.patterns.map (·.bindings.length)).max? = some report.slotCount) ∧
    (∀ part ∈ parts, ∀ slot ∈ part.slots, (fixture.env.length : Int) ≤ slot) ∧
    parts.Pairwise (fun first second => ∀ slot ∈ first.slots, slot ∉ second.slots) ∧
    ∀ place passed slot, Route compiled.listing.code (place :: passed) →
      compiled.listing.code[place]? = some (.load slot) →
      (fixture.env.length : Int) ≤ slot →
      ∃ part ∈ parts, ∃ binding site, part.spot.place = place ∧
      part.code = .name binding ∧
        binding.slot.number part.spot.bases = slot ∧
        part.spot.Resolves compiled.checked.scope binding site ∧
        lastStore? compiled.listing.code passed slot = some site := by
  intro parts
  obtain ⟨checked, written⟩ := of_compile accepted
  let spot := Spot.start fixture.env.length
  have numbered : compiled.checked.code.Numbered spot.bases.length
      (spot.scope compiled.checked.scope) := numbered_of_check checked
  have environment := (holds_of_check (fun setting _ scope expression =>
    expression.numbered_compile setting 0 scope) checked).1
  have apart := compiled.checked.code.slotsApart spot
  have unique := (compiled.checked.code.labels_program fixture.env.length).nodup
  have closed := compiled.checked.code.escapes_program fixture.env.length
  rw [written]
  refine ⟨environment, fun part member => ⟨?_, ?_⟩, ?_, apart.disjoint, ?_⟩
  · have whole : Part.Stands (compiled.checked.code.program fixture.env.length).code
        ⟨spot, compiled.checked.code⟩ :=
        ⟨List.prefix_rfl, fun _ isEntry => by cases isEntry⟩
    exact Code.stands_of_mem_parts whole part member
  · intro report value arms isCase
    have own := Code.numbered_of_mem_parts numbered part member
    rw [isCase] at own
    exact ⟨fun pattern isPattern => (own.2.2.namesFit pattern isPattern).1, own.2.1⟩
  · exact fun part member slot isSlot => (apart.within part member slot isSlot).1
  · intro place passed slot route loads large
    have nothing : Recalled spot.entries spot.bases spot.supply.slot fun _ => none :=
      ⟨fun _ _ found => (by cases found), fun _ member => (by cases member)⟩
    have visited := route.mem_visits unique closed loads rfl
    obtain ⟨part, member, binding, isPlace, isName, isSlot, explained⟩ :=
      compiled.checked.code.explained_visit spot _ rfl numbered nothing _ visited slot rfl
    rcases explained with inEnv | ⟨site, resolves, last⟩
    · obtain ⟨number, absolute, small⟩ := environment binding inEnv
      rw [absolute] at isSlot
      have taken : (number : Int) = slot := isSlot
      omega
    · exact ⟨part, member, binding, site, isPlace, isName, isSlot, resolves, last⟩

/-- A case in a case, where all names are spelled the same. -/
def sameName : Fixture where
  name := "same-name"
  env := [⟨"x", .ofString "number"⟩]
  statics := []
  source := .ofString "case x of x: case x of x: x esac esac"

theorem exists_site_sameName :
    ∃ compiled : CompiledCase, sameName.compile = .ok compiled ∧
    ∃ passed slot, Route compiled.listing.code (8 :: passed) ∧
      compiled.listing.code[8]? = some (.load slot) ∧
      ∃ part ∈ compiled.checked.code.parts (.start 1), ∃ binding site,
        part.code = .name binding ∧
        part.spot.Resolves compiled.checked.scope binding site ∧
        lastStore? compiled.listing.code passed slot = some site := by
  have evaluated : (sameName.compile.toOption.map fun compiled =>
      ((compiled.listing.code.take 8).all Instruction.goesOn,
        compiled.listing.code[8]?)) =
        some (true, some (.load 2)) := by decide +kernel
  cases accepted : sameName.compile with
  | error failure =>
      rw [accepted] at evaluated
      cases evaluated
  | ok compiled =>
      rw [accepted] at evaluated
      obtain ⟨goOn, loads⟩ := Prod.mk.inj (Option.some.inj evaluated)
      have within := (List.getElem?_eq_some_iff.1 loads).1
      have route := Route.straight (Nat.le_of_lt within) (List.all_eq_true.1 goOn)
      obtain ⟨part, member, binding, site, _, isName, _, resolves, last⟩ :=
        (slots_of_compile accepted).2.2.2.2 8 _ 2 route loads (by decide)
      exact ⟨compiled, rfl, _, 2, route, loads, part, member, binding, site,
        isName, resolves, last⟩

end Fixture

end Casework
