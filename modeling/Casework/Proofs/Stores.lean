import Casework.Proofs.FirstMatch
import Casework.Proofs.Routes

/-!
What tests store.

A test stores each name of its pattern once, in the order in which the pattern binds them,
and nothing else. A test that fails may have made some of its stores and not the others.
The main statement is that a test that is passed has made all of them, whichever way it
was passed.
-/

namespace Casework

/-! ## Stores in code -/

def Instruction.stored? : Instruction → Option Int
  | store slot => some slot
  | _ => none

theorem Instruction.stored?_eq_some {instruction : Instruction} {slot : Int} :
    instruction.stored? = some slot ↔ instruction = .store slot := by
  cases instruction <;> simp [stored?]

/-- The stores in code that stands at a place, in order: where each one stands, and its
slot. -/
def storesFrom : (place : Nat) → List Instruction → List (Nat × Int)
  | _, [] => []
  | place, instruction :: rest =>
      instruction.stored?.toList.map (place, ·) ++ storesFrom (place + 1) rest

def storedSlots (code : List Instruction) : List Int := code.filterMap Instruction.stored?

@[simp] theorem storedSlots_append (first second : List Instruction) :
    storedSlots (first ++ second) = storedSlots first ++ storedSlots second :=
  List.filterMap_append

@[simp] theorem storedSlots_cons (instruction : Instruction) (code : List Instruction) :
    storedSlots (instruction :: code) = instruction.stored?.toList ++
      storedSlots code := by
  rw [storedSlots, List.filterMap_cons]
  cases instruction.stored? <;> rfl

@[simp] theorem storedSlots_nil : storedSlots [] = [] := rfl

theorem map_snd_storesFrom (place : Nat) (code : List Instruction) :
    (storesFrom place code).map Prod.snd = storedSlots code := by
  induction code generalizing place with
  | nil => rfl
  | cons instruction rest induction =>
      rw [storesFrom, storedSlots_cons, List.map_append, induction, List.map_map]
      exact congrArg (· ++ storedSlots rest) (List.map_id _)

namespace Latest

variable {latest : Latest} {slot : Int}
  {code first second : List Instruction} {place : Nat}

/-- What has been stored last after all instructions of code that stands at a place. -/
def along (latest : Latest) : (place : Nat) → List Instruction → Latest
  | _, [] => latest
  | place, instruction :: rest => (latest.after place instruction).along (place + 1) rest

theorem along_append : latest.along place (first ++ second) =
    (latest.along place first).along (place + first.length) second := by
  induction first generalizing place latest with
  | nil => rfl
  | cons instruction rest induction =>
      rw [List.cons_append, along, induction, along, List.length_cons,
        Nat.add_assoc, Nat.add_comm 1]

theorem after_of_not_mem {instruction : Instruction}
    (absent : slot ∉ instruction.stored?.toList) :
    latest.after place instruction slot = latest slot := by
  refine if_neg ?_
  rintro rfl
  exact absent List.mem_cons_self

theorem along_of_not_mem (absent : slot ∉ storedSlots code) :
    latest.along place code slot = latest slot := by
  induction code generalizing place latest with
  | nil => rfl
  | cons instruction rest induction =>
      rw [storedSlots_cons, List.mem_append, not_or] at absent
      rw [along, induction absent.2, after_of_not_mem absent.1]

theorem along_eq (quiet : storedSlots code = []) : latest.along place code = latest := by
  funext slot
  exact along_of_not_mem (by simp [quiet])

/-- Where code stores to each slot once, each store is the last one to its slot. -/
theorem along_of_mem (distinct : (storedSlots code).Nodup) {site : Nat}
    (stored : (site, slot) ∈ storesFrom place code) :
    latest.along place code slot = some site := by
  induction code generalizing place latest with
  | nil => cases stored
  | cons instruction rest induction =>
      rw [storedSlots_cons] at distinct
      rw [storesFrom, List.mem_append] at stored
      rw [along]
      rcases stored with own | later
      · obtain ⟨same, isSame, equal⟩ := List.mem_map.1 own
        cases equal
        have apart := (List.nodup_append.1 distinct).2.2 _ isSame
        rw [along_of_not_mem fun later => apart slot later rfl]
        exact if_pos (Instruction.stored?_eq_some.1 (by simpa using isSame))
      · exact induction (List.nodup_append.1 distinct).2.1 later

end Latest

/-! ## Ways and stores -/

namespace Way

def latest : Way → Latest
  | running latest => latest
  | seeking _ latest => latest

variable {place : Nat} {way last : Way} {code : List Instruction}

theorem latest_of_mem_past {instruction : Instruction} {slot : Int}
    (absent : slot ∉ instruction.stored?.toList)
    (isLast : last ∈ way.past place instruction) :
    last.latest slot = way.latest slot := by
  cases way with
  | running latest =>
      rcases mem_past_running.1 isLast with ⟨_, rfl⟩ | ⟨target, _, rfl⟩
      · exact Latest.after_of_not_mem absent
      · rfl
  | seeking target latest =>
      rcases mem_past_seeking.1 isLast with ⟨_, rfl⟩ | ⟨_, rfl⟩ <;> rfl

theorem latest_of_mem_through {slot : Int} (absent : slot ∉ storedSlots code)
    (isLast : last ∈ way.through place code) : last.latest slot = way.latest slot := by
  induction code generalizing place way with
  | nil => cases List.mem_singleton.1 isLast; rfl
  | cons instruction rest induction =>
      rw [storedSlots_cons, List.mem_append, not_or] at absent
      obtain ⟨next, isNext, isLast⟩ := mem_through_cons.1 isLast
      rw [induction absent.2 isLast, latest_of_mem_past absent.1 isNext]

/-- A way that is still seeking a label after code left the code for it, or sought it
before. -/
theorem target_of_mem_through {target : Label} {latest : Latest}
    (isLast : seeking target latest ∈ way.through place code) :
    target ∈ escapes code ∨
      target ∉ definedLabels code ∧ ∃ before, way = seeking target before := by
  induction code generalizing place way with
  | nil =>
      rw [← List.mem_singleton.1 isLast]
      exact .inr ⟨List.not_mem_nil, latest, rfl⟩
  | cons instruction rest induction =>
      obtain ⟨next, isNext, isLast⟩ := mem_through_cons.1 isLast
      rw [mem_escapes_cons]
      rcases induction isLast with escapes | ⟨absent, before, rfl⟩
      · exact .inl (.inr escapes)
      · cases way with
        | running _ =>
            rcases mem_past_running.1 isNext with ⟨_, impossible⟩ | ⟨own, leads, equal⟩
            · cases impossible
            · cases equal
              exact .inl (.inl ⟨leads, absent⟩)
        | seeking own _ =>
            rcases mem_past_seeking.1 isNext with ⟨_, impossible⟩ | ⟨other, equal⟩
            · cases impossible
            · cases equal
              refine .inr ⟨?_, _, rfl⟩
              rw [definedLabels_cons, List.mem_append, not_or]
              exact ⟨fun own => other (Option.mem_toList.1 own), absent⟩

theorem exists_running (closed : escapes code = []) {latest : Latest}
    (isLast : last ∈ (running latest).through place code) :
    ∃ later, last = running later := by
  cases last with
  | running later => exact ⟨later, rfl⟩
  | seeking target later =>
      rcases target_of_mem_through isLast with escape | ⟨_, before, impossible⟩
      · rw [closed] at escape
        cases escape
      · cases impossible

end Way

/-! ## Code that makes all of its stores -/

/-- All ways that come out at the end of code have made all of its stores, and the others
are on their way to some labels. -/
def StoresAll (exits : List Label) (code : List Instruction) : Prop :=
  ∀ place latest, ∀ last ∈ (Way.running latest).through place code,
    last = .running (latest.along place code) ∨
      ∃ target ∈ exits, ∃ later, last = .seeking target later

namespace StoresAll

variable {exits more : List Label} {code first second : List Instruction}

theorem mono (stores : StoresAll exits code) (subset : exits ⊆ more) :
    StoresAll more code := by
  intro place latest last isLast
  refine (stores place latest last isLast).imp id ?_
  rintro ⟨target, isExit, later, equal⟩
  exact ⟨target, subset isExit, later, equal⟩

theorem append (left : StoresAll exits first)
    (absent : ∀ target ∈ exits, target ∉ definedLabels second)
    (right : StoresAll exits second) : StoresAll exits (first ++ second) := by
  intro place latest last isLast
  obtain ⟨middle, isMiddle, isLast⟩ := Way.mem_through_append.1 isLast
  rcases left place latest middle isMiddle with rfl | ⟨target, isExit, later, rfl⟩
  · rw [Latest.along_append]
    exact right _ _ last isLast
  · rw [Way.through_seeking (absent target isExit)] at isLast
    exact .inr ⟨target, isExit, later, List.mem_singleton.1 isLast⟩

theorem ofNoTargets
    (plain : ∀ instruction ∈ code, instruction.goesOn = true ∧
      instruction.target? = none) :
    StoresAll exits code := by
  intro place latest last isLast
  induction code generalizing place latest with
  | nil => exact .inl (List.mem_singleton.1 isLast)
  | cons instruction rest induction =>
      obtain ⟨goesOn, target⟩ := plain instruction List.mem_cons_self
      obtain ⟨next, isNext, isLast⟩ := Way.mem_through_cons.1 isLast
      obtain rfl : next = .running (latest.after place instruction) := by
        simpa [Way.past, goesOn, target] using isNext
      exact induction (fun other member =>
        plain other (List.mem_cons_of_mem _ member)) _ _ isLast

end StoresAll

/-- A test with parts is closed by code that goes on to the label of failed tests where a
part failed. -/
theorem StoresAll.close {body closing : List Instruction} {fail onFail : Label}
    (stores : StoresAll [fail, onFail] body) (passed : StoresAll [onFail] closing)
    (failed : ∀ place latest,
      (Way.seeking fail latest).through place closing = [.seeking onFail latest])
    (absent : onFail ∉ definedLabels closing) : StoresAll [onFail] (body ++ closing) := by
  intro place latest last isLast
  obtain ⟨middle, isMiddle, isLast⟩ := Way.mem_through_append.1 isLast
  rcases stores place latest middle isMiddle with rfl | ⟨target, isExit, later, rfl⟩
  · rw [Latest.along_append]
    exact passed _ _ last isLast
  · refine .inr ⟨onFail, List.mem_cons_self, later, ?_⟩
    rcases List.mem_cons.1 isExit with rfl | isExit
    · rw [failed] at isLast
      exact List.mem_singleton.1 isLast
    · cases List.mem_singleton.1 isExit
      rw [Way.through_seeking absent] at isLast
      exact List.mem_singleton.1 isLast

theorem StoresAll.ofQuiet {exits : List Label} {code : List Instruction}
    (quiet : storedSlots code = [])
    (ways : ∀ place latest, ∀ last ∈ (Way.running latest).through place code,
      last = .running latest ∨ ∃ target ∈ exits, last = .seeking target latest) :
    StoresAll exits code := by
  intro place latest last isLast
  rw [Latest.along_eq quiet]
  refine (ways place latest last isLast).imp id ?_
  exact fun ⟨target, isExit, equal⟩ => ⟨target, isExit, latest, equal⟩

/-! ## Pieces of tests -/

section Pieces

variable {exits : List Label} {fail onFail done : Label}

theorem storesAll_keeping (keep : Bool) : StoresAll exits (keeping keep) := by
  cases keep <;>
    exact .ofNoTargets (by simp [keeping, Instruction.goesOn, Instruction.target?])

theorem storesAll_single {instruction : Instruction} (goesOn : instruction.goesOn = true)
    (target : instruction.target? = none) : StoresAll exits [instruction] :=
  .ofNoTargets fun other member => by
    rw [List.mem_singleton.1 member]; exact ⟨goesOn, target⟩

theorem storesAll_popMany (count : Nat) : StoresAll exits (popMany count) :=
  .ofNoTargets fun instruction member => by
    rw [List.eq_of_mem_replicate member]; exact ⟨rfl, rfl⟩

theorem storesAll_nonEmptyTest (onFail : Label) :
    StoresAll [onFail] (nonEmptyTest onFail) := by
  refine .ofQuiet rfl fun place latest last isLast => ?_
  simpa [nonEmptyTest, Way.through, Way.past, Instruction.goesOn, Instruction.target?,
    Latest.after_eq] using isLast

theorem Pattern.storesAll_preparation (pattern : Pattern) :
    StoresAll exits pattern.preparation := by
  cases pattern <;>
    exact .ofNoTargets (by simp [preparation, Instruction.goesOn, Instruction.target?])

theorem Prepared.storesAll_switch (prepared : Prepared) (pattern : Pattern) :
    StoresAll exits (prepared.switch pattern).1 := by
  unfold switch
  split
  · exact .ofNoTargets fun _ member => by cases member
  · exact (storesAll_popMany _).append (by simp) pattern.storesAll_preparation

theorem storesAll_discard (apart : done ≠ fail) :
    StoresAll [onFail] ([.jump done] ++ (discard fail onFail ++ [.label done])) := by
  refine .ofQuiet rfl fun place latest last isLast => ?_
  simp [discard, Way.through, Way.past, Instruction.goesOn, Instruction.target?,
    apart.symm] at isLast
  exact .inl isLast

theorem through_discard_fail (apart : onFail ≠ done) (place : Nat) (latest : Latest) :
    (Way.seeking fail latest).through place
      ([.jump done] ++ (discard fail onFail ++ [.label done])) =
      [.seeking onFail latest] := by
  simp [discard, Way.through, Way.past, Instruction.goesOn, Instruction.target?,
    Latest.after_eq, apart.symm]

theorem StoresAll.discard {body : List Instruction}
    (stores : StoresAll [fail, onFail] body) (apart : done ≠ fail)
    (failApart : onFail ≠ fail) (doneApart : onFail ≠ done) :
    StoresAll [onFail]
      (body ++ [.jump done] ++ Casework.discard fail onFail ++ [.label done]) := by
  rw [List.append_assoc, List.append_assoc]
  exact stores.close (storesAll_discard apart) (through_discard_fail doneApart)
    (by simp [failApart, doneApart])

theorem storesAll_noMoreTest {finish : Label} (finishApart : done ≠ finish)
    (apart : done ≠ fail) (onFailApart : onFail ≠ finish) (failApart : onFail ≠ fail)
    (doneApart : onFail ≠ done) :
    StoresAll [onFail]
      (noMoreTest finish onFail done ++ (discard fail onFail ++ [.label done])) := by
  refine .ofQuiet rfl fun place latest last isLast => ?_
  simp [noMoreTest, discard, Way.through, Way.past, Instruction.goesOn,
    Instruction.target?, Latest.after_eq, finishApart.symm, apart.symm, onFailApart.symm,
    failApart.symm, doneApart.symm]
    at isLast
  rcases isLast with passed | failed | passed
  · exact .inl passed
  · exact .inr ⟨onFail, List.mem_cons_self, failed⟩
  · exact .inl passed

theorem through_noMoreTest_fail {finish : Label} (finishApart : fail ≠ finish)
    (doneApart : onFail ≠ done) (place : Nat) (latest : Latest) :
    (Way.seeking fail latest).through place
      (noMoreTest finish onFail done ++ (discard fail onFail ++ [.label done])) =
        [.seeking onFail latest] := by
  simp [noMoreTest, discard, Way.through, Way.past, Instruction.goesOn,
    Instruction.target?, Latest.after_eq, finishApart.symm, doneApart.symm]

end Pieces

namespace Pattern

variable {pattern : Pattern} {bases : List Int} {onFail : Label} {exits : List Label}
  {supply : Supply}

theorem storesAll_nested {test : List Instruction} (stores : StoresAll exits test)
    (absent : ∀ target ∈ exits, target ∉ definedLabels test) :
    StoresAll exits (pattern.nested test) :=
  pattern.storesAll_preparation.append absent stores

theorem storesAll_onHead {test : List Instruction} (stores : StoresAll exits test)
    (absent : ∀ target ∈ exits, target ∉ definedLabels test) :
    StoresAll exits (pattern.onHead test) := by
  unfold onHead
  split
  · exact .ofNoTargets fun _ member => by cases member
  · refine .append (.ofNoTargets ?_) ?_ (storesAll_nested stores absent)
    · simp [Instruction.goesOn, Instruction.target?]
    · simpa using absent

theorem storesAll_onTail {test : List Instruction} (stores : StoresAll exits test)
    (absent : ∀ target ∈ exits, target ∉ definedLabels test) :
    StoresAll exits (pattern.onTail test) := by
  unfold onTail
  split
  · exact storesAll_single rfl rfl
  · have rest : StoresAll exits [.invoke .rest 1 true] := storesAll_single rfl rfl
    exact rest.append (by simpa using absent) (storesAll_nested stores absent)

end Pattern

/-! ## Tests -/

theorem Consecutive.absent {low high : Nat} {labels exits : List Label}
    (consecutive : Consecutive low high labels)
    (earlier : ∀ target ∈ exits, target.number < low) :
    ∀ target ∈ exits, target ∉ labels :=
  fun target isExit => consecutive.not_mem_of_lt (earlier target isExit)

/-- The first label of a supply and one given out before come before what is taken
later. -/
theorem Supply.lt_of_mem_pair {supply : Supply} {onFail : Label}
    (given : onFail.number < supply.label) {limit : Nat} (more : supply.label < limit) :
    ∀ target ∈ [supply.labelAfter 0, onFail], target.number < limit := by
  simp only [List.mem_cons, List.not_mem_nil, or_false]
  rintro target (rfl | rfl)
  · rw [number_labelAfter]
    omega
  · omega

def Pattern.TestStores (bases : List Int) (pattern : Pattern) : Prop :=
  ∀ (onFail : Label) (keep : Bool) (supply : Supply), onFail.number < supply.label →
    StoresAll [onFail] ((pattern.test bases onFail keep).run supply).1

def Patterns.TestsStore (bases : List Int) (items : Patterns) : Prop :=
  ∀ (onFail : Label) (supply : Supply), onFail.number < supply.label →
    StoresAll [onFail] ((items.test bases onFail).run supply).1

def PatternFields.TestsStore (bases : List Int) (fields : PatternFields) : Prop :=
  ∀ (onFail onLastFail : Label) (supply : Supply), onFail.number < supply.label →
    onLastFail.number < supply.label →
      StoresAll [onFail, onLastFail] ((fields.test bases onFail onLastFail).run supply).1

section Cases

variable {bases : List Int}

theorem Pattern.testStores_wildcard : Pattern.wildcard.TestStores bases := by
  intro onFail keep supply _
  rw [Pattern.run_test_wildcard]
  cases keep <;> exact .ofNoTargets (by simp [Instruction.goesOn, Instruction.target?])

theorem Pattern.testStores_literal (value : Constant) (type : Ref) :
    (Pattern.literal value type).TestStores bases := by
  intro onFail keep supply _
  refine (storesAll_keeping keep).append (by simp)
    (.ofQuiet rfl fun place latest last isLast => ?_)
  simpa [Way.through, Way.past, Instruction.goesOn, Instruction.target?, Latest.after_eq]
    using isLast

theorem storesAll_tagKept (tag : String) (onFail : Label) :
    StoresAll [onFail]
      [.dup, .constant (.ofString tag), .branch .different onFail, .swap, .dupBelow,
      .tagPayload] := by
  refine .ofQuiet rfl fun place latest last isLast => ?_
  simpa [Way.through, Way.past, Instruction.goesOn, Instruction.target?, Latest.after_eq]
    using isLast

theorem storesAll_tagUsedUp (tag : String) {onFail next : Label} (apart : onFail ≠ next) :
    StoresAll [onFail]
      [.constant (.ofString tag), .branch .same next, .pop, .jump onFail, .label next,
      .tagPayload] := by
  refine .ofQuiet rfl fun place latest last isLast => ?_
  simp [Way.through, Way.past, Instruction.goesOn, Instruction.target?, Latest.after_eq,
    apart.symm] at isLast
  rcases isLast with failed | passed
  · exact .inr ⟨onFail, List.mem_cons_self, failed⟩
  · exact .inl passed

theorem Pattern.testStores_variant (tag : String) {payload : Pattern}
    (stores : payload.TestStores bases) :
    (Pattern.variant tag payload).TestStores bases := by
  intro onFail keep supply given
  cases keep with
  | true =>
      have absent := Pattern.not_mem_definedLabels_test bases given payload onFail false
      rw [Pattern.run_test_variant_keep]
      exact (storesAll_tagKept tag onFail).append (by simpa using absent)
        (Pattern.storesAll_nested (stores onFail false supply given)
          (by simpa using absent))
  | false =>
      have later : onFail.number < (supply.take 1).label := by
        rw [Supply.label_take]
        omega
      have absent := Pattern.not_mem_definedLabels_test bases later payload onFail false
      rw [Pattern.run_test_variant_consume]
      exact (storesAll_tagUsedUp tag (Supply.ne_labelAfter given 0)).append
        (by simpa using absent)
        (Pattern.storesAll_nested (stores onFail false _ later) (by simpa using absent))

theorem Pattern.testStores_emptyList : Pattern.emptyList.TestStores bases := by
  intro onFail keep supply given
  have nullApart := Supply.ne_labelAfter given 0
  have doneApart := Supply.ne_labelAfter given 1
  rw [Pattern.run_test_emptyList]
  refine (storesAll_keeping keep).append (by simp [nullApart, doneApart])
    (.ofQuiet rfl fun place latest last isLast => ?_)
  simp [Way.through, Way.past, Instruction.goesOn, Instruction.target?, Latest.after_eq,
    nullApart.symm, doneApart.symm] at isLast
  rcases isLast with passed | failed | passed
  · exact .inl passed
  · exact .inr ⟨onFail, List.mem_cons_self, failed⟩
  · exact .inl passed

theorem Pattern.testStores_cons {head tail : Pattern} (headStores : head.TestStores bases)
    (tailStores : tail.TestStores bases) : (Pattern.cons head tail).TestStores bases := by
  intro onFail keep supply given
  let fail := supply.labelAfter 0
  let headTest := (head.test bases fail false).run (supply.take 2)
  have headLabels := head.labels_test bases fail false (supply.take 2)
  have headRange : supply.label + 2 ≤ headTest.2.label := headLabels.1
  have exits : ∀ target ∈ [fail, onFail], target.number < (supply.label + 2 : Nat) :=
    Supply.lt_of_mem_pair given (by omega)
  have headAbsent := headLabels.absent exits
  have tailAbsent := (tail.labels_test bases onFail false headTest.2).absent
    fun target isExit =>
    Int.lt_of_lt_of_le (exits target isExit) (Int.ofNat_le.2 headRange)
  have headPart : StoresAll [fail, onFail] headTest.1 :=
    (headStores fail false _ (exits fail (by simp))).mono (by simp)
  have tailPart : StoresAll [fail, onFail]
      ((tail.test bases onFail false).run headTest.2).1 :=
    (tailStores onFail false _ (by omega)).mono (by simp)
  have listPart : StoresAll [fail, onFail] (nonEmptyTest fail) :=
    (storesAll_nonEmptyTest fail).mono (by simp)
  rw [Pattern.run_test_cons]
  refine StoresAll.discard
    (.append (.append (.append (storesAll_keeping keep) (by simp) listPart) ?_
      (Pattern.storesAll_onHead headPart headAbsent)) ?_
      (Pattern.storesAll_onTail tailPart tailAbsent))
    (by simp) (Supply.ne_labelAfter given 0) (Supply.ne_labelAfter given 1)
  · simpa only [Pattern.definedLabels_onHead] using headAbsent
  · simpa only [Pattern.definedLabels_onTail] using tailAbsent

theorem Pattern.testStores_fixedList {items : Patterns}
    (stores : items.TestsStore bases) :
    (Pattern.fixedList items).TestStores bases := by
  intro onFail keep supply given
  let fail := supply.labelAfter 0
  have exits : ∀ target ∈ [fail, onFail], target.number < (supply.label + 3 : Nat) :=
    Supply.lt_of_mem_pair given (by omega)
  have absent := (items.labels_test bases fail (supply.take 3)).absent exits
  have itemsPart : StoresAll [fail, onFail]
      ((items.test bases fail).run (supply.take 3)).1 :=
    (stores fail _ (exits fail (by simp))).mono (by simp)
  rw [Pattern.run_test_fixedList]
  dsimp only
  rw [List.append_assoc, List.append_assoc]
  refine StoresAll.close (.append (storesAll_keeping keep) absent itemsPart)
    (storesAll_noMoreTest (by simp) (by simp) (Supply.ne_labelAfter given 1)
      (Supply.ne_labelAfter given 0) (Supply.ne_labelAfter given 2))
    (through_noMoreTest_fail (by simp) (Supply.ne_labelAfter given 2)) ?_
  simp [Supply.ne_labelAfter given]

theorem Pattern.testStores_record {fields : PatternFields}
    (stores : fields.TestsStore bases) :
    (Pattern.record fields).TestStores bases := by
  intro onFail keep supply given
  obtain none | one | many : fields.readCount = 0 ∨ fields.readCount = 1 ∨
    2 ≤ fields.readCount := by omega
  · rw [Pattern.run_test_record_none _ _ _ _ none]
    exact (storesAll_keeping keep).append (by simp) (storesAll_single rfl rfl)
  · rw [Pattern.run_test_record_one _ _ _ _ one]
    have absent := (fields.labels_test bases onFail onFail supply).not_mem_of_lt given
    refine (storesAll_keeping keep).append (by simpa using absent) ?_
    exact (stores onFail onFail supply given given).mono (by simp)
  · have exits := Supply.lt_of_mem_pair given (Nat.lt_succ_self supply.label)
    have labels := fields.labels_test bases (supply.labelAfter 0) onFail (supply.take 1)
    have range : supply.label + 1 ≤
      ((fields.test bases (supply.labelAfter 0) onFail).run (supply.take 1)).2.label :=
      labels.1
    have fieldsPart := stores (supply.labelAfter 0) onFail (supply.take 1)
      (exits _ (by simp)) (exits onFail (by simp))
    rw [Pattern.run_test_record_many _ _ _ _ many]
    refine StoresAll.discard
      (.append (storesAll_keeping keep) (labels.absent exits) fieldsPart) ?_
      (Supply.ne_labelAfter given 0) (Supply.ne_labelAfter (by omega) 0)
    refine (Supply.ne_labelAfter ?_ 0).symm
    rw [Supply.number_labelAfter]
    omega

theorem Patterns.testsStore_cons {head : Pattern} {tail : Patterns}
    (headStores : head.TestStores bases) (tailStores : tail.TestsStore bases) :
    (Patterns.cons head tail).TestsStore bases := by
  intro onFail supply given
  have headLabels := head.labels_test bases onFail false supply
  have tailGiven : onFail.number <
      ((head.test bases onFail false).run supply).2.label := by
    have range := headLabels.1
    omega
  have headAbsent := headLabels.not_mem_of_lt given
  have tailAbsent := (tail.labels_test bases onFail _).not_mem_of_lt tailGiven
  rw [Patterns.run_test_cons]
  refine .append (.append (.append (storesAll_nonEmptyTest onFail) ?_
    (Pattern.storesAll_onHead (headStores onFail false supply given)
      (by simpa using headAbsent)))
      (by simp) (storesAll_single rfl rfl)) (by simpa using tailAbsent)
      (tailStores onFail _ tailGiven)
  simpa [Pattern.definedLabels_onHead] using headAbsent

theorem PatternFields.testsStore_cons (name : String) {pattern : Pattern}
    {tail : PatternFields} (stores : pattern.TestStores bases)
    (tailStores : tail.TestsStore bases) :
    (PatternFields.cons name pattern tail).TestsStore bases := by
  intro onFail onLastFail supply given lastGiven
  by_cases skipped : pattern.isWildcard = true
  · rw [PatternFields.run_test_skip _ _ _ _ name tail skipped]
    exact tailStores onFail onLastFail supply given lastGiven
  · have read : pattern.isWildcard = false := by simpa using skipped
    by_cases last : tail.readCount = 0
    · have absent := Pattern.not_mem_definedLabels_test bases lastGiven pattern
        onLastFail false
      have inner := stores onLastFail false supply lastGiven
      have field : StoresAll [onLastFail] [.field name] := storesAll_single rfl rfl
      rw [PatternFields.run_test_last _ _ _ _ name read last]
      refine StoresAll.mono ?_ (List.subset_cons_self onFail [onLastFail])
      exact field.append (by simpa using absent)
        (Pattern.storesAll_nested inner (by simpa using absent))
    · let inner := (pattern.test bases onFail false).run supply
      have labels := pattern.labels_test bases onFail false supply
      have range : supply.label ≤ inner.2.label := labels.1
      have exits : ∀ target ∈ [onFail, onLastFail], target.number < supply.label := by
        simp [given, lastGiven]
      have innerAbsent := labels.absent exits
      have othersAbsent := (tail.labels_test bases onFail onLastFail inner.2).absent
        fun target isExit =>
        Int.lt_of_lt_of_le (exits target isExit) (Int.ofNat_le.2 range)
      have innerPart : StoresAll [onFail, onLastFail] inner.1 :=
        (stores onFail false supply given).mono (by simp)
      have othersPart := tailStores onFail onLastFail inner.2 (by omega) (by omega)
      rw [PatternFields.run_test_next _ _ _ _ name read last]
      refine .append
        (.append (.ofNoTargets (by simp [Instruction.goesOn, Instruction.target?])) ?_
          (Pattern.storesAll_nested innerPart innerAbsent)) othersAbsent othersPart
      simpa using innerAbsent

end Cases

mutual

theorem Pattern.storesAll_test (bases : List Int) :
    (pattern : Pattern) → pattern.TestStores bases
  | .wildcard => Pattern.testStores_wildcard
  | .bind _ => fun _ keep _ _ => (storesAll_keeping keep).append (by simp)
      (storesAll_single rfl rfl)
  | .literal value type => Pattern.testStores_literal value type
  | .variant tag payload => Pattern.testStores_variant tag (payload.storesAll_test bases)
  | .emptyList => Pattern.testStores_emptyList
  | .cons head tail => Pattern.testStores_cons (head.storesAll_test bases)
      (tail.storesAll_test bases)
  | .fixedList items => Pattern.testStores_fixedList (items.storesAll_test bases)
  | .record fields => Pattern.testStores_record (fields.storesAll_test bases)
termination_by structural pattern => pattern

theorem Patterns.storesAll_test (bases : List Int) :
    (items : Patterns) → items.TestsStore bases
  | .nil => fun _ _ _ => .ofNoTargets fun _ member => by cases member
  | .cons head tail => Patterns.testsStore_cons (head.storesAll_test bases)
      (tail.storesAll_test bases)
termination_by structural items => items

theorem PatternFields.storesAll_test (bases : List Int) :
    (fields : PatternFields) → fields.TestsStore bases
  | .nil => fun _ _ _ _ _ => .ofNoTargets fun _ member => by cases member
  | .cons name pattern tail =>
      PatternFields.testsStore_cons name (pattern.storesAll_test bases)
        (tail.storesAll_test bases)
termination_by structural fields => fields

end

/-! ## Slots that tests use -/

def Instruction.usesSlot : Instruction → Bool
  | store _ => true
  | load _ => true
  | _ => false

def slotUses (code : List Instruction) : List Instruction :=
  code.filter Instruction.usesSlot

@[simp] theorem slotUses_nil : slotUses [] = [] := rfl

@[simp] theorem slotUses_append (first second : List Instruction) :
    slotUses (first ++ second) = slotUses first ++ slotUses second :=
  List.filter_append ..

@[simp] theorem slotUses_cons (instruction : Instruction) (code : List Instruction) :
    slotUses (instruction :: code) =
      (if instruction.usesSlot then [instruction] else []) ++ slotUses code := by
  rw [slotUses, List.filter_cons]
  split <;> rfl

@[simp] theorem slotUses_keeping (keep : Bool) : slotUses (keeping keep) = [] := by
  cases keep <;> rfl

@[simp] theorem slotUses_nonEmptyTest (onFail : Label) :
    slotUses (nonEmptyTest onFail) = [] := rfl

@[simp] theorem slotUses_discard (label onFail : Label) :
    slotUses (discard label onFail) = [] := rfl

theorem slotUses_replicate {instruction : Instruction}
    (unused : instruction.usesSlot = false) (count : Nat) :
    slotUses (List.replicate count instruction) = [] := by
  simp [slotUses, unused]

@[simp] theorem slotUses_popMany (count : Nat) : slotUses (popMany count) = [] :=
  slotUses_replicate rfl count

theorem storedSlots_slotUses (code : List Instruction) :
    storedSlots (slotUses code) = storedSlots code := by
  rw [storedSlots, slotUses, List.filterMap_filter]
  congr 1
  funext instruction
  cases instruction <;> rfl

def nameStores (bases : List Int) (bindings : List Binding) : List Instruction :=
  (slotNumbers bases bindings).map .store

theorem nameStores_append (bases : List Int) (first second : List Binding) :
    nameStores bases (first ++ second) = nameStores bases first ++
      nameStores bases second := by
  simp [nameStores, slotNumbers]

@[simp] theorem nameStores_nil (bases : List Int) : nameStores bases [] = [] := rfl

theorem storedSlots_of_slotUses {code : List Instruction} {bases : List Int}
    {bindings : List Binding} (uses : slotUses code = nameStores bases bindings) :
    storedSlots code = slotNumbers bases bindings := by
  rw [← storedSlots_slotUses, uses, nameStores, storedSlots, List.filterMap_map]
  exact List.filterMap_some ..

theorem load_not_mem {code : List Instruction} {bases : List Int}
    {bindings : List Binding} (uses : slotUses code = nameStores bases bindings)
    (slot : Int) : .load slot ∉ code := by
  intro member
  have used : .load slot ∈ slotUses code := List.mem_filter.2 ⟨member, rfl⟩
  rw [uses] at used
  simp [nameStores] at used

namespace Pattern

@[simp] theorem slotUses_preparation (pattern : Pattern) :
    slotUses pattern.preparation = [] := by
  cases pattern <;> rfl

@[simp] theorem slotUses_nested (pattern : Pattern) (test : List Instruction) :
    slotUses (pattern.nested test) = slotUses test := by
  simp [nested]

theorem slotUses_onHead {bases : List Int} {pattern : Pattern} {test : List Instruction}
    (uses : slotUses test = nameStores bases pattern.bindings) :
    slotUses (pattern.onHead test) = nameStores bases pattern.bindings := by
  by_cases wild : pattern.isWildcard = true
  · rw [eq_wildcard_of_isWildcard wild]
    rfl
  · rw [onHead, if_neg wild]
    simpa [Instruction.usesSlot] using uses

theorem slotUses_onTail {bases : List Int} {pattern : Pattern} {test : List Instruction}
    (uses : slotUses test = nameStores bases pattern.bindings) :
    slotUses (pattern.onTail test) = nameStores bases pattern.bindings := by
  by_cases wild : pattern.isWildcard = true
  · rw [eq_wildcard_of_isWildcard wild]
    rfl
  · rw [onTail, if_neg wild]
    simpa [Instruction.usesSlot] using uses

end Pattern

theorem PatternFields.bindings_of_readCount :
    ∀ {fields : PatternFields}, fields.readCount = 0 →
    fields.bindings = []
  | .nil, _ => rfl
  | .cons name pattern tail, zero => by
      rw [readCount] at zero
      by_cases wild : pattern.isWildcard = true
      · rw [bindings, Pattern.eq_wildcard_of_isWildcard wild,
        bindings_of_readCount (by omega)]
        rfl
      · rw [if_neg wild] at zero
        omega

mutual

/-- A test uses slots to store the names of its pattern only, each once and in order. -/
theorem Pattern.slotUses_test (bases : List Int) :
    ∀ (pattern : Pattern) (onFail : Label) (keep : Bool) (supply : Supply),
      slotUses ((pattern.test bases onFail keep).run supply).1 =
        nameStores bases pattern.bindings
  | .wildcard, onFail, keep, supply => by
      rw [Pattern.run_test_wildcard]
      cases keep <;> rfl
  | .bind binding, onFail, keep, supply => by
      rw [Pattern.run_test_bind, slotUses_append, slotUses_keeping]
      rfl
  | .literal value type, onFail, keep, supply => by
      rw [Pattern.run_test_literal, slotUses_append, slotUses_keeping]
      rfl
  | .variant tag payload, onFail, true, supply => by
      rw [Pattern.run_test_variant_keep, slotUses_append, Pattern.slotUses_nested]
      exact payload.slotUses_test bases onFail false supply
  | .variant tag payload, onFail, false, supply => by
      rw [Pattern.run_test_variant_consume, slotUses_append, Pattern.slotUses_nested]
      exact payload.slotUses_test bases onFail false (supply.take 1)
  | .emptyList, onFail, keep, supply => by
      rw [Pattern.run_test_emptyList, slotUses_append, slotUses_keeping]
      rfl
  | .cons head tail, onFail, keep, supply => by
      have headUses :=
  head.slotUses_test bases (supply.labelAfter 0) false (supply.take 2)
      have tailUses := tail.slotUses_test bases onFail false
        ((head.test bases (supply.labelAfter 0) false).run (supply.take 2)).2
      rw [Pattern.run_test_cons, Pattern.bindings, nameStores_append]
      simp [Instruction.usesSlot, Pattern.slotUses_onHead headUses,
        Pattern.slotUses_onTail tailUses]
  | .fixedList items, onFail, keep, supply => by
      have itemsUses := items.slotUses_test bases (supply.labelAfter 0) (supply.take 3)
      rw [Pattern.run_test_fixedList, Pattern.bindings]
      simp [Instruction.usesSlot, itemsUses]
  | .record fields, onFail, keep, supply => by
      obtain none | one | many : fields.readCount = 0 ∨ fields.readCount = 1 ∨
        2 ≤ fields.readCount := by omega
      · rw [Pattern.run_test_record_none _ _ _ _ none, Pattern.bindings,
          PatternFields.bindings_of_readCount none, slotUses_append, slotUses_keeping]
        rfl
      · rw [Pattern.run_test_record_one _ _ _ _ one, slotUses_append, slotUses_keeping]
        exact fields.slotUses_test bases onFail onFail supply
      · have fieldsUses :=
          fields.slotUses_test bases (supply.labelAfter 0) onFail (supply.take 1)
        rw [Pattern.run_test_record_many _ _ _ _ many, Pattern.bindings]
        simp [Instruction.usesSlot, fieldsUses]
termination_by structural pattern => pattern

theorem Patterns.slotUses_test (bases : List Int) :
    ∀ (items : Patterns) (onFail : Label) (supply : Supply),
      slotUses ((items.test bases onFail).run supply).1 = nameStores bases items.bindings
  | .nil, _, _ => rfl
  | .cons head tail, onFail, supply => by
      have headUses := head.slotUses_test bases onFail false supply
      have tailUses := tail.slotUses_test bases onFail
        ((head.test bases onFail false).run supply).2
      rw [Patterns.run_test_cons, Patterns.bindings, nameStores_append]
      simp [Instruction.usesSlot, Pattern.slotUses_onHead headUses, tailUses]
termination_by structural items => items

theorem PatternFields.slotUses_test (bases : List Int) :
    ∀ (fields : PatternFields) (onFail onLastFail : Label) (supply : Supply),
      slotUses ((fields.test bases onFail onLastFail).run supply).1 =
        nameStores bases fields.bindings
  | .nil, _, _, _ => rfl
  | .cons name pattern tail, onFail, onLastFail, supply => by
      by_cases skipped : pattern.isWildcard = true
      · rw [PatternFields.run_test_skip _ _ _ _ name tail skipped, PatternFields.bindings,
          Pattern.eq_wildcard_of_isWildcard skipped]
        exact tail.slotUses_test bases onFail onLastFail supply
      · have read : pattern.isWildcard = false := by simpa using skipped
        by_cases last : tail.readCount = 0
        · have inner := pattern.slotUses_test bases onLastFail false supply
          rw [PatternFields.run_test_last _ _ _ _ name read last, PatternFields.bindings,
            PatternFields.bindings_of_readCount last, List.append_nil]
          simpa [Instruction.usesSlot] using inner
        · have inner := pattern.slotUses_test bases onFail false supply
          have others := tail.slotUses_test bases onFail onLastFail
            ((pattern.test bases onFail false).run supply).2
          rw [PatternFields.run_test_next _ _ _ _ name read last, PatternFields.bindings,
            nameStores_append]
          simp [Instruction.usesSlot, inner, others]
termination_by structural fields => fields

end

/-! ## The code of a choice up to its body -/

namespace Pattern

variable (pattern : Pattern) (bases : List Int) (prepared : Prepared) (supply : Supply)

theorem storesAll_entry :
    StoresAll [supply.labelAfter 0] (pattern.entry bases prepared supply) := by
  have given : (supply.labelAfter 0).number < (supply.take 1).label := by
    rw [Supply.number_labelAfter, Supply.label_take]
    omega
  have absent := not_mem_definedLabels_test bases given pattern (supply.labelAfter 0) true
  exact .append (.append (prepared.storesAll_switch pattern) (by simpa using absent)
    (pattern.storesAll_test bases _ true _ given)) (by simp) (storesAll_popMany _)

theorem slotUses_entry :
    slotUses (pattern.entry bases prepared supply) =
      nameStores bases pattern.bindings := by
  have switching : slotUses (prepared.switch pattern).1 = [] := by
    unfold Prepared.switch
    split <;> simp
  rw [entry, slotUses_append, slotUses_append, switching, slotUses_popMany, slotUses_test,
    List.nil_append, List.append_nil]

end Pattern

end Casework
