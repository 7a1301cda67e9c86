import Mathlib.Logic.ExistsUnique
import Casework.Proofs.Depths

/-!
The recorder's verdict is sound and its depths are exact.

The recorder goes through code once, in the order in which it is written, whereas there
may be very many paths through the code. As long as nothing is found wrong, it knows all
of them: with which depth they arrive at the end of the code, and with which depth they
jump to labels that are still to be defined. The main statement is about code that is
complete: if nothing is wrong with it, no path lacks operands, all paths agree about
depths, and the recorder's answers are those of the paths.
-/

namespace Casework

namespace Recorder

/-! ## Calls -/

inductive Call where
  | newLabel
  | reserve (count : Int)
  | record (instruction : Instruction)

namespace Call

def run (recorder : Recorder) : Call → Recorder
  | newLabel => recorder.newLabel.2
  | reserve count => (recorder.reserve count).2
  | record instruction => recorder.record instruction

def instruction? : Call → Option Instruction
  | record instruction => some instruction
  | _ => none

/-- A label is given out before it is used, and a jump to it comes before its
definition. -/
def Orderly (recorder : Recorder) : Call → Prop
  | record instruction =>
      (∀ label ∈ instruction.label?, recorder.Knows label) ∧
        ∀ target ∈ instruction.target?,
          recorder.Knows target ∧ Instruction.label target ∉ recorder.code.toList
  | _ => True

instance (recorder : Recorder) : (call : Call) → Decidable (call.Orderly recorder)
  | newLabel => inferInstanceAs (Decidable True)
  | reserve _ => inferInstanceAs (Decidable True)
  | record _ => inferInstanceAs (Decidable (_ ∧ _))

end Call

def perform (recorder : Recorder) (calls : List Call) : Recorder :=
  calls.foldl Call.run recorder

def Orderly (recorder : Recorder) : List Call → Prop
  | [] => True
  | call :: rest => call.Orderly recorder ∧ (call.run recorder).Orderly rest

def decidableOrderly (recorder : Recorder) :
    (calls : List Call) → Decidable (recorder.Orderly calls)
  | [] => inferInstanceAs (Decidable True)
  | call :: rest =>
      have := (call.run recorder).decidableOrderly rest
      inferInstanceAs (Decidable (_ ∧ _))

instance (recorder : Recorder) (calls : List Call) : Decidable (recorder.Orderly calls) :=
  recorder.decidableOrderly calls

/-! ## The recorder follows all paths -/

variable {recorder : Recorder} {code : List Instruction}
  {instruction : Instruction} {place : Nat} {depth : Int}

theorem follows_of_orderly (orderly : (Call.record instruction).Orderly recorder)
    (quiet : (recorder.record instruction).finding = none) :
    recorder.Follows (recorder.record instruction) instruction := by
  refine follows_record ?_ quiet
  rintro label (defines | leads)
  · exact orderly.1 label defines
  · exact (orderly.2 label leads).1

structure Tracks (recorder : Recorder) (code : List Instruction) : Prop where
  enough : ∀ place depth instruction, Arrives code place depth → code[place]? =
    some instruction →
    instruction.pops ≤ depth
  unique : ∀ place depth other, Arrives code place depth →
    Arrives code place other → depth = other
  height : ∀ depth, Arrives code code.length depth ↔ recorder.height = some depth
  jumps : ∀ label depth, JumpsTo code label depth →
    (recorder.labelState label).depth = some depth
  expected : ∀ label depth, (recorder.labelState label).marked = false →
    (recorder.labelState label).depth = some depth → JumpsTo code label depth
  marked : ∀ label, (recorder.labelState label).marked = true ↔
    Instruction.label label ∈ code
  once : ∀ (place other : Nat) (label : Label), code[place]? = some (.label label) →
    code[other]? = some (.label label) → place = other
  bounded : ∀ place depth, Arrives code place depth → depth ≤ recorder.maxDepth
  attained : ∃ place, Arrives code place recorder.maxDepth

namespace Tracks

theorem nonneg (tracks : recorder.Tracks code) (arrives : Arrives code place depth) :
    0 ≤ depth := by
  cases arrives with
  | start => exact Int.le_refl 0
  | next arrives current =>
      exact Instruction.depthAfter_nonneg (tracks.enough _ _ _ arrives current)
  | jump arrives current =>
      exact Instruction.depthAfter_nonneg (tracks.enough _ _ _ arrives current)

section step

variable {later : Recorder}

theorem enters_iff (tracks : recorder.Tracks code)
    (follows : recorder.Follows later instruction) :
    Enters code instruction depth ↔ recorder.entry instruction = some depth := by
  constructor
  · rintro (arrives | ⟨label, defines, jumps⟩)
    · rw [entry, (tracks.height depth).1 arrives, Option.some_or]
    · have reached := tracks.jumps label depth jumps
      cases height : recorder.height with
      | none => rw [entry, height, defines, Option.none_or, Option.bind_some, reached]
      | some own =>
          have entered : recorder.entry instruction = some own := by
            rw [entry, height, Option.some_or]
          have left : recorder.exit instruction = some own := by
            rw [exit, entered, Option.map_some, Instruction.depthAfter_label defines]
          rw [entered, follows.agreed label depth own (.inl defines) reached left]
  · intro entered
    rw [entry, Option.or_eq_some_iff] at entered
    rcases entered with height | ⟨_, reached⟩
    · exact .inl ((tracks.height depth).2 height)
    · obtain ⟨label, defines, reached⟩ := Option.bind_eq_some_iff.1 reached
      exact .inr ⟨label, defines,
        tracks.expected label depth (follows.unmarked label defines) reached⟩

theorem leaves_iff (tracks : recorder.Tracks code)
    (follows : recorder.Follows later instruction) :
    (∃ before, Enters code instruction before ∧ instruction.depthAfter before = depth) ↔
      recorder.exit instruction = some depth := by
  simp only [tracks.enters_iff follows, exit, Option.map_eq_some_iff]

theorem pops_le (tracks : recorder.Tracks code)
    (follows : recorder.Follows later instruction)
    (enters : Enters code instruction depth) : instruction.pops ≤ depth := by
  cases kind : instruction.label? with
  | none => exact follows.enough kind depth ((tracks.enters_iff follows).1 enters)
  | some label =>
      obtain ⟨place, arrives⟩ := enters.exists_arrives
      rw [Instruction.eq_label kind]
      exact tracks.nonneg arrives

theorem le_maxDepth (tracks : recorder.Tracks code)
    (follows : recorder.Follows later instruction)
    (enters : Enters code instruction depth) : depth ≤ later.maxDepth := by
  obtain ⟨place, arrives⟩ := enters.exists_arrives
  exact Int.le_trans (tracks.bounded place depth arrives) follows.grown

theorem depthAfter_le_maxDepth (tracks : recorder.Tracks code)
    (follows : recorder.Follows later instruction)
    (enters : Enters code instruction depth) :
    instruction.depthAfter depth ≤ later.maxDepth := by
  cases kind : instruction.label? with
  | none =>
      exact follows.noted kind _ ((tracks.leaves_iff follows).1 ⟨depth, enters, rfl⟩)
  | some label =>
      rw [Instruction.depthAfter_label kind]
      exact tracks.le_maxDepth follows enters

theorem pops_le_append (tracks : recorder.Tracks code)
    (follows : recorder.Follows later instruction) (ahead : ∀ target,
      instruction.target? = some target → Instruction.label target ∉ code)
    {current : Instruction} (arrives : Arrives (code ++ [instruction]) place depth)
    (found : (code ++ [instruction])[place]? = some current) : current.pops ≤ depth := by
  rcases arrives.append_cases ahead with ⟨small, inside⟩ | ⟨rfl, enters⟩ | ⟨rfl, _⟩
  · rw [List.getElem?_append_left small] at found
    exact tracks.enough place depth current inside found
  · rw [List.getElem?_concat_length] at found
    cases found
    exact tracks.pops_le follows enters
  · simp at found

theorem unique_append (tracks : recorder.Tracks code)
    (follows : recorder.Follows later instruction) (ahead : ∀ target,
      instruction.target? = some target → Instruction.label target ∉ code)
    {other : Int} (first : Arrives (code ++ [instruction]) place depth)
    (second : Arrives (code ++ [instruction]) place other) : depth = other := by
  rcases first.append_cases ahead with ⟨small, inside⟩ | ⟨rfl, enters⟩ | ⟨rfl, _, leaves⟩
  · rcases second.append_cases ahead with ⟨_, again⟩ | ⟨rfl, _⟩ | ⟨rfl, _⟩
    · exact tracks.unique place depth other inside again
    · omega
    · omega
  · rcases second.append_cases ahead with ⟨small, _⟩ | ⟨_, again⟩ | ⟨impossible, _⟩
    · omega
    · rw [tracks.enters_iff follows] at enters again
      exact Option.some.inj (enters.symm.trans again)
    · omega
  · rcases second.append_cases ahead with ⟨small, _⟩ | ⟨impossible, _⟩ | ⟨_, _, again⟩
    · omega
    · omega
    · rw [tracks.leaves_iff follows] at leaves again
      exact Option.some.inj (leaves.symm.trans again)

theorem height_append (tracks : recorder.Tracks code)
    (follows : recorder.Follows later instruction) (ahead : ∀ target,
      instruction.target? = some target → Instruction.label target ∉ code) :
    Arrives (code ++ [instruction]) (code ++ [instruction]).length depth ↔
      later.height = some depth := by
  rw [List.length_append, List.length_singleton, follows.height]
  constructor
  · intro arrives
    rcases arrives.append_cases ahead with
      ⟨small, _⟩ | ⟨impossible, _⟩ | ⟨_, goesOn, leaves⟩
    · omega
    · omega
    · rw [if_pos goesOn, (tracks.leaves_iff follows).1 leaves]
  · intro height
    split at height
    next goesOn =>
        obtain ⟨before, enters, rfl⟩ := (tracks.leaves_iff follows).2 height
        exact enters.next goesOn
    next => cases height

theorem depth_of_jumpsTo_append (tracks : recorder.Tracks code)
    (follows : recorder.Follows later instruction)
    (ahead : ∀ target, instruction.target? = some target →
      Instruction.label target ∉ code)
    {label : Label} (jumps : JumpsTo (code ++ [instruction]) label depth) :
    (later.labelState label).depth = some depth := by
  rcases (jumpsTo_append_iff ahead).1 jumps with old | ⟨leads, leaves⟩
  · have reached := tracks.jumps label depth old
    by_cases touched : instruction.label? = some label ∨ instruction.target? = some label
    · rw [follows.reached label touched, reached, Option.some_or]
    · rw [not_or] at touched
      rw [follows.others label touched.1 touched.2, reached]
  · have left := (tracks.leaves_iff follows).1 leaves
    rw [follows.reached label (.inr leads)]
    cases reached : (recorder.labelState label).depth with
    | none => rw [left, Option.none_or]
    | some own =>
        rw [Option.some_or, follows.agreed label own depth (.inr leads) reached left]

theorem jumpsTo_append_of_depth (tracks : recorder.Tracks code)
    (follows : recorder.Follows later instruction)
    (ahead : ∀ target, instruction.target? = some target →
      Instruction.label target ∉ code)
    {label : Label} (elsewhere : instruction.label? ≠ some label)
    (unmarked : (recorder.labelState label).marked = false)
    (reached : (later.labelState label).depth = some depth) :
    JumpsTo (code ++ [instruction]) label depth := by
  by_cases leads : instruction.target? = some label
  · rw [follows.reached label (.inr leads), Option.or_eq_some_iff] at reached
    rcases reached with reached | ⟨_, left⟩
    · exact (tracks.expected label depth unmarked reached).append _
    · exact (jumpsTo_append_iff ahead).2
        (.inr ⟨leads, (tracks.leaves_iff follows).2 left⟩)
  · rw [follows.others label elsewhere leads] at reached
    exact (tracks.expected label depth unmarked reached).append _

theorem label_unique_append (tracks : recorder.Tracks code)
    (follows : recorder.Follows later instruction) {other : Nat} {label : Label}
    (first : (code ++ [instruction])[place]? = some (.label label))
    (second : (code ++ [instruction])[other]? = some (.label label)) : place = other := by
  have fresh : ∀ index : Nat, code[index]? = some (.label label) →
      Instruction.label label ≠ instruction := by
    rintro index found rfl
    have marked := (tracks.marked label).2 (List.mem_of_getElem? found)
    rw [follows.unmarked label rfl] at marked
    cases marked
  rcases getElem?_append_single first with ⟨found, _⟩ | ⟨rfl, equal⟩
  · rcases getElem?_append_single second with ⟨again, _⟩ | ⟨_, equal⟩
    · exact tracks.once place other label found again
    · exact absurd equal (fresh place found)
  · rcases getElem?_append_single second with ⟨again, _⟩ | ⟨rfl, _⟩
    · exact absurd equal (fresh other again)
    · rfl

theorem le_maxDepth_append (tracks : recorder.Tracks code)
    (follows : recorder.Follows later instruction)
    (ahead : ∀ target, instruction.target? = some target →
      Instruction.label target ∉ code)
    (arrives : Arrives (code ++ [instruction]) place depth) : depth ≤ later.maxDepth := by
  rcases arrives.append_cases ahead with
    ⟨_, inside⟩ | ⟨_, enters⟩ | ⟨_, _, before, enters, rfl⟩
  · exact Int.le_trans (tracks.bounded place depth inside) follows.grown
  · exact tracks.le_maxDepth follows enters
  · exact tracks.depthAfter_le_maxDepth follows enters

theorem maxDepth_attained_append (tracks : recorder.Tracks code)
    (follows : recorder.Follows later instruction) :
    ∃ place, Arrives (code ++ [instruction]) place later.maxDepth := by
  rcases follows.attained with same | left
  · obtain ⟨place, arrives⟩ := tracks.attained
    rw [same]
    exact ⟨place, arrives.append _⟩
  · obtain ⟨before, enters, after⟩ := (tracks.leaves_iff follows).2 left
    rw [← after]
    exact enters.arrives.exists_arrives_after List.getElem?_concat_length

theorem append (tracks : recorder.Tracks code)
    (follows : recorder.Follows later instruction) (ahead : ∀ target,
      instruction.target? = some target → Instruction.label target ∉ code)
    (marks : ∀ label, (later.labelState label).marked = true ↔
      instruction.label? = some label ∨ (recorder.labelState label).marked = true) :
    later.Tracks (code ++ [instruction]) where
  enough _ _ _ arrives found := tracks.pops_le_append follows ahead arrives found
  unique _ _ _ first second := tracks.unique_append follows ahead first second
  height _ := tracks.height_append follows ahead
  jumps _ _ jumps := tracks.depth_of_jumpsTo_append follows ahead jumps
  expected label depth unmarked reached := by
    have before : ¬ (instruction.label? = some label ∨
        (recorder.labelState label).marked = true) := by
      rw [← marks, unmarked]
      exact Bool.false_ne_true
    rw [not_or, Bool.not_eq_true] at before
    exact tracks.jumpsTo_append_of_depth follows ahead before.1 before.2 reached
  marked label := by
    rw [marks, tracks.marked, List.mem_append, List.mem_singleton, or_comm]
    exact or_congr_right ⟨fun defines => (Instruction.eq_label defines).symm,
      fun equal => equal ▸ rfl⟩
  once _ _ _ first second := tracks.label_unique_append follows first second
  bounded _ _ arrives := tracks.le_maxDepth_append follows ahead arrives
  attained := tracks.maxDepth_attained_append follows

end step

theorem start : ({} : Recorder).Tracks [] where
  enough place depth instruction _ found := by simp at found
  unique place depth other first second := by
    rw [Arrives.nil first, Arrives.nil second]
  height depth := by
    constructor
    · intro arrives
      rw [Arrives.nil arrives]
      rfl
    · rintro ⟨⟩
      exact .start
  jumps label depth jumps := by
    obtain ⟨place, before, instruction, _, found, _⟩ := jumps
    simp at found
  expected label depth _ reached := by
    rw [labelState_start] at reached
    cases reached
  marked label := by simp [labelState_start]
  once place other label found := by simp at found
  bounded place depth arrives := Int.le_of_eq arrives.nil
  attained := ⟨0, .start⟩

theorem of_same (tracks : recorder.Tracks code) {later : Recorder}
    (height : later.height = recorder.height)
    (labels : ∀ label, later.labelState label = recorder.labelState label)
    (maxDepth : later.maxDepth = recorder.maxDepth) : later.Tracks code where
  enough := tracks.enough
  unique := tracks.unique
  height := by rw [height]; exact tracks.height
  jumps := by simp only [labels]; exact tracks.jumps
  expected := by simp only [labels]; exact tracks.expected
  marked := by simp only [labels]; exact tracks.marked
  once := tracks.once
  bounded := by rw [maxDepth]; exact tracks.bounded
  attained := by rw [maxDepth]; exact tracks.attained

theorem run (tracks : recorder.Tracks recorder.code.toList) {call : Call}
    (orderly : call.Orderly recorder) (quiet : (call.run recorder).finding = none) :
    (call.run recorder).Tracks (call.run recorder).code.toList := by
  cases call with
  | newLabel => exact tracks.of_same rfl (labelState_newLabel recorder) rfl
  | reserve count => exact tracks.of_same rfl (fun _ => rfl) rfl
  | record instruction =>
      have follows := follows_of_orderly orderly quiet
      have appended :=
        tracks.append follows (fun target leads => (orderly.2 target leads).2) ?_
      · rwa [Call.run, code_record, Array.toList_push]
      · intro label
        rw [marked_record follows.unmarked, Bool.or_eq_true, decide_eq_true_eq]
        exact or_congr_left (and_iff_left_of_imp (orderly.1 label))

end Tracks

theorem code_perform (calls : List Call) : (recorder.perform calls).code.toList =
    recorder.code.toList ++ calls.filterMap Call.instruction? := by
  induction calls generalizing recorder with
  | nil => simp [Recorder.perform]
  | cons call rest induction =>
      have further : ((call.run recorder).perform rest).code.toList = _ := induction
      change ((call.run recorder).perform rest).code.toList = _
      cases call with
      | newLabel => exact further
      | reserve count => exact further
      | record instruction =>
          rw [further, Call.run, code_record, Array.toList_push, List.append_assoc]
          rfl

theorem finding_of_run {call : Call} (orderly : call.Orderly recorder)
    (quiet : (call.run recorder).finding = none) : recorder.finding = none := by
  cases call with
  | newLabel => exact quiet
  | reserve count => exact quiet
  | record instruction => exact (follows_of_orderly orderly quiet).finding

theorem finding_of_perform {calls : List Call} (orderly : recorder.Orderly calls)
    (quiet : (recorder.perform calls).finding = none) : recorder.finding = none := by
  induction calls generalizing recorder with
  | nil => exact quiet
  | cons call rest induction => exact finding_of_run orderly.1 (induction orderly.2 quiet)

theorem Tracks.perform (tracks : recorder.Tracks recorder.code.toList) {calls : List Call}
    (orderly : recorder.Orderly calls) (quiet : (recorder.perform calls).finding = none) :
    (recorder.perform calls).Tracks (recorder.perform calls).code.toList := by
  induction calls generalizing recorder with
  | nil => exact tracks
  | cons call rest induction =>
      exact induction (tracks.run orderly.1 (finding_of_perform orderly.2 quiet))
        orderly.2 quiet

/-! ## The verdict -/

theorem marked_of_firstUnmarked {states : List LabelState} {number : Nat}
    (nothing : firstUnmarked number states = none) {state : LabelState}
    (member : state ∈ states) (reached : state.depth.isSome) : state.marked = true := by
  induction states generalizing number with
  | nil => cases member
  | cons head rest induction =>
      rw [firstUnmarked] at nothing
      split at nothing
      · cases nothing
      next fine =>
          rcases List.mem_cons.1 member with rfl | later
          · simpa [reached] using fine
          · exact induction nothing later

theorem marked_of_verdict (fine : recorder.verdict = none) {label : Label} {depth : Int}
    (reached : (recorder.labelState label).depth = some depth) :
    (recorder.labelState label).marked = true := by
  have nothing : firstUnmarked 0 recorder.labels.toList = none := by
    rw [verdict, Option.or_eq_none_iff, Option.map_eq_none_iff] at fine
    exact fine.2
  refine marked_of_firstUnmarked nothing ?_ (by rw [reached]; rfl)
  -- Nothing is known of a label that was not given out.
  unfold labelState at reached ⊢
  split at reached
  · cases reached
  next natural =>
      rw [if_neg natural]
      cases found : recorder.labels[label.number.toNat]? with
      | none =>
          rw [found] at reached
          cases reached
      | some state =>
          rw [Option.getD_some]
          exact Array.mem_toList_iff.2 (Array.mem_of_getElem? found)

/-- What the recorder says is true of all paths through its code. -/
structure Exact (recorder : Recorder) : Prop where
  operands : ∀ place depth instruction, Arrives recorder.code.toList place depth →
    recorder.code.toList[place]? = some instruction → instruction.pops ≤ depth
  depth_unique : ∀ place depth other, Arrives recorder.code.toList place depth →
    Arrives recorder.code.toList place other → depth = other
  lands : ∀ place depth instruction target, Arrives recorder.code.toList place depth →
    recorder.code.toList[place]? = some instruction → instruction.target? = some target →
      ∃! goal : Nat, recorder.code.toList[goal]? = some (.label target)
  le_maxDepth : ∀ place depth, Arrives recorder.code.toList place depth → depth ≤
    recorder.maxDepth
  maxDepth_attained : ∃ place, Arrives recorder.code.toList place recorder.maxDepth
  reachable_iff : recorder.reachable = true ↔
    ∃ depth, Arrives recorder.code.toList recorder.code.size depth
  depth_at_end : ∀ depth, Arrives recorder.code.toList recorder.code.size depth →
    depth = recorder.depth

/-- The code is the instructions that were recorded. If nothing is wrong with it and the
calls were orderly, then what the recorder says is true of all its paths. -/
theorem exact_of_verdict (calls : List Call) (orderly : ({} : Recorder).Orderly calls)
    (fine : (({} : Recorder).perform calls).verdict = none) :
    (({} : Recorder).perform calls).code.toList = calls.filterMap Call.instruction? ∧
      (({} : Recorder).perform calls).Exact := by
  refine ⟨code_perform calls, ?_⟩
  have quiet : (({} : Recorder).perform calls).finding = none :=
    (Option.or_eq_none_iff.1 fine).1
  have tracks := Tracks.start.perform orderly quiet
  generalize ({} : Recorder).perform calls = recorder at fine tracks
  refine ⟨tracks.enough, tracks.unique, ?_, tracks.bounded, tracks.attained, ?_, ?_⟩
  · intro place depth instruction target arrives found leads
    have reached :=
      tracks.jumps target _ ⟨place, depth, instruction, arrives, found, leads, rfl⟩
    have defined := (tracks.marked target).1 (marked_of_verdict fine reached)
    obtain ⟨goal, lands⟩ := List.getElem?_of_mem defined
    exact ⟨goal, lands, fun other again => tracks.once other goal target again lands⟩
  · simp only [← Array.length_toList, tracks.height]
    rw [Recorder.height]
    cases recorder.reachable <;> simp
  · intro depth arrives
    rw [← Array.length_toList, tracks.height, Recorder.height] at arrives
    split at arrives
    · exact (Option.some.inj arrives).symm
    · cases arrives

/-- One value or another is put on the stack, with code in between that no path reaches,
and taken off again. -/
def choosing : List Call :=
  [.newLabel, .newLabel, .newLabel, .record (.constant .unit),
    .record (.branch .null ⟨0⟩), .record (.constant .unit), .record (.jump ⟨1⟩),
    .record .swap, .record (.branch .holds ⟨2⟩),
    .record (.label ⟨0⟩), .record (.constant .unit), .record (.label ⟨1⟩), .record .pop]

theorem choosing_exact : ({} : Recorder).Orderly choosing ∧
    (({} : Recorder).perform choosing).verdict = none ∧
      (({} : Recorder).perform choosing).code.toList =
        choosing.filterMap Call.instruction? ∧
        (({} : Recorder).perform choosing).Exact :=
  ⟨by decide, by decide, exact_of_verdict choosing (by decide) (by decide)⟩

end Recorder

end Casework
