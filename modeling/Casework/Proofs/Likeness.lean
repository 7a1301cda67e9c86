import Casework.Compilation

/-!
Compiled expressions that differ only in the order of the variants that their cases have
sealed.

That order is not seen in what is made of such an expression: its type and its code are
the same.
-/

namespace Casework

/-- Two reports that list the same sealed variants, perhaps in different orders, and are
the same otherwise. -/
def CaseReport.Alike (left right : CaseReport) : Prop :=
  ∃ sealed, left.sealed.Perm sealed ∧ right = { left with sealed := sealed }

mutual

/-- Two expressions that are the same, but for the order of the variants that cases have
sealed. -/
inductive Code.Alike : Code → Code → Prop where
  | constant (value : Constant) (type : Ref) : Code.Alike (.constant value type)
    (.constant value type)
  | static (owner name : String) (type : Ref) :
      Code.Alike (.static owner name type) (.static owner name type)
  | name (binding : Binding) : Code.Alike (.name binding) (.name binding)
  | tag {payload other : Code} (name : String)
    (alike : Code.Alike payload other) (type : Ref) :
      Code.Alike (.tag name payload type) (.tag name other type)
  | call {left right otherLeft otherRight : Code} (routine : Routine)
      (leftAlike : Code.Alike left otherLeft)
      (rightAlike : Code.Alike right otherRight) (type : Ref) :
      Code.Alike (.call routine left right type) (.call routine otherLeft otherRight type)
  | list {items others : Codes} (alike : Codes.Alike items others) (type : Ref) :
      Code.Alike (.list items type) (.list others type)
  | select {record other : Code} (alike : Code.Alike record other)
    (field : String) (type : Ref) :
      Code.Alike (.select record field type) (.select other field type)
  | caseOf {report otherReport : CaseReport} {value other : Code} {arms others : Arms}
      (reportAlike : report.Alike otherReport) (valueAlike : Code.Alike value other)
      (armsAlike : Arms.Alike arms others) :
      Code.Alike (.caseOf report value arms) (.caseOf otherReport other others)

inductive Codes.Alike : Codes → Codes → Prop where
  | nil : Codes.Alike .nil .nil
  | cons {head other : Code} {tail others : Codes} (headAlike : Code.Alike head other)
      (tailAlike : Codes.Alike tail others) : Codes.Alike (.cons head tail)
      (.cons other others)

inductive Arms.Alike : Arms → Arms → Prop where
  | nil : Arms.Alike .nil .nil
  | cons {body other : Code} {tail others : Arms} (pattern : Pattern)
    (bodyAlike : Code.Alike body other)
      (tailAlike : Arms.Alike tail others) :
      Arms.Alike (.cons pattern body tail) (.cons pattern other others)
  | rest {tail others : Arms} (pattern : Pattern) (tailAlike : Arms.Alike tail others) :
      Arms.Alike (.rest pattern tail) (.rest pattern others)

end

/-! ## An equivalence -/

namespace CaseReport.Alike

variable {left middle right : CaseReport}

theorem refl (report : CaseReport) : report.Alike report := ⟨report.sealed, .refl _, rfl⟩

theorem symm (alike : left.Alike right) : right.Alike left := by
  obtain ⟨sealed, perm, rfl⟩ := alike
  exact ⟨left.sealed, perm.symm, rfl⟩

theorem trans (first : left.Alike middle) (second : middle.Alike right) :
    left.Alike right := by
  obtain ⟨sealed, perm, rfl⟩ := first
  obtain ⟨resealed, permToo, rfl⟩ := second
  exact ⟨resealed, perm.trans permToo, rfl⟩

end CaseReport.Alike

mutual

theorem Code.Alike.refl : ∀ code : Code, code.Alike code
  | .constant value type => .constant value type
  | .static owner name type => .static owner name type
  | .name binding => .name binding
  | .tag name payload type => .tag name (.refl payload) type
  | .call routine left right type => .call routine (.refl left) (.refl right) type
  | .list items type => .list (.refl items) type
  | .select record field type => .select (.refl record) field type
  | .caseOf report value arms => .caseOf (.refl report) (.refl value) (.refl arms)
termination_by structural code => code

theorem Codes.Alike.refl : ∀ items : Codes, items.Alike items
  | .nil => .nil
  | .cons head tail => .cons (.refl head) (.refl tail)
termination_by structural items => items

theorem Arms.Alike.refl : ∀ arms : Arms, arms.Alike arms
  | .nil => .nil
  | .cons pattern body tail => .cons pattern (.refl body) (.refl tail)
  | .rest pattern tail => .rest pattern (.refl tail)
termination_by structural arms => arms

end

mutual

theorem Code.Alike.symm : ∀ {left right : Code}, left.Alike right → right.Alike left
  | _, _, .constant value type => .constant value type
  | _, _, .static owner name type => .static owner name type
  | _, _, .name binding => .name binding
  | _, _, .tag name alike type => .tag name alike.symm type
  | _, _, .call routine left right type => .call routine left.symm right.symm type
  | _, _, .list alike type => .list alike.symm type
  | _, _, .select alike field type => .select alike.symm field type
  | _, _, .caseOf report value arms => .caseOf report.symm value.symm arms.symm

theorem Codes.Alike.symm : ∀ {left right : Codes}, left.Alike right → right.Alike left
  | _, _, .nil => .nil
  | _, _, .cons head tail => .cons head.symm tail.symm

theorem Arms.Alike.symm : ∀ {left right : Arms}, left.Alike right → right.Alike left
  | _, _, .nil => .nil
  | _, _, .cons pattern body tail => .cons pattern body.symm tail.symm
  | _, _, .rest pattern tail => .rest pattern tail.symm

end

mutual

theorem Code.Alike.trans :
    ∀ {left middle right : Code}, left.Alike middle → middle.Alike right →
    left.Alike right
  | _, _, _, .constant value type, .constant _ _ => .constant value type
  | _, _, _, .static owner name type, .static _ _ _ => .static owner name type
  | _, _, _, .name binding, .name _ => .name binding
  | _, _, _, .tag name first type, .tag _ second _ => .tag name (first.trans second) type
  | _, _, _, .call routine left right type, .call _ leftToo rightToo _ =>
      .call routine (left.trans leftToo) (right.trans rightToo) type
  | _, _, _, .list first type, .list second _ => .list (first.trans second) type
  | _, _, _, .select first field type, .select second _ _ =>
      .select (first.trans second) field type
  | _, _, _, .caseOf report value arms, .caseOf reportToo valueToo armsToo =>
      .caseOf (report.trans reportToo) (value.trans valueToo) (arms.trans armsToo)

theorem Codes.Alike.trans :
    ∀ {left middle right : Codes}, left.Alike middle → middle.Alike right →
    left.Alike right
  | _, _, _, .nil, .nil => .nil
  | _, _, _, .cons head tail, .cons headToo tailToo =>
      .cons (head.trans headToo) (tail.trans tailToo)

theorem Arms.Alike.trans :
    ∀ {left middle right : Arms}, left.Alike middle → middle.Alike right →
    left.Alike right
  | _, _, _, .nil, .nil => .nil
  | _, _, _, .cons pattern body tail, .cons _ bodyToo tailToo =>
      .cons pattern (body.trans bodyToo) (tail.trans tailToo)
  | _, _, _, .rest pattern tail, .rest _ tailToo => .rest pattern (tail.trans tailToo)

end

/-! ## What is made of them -/

theorem Code.Alike.type_eq {left right : Code} (alike : left.Alike right) :
    left.type = right.type := by
  cases alike with
  | caseOf report _ _ =>
      obtain ⟨sealed, _, rfl⟩ := report
      rfl
  | _ => rfl

theorem Codes.Alike.length_eq :
    ∀ {left right : Codes}, left.Alike right → left.length = right.length
  | _, _, .nil => rfl
  | _, _, .cons _ tail => congrArg (· + 1) tail.length_eq

theorem Arms.Alike.patterns_eq :
    ∀ {left right : Arms}, left.Alike right → left.patterns = right.patterns
  | _, _, .nil => rfl
  | _, _, .cons pattern _ tail => congrArg (pattern :: ·) tail.patterns_eq
  | _, _, .rest pattern tail => congrArg (pattern :: ·) tail.patterns_eq

mutual

theorem Code.Alike.emit_eq : ∀ {left right : Code} (bases : List Int), left.Alike right →
    left.emit bases = right.emit bases
  | _, _, _, .constant _ _ => rfl
  | _, _, _, .static _ _ _ => rfl
  | _, _, _, .name _ => rfl
  | _, _, bases, .tag name alike type => by
      rw [Code.emit, Code.emit, alike.emit_eq bases]
  | _, _, bases, .call routine left right type => by
      rw [Code.emit, Code.emit, left.emit_eq bases, right.emit_eq bases]
  | _, _, bases, .list alike type => by
      rw [Code.emit, Code.emit, alike.emit_eq bases, alike.length_eq]
  | _, _, bases, .select alike field type => by
      rw [Code.emit, Code.emit, alike.emit_eq bases]
  | _, _, bases, .caseOf report value arms => by
      obtain ⟨sealed, _, rfl⟩ := report
      rw [Code.emit, Code.emit, value.emit_eq bases]
      simp only [fun base => arms.emit_eq (bases ++ [base])]

theorem Codes.Alike.emit_eq :
    ∀ {left right : Codes} (bases : List Int), left.Alike right →
    left.emit bases = right.emit bases
  | _, _, _, .nil => rfl
  | _, _, bases, .cons head tail => by
      rw [Codes.emit, Codes.emit, head.emit_eq bases, tail.emit_eq bases]

theorem Arms.Alike.emit_eq : ∀ {left right : Arms} (bases : List Int), left.Alike right →
    left.emit bases = right.emit bases
  | _, _, _, .nil => rfl
  | _, _, bases, .cons pattern body tail => by
      funext finish prepared
      rw [Arms.emit, Arms.emit, body.emit_eq bases, tail.emit_eq bases]
  | _, _, bases, .rest pattern tail => by
      funext finish prepared
      rw [Arms.emit, Arms.emit, tail.emit_eq bases]

end

theorem Code.Alike.generate_eq {left right : Code}
    (alike : left.Alike right) (slots : Int) :
    left.generate slots = right.generate slots := by
  unfold Code.generate Code.program
  rw [alike.emit_eq []]

end Casework
