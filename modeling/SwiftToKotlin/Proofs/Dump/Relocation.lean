import SwiftToKotlin.Dump.Parser

/-!
# Dumps with other ranges

A relocation gives every node of a tree another range and leaves the rest as it is. The one that
takes all ranges away tells when two trees differ in nothing else. The name of the file that is
dumped only ends up in ranges, so the parser gives trees of this kind for any two names, and fails
for both in the same way.
-/

namespace SwiftToKotlin

/-- A change of ranges. -/
abbrev Relocation :=
  Option SourceRange → Option SourceRange

/-- Every range is taken away. -/
def nowhere : Relocation :=
  fun _ => none

/-- Two outcomes that agree after a map are failures of one kind or results that agree. -/
theorem error_or_ok_of_map_eq {α β γ ε : Type} {f : α → γ} {g : β → γ} {first : Except ε α}
    {second : Except ε β} (h : first.map f = second.map g) :
    (∃ fault, first = .error fault ∧ second = .error fault) ∨
      ∃ x y, first = .ok x ∧ second = .ok y ∧ f x = g y := by
  rcases first with fault | x <;> rcases second with fault' | y
  · cases h
    exact .inl ⟨fault, rfl, rfl⟩
  · cases h
  · cases h
  · exact .inr ⟨x, y, rfl, rfl, Except.ok.inj h⟩

namespace Dump

namespace Node

mutual

/-- The tree with other ranges. -/
def relocate (move : Relocation) : Node → Node
  | ⟨kind, attributes, children, range⟩ => ⟨kind, attributes, relocateAll move children, move range⟩

def relocateAll (move : Relocation) : List Node → List Node
  | [] => []
  | node :: rest => relocate move node :: relocateAll move rest

end

theorem height_eq (node : Node) : node.height = heights node.children + 1 := by
  cases node
  rw [height]

variable (move : Relocation)

theorem relocateAll_eq_map (nodes) : relocateAll move nodes = nodes.map (relocate move) := by
  induction nodes with
  | nil => rw [relocateAll, List.map_nil]
  | cons node rest ih => rw [relocateAll, ih, List.map_cons]

theorem relocate_mk (kind : String) (attributes children range) :
    relocate move ⟨kind, attributes, children, range⟩ =
      ⟨kind, attributes, children.map (relocate move), move range⟩ := by
  rw [relocate, relocateAll_eq_map]

/-! ## What a relocation keeps -/

variable (node : Node)

@[simp] theorem kind_relocate : (node.relocate move).kind = node.kind := by
  cases node
  rw [relocate]

@[simp] theorem attributes_relocate : (node.relocate move).attributes = node.attributes := by
  cases node
  rw [relocate]

@[simp] theorem children_relocate :
    (node.relocate move).children = node.children.map (relocate move) := by
  cases node
  rw [relocate_mk]

@[simp] theorem range_relocate : (node.relocate move).range = move node.range := by
  cases node
  rw [relocate]

@[simp] theorem attr_relocate (key : String) : (node.relocate move).attr key = node.attr key := by
  rw [attr, attributes_relocate]
  rfl

mutual

theorem relocate_nowhere_relocate :
    ∀ node : Node, (node.relocate move).relocate nowhere = node.relocate nowhere
  | ⟨kind, attributes, children, range⟩ => by
    rw [relocate, relocate, relocate, relocateAll_nowhere_relocateAll children]
    rfl

theorem relocateAll_nowhere_relocateAll :
    ∀ nodes : List Node,
      relocateAll nowhere (relocateAll move nodes) = relocateAll nowhere nodes
  | [] => by rw [relocateAll]
  | node :: rest => by
    rw [relocateAll, relocateAll, relocateAll, relocate_nowhere_relocate node,
      relocateAll_nowhere_relocateAll rest]

end

end Node

/-! ## The name of the file -/

namespace Parser

/-- An open node without ranges. -/
def Frame.unlocated (frame : Frame) : Frame :=
  { frame with children := frame.children.map (Node.relocate nowhere), range := none }

/-- What is expected next, without ranges. -/
def Expectation.unlocated : Expectation → Expectation
  | root => root
  | kind opening outer => kind opening (outer.map Frame.unlocated)
  | item frame outer => item frame.unlocated (outer.map Frame.unlocated)
  | flagOrEquals name frame outer => flagOrEquals name frame.unlocated (outer.map Frame.unlocated)
  | value name equals frame outer => value name equals frame.unlocated (outer.map Frame.unlocated)
  | done node => done (node.relocate nowhere)

@[simp] theorem Frame.unlocated_unlocated (frame : Frame) :
    frame.unlocated.unlocated = frame.unlocated := by
  simp [unlocated, Node.relocate_nowhere_relocate]

@[simp] theorem Frame.relocate_close (frame : Frame) :
    frame.close.relocate nowhere = frame.unlocated.close := by
  rw [close, Node.relocate_mk, List.map_reverse]
  rfl

@[simp] theorem Frame.unlocated_setRange (frame : Frame) (range) :
    (frame.setRange range).unlocated = frame.unlocated := by
  rfl

@[simp] theorem Frame.unlocated_addAttribute (frame : Frame) (name value : String) :
    (frame.addAttribute name value).unlocated = frame.unlocated.addAttribute name value := by
  rfl

@[simp] theorem Frame.unlocated_addChild (frame : Frame) (child : Node) :
    (frame.addChild child).unlocated = frame.unlocated.addChild (child.relocate nowhere) := by
  rfl

/-- The name of the file does not decide whether a range can be read. -/
theorem isSome_readRange (file other text : String) :
    (readRange file text).isSome = (readRange other text).isSome := by
  unfold readRange
  cases Text.cutLast [' ', '-', ' '] text.toList with
  | none => rfl
  | some ends =>
    simp only [Option.bind_eq_bind, Option.bind_some]
    cases readPlace (Text.trim ends.1) with
    | none => rfl
    | some start =>
      cases readPlace (Text.trim ends.2) with
      | none => rfl
      | some stop => rfl

variable (file other : String)

attribute [local simp] Except.map Expectation.unlocated

theorem acceptRange_unlocated (offset : Nat) (text : String) (frame outer) :
    (acceptRange file offset text frame outer).map Expectation.unlocated =
      (acceptRange other offset text frame.unlocated (outer.map Frame.unlocated)).map
        Expectation.unlocated := by
  have hsame := isSome_readRange file other text
  unfold acceptRange
  cases hfile : readRange file text with
  | none =>
    rw [hfile, Option.isSome_none, eq_comm, Option.isSome_eq_false_iff,
      Option.isNone_iff_eq_none] at hsame
    rw [hsame]
  | some range =>
    rw [hfile, Option.isSome_some] at hsame
    obtain ⟨range', hother⟩ := Option.isSome_iff_exists.1 hsame.symm
    rw [hother]
    simp

theorem acceptItem_unlocated (frame outer) (lexeme : Lexeme) :
    (acceptItem file frame outer lexeme).map Expectation.unlocated =
      (acceptItem other frame.unlocated (outer.map Frame.unlocated) lexeme).map
        Expectation.unlocated := by
  unfold acceptItem
  cases lexeme.token with
  | bracketed text => exact acceptRange_unlocated file other lexeme.offset text frame outer
  | opening =>
    simp only [List.length_map]
    split
    · rfl
    · simp
  | closing =>
    cases outer with
    | nil => simp [closeNode]
    | cons parent outer => simp [closeNode]
  | word name => simp
  | quoted text => rfl
  | equals => rfl

theorem acceptValue_unlocated (name : String) (frame outer) (lexeme : Lexeme) :
    (acceptValue file name frame outer lexeme).map Expectation.unlocated =
      (acceptValue other name frame.unlocated (outer.map Frame.unlocated) lexeme).map
        Expectation.unlocated := by
  unfold acceptValue
  cases lexeme.token with
  | bracketed text =>
    simp only
    split
    · exact acceptRange_unlocated file other lexeme.offset text frame outer
    · simp
  | quoted value => simp
  | word value => simp
  | closing => rfl
  | opening => rfl
  | equals => rfl

theorem step_unlocated (expectation) (lexeme : Lexeme) :
    (step file expectation lexeme).map Expectation.unlocated =
      (step other expectation.unlocated lexeme).map Expectation.unlocated := by
  cases expectation with
  | root => rfl
  | kind opening outer =>
    simp only [step]
    cases lexeme.token <;> simp
  | item frame outer => exact acceptItem_unlocated file other frame outer lexeme
  | flagOrEquals name frame outer =>
    simp only [step, Expectation.unlocated]
    split
    · simp
    · rw [acceptItem_unlocated file other, Frame.unlocated_addAttribute]
  | value name equals frame outer => exact acceptValue_unlocated file other name frame outer lexeme
  | done node => rfl

/-- Reading the tokens takes the same course for any two file names, from expectations that differ
in ranges only. -/
theorem foldlM_step_unlocated (lexemes : List Lexeme) :
    ∀ (file other : String) (expectation : Expectation),
      (lexemes.foldlM (step file) expectation).map Expectation.unlocated =
        (lexemes.foldlM (step other) expectation.unlocated).map Expectation.unlocated := by
  induction lexemes with
  | nil =>
    intro file other expectation
    cases expectation <;>
      simp [pure, Except.pure, Node.relocate_nowhere_relocate]
  | cons lexeme rest ih =>
    intro file other expectation
    have hstep := step_unlocated file other expectation lexeme
    rw [List.foldlM_cons, List.foldlM_cons]
    rcases error_or_ok_of_map_eq hstep with
      ⟨fault, hfile, hother⟩ | ⟨next, next', hfile, hother, hnext⟩
    · rw [hfile, hother]
      rfl
    · rw [hfile, hother]
      -- both runs go on as the run from the common expectation without ranges does
      have hrest := ih file other next
      rw [hnext, ← ih other other next'] at hrest
      exact hrest

theorem finish_unlocated (size : Nat) (expectation) :
    (finish size expectation).map (Node.relocate nowhere) = finish size expectation.unlocated := by
  cases expectation <;> rfl

end Parser

/-- For any two file names the parser fails in the same way, or gives trees that differ in ranges
only. -/
theorem parse_map_relocate (file other text : String) :
    (parse file text).map (Node.relocate nowhere) =
      (parse other text).map (Node.relocate nowhere) := by
  have hlexemes : ∀ (size : Nat) (lexemes : List Lexeme) (ending : Option (Nat × LexFault)),
      (parseLexemes file size lexemes ending).map (Node.relocate nowhere) =
        (parseLexemes other size lexemes ending).map (Node.relocate nowhere) := by
    intro size lexemes ending
    have hread := Parser.foldlM_step_unlocated lexemes file other .root
    rcases error_or_ok_of_map_eq hread with
      ⟨fault, hfile, hother⟩ | ⟨last, last', hfile, hother, hlast⟩
    · rw [parseLexemes, parseLexemes, hfile, ← hother]
      rfl
    · rw [parseLexemes, parseLexemes, hfile, ← Parser.Expectation.unlocated, hother]
      cases ending with
      | some fault => rfl
      | none =>
        change (Parser.finish size last).map _ = (Parser.finish size last').map _
        rw [Parser.finish_unlocated, Parser.finish_unlocated, hlast]
  unfold parse
  obtain ⟨lexemes, ending⟩ := lex text.toList
  rcases error_or_ok_of_map_eq (hlexemes text.utf8ByteSize lexemes ending) with
    ⟨fault, hfile, hother⟩ | ⟨root, root', hfile, hother, hroot⟩
  · simp only [hfile, hother]
  · simp only [hfile, hother]
    exact congrArg Except.ok hroot

end Dump

end SwiftToKotlin
