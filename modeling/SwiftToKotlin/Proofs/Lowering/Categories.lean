import SwiftToKotlin.Proofs.Lowering.Refusals
import SwiftToKotlin.Proofs.Swift.Origins

/-!
# Syntactic categories

Reading checks of every part that it is of the category that is expected there, and lowering asks
for a value only where a value stands. So the tree of a dump is well sorted, and no statement or
declaration is ever lowered as a value.
-/

namespace SwiftToKotlin.Conversion

open Swift
open Lowering (Place)

variable (settings : Settings) (dump : Dump.Node)

theorem swift_ofDump : (ofDump settings dump).swift = .ofRaw dump :=
  rfl

/-- What stands at a place is never refused for being a statement there. -/
theorem obstacle?_ne_statementAsValue (place : Place) (construct) (label : String) :
    place.obstacle? construct ≠ some (.statementAsValue label) := by
  unfold Place.obstacle?
  split
  · split <;> simp
  · split <;> simp
  · split <;> simp
  · split <;> simp
  · simp

/-- Nothing is ever refused for being a statement or a declaration that is used as a value. -/
theorem statementAsValue_not_mem_diagnostics (label : String) (range) :
    ⟨.noEquivalent (.statementAsValue label), range⟩ ∉ (ofDump settings dump).diagnostics := by
  intro h
  obtain ⟨height, place, visit, -, -, hobstacle, -⟩ := exists_of_refusal rfl h
  exact obstacle?_ne_statementAsValue place visit.node.construct label hobstacle

/-- Each node of the tree comes from a node of the dump and has the tag that the catalogue gives for
its kind, unless it is a placeholder. Where values are expected there are expressions and
placeholders alone, and after `else` a block, an `if` or a placeholder. Hence whatever is lowered as
a value is one, and nothing is refused for not being one. -/
theorem ofDump_respects_categories :
    (∀ node : Swift.Node, node.Within (ofDump settings dump).swift →
      ∃ raw, dump.Supplies raw ∧ node = .ofRaw raw ∧ Catalogue.Allows raw.kind node.construct.tag) ∧
    (∀ part : Swift.Node, part.StandsIn .value (ofDump settings dump).swift →
      part.construct.tag.isExpression = true ∨ part.construct.tag ∈ [Tag.invalid, .unknown]) ∧
    (∀ node : Swift.Node, node.Within (ofDump settings dump).swift →
      ∀ condition thenBranch branch,
        node.construct = .ifStmt condition thenBranch (some branch) →
          branch.construct.tag ∈ [Tag.block, .ifStmt, .invalid]) ∧
    (∀ height place visit, Reaches settings dump height place visit → visit.role = .value →
      visit.node.construct.tag.isExpression = true ∨
        visit.node.construct.tag ∈ [Tag.invalid, .unknown]) ∧
    ∀ label range,
      ⟨.noEquivalent (.statementAsValue label), range⟩ ∉ (ofDump settings dump).diagnostics := by
  rw [swift_ofDump]
  have hvalue {node : Swift.Node} (h : node.IsValue) : node.construct.tag.isExpression = true ∨
      node.construct.tag ∈ [Tag.invalid, .unknown] :=
    h.imp_right fun hplaceholder => by
      simpa [Tag.isPlaceholder, Tag.placeholders] using hplaceholder
  refine ⟨?_, ?_, ?_, ?_, statementAsValue_not_mem_diagnostics settings dump⟩
  · intro node hnode
    obtain ⟨raw, hraw, rfl⟩ := Swift.Node.originatesIn_of_within hnode
    exact ⟨raw, hraw, rfl, Swift.Node.allows_ofRaw raw⟩
  · intro part hpart
    exact hvalue (Swift.Node.isValue_of_standsIn_ofDump hpart)
  · intro node hnode condition thenBranch branch hc
    exact Swift.Node.tag_of_else (Swift.Node.originatesIn_of_within hnode) hc
  · intro height place visit h hrole
    exact hvalue (h.isValue hrole)

end SwiftToKotlin.Conversion
