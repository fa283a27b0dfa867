import SwiftToKotlin.Proofs.Kotlin.Layout
import SwiftToKotlin.Proofs.Kotlin.Relocation

/-!
# Types of casts before a comparison

Behind the name of a type `<` opens type arguments, so the type of a cast should not stand before
this operator. Parentheses follow how tightly operators bind, and casts bind tighter than
comparisons. So the type of a cast stands before `<` exactly if the left operand of this operator
ends in a cast and is written without parentheses.
-/

namespace SwiftToKotlin.Kotlin

/-! ## Ends of fragments -/

namespace Fragment

/-- The text stands last in each text of the fragment. -/
def EndsIn (fragment : Fragment) (ending : String) : Prop :=
  ∀ text, fragment.LaidOut text → ending.toList <:+ text

theorem endsIn_empty (fragment : Fragment) : fragment.EndsIn "" :=
  fun _ _ => List.nil_suffix

theorem endsIn_ofString (text : String) : (ofString text).EndsIn text := by
  intro laid hlaid
  exact hlaid.eq_of_ofString ▸ List.suffix_rfl

theorem EndsIn.behind (first : Fragment) (h : next.EndsIn ending) :
    (first ++ next).EndsIn ending := by
  intro text htext
  obtain ⟨front, tail, rfl, -, htail⟩ := htext.split
  exact (h tail htail).trans (List.suffix_append front tail)

theorem EndsIn.append_empty (h : first.EndsIn ending) : (first ++ ofString "").EndsIn ending := by
  intro text htext
  obtain ⟨front, rfl, hfront⟩ := htext.of_append_ofString
  rw [String.toList_empty, List.append_nil]
  exact h front hfront

theorem endsIn_append (front text : String) : (ofString (front ++ text)).EndsIn text := by
  intro laid hlaid
  exact ⟨front.toList, by rw [hlaid.eq_of_ofString, String.toList_append]⟩

/-- A text on a line of its own. -/
theorem endsIn_line (level : Nat) (text : String) : EndsIn ⟨"", [.code level text]⟩ text := by
  rintro _ ⟨below, hbelow, rfl⟩
  cases hbelow with
  | cons blanks hnil =>
    cases hnil
    exact ⟨'\n' :: List.replicate blanks ' ', by simp [Line.text]⟩

end Fragment

/-! ## What stands last -/

/-- What stands last in the text of an expression: the type of a cast, or a sign, a name or a
literal of the expression's own. -/
inductive Ending
  | castType (ty : Ty)
  | own (text : String)

def Ending.text : Ending → String
  | castType ty => ty.display
  | own text => text

/-- In parentheses it is the closing one that stands last. -/
def Ending.inside (parenthesized : Bool) (ending : Ending) : Ending :=
  if parenthesized then own ")" else ending

/-- An operand is put in parentheses if it binds less tightly than the operator, in a strict place
also if it binds as tightly. -/
def Node.isParenthesized (parent : Nat) (strict : Bool) (node : Node) : Bool :=
  node.construct.precedence < parent || (node.construct.precedence == parent && strict)

def Node.isParenthesizedUnary (node : Node) : Bool :=
  node.construct.precedence < Precedence.unary || node.construct.isSigned

/-- What stands last in a construct, from what stands last in its parts. A statement that ends in no
value has no ending to speak of. -/
def Construct.ending : Construct (Node × Ending) → Ending
  | cast _ _ ty => .castType ty
  | binary op _ rhs => rhs.2.inside (rhs.1.isParenthesized op.precedence true)
  | unary _ operand => operand.2.inside operand.1.isParenthesizedUnary
  | ifExpr _ _ value | assign _ _ value | throwStmt value | returnStmt (some value) => value.2
  | call _ _ (some trailing) => trailing.2
  | call _ _ none | comment _ => .own ")"
  | literal value => .own value.source
  | reference name | member _ name _ => .own name
  | template _ => .own "\""
  | notNullAssert _ => .own "!!"
  | index _ _ => .own "]"
  | lambda _ _ => .own "\x7d"
  | property decl =>
    match decl.init, decl.getter, decl.setter with
    | some value, none, none => value.2
    | _, _, _ => .own ""
  | _ => .own ""

def Node.ending (node : Node) : Ending :=
  node.para fun construct _ => construct.ending

theorem Node.ending_mk (construct range) :
    ending ⟨construct, range⟩ = (construct.map fun part => (part, part.ending)).ending :=
  para_mk _ construct range

namespace Written

open Fragment

variable {ending : Ending}

theorem endsIn_wrapped (wrapped : Bool) (h : node.written.value.EndsIn ending.text) :
    (if wrapped then parenthesized (node, node.written) else asValue (node, node.written)).EndsIn
      (ending.inside wrapped).text := by
  cases wrapped with
  | true => exact (endsIn_ofString ")").behind _
  | false => exact h

theorem endsIn_lambda (names body) : (lambda names body).EndsIn "\x7d" := by
  have hline (first : Fragment) : (first ++ ofString " \x7d").EndsIn "\x7d" :=
    (endsIn_append " " "\x7d").behind first
  unfold lambda
  rcases body with _ | ⟨single, _ | ⟨other, rest⟩⟩ <;> dsimp only
  · by_cases hheader : (lambdaHeader names).isEmpty
    · rw [if_pos hheader]
      exact endsIn_append "\x7b" "\x7d"
    · rw [if_neg hheader]
      exact hline _
  · by_cases hsingle : single.1.construct.isExpression && !single.1.containsBlock
    · rw [if_pos hsingle]
      exact hline _
    · rw [if_neg hsingle]
      exact (endsIn_line 0 "\x7d").behind _
  · exact (endsIn_line 0 "\x7d").behind _

theorem endsIn_property (decl : PropertyDef Node)
    (h : ∀ value ∈ decl.init, value.written.value.EndsIn value.ending.text) :
    (property (decl.map fun part => (part, part.written))).EndsIn
      (Construct.property (decl.map fun part => (part, part.ending))).ending.text := by
  obtain ⟨name, binding, ty, receiver, init, getter, setter, modifiers⟩ := decl
  rcases init with _ | value <;> rcases getter with _ | getter <;> rcases setter with _ | setter <;>
    try exact endsIn_empty _
  exact (((h value rfl).behind _).behind _).append_empty.append_empty

theorem endsIn_arguments (args) (trailing : Option Node)
    (h : ∀ lambda ∈ trailing, lambda.written.value.EndsIn lambda.ending.text) :
    (arguments args (trailing.map fun part => (part, part.written))).EndsIn
      (trailing.elim (.own ")") Node.ending).text := by
  cases trailing with
  | none => cases args <;> exact (endsIn_ofString ")").behind _
  | some lambda => cases args <;> exact (h lambda rfl).behind _

end Written

open Fragment in
/-- Each text of an expression ends as the expression does. -/
theorem Node.endsIn_ending (node : Node) : node.written.value.EndsIn node.ending.text := by
  induction node using Node.induction with
  | step construct range ih =>
    rw [written_mk, ending_mk]
    cases construct with
    | cast kind value ty => exact (endsIn_append s!" {kind.keyword} " ty.display).behind _
    | binary op lhs rhs => exact (Written.endsIn_wrapped _ (ih rhs (by simp))).behind _
    | unary op operand => exact (Written.endsIn_wrapped _ (ih operand (by simp))).behind _
    | ifExpr condition thenValue elseValue => exact (ih elseValue (by simp)).behind _
    | assign op target value => exact (ih value (by simp)).behind _
    | throwStmt value => exact (ih value (by simp)).behind _
    | returnStmt value =>
      cases value with
      | none => exact endsIn_empty _
      | some value => exact (ih value (by simp)).behind _
    | call callee args trailing =>
      have hends := Written.endsIn_arguments
        (args.map (Argument.map fun part => (part, part.written))) trailing fun lambda hlambda =>
          ih lambda (by simp [Option.mem_def.1 hlambda])
      cases trailing with
      | none => exact hends.behind _
      | some lambda => exact hends.behind _
    | comment text => exact endsIn_append s!"TODO({stringLiteral text}" ")"
    | literal value => exact endsIn_ofString _
    | reference name => exact endsIn_ofString _
    | member base name safe => exact (endsIn_ofString _).behind _
    | template parts => exact (endsIn_ofString _).behind _
    | notNullAssert value => exact (endsIn_ofString _).behind _
    | index base position => exact (endsIn_ofString _).behind _
    | lambda names body => exact Written.endsIn_lambda _ _
    | property decl =>
      apply Written.endsIn_property
      intro value hvalue
      exact ih value (by simp [Option.mem_def.1 hvalue])
    | _ => exact endsIn_empty _

/-! ## Before the operator -/

namespace Node

/-- What stands before a binary operator behind the operand. -/
def endingBefore (op : BinaryOp) (lhs : Node) : Ending :=
  lhs.ending.inside (lhs.isParenthesized op.precedence op.isNonAssociative)

/-- The sum of a number and a cast. -/
def sumWithCast : Node :=
  ⟨.binary .add (.reference "n" none) ⟨.cast .safe (.reference "x" none) (.named "Int" []), none⟩,
    none⟩

end Node

end SwiftToKotlin.Kotlin
