import SwiftToKotlin.Swift.TyParser

/-! # Flaws of a dump node

Why a node of a known kind cannot be read as the construct that its kind names.
-/

namespace SwiftToKotlin.Swift

inductive Flaw
  | missingAttribute (key : String)
  | tooFewChildren (least found : Nat)
  | tooManyChildren (most found : Nat)
  | childCount (found : Nat)
  | incomplete (parts : String)
  | expectedKind (kind found : String)
  | expectedExpression (found : String)
  | unexpectedChild (found : String)
  | misplaced (kind : String)
  | invalidType (error : TyError)
  | strayParameter (found : String)
  | severalDefaultValues (parameter : String)
  | severalInitializers
  | unknownAccessor (kind : String)
  | accessorWithoutKind
  | repeatedAccessor
  | accessorBody
  | associatedAndRawValue
  | elseBranch (found : String)
  | severalDefaultCases
  | caseWithoutBody
  | caseWithoutPatterns
  | noCatchClause
  | catchBody
  | bindingWithoutName
  | bindingValue
  | argumentValue
  | unpairedEntries
  | notInteger (text : String)
  | notFloat (text : String)
  | notBoolean (text : String)
  deriving DecidableEq

def Flaw.message : Flaw → String
  | missingAttribute key => s!"missing required attribute `{key}`"
  | tooFewChildren least found => s!"expected at least {least} children, found {found}"
  | tooManyChildren most found => s!"expected at most {most} children, found {found}"
  | childCount found => s!"expected exactly one child, found {found}"
  | incomplete parts => s!"expected {parts}"
  | expectedKind kind found => s!"expected `{kind}`, found `{found}`"
  | expectedExpression found => s!"expected an expression, found `{found}`"
  | unexpectedChild found => s!"unexpected child `{found}`"
  | misplaced kind => s!"`{kind}` is only valid inside its parent construct"
  | invalidType error => error.message
  | strayParameter found => s!"parameter list contains `{found}`"
  | severalDefaultValues parameter => s!"parameter `{parameter}` has more than one default value"
  | severalInitializers => "more than one initializer"
  | unknownAccessor kind => s!"unknown accessor kind `{kind}`"
  | accessorWithoutKind => "accessor without `kind`"
  | repeatedAccessor => "duplicate accessor"
  | accessorBody => "accessor body must be a single `brace_stmt`"
  | associatedAndRawValue => "a case cannot have both associated and raw values"
  | elseBranch found => s!"else branch must be `brace_stmt` or `if_stmt`, found `{found}`"
  | severalDefaultCases => "more than one `default` case"
  | caseWithoutBody => "case without a body"
  | caseWithoutPatterns => "case without patterns"
  | noCatchClause => "expected at least one `catch_stmt`"
  | catchBody => "catch clause must have exactly one body"
  | bindingWithoutName => "optional binding without `name`"
  | bindingValue => "optional binding must bind exactly one value"
  | argumentValue => "argument must wrap exactly one expression"
  | unpairedEntries => "expected alternating keys and values"
  | notInteger text => s!"`{text}` is not an integer"
  | notFloat text => s!"`{text}` is not a floating-point number"
  | notBoolean text => s!"`{text}` is not a boolean"

end SwiftToKotlin.Swift
