import SwiftToKotlin.Main
import SwiftToKotlin.Proofs.Lowering.Breaks
import SwiftToKotlin.Proofs.Lowering.StoredProperties
import SwiftToKotlin.Proofs.Swift.Attributes
import SwiftToKotlin.Proofs.Lowering.ClosureScope
import SwiftToKotlin.Proofs.Swift.RoundTrip
import SwiftToKotlin.Proofs.Swift.Numerals
import SwiftToKotlin.Proofs.Lowering.Categories
import SwiftToKotlin.Proofs.Lowering.ArgumentBinding
import SwiftToKotlin.Proofs.RangeOrigins
import SwiftToKotlin.Proofs.Lowering.TypeNames
import SwiftToKotlin.Proofs.Workspace.ExitCode
import SwiftToKotlin.Proofs.Lowering.DeclaredNames
import SwiftToKotlin.Proofs.Kotlin.TrailingLambdas
import SwiftToKotlin.Proofs.Lowering.ClosureReturns
import SwiftToKotlin.Proofs.Lowering.TrappedJumps
import SwiftToKotlin.Proofs.Lowering.CompoundAssignments
import SwiftToKotlin.Proofs.Lowering.RawValues
import SwiftToKotlin.Proofs.Kotlin.Templates
import SwiftToKotlin.Proofs.Kotlin.CastTypes
import SwiftToKotlin.Proofs.Lowering.RawValueLookups
import SwiftToKotlin.Proofs.Kotlin.Enclosure
import SwiftToKotlin.Proofs.Lowering.LabelMatching
import SwiftToKotlin.Proofs.Lowering.KeptValues
import SwiftToKotlin.Proofs.Lowering.DeclarationOrder
import SwiftToKotlin.Proofs.Dump.Places
import SwiftToKotlin.Proofs.Tree.Outline
import SwiftToKotlin.Proofs.Lowering.AliasChains
import SwiftToKotlin.Proofs.Workspace.Failures
import SwiftToKotlin.Proofs.Workspace.Layers
import SwiftToKotlin.Proofs.Kotlin.Indentation
import SwiftToKotlin.Proofs.Lowering.NameAnswers
import SwiftToKotlin.Proofs.Lowering.TypeMapping
import SwiftToKotlin.Proofs.Lowering.FreshNames
import SwiftToKotlin.Proofs.Swift.TyProgress
import SwiftToKotlin.Proofs.Workspace.Extensions
