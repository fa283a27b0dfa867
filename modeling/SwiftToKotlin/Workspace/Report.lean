import SwiftToKotlin.Conversion
import SwiftToKotlin.Json

/-! # Reports

A conversion as JSON, with fields in alphabetical order.
-/

namespace SwiftToKotlin

def SourceRange.json (range : SourceRange) : Json :=
  .object [
    ("end_column", .number range.endColumn),
    ("end_line", .number range.endLine),
    ("file", .string range.file),
    ("start_column", .number range.startColumn),
    ("start_line", .number range.startLine)]

def Diagnostic.json (diagnostic : Diagnostic) : Json :=
  .object [
    ("kind", .string diagnostic.cause.category),
    ("message", .string diagnostic.message),
    ("range", (diagnostic.range.map SourceRange.json).getD .null),
    ("severity", .string diagnostic.severity.display)]

/-- The source text and all diagnostics of a conversion. -/
def Conversion.report (settings : Settings) (file : String) (conversion : Conversion) : Json :=
  .object [
    ("diagnostics", .array (conversion.diagnostics.map Diagnostic.json)),
    ("errors", .number (Diagnostic.errorCount conversion.diagnostics)),
    ("file", .string file),
    ("kotlin", .string (conversion.source settings)),
    ("warnings", .number (Diagnostic.warningCount conversion.diagnostics))]

end SwiftToKotlin
