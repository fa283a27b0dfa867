import SwiftToKotlin.Dump.Parser
import SwiftToKotlin.Kotlin.Source
import SwiftToKotlin.Lowering.Program
import SwiftToKotlin.Settings
import SwiftToKotlin.Swift.OfDump

/-! # Conversion of a file

Only a dump that cannot be parsed is refused. Any other problem becomes a diagnostic, and a comment
stands for what could not be converted.
-/

namespace SwiftToKotlin

/-- What a file becomes on the way, and what there is to tell about it. -/
structure Conversion where
  swift : Swift.Node
  kotlin : Kotlin.Node
  diagnostics : List Diagnostic

namespace Conversion

def ofDump (settings : Settings) (dump : Dump.Node) : Conversion :=
  let (swift, found) := (Swift.Node.ofDump dump).run []
  let (kotlin, diagnostics) := Lowering.lower settings.droppedImports swift found
  { swift, kotlin, diagnostics }

/-- Converts the text of a dump. Places without a file name are places in `file`. -/
def ofText (settings : Settings) (file text : String) : Except Dump.SyntaxError Conversion :=
  (Dump.parse file text).map (ofDump settings)

/-- The Kotlin source file. -/
def source (settings : Settings) (conversion : Conversion) : String :=
  conversion.kotlin.source settings.indentWidth

def hasErrors (conversion : Conversion) : Bool :=
  Diagnostic.hasErrors conversion.diagnostics

end Conversion

end SwiftToKotlin
