import SwiftToKotlin.Lowering.Naming
import SwiftToKotlin.Swift.Ty

/-! # Local names

The locals that are in scope, block by block with the innermost block first. A local knows its type
where that can be told, and the name under which it is written where that is not its own.
-/

namespace SwiftToKotlin.Lowering

open Swift (Ty)

/-- The pairs without the key. -/
def dropKey {α : Type} (key : String) (pairs : List (String × α)) : List (String × α) :=
  pairs.filter (·.1 != key)

/-- The pairs with the key bound to the value. -/
def putKey {α : Type} (key : String) (value : α) (pairs : List (String × α)) :
    List (String × α) :=
  (key, value) :: dropKey key pairs

/-- The locals of one block. -/
structure Block where
  types : List (String × Option Ty)
  renames : List (String × String)

namespace Block

def empty : Block :=
  ⟨[], []⟩

def declares (block : Block) (name : String) : Bool :=
  block.types.any (·.1 == name)

def declare (name : String) (ty : Option Ty) (block : Block) : Block :=
  ⟨putKey name ty block.types, dropKey name block.renames⟩

/-- Declares a local that is written under another name. -/
def declareAs (name renamed : String) (ty : Option Ty) (block : Block) : Block :=
  ⟨putKey name ty block.types, putKey name renamed block.renames⟩

/-- The names that a new one must differ from. -/
def taken (block : Block) : List String :=
  block.types.map Prod.fst ++ block.renames.map Prod.snd

end Block

/-- The open blocks, innermost first. -/
abbrev Locals := List Block

namespace Locals

/-- The type of the nearest local of the name. -/
def typeOf? (locals : Locals) (name : String) : Option Ty :=
  (locals.findSome? fun block => block.types.lookup name).join

/-- The name under which the nearest local of the name is written, if it is not its own. -/
def renameOf? (name : String) : Locals → Option String
  | [] => none
  | block :: outer =>
    match block.renames.lookup name with
    | some renamed => some renamed
    | none => if block.declares name then none else renameOf? name outer

/-- The name that references to a local are written under, before it is made an identifier. -/
def written (locals : Locals) (name : String) : String :=
  (renameOf? name locals).getD name

/-- Declares a local in the innermost block. -/
def declare (name : String) (ty : Option Ty) : Locals → Locals
  | [] => []
  | block :: outer => block.declare name ty :: outer

/-- Gives a local another type from here on, in the innermost block, under the name it has. -/
def narrow (name : String) (ty : Option Ty) (locals : Locals) : Locals :=
  match locals, renameOf? name locals with
  | block :: outer, some renamed => block.declareAs name renamed ty :: outer
  | locals, _ => declare name ty locals

/-! ## Fresh names -/

/-- The first of `name2`, `name3`, … from the suffix on that is not taken. -/
def freshFrom (taken : List String) (name : String) : Nat → Nat → String
  | 0, suffix => s!"{name}{suffix}"
  | tries + 1, suffix =>
    if s!"{name}{suffix}" ∈ taken then freshFrom taken name tries (suffix + 1)
    else s!"{name}{suffix}"

/-- A name for a second local of the name. Of one more candidate than there are names taken, one is
free. -/
def fresh (locals : Locals) (name : String) : String :=
  let taken := locals.flatMap Block.taken
  freshFrom taken name taken.length 2

/-- Declares a local that is still in scope after the statement that binds it. If the block has a
local of the name already, the new one gets another name. The second component is the name that it
is written under. -/
def declareFresh (name : String) (ty : Option Ty) (locals : Locals) : Locals × String :=
  match locals with
  | [] => ([], name)
  | block :: outer =>
    if block.declares name then
      let renamed := fresh locals name
      (block.declareAs name renamed ty :: outer, renamed)
    else (block.declare name ty :: outer, name)

end Locals

end SwiftToKotlin.Lowering
