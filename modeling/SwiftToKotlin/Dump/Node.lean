import SwiftToKotlin.SourceRange
import SwiftToKotlin.Tree
import SwiftToKotlin.Text.LetterCase
import SwiftToKotlin.Text.Cut

/-! # Nodes of a dump

A node is a kind with ordered attributes and children, as they stand in the dump. Keys may repeat;
a look-up finds the first.
-/

namespace SwiftToKotlin.Dump

structure Node where
  kind : String
  attributes : List (String × String)
  children : List Node
  range : Option SourceRange

namespace Node

def ofKind (kind : String) : Node :=
  ⟨kind, [], [], none⟩

def attr (node : Node) (key : String) : Option String :=
  node.attributes.lookup key

def has (node : Node) (key : String) : Bool :=
  node.attributes.any (·.1 == key)

theorem has_eq_isSome_attr (node : Node) (key : String) :
    node.has key = (node.attr key).isSome := by
  obtain ⟨kind, attributes, children, range⟩ := node
  simp only [has, attr]
  induction attributes with
  | nil => rfl
  | cons entry rest ih =>
    obtain ⟨k, v⟩ := entry
    by_cases h : key = k
    · simp [h]
    · have h' : (k == key) = false := by simpa using fun e => h e.symm
      have h'' : (key == k) = false := by simpa using h
      simp [List.lookup_cons, h', h'', ih]

mutual

/-- The number of nodes on the longest way down. -/
def height : Node → Nat
  | ⟨_, _, children, _⟩ => heights children + 1

def heights : List Node → Nat
  | [] => 0
  | node :: rest => max node.height (heights rest)

end

mutual

def outline : Node → Tree
  | ⟨kind, attributes, children, range⟩ =>
    ⟨kind,
      attributes.map (fun (key, value) =>
        some (if value.isEmpty then .leaf key else .field key value))
      ++ [range.map (fun range => .field "range" range.display)]
      ++ outlines children⟩

def outlines : List Node → List (Option Tree)
  | [] => []
  | node :: rest => some node.outline :: outlines rest

end

/-! ## Readable kinds -/

/-- What a word of a kind abbreviates. -/
def spellOut (word : String) : String :=
  match word with
  | "Decl" => "Declaration"
  | "Declref" => "Declaration Reference"
  | "Expr" => "Expression"
  | "Func" => "Function"
  | "Ident" => "Identity"
  | "Paren" => "Parentheses"
  | "Ref" => "Reference"
  | "Stmt" => "Statement"
  | "Var" => "Variable"
  | word => word

/-- The kind in words: `func_decl` is a `Function Declaration`. -/
def readableKind (kind : String) : String :=
  " ".intercalate
    ((Text.pieces '_' kind.toList).map (fun word => spellOut (String.ofList (Text.capitalize word))))

mutual

/-- The tree with every kind in words. -/
def readable : Node → Node
  | ⟨kind, attributes, children, range⟩ =>
    ⟨readableKind kind, attributes, readables children, range⟩

def readables : List Node → List Node
  | [] => []
  | node :: rest => node.readable :: readables rest

end

end Node

end SwiftToKotlin.Dump
