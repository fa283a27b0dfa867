import SwiftToKotlin.Proofs.Kotlin.Delimiters
import SwiftToKotlin.Proofs.Kotlin.Relocation

/-!
# Kotlin source is balanced

Every construct is written so that what it opens is closed again, if the same holds of its parts and
its words contain no delimiters. Words are the names and numbers of a tree; the texts of strings,
templates and comments may be anything, since they are escaped or taken apart. So nothing is open at
the end of the source of a tree.
-/

namespace SwiftToKotlin.Kotlin

variable {α β : Type}

/-! ## The words of a tree -/

def typeWords (ty : Option Ty) : List String :=
  (ty.map Ty.words).getD []

def Param.words (param : Param α) : List String :=
  param.name :: param.ty.words

def WhenCondition.words : WhenCondition α → List String
  | value _ => []
  | is ty => ty.words

def CatchBlock.words (handler : CatchBlock α) : List String :=
  handler.name :: handler.ty.words

def Literal.words : Literal → List String
  | int text | double text => [text]
  | bool _ | string _ | null => []

/-- The names and numbers that a construct has of its own. -/
@[simp] def Construct.words : Construct α → List String
  | importModule name => [name]
  | function decl =>
    decl.name :: (typeWords decl.receiver ++ decl.params.flatMap Param.words
      ++ typeWords decl.returnType)
  | property decl => decl.name :: (typeWords decl.receiver ++ typeWords decl.ty)
  | classDef decl =>
    decl.name :: (decl.params.flatMap Param.words ++ decl.supertypes.map Supertype.name
      ++ decl.entries.map EnumEntry.name)
  | secondaryConstructor params _ => params.flatMap Param.words
  | typeAlias name ty => name :: ty.words
  | forStmt binder _ _ => [binder]
  | whenStmt _ branches =>
    branches.flatMap fun branch => branch.conditions.flatMap WhenCondition.words
  | tryCatch _ catches => catches.flatMap CatchBlock.words
  | literal value => value.words
  | reference name => [name]
  | call _ args _ => args.flatMap fun argument => argument.name.toList
  | member _ name _ => [name]
  | lambda params _ => params
  | cast _ _ ty => ty.words
  | file _ | comment _ | companionObject _ | returnStmt _ | ifStmt .. | whileStmt .. | doWhile ..
  | breakStmt | continueStmt | throwStmt _ | assign .. | template _ | binary .. | unary ..
  | notNullAssert _ | index .. | ifExpr .. => []

theorem Construct.words_map (f : α → β) (construct : Construct α) :
    (construct.map f).words = construct.words := by
  have hparam (param : Param α) : (param.map f).words = param.words := rfl
  have hcondition (condition : WhenCondition α) : (condition.map f).words = condition.words := by
    cases condition <;> rfl
  have hcatch (handler : CatchBlock α) : (handler.map f).words = handler.words := rfl
  cases construct <;>
    simp [Construct.map, FunctionDef.map, PropertyDef.map, ClassDef.map, EnumEntry.map,
      WhenBranch.map, Argument.map, List.flatMap_map, hparam, hcondition, hcatch, Function.comp_def]

/-- All names and numbers of a tree. -/
def Node.words (node : Node) : List String :=
  node.para fun construct _ => construct.words ++ construct.parts.flatMap Prod.snd

theorem Node.words_mk (construct range) :
    words ⟨construct, range⟩ = construct.words ++ construct.parts.flatMap words := by
  rw [words, para_mk, Construct.parts_map, Construct.words_map, List.flatMap_map]
  rfl

/-! ## One layer -/

namespace Written

open Scanner (code inText)

/-- Balanced in both places. -/
structure IsBalanced (written : Written) : Prop where
  statement : Balanced written.statement.flat
  value : Balanced written.value.flat

/-- The parts are balanced as they are written. -/
abbrev AllBalanced (parts : List Part) : Prop :=
  ∀ part ∈ parts, part.2.IsBalanced

/-- All words are free of delimiters. -/
abbrev AllFree (words : List String) : Prop :=
  ∀ word ∈ words, FreeOfDelimiters word

@[simp] theorem balanced_value (h : part.2.IsBalanced) : Balanced (asValue part).flat :=
  h.value

@[simp] theorem balanced_statement (h : part.2.IsBalanced) : Balanced (asStatement part).flat :=
  h.statement

attribute [local simp] Balanced.scan_append Balanced.scan Scanner.scan_cons Scanner.step
  Scanner.stepCode Scanner.stepText Leads FreeOfDelimiters.balanced toString

theorem balanced_comma : Balanced ", ".toList :=
  fun _ => rfl

@[simp] theorem balanced_operand (parent : Nat) (strict : Bool) (h : part.2.IsBalanced) :
    Balanced (operand parent strict part).flat := by
  intro stack
  unfold operand parenthesized
  dsimp only
  split <;> simp [h]

@[simp] theorem balanced_unaryOperand (h : part.2.IsBalanced) : Balanced (unaryOperand part).flat := by
  intro stack
  unfold unaryOperand parenthesized
  split <;> simp [h]

theorem balanced_statements (h : AllBalanced body) :
    Balanced (flatLines (stacked (body.map asStatement))) :=
  balanced_stacked (List.forall_mem_map.2 fun part hpart => (h part hpart).statement)

theorem balanced_block (h : AllBalanced body) : Balanced (block body).flat :=
  Fragment.balanced_braced (balanced_statements h)

theorem balanced_itemLines (h : AllBalanced parts) : Balanced (flatLines (itemLines parts)) :=
  balanced_spaced (List.forall_mem_map.2 fun part hpart => (h part hpart).statement)

@[simp] theorem balanced_modifiers (list) : Balanced (modifiers list).toList := by
  have hkeyword (modifier : Modifier) : Balanced modifier.keyword.toList := by
    cases modifier <;> exact fun _ => rfl
  intro stack
  induction list <;> simp_all [modifiers]

@[simp] theorem balanced_receiver (h : AllFree (typeWords ty)) :
    Balanced (receiver ty).toList := by
  intro stack
  cases ty with
  | none => rfl
  | some ty => simp [receiver, ty.balanced_display h]

theorem balanced_ascription (h : AllFree (typeWords ty)) :
    Balanced (ascription ty).toList := by
  intro stack
  cases ty with
  | none => rfl
  | some ty => simp [ascription, ty.balanced_display h]

theorem balanced_param (hwords : AllFree decl.words)
    (h : AllBalanced decl.parts) : Balanced (param decl).flat := by
  intro stack
  obtain ⟨name, ty, defaultValue, binding⟩ := decl
  obtain ⟨hname, hty⟩ := List.forall_mem_cons.1 hwords
  cases defaultValue <;> rcases binding with _ | _ | _ <;>
    simp_all [param, Param.parts, Binding.keyword, ty.balanced_display hty, AllBalanced, -Prod.forall]

theorem balanced_params (hwords : AllFree (list.flatMap Param.words))
    (h : AllBalanced (list.flatMap Param.parts)) : Balanced (params list).flat :=
  Fragment.balanced_separated balanced_comma (List.forall_mem_map.2 fun _ hdecl =>
    balanced_param (fun word hword => hwords word (List.mem_flatMap_of_mem hdecl hword))
      fun part hpart => h part (List.mem_flatMap_of_mem hdecl hpart))

theorem balanced_function
    (hwords : AllFree (Construct.function decl).words) (h : AllBalanced decl.parts) :
    Balanced (function decl).flat := by
  intro stack
  simp only [Construct.words, List.forall_mem_cons, List.forall_mem_append] at hwords
  obtain ⟨hname, ⟨hreceiver, hparams⟩, hresult⟩ := hwords
  obtain ⟨hdefaults, hbody⟩ := List.forall_mem_append.1 h
  unfold function
  split
  · next body hsome =>
    rw [hsome, Option.getD_some] at hbody
    simp [balanced_receiver hreceiver, hname, balanced_params hparams hdefaults,
      balanced_ascription hresult, balanced_block hbody]
  · simp [balanced_receiver hreceiver, hname, balanced_params hparams hdefaults,
      balanced_ascription hresult]

theorem balanced_accessor (hheader : Balanced header.toList) (h : AllBalanced (body.getD [])) :
    Balanced (accessor header body).flat := by
  cases body with
  | none => exact .nil
  | some body =>
    rw [accessor, Fragment.flat_nested]
    exact balanced_lines (.fragment hheader.ofString (balanced_block h))

theorem balanced_property
    (hwords : AllFree (Construct.property decl).words) (h : AllBalanced decl.parts) :
    Balanced (property decl).flat := by
  intro stack
  simp only [Construct.words, List.forall_mem_cons, List.forall_mem_append] at hwords
  obtain ⟨hname, hreceiver, hty⟩ := hwords
  simp only [AllBalanced, PropertyDef.parts, List.forall_mem_append] at h
  obtain ⟨⟨hinit, hgetter⟩, hsetter⟩ := h
  have hbinding : Balanced decl.binding.keyword.toList := by
    cases decl.binding <;> exact fun _ => rfl
  have hget := balanced_accessor (show Balanced "get() ".toList from fun _ => rfl) hgetter
  have hset := balanced_accessor (show Balanced "set(newValue) ".toList from fun _ => rfl) hsetter
  unfold property
  cases hvalue : decl.init with
  | none => simp [hbinding, balanced_receiver hreceiver, hname, balanced_ascription hty, hget, hset]
  | some value =>
    have hvalue := hinit value (by simp [hvalue])
    simp [hbinding, balanced_receiver hreceiver, hname, balanced_ascription hty, hvalue, hget, hset]

theorem balanced_intercalate (h : ∀ text ∈ texts, Balanced text.toList) :
    Balanced (", ".intercalate texts).toList := by
  induction texts with
  | nil => exact .nil
  | cons first rest ih =>
    obtain ⟨hfirst, hrest⟩ := List.forall_mem_cons.1 h
    cases rest with
    | nil => simpa using hfirst
    | cons next more =>
      intro stack
      simp [-String.toList_intercalate, String.intercalate_cons_cons, hfirst, ih hrest]

theorem balanced_supertypes (h : AllFree (list.map Supertype.name)) :
    Balanced (supertypes list).toList := by
  intro stack
  have hnames : Balanced (", ".intercalate (list.map supertype)).toList := by
    refine balanced_intercalate (List.forall_mem_map.2 fun type htype stack => ?_)
    have hname := h type.name (List.mem_map_of_mem htype)
    unfold supertype
    split <;> simp [hname]
  unfold supertypes
  split <;> simp [hnames, -String.toList_intercalate]

theorem balanced_enumEntry (hname : FreeOfDelimiters entry.name)
    (h : AllBalanced entry.args) : Balanced (enumEntry entry).flat := by
  intro stack
  have hvalues : Balanced (Fragment.separated ", " (entry.args.map asValue)).flat :=
    Fragment.balanced_separated balanced_comma
      (List.forall_mem_map.2 fun part hpart => (h part hpart).value)
  unfold enumEntry
  split
  · simp [hname]
  · simp [hname, hvalues]

theorem balanced_enumEntries (hterminator : Balanced terminator.toList)
    (hwords : AllFree (entries.map EnumEntry.name))
    (h : AllBalanced (entries.flatMap EnumEntry.args)) :
    Balanced (flatLines (enumEntries terminator entries)) := by
  fun_induction enumEntries terminator entries with
  | case1 => exact .nil
  | case2 entry =>
    simp only [List.map_cons, List.flatMap_cons, List.forall_mem_cons, AllBalanced,
      List.forall_mem_append] at hwords h
    exact balanced_lines (.fragment (balanced_enumEntry hwords.1 h.1) hterminator.ofString)
  | case3 entry rest _ ih =>
    simp only [List.map_cons, List.flatMap_cons, List.forall_mem_cons, AllBalanced,
      List.forall_mem_append] at hwords h
    rw [flatLines_append]
    have hcomma : Balanced ",".toList := fun _ => rfl
    exact (balanced_lines (.fragment (balanced_enumEntry hwords.1 h.1) hcomma.ofString)).append
      (ih hwords.2 h.2)

theorem balanced_classDef
    (hwords : AllFree (Construct.classDef decl).words) (h : AllBalanced decl.parts) :
    Balanced (classDef decl).flat := by
  intro stack
  simp only [Construct.words, List.forall_mem_cons, List.forall_mem_append] at hwords
  obtain ⟨hname, ⟨hparams, hsupertypes⟩, hentryNames⟩ := hwords
  simp only [AllBalanced, ClassDef.parts, List.forall_mem_append] at h
  obtain ⟨⟨hdefaults, hentries⟩, hmembers⟩ := h
  have hkind : Balanced decl.kind.keyword.toList := by
    cases decl.kind <;> exact fun _ => rfl
  have hbody : Balanced (Fragment.braced (classBody decl)).flat := by
    apply Fragment.balanced_braced
    rw [classBody, flatLines_append, flatLines_append]
    refine ((balanced_enumEntries ?_ hentryNames hentries).append ?_).append
      (balanced_itemLines hmembers) <;> split <;> exact fun _ => rfl
  unfold classDef
  split <;> split <;> simp [hkind, hname, balanced_params hparams hdefaults,
    balanced_supertypes hsupertypes, hbody]

theorem balanced_elseBranch (h : AllBalanced (otherwise.getD [])) :
    Balanced (elseBranch otherwise).flat := by
  intro stack
  unfold elseBranch
  split
  · rfl
  · next single =>
    have hsingle := h single (by simp)
    have hblock : Balanced (block [single]).flat := balanced_block h
    split <;> simp [hsingle, hblock]
  · next body _ =>
    have hblock : Balanced (block body).flat := balanced_block h
    simp [hblock]

theorem balanced_whenBranch (hwords : AllFree (branch.conditions.flatMap WhenCondition.words))
    (h : AllBalanced branch.parts) : Balanced (whenBranch branch).flat := by
  intro stack
  obtain ⟨hconditions, hbody⟩ := List.forall_mem_append.1 h
  have hleft : Balanced (Fragment.separated ", " (branch.conditions.map whenCondition)).flat := by
    refine Fragment.balanced_separated balanced_comma
      (List.forall_mem_map.2 fun condition hcondition => ?_)
    have hwords := fun word hword => hwords word (List.mem_flatMap_of_mem hcondition hword)
    cases condition with
    | value value =>
      exact (hconditions value (List.mem_flatMap_of_mem hcondition List.mem_cons_self)).value
    | is ty => exact .ofString (.text (fun _ => rfl) (ty.balanced_display hwords))
  unfold whenBranch
  split <;> simp [hleft, balanced_block hbody]

theorem balanced_catchBlock (hwords : AllFree handler.words)
    (h : AllBalanced handler.body) : Balanced (catchBlock handler).flat := by
  intro stack
  obtain ⟨hname, hty⟩ := List.forall_mem_cons.1 hwords
  simp [catchBlock, hname, handler.ty.balanced_display hty, balanced_block h]

theorem balanced_arguments (hwords : AllFree (args.flatMap fun item => item.name.toList))
    (h : AllBalanced (args.map Argument.value)) (htrailing : AllBalanced trailingLambda.toList) :
    Balanced (arguments args trailingLambda).flat := by
  intro stack
  have hinside : Balanced (Fragment.separated ", " (args.map argument)).flat := by
    refine Fragment.balanced_separated balanced_comma
      (List.forall_mem_map.2 fun item hitem stack => ?_)
    have hvalue := h item.value (List.mem_map_of_mem hitem)
    unfold argument
    split
    · next name hsome =>
      have hname := hwords name (List.mem_flatMap.2 ⟨item, hitem, by simp [hsome]⟩)
      simp [hname, hvalue]
    · simp [hvalue]
  cases trailingLambda with
  | none => simp [arguments, hinside]
  | some lambda =>
    have hlambda := htrailing lambda (by simp)
    unfold arguments
    split <;> simp_all

theorem balanced_lambda (hwords : AllFree names) (h : AllBalanced body) :
    Balanced (lambda names body).flat := by
  intro stack
  have hheader : Balanced (lambdaHeader names).toList := by
    intro stack
    have hnames := balanced_intercalate fun name hname => (hwords name hname).balanced
    unfold lambdaHeader
    split <;> simp [hnames, -String.toList_intercalate]
  have hlines := balanced_statements h
  have hclose : Fragment.flat ⟨"", [.code 0 "\x7d"]⟩ = ['\n', '\x7d'] := rfl
  unfold lambda
  dsimp only
  generalize stacked (body.map asStatement) = lines at hlines ⊢
  split
  · split <;> simp_all
  · next single =>
    have hsingle := h single (by simp)
    split <;> split <;> simp [hheader, hsingle, Fragment.flat_nested, hlines, hclose]
  · split <;> simp [hheader, Fragment.flat_nested, hlines, hclose]

theorem staysInText_templateExpr (next) (h : part.2.IsBalanced) :
    StaysInText (templateExpr part next).flat := by
  have hbraces : StaysInText (("$\x7b" ++ asValue part ++ "\x7d" : Fragment)).flat := by
    intro stack
    simp [h]
  unfold templateExpr
  dsimp only
  split
  · split
    · next hplain =>
      rw [Bool.and_eq_true] at hplain
      simpa using staysInText_identifier hplain.1
    · exact hbraces
  · exact hbraces

theorem staysInText_templateParts (h : AllBalanced (segments.flatMap TemplatePart.parts)) :
    StaysInText (templateParts segments).flat := by
  induction segments with
  | nil => exact fun _ => rfl
  | cons segment rest ih =>
    simp only [AllBalanced, List.flatMap_cons, List.forall_mem_append] at h
    cases segment with
    | text text =>
      rw [templateParts, Fragment.flat_append, Fragment.flat_ofString]
      exact (staysInText_escaped text).append (ih h.2)
    | expr value =>
      rw [templateParts, Fragment.flat_append]
      exact (staysInText_templateExpr rest (h.1 value (by simp [TemplatePart.parts]))).append
        (ih h.2)

theorem balanced_literal {value : Literal} (h : AllFree value.words) :
    Balanced value.source.toList := by
  cases value with
  | int text | double text => exact (h text (by simp [Literal.words])).balanced
  | bool value => cases value <;> exact fun _ => rfl
  | string text => exact balanced_stringLiteral text
  | null => exact fun _ => rfl

/-- What a construct opens it closes again. -/
theorem balanced_fragment (hwords : AllFree construct.words)
    (h : AllBalanced construct.parts) : Balanced (fragment construct).flat := by
  cases construct with
  | file items =>
    exact Fragment.balanced_concat (List.forall_mem_map.2 fun part hpart => (h part hpart).statement)
  | comment text => exact .ofString (balanced_blockComment text)
  | function decl => exact balanced_function hwords h
  | property decl => exact balanced_property hwords h
  | classDef decl => exact balanced_classDef hwords h
  | secondaryConstructor list body =>
    intro stack
    obtain ⟨hdefaults, hbody⟩ := List.forall_mem_append.1 h
    simp [fragment, balanced_params hwords hdefaults, balanced_block hbody]
  | companionObject members =>
    exact .fragment (fun _ => rfl) (Fragment.balanced_braced (balanced_itemLines h))
  | typeAlias name ty =>
    intro stack
    obtain ⟨hname, hty⟩ := List.forall_mem_cons.1 hwords
    simp [fragment, hname, ty.balanced_display hty]
  | returnStmt value =>
    intro stack
    cases value <;> simp_all [fragment, AllBalanced, -Prod.forall]
  | ifStmt condition thenBranch otherwise =>
    intro stack
    simp only [Construct.parts, AllBalanced, List.forall_mem_append, List.forall_mem_cons] at h
    simp [fragment, h.1.1, balanced_block h.1.2, balanced_elseBranch h.2]
  | whileStmt condition body =>
    intro stack
    obtain ⟨hcondition, hbody⟩ := List.forall_mem_cons.1 h
    simp [fragment, hcondition, balanced_block hbody]
  | doWhile body condition =>
    intro stack
    simp only [Construct.parts, AllBalanced, List.forall_mem_append, List.forall_mem_singleton] at h
    simp [fragment, h.2, balanced_block h.1]
  | forStmt binder iterable body =>
    intro stack
    have hbinder := hwords binder (by simp)
    obtain ⟨hiterable, hbody⟩ := List.forall_mem_cons.1 h
    simp [fragment, hbinder, hiterable, balanced_block hbody]
  | whenStmt subject branches =>
    intro stack
    obtain ⟨hsubject, hbelow⟩ := List.forall_mem_append.1 h
    have hbranches : Balanced (flatLines (stacked (branches.map whenBranch))) := balanced_stacked
      (List.forall_mem_map.2 fun branch hbranch => balanced_whenBranch
        (fun word hword => hwords word (List.mem_flatMap_of_mem hbranch hword))
        fun part hpart => hbelow part (List.mem_flatMap_of_mem hbranch hpart))
    have hbraced := Fragment.balanced_braced hbranches
    cases subject with
    | none => simp [fragment, whenSubject, hbraced]
    | some subject =>
      have hvalue := hsubject subject (by simp)
      simp [fragment, whenSubject, hvalue, hbraced]
  | tryCatch body catches =>
    obtain ⟨hbody, hcatches⟩ := List.forall_mem_append.1 h
    exact .fragment (.fragment (fun _ => rfl) (balanced_block hbody)) (Fragment.balanced_concat
      (List.forall_mem_map.2 fun handler hhandler => balanced_catchBlock
        (fun word hword => hwords word (List.mem_flatMap_of_mem hhandler hword))
        fun part hpart => hcatches part (List.mem_flatMap_of_mem hhandler hpart)))
  | literal value => exact .ofString (balanced_literal hwords)
  | template segments =>
    intro stack
    have hparts : Scanner.scan _ _ = _ := staysInText_templateParts h stack
    simp [fragment, Scanner.scan_append, hparts]
  | call callee args trailingLambda =>
    simp only [Construct.parts, AllBalanced, List.forall_mem_append, List.forall_mem_cons] at h
    exact .fragment (balanced_operand _ _ h.1.1) (balanced_arguments hwords h.1.2 h.2)
  | lambda names body => exact balanced_lambda hwords h
  | cast kind value ty =>
    intro stack
    have hkind : Balanced kind.keyword.toList := by cases kind <;> exact fun _ => rfl
    have hvalue := h value (by simp)
    simp [fragment, hkind, hvalue, ty.balanced_display hwords]
  | assign op target value =>
    have hop : Balanced s!" {op.symbol} ".toList := by cases op <;> exact fun _ => rfl
    exact .fragment (.fragment (h target (by simp)).value hop.ofString) (h value (by simp)).value
  | binary op lhs rhs =>
    have hop : Balanced s!" {op.symbol} ".toList := by cases op <;> exact fun _ => rfl
    exact .fragment (.fragment (balanced_operand _ _ (h lhs (by simp))) hop.ofString)
      (balanced_operand _ _ (h rhs (by simp)))
  | unary op value =>
    intro stack
    have hop : Balanced op.symbol.toList := by cases op <;> exact fun _ => rfl
    simp_all [fragment, AllBalanced, -Prod.forall]
  | member base name safe =>
    intro stack
    cases safe <;> simp_all [fragment, AllFree, AllBalanced, -Prod.forall]
  | _ =>
    intro stack
    simp_all [fragment, AllFree, AllBalanced, -Prod.forall]

theorem isBalanced_ofConstruct (hwords : AllFree construct.words)
    (h : AllBalanced construct.parts) : (ofConstruct construct).IsBalanced := by
  have hfragment := balanced_fragment hwords h
  unfold ofConstruct
  split
  · next text => exact ⟨hfragment, fun stack => by simp [balanced_stringLiteral]⟩
  · exact ⟨hfragment, hfragment⟩

end Written

/-! ## Trees -/

namespace Node

open Written (AllFree AllBalanced)

theorem isBalanced_written {node : Node} (h : AllFree node.words) : node.written.IsBalanced := by
  induction node using Node.induction with
  | step construct range ih =>
    rw [words_mk] at h
    obtain ⟨hown, hbelow⟩ := List.forall_mem_append.1 h
    rw [written_mk]
    apply Written.isBalanced_ofConstruct
    · rwa [Construct.words_map]
    · rw [Construct.parts_map]
      intro part hpart
      obtain ⟨inner, hinner, rfl⟩ := List.mem_map.1 hpart
      exact ih inner hinner fun word hword => hbelow word (List.mem_flatMap_of_mem hinner hword)

theorem balanced_nodeLines {node : Node} (h : AllFree node.words) :
    Balanced (flatLines node.lines) := by
  unfold lines
  split
  · next items hitems =>
    obtain ⟨construct, range⟩ := node
    subst hitems
    rw [words_mk] at h
    apply Written.balanced_itemLines
    intro part hpart
    obtain ⟨item, hitem, rfl⟩ := List.mem_map.1 hpart
    exact isBalanced_written fun word hword =>
      h word (List.mem_append_right _ (List.mem_flatMap_of_mem hitem hword))
  · exact balanced_lines (isBalanced_written h).statement

/-- If no name or number of a tree has a delimiter in it, then nothing is open at the end of its
source and no delimiter is closed by another, however wide the levels are and whatever stands in
strings and comments. -/
theorem source_balanced (width : Nat) (node : Node) (h : AllFree node.words) :
    Scanner.scan {} (node.source width).toList = some {} :=
  scan_renderLines width (balanced_nodeLines h)

/-- A string with a lambda in a template. The comment and the string in the lambda are made up of
delimiters, as is the text around the template. -/
def delimiterString : Node :=
  ⟨.template
    [.text "\"$\x7b( */",
      .expr ⟨.call (.reference "run" none) [⟨some "times", .literal (.int "2") none⟩]
        (some ⟨.lambda ["it"]
          [.comment "*/ \x7d /* ) \"" none,
            ⟨.returnStmt (some (.literal (.string "\\\"]$\x7b") none)), none⟩], none⟩), none⟩,
      .text "\x7d)\\"], none⟩

theorem delimiterString_balanced :
    (∀ word ∈ delimiterString.words, FreeOfDelimiters word) ∧
      Scanner.scan {} (delimiterString.source 4).toList = some {} := by
  have hwords : ∀ word ∈ delimiterString.words, FreeOfDelimiters word := by decide
  exact ⟨hwords, source_balanced 4 delimiterString hwords⟩

end Node

end SwiftToKotlin.Kotlin
