import SwiftToKotlin.Proofs.Swift.Values
import SwiftToKotlin.Proofs.Swift.Writing
import SwiftToKotlin.Proofs.Text.Cutting

/-!
# Reading the node of a construct

The node that a construct is written as is read as the construct, provided that the construct is
admissible: its types can be read, its literals are in the form that reading gives them, and it has
no more than a dump can tell apart. The helping nodes are read back one by one, and the reading for
its tag puts the construct together.
-/

namespace SwiftToKotlin.Swift

variable {α β : Type}

/-! ## Admissible constructs -/

/-- The type can be read from some text. -/
def Ty.IsRead (ty : Ty) : Prop :=
  ∃ text, Ty.parse text = .ok ty

theorem Ty.isRead_iff_readable {ty : Ty} : ty.IsRead ↔ ty.Readable := by
  constructor
  · rintro ⟨text, htext⟩
    exact Ty.readable_of_parse htext
  · intro h
    exact ⟨ty.display, h.parse_display⟩

def Param.Admissible (param : Param α) : Prop :=
  param.label ≠ some "_" ∧ param.ty.IsRead

/-- Reading accepts the literal and leaves it as it is. -/
def Literal.Admissible : Literal → Prop
  | integer text => Text.normalizeInteger text = some text
  | float text => Text.isFloat text = true
  | _ => True

/-- The name can stand in a list with commas. -/
structure IsListedName (name : String) : Prop where
  ne_nil : name.toList ≠ []
  trimmed : Text.trim name.toList = name.toList
  no_comma : ',' ∉ name.toList

/-- What a construct must be like apart from its parts. -/
def Construct.Admissible : Construct α → Prop
  | function decl => (∀ param ∈ decl.params, param.Admissible) ∧ ∀ ty ∈ decl.result, ty.IsRead
  | initializer params _ => ∀ param ∈ params, param.Admissible
  | variableDecl decl => (∀ ty ∈ decl.ty, ty.IsRead) ∧ (decl.accessors.map Accessor.kind).Nodup
  | typeDecl _ decl => ∀ name ∈ decl.inherits, IsListedName name
  | enumCase decl =>
    (∀ param ∈ decl.params, param.Admissible) ∧ (decl.params = [] ∨ decl.rawValue = none)
  | typeAlias _ ty => ty.IsRead
  | switchStmt _ cases => (cases.filter (·.patterns.isEmpty)).length ≤ 1
  | doCatch _ catches => catches ≠ [] ∧ ∀ clause ∈ catches, ∀ ty ∈ clause.ty, ty.IsRead
  | literal value => value.Admissible
  | reference _ type => ∀ ty ∈ type, ty.IsRead
  | call _ arguments => ∀ argument ∈ arguments, argument.label ≠ some "_"
  | implicitMember _ type => ∀ ty ∈ type, ty.IsRead
  | cast _ _ ty => ty.IsRead
  | invalid _ _ => False
  | unknown _ _ => False
  | _ => True

/-- What stands after `else`, if the construct is a condition with an `else`. -/
def Construct.alternative : Construct α → Option α
  | ifStmt _ _ elseBranch => elseBranch
  | _ => none

theorem Construct.alternative_map (f : α → β) (construct : Construct α) :
    (construct.map f).alternative = construct.alternative.map f := by
  cases construct <;> rfl

/-! ## Attributes -/

namespace Writing

@[simp] theorem lookup_flag (name key : String) (isSet : Bool) :
    (flag name isSet).lookup key = if key = name ∧ isSet = true then some "" else none := by
  cases isSet with
  | false => simp [flag]
  | true => simp [flag]

@[simp] theorem lookup_optionalAttr (name key : String) (value) :
    (optionalAttr name value).lookup key = if key = name then value else none := by
  cases value with
  | none => simp [optionalAttr]
  | some value => simp [optionalAttr]

@[simp] theorem lookup_optionalTy (name key : String) (ty) :
    (optionalTy name ty).lookup key = if key = name then ty.map Ty.display else none :=
  lookup_optionalAttr name key (ty.map Ty.display)

@[simp] theorem any_flag (name key : String) (isSet : Bool) :
    (flag name isSet).any (·.1 == key) = (name == key && isSet) := by
  cases isSet <;> simp [flag]

@[simp] theorem any_optionalTy (name key : String) (ty) :
    (optionalTy name ty).any (·.1 == key) = (name == key && ty.isSome) := by
  cases ty <;> simp [optionalTy, optionalAttr]

end Writing

namespace Construct

variable (range : Option SourceRange) (construct : Construct Dump.Node)

@[simp] theorem attr_toDump (key : String) :
    (construct.toDump range).attr key = construct.dumpAttributes.lookup key :=
  rfl

@[simp] theorem has_toDump (key : String) :
    (construct.toDump range).has key = construct.dumpAttributes.any (·.1 == key) :=
  rfl

@[simp] theorem children_toDump : (construct.toDump range).children = construct.dumpChildren :=
  rfl

end Construct

namespace Reading

@[simp] theorem ok_bind (a : α) (f : α → Read β) : (Except.ok a >>= f) = f a :=
  rfl

@[simp] theorem pure_eq_ok (a : α) : (pure a : Read α) = .ok a :=
  rfl

theorem attr_of_eq (h : raw.attr key = some value) : attr raw key = .ok value := by
  rw [attr, h]

theorem ty_display (h : t.IsRead) : ty t.display = .ok t := by
  rw [ty, (Ty.isRead_iff_readable.1 h).parse_display]
  rfl

theorem requiredTy_of_eq (h : t.IsRead) (hattr : raw.attr key = some t.display) :
    requiredTy raw key = .ok t := by
  rw [requiredTy, attr_of_eq hattr]
  exact ty_display h

theorem optionalTy_of_eq (h : ∀ ty ∈ t, ty.IsRead) (hattr : raw.attr key = t.map Ty.display) :
    optionalTy raw key = .ok t := by
  rw [optionalTy, hattr]
  cases t with
  | none => rfl
  | some t =>
    have hread : (some <$> ty t.display : Read (Option Ty)) = .ok (some t) := by
      rw [ty_display (h t rfl)]
      rfl
    exact hread

/-! ## Helping nodes -/

theorem expression_of_isValue (h : IsValue raw) : expression raw = .ok raw := by
  rw [expression, if_pos h]

theorem IsValue.kind_ne (h : IsValue raw) (hkind : maybeExpression kind = false) :
    raw.kind ≠ kind := by
  rintro rfl
  rw [IsValue, hkind] at h
  cases h

theorem braces_braces (items) : braces (Writing.braces items) = .ok items :=
  rfl

/-- What is read back item by item is read back as a list. -/
theorem mapM_map_eq_ok {f : β → Read α} {items : List α}
    (h : ∀ item ∈ items, f (g item) = .ok item) : (items.map g).mapM f = .ok items := by
  induction items with
  | nil => rfl
  | cons item rest ih =>
    have hrest := ih fun other hother => h other (List.mem_cons_of_mem item hother)
    rw [List.map_cons, List.mapM_cons, h item (by simp), hrest]
    rfl

theorem mapM_expression {raws : List Dump.Node} (h : ∀ raw ∈ raws, IsValue raw) :
    raws.mapM expression = .ok raws := by
  have hall : (raws.map id).mapM expression = .ok raws :=
    mapM_map_eq_ok fun raw hraw => expression_of_isValue (h raw hraw)
  rwa [List.map_id] at hall

theorem param_param (h : p.Admissible) (hvalue : ∀ value ∈ p.parts, IsValue value) :
    param (Writing.param p) = .ok p := by
  obtain ⟨label, name, t, defaultValue⟩ := p
  have hlabel : paramLabel (Writing.param ⟨label, name, t, defaultValue⟩) name = label := by
    cases label with
    | none => rfl
    | some label =>
      have hattr : (Writing.param ⟨some label, name, t, defaultValue⟩).attr "label" = some label :=
        rfl
      have hne : label ≠ "_" := fun heq => h.1 (congrArg some heq)
      rw [paramLabel, hattr]
      split
      · next heq => exact absurd (Option.some.inj heq) hne
      · next heq => exact heq.symm
      · next heq => cases heq
  have hty : requiredTy (Writing.param ⟨label, name, t, defaultValue⟩) "type" = .ok t :=
    requiredTy_of_eq h.2 rfl
  have hname : attr (Writing.param ⟨label, name, t, defaultValue⟩) "name" = .ok name := rfl
  simp only [param, hname, hty, hlabel, ok_bind]
  cases defaultValue with
  | none => rfl
  | some value =>
    have hexpr := expression_of_isValue (hvalue value (by simp [Param.parts]))
    simp [Writing.param, hexpr]

theorem optionalBody_optionalBraces (body) :
    optionalBody (Writing.optionalBraces body) = .ok body := by
  cases body <;> rfl

theorem signature_eq_ok (body) (h : ∀ p ∈ ps, param (Writing.param p) = .ok p) :
    signature (Writing.paramList (ps.map Writing.param) ++ Writing.optionalBraces body) =
      .ok (ps, body) := by
  cases ps with
  | nil => cases body <;> rfl
  | cons p rest =>
    have hparams := mapM_map_eq_ok h
    have hbody := optionalBody_optionalBraces body
    simp only [Writing.paramList, List.map_cons, List.isEmpty_cons, Bool.false_eq_true, if_false,
      List.singleton_append, signature, hbody]
    rw [← List.map_cons, params, hparams]
    rfl

theorem accessor_accessor (a) :
    accessorKind (Writing.accessor a) = .ok a.kind ∧
      accessorBody (Writing.accessor a) = .ok a.body := by
  obtain ⟨kind, body⟩ := a
  cases kind <;> cases body <;> exact ⟨rfl, rfl⟩

theorem accessors_eq_ok (hnew : ∀ a ∈ list, a.kind ∉ seen) (h : (list.map Accessor.kind).Nodup) :
    accessors seen (list.map Writing.accessor) = .ok list := by
  induction list generalizing seen with
  | nil => rfl
  | cons a rest ih =>
    rw [List.map_cons, List.nodup_cons] at h
    have hrest : accessors (a.kind :: seen) (rest.map Writing.accessor) = .ok rest := by
      refine ih (fun other hother hmem => ?_) h.2
      rcases List.mem_cons.1 hmem with heq | hmem
      · exact h.1 (heq ▸ List.mem_map_of_mem hother)
      · exact hnew other (by simp [hother]) hmem
    obtain ⟨hkind, hbody⟩ := accessor_accessor a
    have hseen : a.kind ∉ seen := hnew a (by simp)
    simp [accessors, hkind, hbody, hrest, hseen]

theorem partition_accessors {init : Option Dump.Node} (list : List (Accessor Dump.Node))
    (h : ∀ value ∈ init, IsValue value) :
    (init.toList ++ list.map Writing.accessor).partition (·.kind == "accessor_decl") =
      (list.map Writing.accessor, init.toList) := by
  have hinit : ∀ value ∈ init.toList, (value.kind == "accessor_decl") = false := by
    intro value hvalue
    rw [Option.mem_toList] at hvalue
    exact beq_eq_false_iff_ne.2 ((h value hvalue).kind_ne rfl)
  have haccessors : ∀ raw ∈ list.map Writing.accessor, (raw.kind == "accessor_decl") = true := by
    intro raw hraw
    obtain ⟨a, -, rfl⟩ := List.mem_map.1 hraw
    rfl
  rw [List.partition_eq_filter_filter, List.filter_append, List.filter_append,
    List.filter_eq_nil_iff.2 (by simpa using hinit), List.filter_eq_self.2 haccessors,
    List.filter_eq_self.2 (by simpa using hinit),
    List.filter_eq_nil_iff.2 (by simpa using haccessors), List.nil_append, List.append_nil]

theorem initialValue_toList (h : ∀ value ∈ init, IsValue value) :
    initialValue init.toList = .ok init := by
  cases init with
  | none => rfl
  | some value =>
    have hexpr := expression_of_isValue (h value rfl)
    simp [initialValue, hexpr, Functor.map, Except.map]

theorem condition_condition (h : ∀ value ∈ test.parts, IsValue value) :
    condition (Writing.condition test) = .ok test := by
  cases test with
  | expr value =>
    have hvalue : IsValue value := h value (by simp [Condition.parts])
    have hkind : value.kind ≠ "optional_binding" := hvalue.kind_ne rfl
    simp [condition, Writing.condition, hkind, expression_of_isValue hvalue]
  | binding name value range =>
    have hvalue : IsValue value := h value (by simp [Condition.parts])
    simp [condition, Writing.condition, Dump.Node.attr, expression_of_isValue hvalue]

theorem has_default (case) : (Writing.switchCase case).has "default" = case.patterns.isEmpty := by
  rw [Dump.Node.has_eq_isSome_attr, Dump.Node.attr]
  cases hempty : case.patterns.isEmpty <;> simp [Writing.switchCase, hempty]

theorem switchCase_switchCase (hvalues : ∀ value ∈ case.patterns, IsValue value)
    (hseen : ¬ (case.patterns.isEmpty = true ∧ seenDefault = true)) :
    switchCase seenDefault (Writing.switchCase case) = .ok case := by
  have hchildren :
      (Writing.switchCase case).children = case.patterns ++ [Writing.braces case.body] :=
    rfl
  have hpatterns := mapM_expression hvalues
  have hseen' : (case.patterns.isEmpty && seenDefault) = false := by
    simpa using hseen
  simp only [switchCase, has_default, hseen', hchildren, List.getLast?_append,
    List.getLast?_singleton, Option.some_or, List.dropLast_concat,
    Bool.and_not_self, Bool.false_eq_true, hpatterns]
  rfl

/-- Only the first of several default cases can be read, so there must not be another. -/
theorem switchCases_eq_ok (hvalues : ∀ case ∈ cases, ∀ value ∈ case.patterns, IsValue value)
    (h : (cases.filter (·.patterns.isEmpty)).length + seenDefault.toNat ≤ 1) :
    switchCases seenDefault (cases.map Writing.switchCase) = .ok cases := by
  induction cases generalizing seenDefault with
  | nil => rfl
  | cons case rest ih =>
    have hrest : switchCases (seenDefault || case.patterns.isEmpty) (rest.map Writing.switchCase) =
        .ok rest := by
      refine ih (fun other hother => hvalues other (by simp [hother])) ?_
      -- a default case is counted in the list before it is read and in `seenDefault` afterwards
      cases hempty : case.patterns.isEmpty <;> cases seenDefault <;>
        simp [hempty] at h ⊢ <;> omega
    have hcase : switchCase seenDefault (Writing.switchCase case) = .ok case := by
      refine switchCase_switchCase (hvalues case (by simp)) ?_
      rintro ⟨hempty, rfl⟩
      simp [hempty] at h
    simp only [List.map_cons, switchCases, hcase, has_default, hrest, ok_bind, pure_eq_ok]

theorem catchClause_catchClause (h : ∀ ty ∈ clause.ty, ty.IsRead) :
    catchClause (Writing.catchClause clause) = .ok clause := by
  have hname : (Writing.catchClause clause).attr "name" = clause.name := by
    simp [Writing.catchClause, Dump.Node.attr, List.lookup_append]
  have hty : optionalTy (Writing.catchClause clause) "type" = .ok clause.ty := by
    refine optionalTy_of_eq h ?_
    simp [Writing.catchClause, Dump.Node.attr, List.lookup_append]
  simp only [catchClause, hname, hty]
  rfl

theorem argument_argument (hlabel : arg.label ≠ some "_") (hvalue : IsValue arg.value) :
    argument (Writing.argument arg) = .ok arg := by
  obtain ⟨label, value⟩ := arg
  have hexpr : expression value = .ok value := expression_of_isValue hvalue
  cases label with
  | none => simp [argument, Writing.argument, Writing.label, Dump.Node.attr, hexpr]
  | some label =>
    have hne : label ≠ "_" := fun heq => hlabel (congrArg some heq)
    simp [argument, Writing.argument, Writing.label, Dump.Node.attr, hexpr, hne]

theorem pairs_flatMap (entries) :
    pairs (entries.flatMap fun (key, value) => [key, value]) = entries := by
  induction entries with
  | nil => rfl
  | cons entry rest ih => simpa [pairs] using ih

theorem length_flatMap_pairs (entries : List (Dump.Node × Dump.Node)) :
    (entries.flatMap fun (key, value) => [key, value]).length = 2 * entries.length := by
  induction entries with
  | nil => rfl
  | cons entry rest ih =>
    simp only [List.flatMap_cons, List.length_append, List.length_cons, List.length_nil, ih]
    omega

theorem pieces_intercalate (h : ∀ name ∈ first :: rest, ',' ∉ name.toList) :
    Text.pieces ',' (String.intercalate ", " (first :: rest)).toList =
      first.toList :: rest.map fun name => ' ' :: name.toList := by
  induction rest generalizing first with
  | nil =>
    exact Text.pieces_of_not_mem (h first (by simp))
  | cons next more ih =>
    have hmore := ih fun name hname => h name (List.mem_cons_of_mem first hname)
    have htext : (String.intercalate ", " (first :: next :: more)).toList =
        first.toList ++ ',' :: ' ' :: (String.intercalate ", " (next :: more)).toList := by
      rw [String.intercalate_cons_cons, String.toList_append, String.toList_append,
        List.append_assoc]
      rfl
    rw [htext, Text.pieces_append_cons _ (h first (by simp)), Text.pieces, if_neg (by decide),
      hmore]
    rfl

/-- Listed names are found again between the commas. -/
theorem nameList_intercalate (hnames : names ≠ []) (h : ∀ name ∈ names, IsListedName name) :
    nameList (String.intercalate ", " names) = names := by
  cases names with
  | nil => exact absurd rfl hnames
  | cons first rest =>
    have htrim : (Text.pieces ',' (String.intercalate ", " (first :: rest)).toList).map Text.trim =
        (first :: rest).map String.toList := by
      rw [pieces_intercalate fun name hname => (h name hname).no_comma, List.map_cons, List.map_map,
        List.map_cons, (h first (by simp)).trimmed]
      congr 1
      refine List.map_congr_left fun name hname => ?_
      exact (h name (List.mem_cons_of_mem first hname)).trimmed
    have hkept : ∀ text ∈ (first :: rest).map String.toList, (!text.isEmpty) = true := by
      intro text htext
      obtain ⟨name, hname, rfl⟩ := List.mem_map.1 htext
      simpa using (h name hname).ne_nil
    rw [nameList, htrim, List.filter_eq_self.2 hkept, List.map_map]
    simp

/-! ## Whole constructs -/

variable (range : Option SourceRange)

attribute [local simp] Construct.tag asTagged attr Construct.dumpAttributes Construct.dumpChildren

theorem params_of_hasValues {ps : List (Param Dump.Node)} (h : ∀ p ∈ ps, p.Admissible)
    (hvalues : HasValues construct)
    (hpositions : ∀ value ∈ ps.flatMap Param.parts, (Role.value, value) ∈ construct.positions) :
    ∀ p ∈ ps, param (Writing.param p) = .ok p := by
  intro p hp
  refine param_param (h p hp) fun value hvalue => hvalues value (hpositions value ?_)
  exact List.mem_flatMap.2 ⟨p, hp, hvalue⟩

theorem function_toDump (h : (Construct.function decl).Admissible)
    (hvalues : HasValues (.function decl)) :
    function ((Construct.function decl).toDump range) = .ok (.function decl) := by
  have hresult : optionalTy ((Construct.function decl).toDump range) "result" =
      .ok decl.result := by
    refine optionalTy_of_eq h.2 ?_
    simp [List.lookup_append, List.lookup_cons]
  have hsignature : signature ((Construct.function decl).toDump range).children =
      .ok (decl.params, decl.body) :=
    signature_eq_ok decl.body (params_of_hasValues h.1 hvalues (by simp))
  simp only [function, hresult, hsignature]
  simp

theorem initializer_toDump (h : ∀ p ∈ ps, p.Admissible)
    (hvalues : HasValues (.initializer ps body)) :
    initializer ((Construct.initializer ps body).toDump range) = .ok (.initializer ps body) := by
  have hsignature : signature ((Construct.initializer ps body).toDump range).children =
      .ok (ps, body) :=
    signature_eq_ok body (params_of_hasValues h hvalues (by simp))
  simp only [initializer, hsignature, ok_bind, pure_eq_ok]

theorem variableDecl_toDump (h : (Construct.variableDecl decl).Admissible)
    (hvalues : HasValues (.variableDecl decl)) :
    variableDecl ((Construct.variableDecl decl).toDump range) = .ok (.variableDecl decl) := by
  have hinit : ∀ value ∈ decl.init, IsValue value := fun value hvalue =>
    hvalues value (by simpa using hvalue)
  have hty : optionalTy ((Construct.variableDecl decl).toDump range) "type" = .ok decl.ty := by
    refine optionalTy_of_eq h.1 ?_
    simp [List.lookup_append, List.lookup_cons]
  have hparts : ((Construct.variableDecl decl).toDump range).children.partition
      (·.kind == "accessor_decl") = (decl.accessors.map Writing.accessor, decl.init.toList) :=
    partition_accessors decl.accessors hinit
  have haccessors : accessors [] (decl.accessors.map Writing.accessor) = .ok decl.accessors :=
    accessors_eq_ok (by simp) h.2
  simp only [variableDecl, hty, hparts, initialValue_toList hinit, haccessors]
  simp

theorem typeDecl_toDump (h : ∀ name ∈ decl.inherits, IsListedName name) :
    typeDecl kind ((Construct.typeDecl kind decl).toDump range) = .ok (.typeDecl kind decl) := by
  have hname : attr ((Construct.typeDecl kind decl).toDump range) "name" = .ok decl.name := rfl
  have hinherits :
      ((((Construct.typeDecl kind decl).toDump range).attr "inherits").map nameList).getD [] =
        decl.inherits := by
    by_cases hempty : decl.inherits = []
    · simp [Writing.inherited, hempty]
    · simp [Writing.inherited, List.lookup_cons, hempty, nameList_intercalate hempty h]
  simp only [typeDecl, hname, hinherits]
  rfl

theorem enumCase_toDump (h : (Construct.enumCase decl).Admissible)
    (hvalues : HasValues (.enumCase decl)) :
    enumCase ((Construct.enumCase decl).toDump range) = .ok (.enumCase decl) := by
  obtain ⟨name, ps, rawValue⟩ := decl
  have hparams : (ps.map Writing.param).mapM param = .ok ps := by
    refine mapM_map_eq_ok (params_of_hasValues h.1 hvalues fun value hvalue => ?_)
    exact mem_asValues.2 ⟨rfl, List.mem_append_left _ hvalue⟩
  rcases h.2 with hnone | hnone <;> dsimp only at hnone <;> subst hnone
  · cases rawValue with
    | none => rfl
    | some value =>
      have hvalue : IsValue value := hvalues value (by simp)
      have hkind : value.kind ≠ "parameter_list" := hvalue.kind_ne rfl
      simp [enumCase, Writing.paramList, caseParts, hkind, expression_of_isValue hvalue]
  · by_cases hempty : ps = []
    · subst hempty
      rfl
    · have hlist : Writing.paramList (ps.map Writing.param) =
          [⟨"parameter_list", [], ps.map Writing.param, none⟩] := by
        simp [Writing.paramList, hempty]
      simp [enumCase, hlist, caseParts, params, hparams]

theorem ifStmt_toDump (hvalues : HasValues (.ifStmt test thenBranch otherwise))
    (helse : ∀ branch ∈ otherwise, branch.kind = "brace_stmt" ∨ branch.kind = "if_stmt") :
    ifStmt ((Construct.ifStmt test thenBranch otherwise).toDump range) =
      .ok (.ifStmt test thenBranch otherwise) := by
  have htest : condition (Writing.condition test) = .ok test :=
    condition_condition fun value hvalue => hvalues value (by simp [hvalue])
  cases otherwise with
  | none => simp [ifStmt, htest, braces_braces]
  | some branch =>
    have hbranch : elseBranch branch = .ok branch := if_pos (helse branch rfl)
    simp [ifStmt, htest, braces_braces, hbranch]

theorem guardStmt_toDump (hvalues : HasValues (.guardStmt test otherwise)) :
    guardStmt ((Construct.guardStmt test otherwise).toDump range) =
      .ok (.guardStmt test otherwise) := by
  have htest : condition (Writing.condition test) = .ok test :=
    condition_condition fun value hvalue => hvalues value (by simp [hvalue])
  simp [guardStmt, htest, braces_braces]

theorem switchStmt_toDump (h : (Construct.switchStmt subject cases).Admissible)
    (hvalues : HasValues (.switchStmt subject cases)) :
    switchStmt ((Construct.switchStmt subject cases).toDump range) =
      .ok (.switchStmt subject cases) := by
  have hsubject : expression subject = .ok subject :=
    expression_of_isValue (hvalues subject (by simp))
  have hcases : switchCases false (cases.map Writing.switchCase) = .ok cases := by
    refine switchCases_eq_ok (fun case hcase value hvalue => hvalues value ?_) h
    simp only [Construct.positions, List.mem_append, List.mem_flatMap, mem_asValues]
    exact Or.inr ⟨case, hcase, Or.inl ⟨trivial, hvalue⟩⟩
  simp [switchStmt, hsubject, hcases]

theorem doCatch_toDump (h : (Construct.doCatch body catches).Admissible) :
    doCatch ((Construct.doCatch body catches).toDump range) = .ok (.doCatch body catches) := by
  have hcatches : (catches.map Writing.catchClause).mapM catchClause = .ok catches :=
    mapM_map_eq_ok fun clause hclause => catchClause_catchClause (h.2 clause hclause)
  have hsome : (catches.map Writing.catchClause).isEmpty = false := by
    simpa using h.1
  simp only [doCatch, Construct.children_toDump, Construct.dumpChildren, braces_braces, hsome,
    hcatches, ok_bind, Bool.false_eq_true, if_false, pure_eq_ok]

theorem call_toDump (h : (Construct.call callee arguments).Admissible)
    (hvalues : HasValues (.call callee arguments)) :
    call ((Construct.call callee arguments).toDump range) = .ok (.call callee arguments) := by
  have hcallee : expression callee = .ok callee := expression_of_isValue (hvalues callee (by simp))
  have harguments : (arguments.map Writing.argument).mapM argument = .ok arguments := by
    refine mapM_map_eq_ok fun arg harg => argument_argument (h arg harg) (hvalues arg.value ?_)
    exact mem_asValues.2 ⟨rfl, List.mem_cons_of_mem _ (List.mem_map_of_mem harg)⟩
  simp only [call, Construct.children_toDump, Construct.dumpChildren, hcallee, harguments, ok_bind,
    pure_eq_ok]

theorem dictionary_toDump (hvalues : HasValues (.dictionaryLiteral entries)) :
    dictionary ((Construct.dictionaryLiteral entries).toDump range) =
      .ok (.dictionaryLiteral entries) := by
  have heven : (entries.flatMap fun (key, value) => [key, value]).length % 2 = 0 := by
    rw [length_flatMap_pairs, Nat.mul_mod_right]
  have hread : (entries.flatMap fun (key, value) => [key, value]).mapM expression = .ok _ :=
    mapM_expression fun value hvalue => hvalues value (mem_asValues.2 ⟨rfl, hvalue⟩)
  simp only [dictionary, Construct.children_toDump, Construct.dumpChildren, heven, hread,
    pairs_flatMap, ok_bind, ne_eq, not_true_eq_false, if_false, pure_eq_ok]

theorem closure_toDump (params body) :
    closure ((Construct.closure params body).toDump range) = .ok (.closure params body) := by
  have hparams : (params.map Writing.closureParam).mapM closureParam = .ok params :=
    mapM_map_eq_ok fun _ _ => rfl
  by_cases hempty : params = []
  · subst hempty
    rfl
  · have hlist : Writing.paramList (params.map Writing.closureParam) =
        [⟨"parameter_list", [], params.map Writing.closureParam, none⟩] := by
      simp [Writing.paramList, hempty]
    simp [closure, hlist, expectKind, hparams, closureBody, Writing.braces]

theorem HasValues.isValue_of_positions (h : HasValues construct)
    (hpositions : construct.positions = asValues values) :
    ∀ value ∈ values, IsValue value := by
  intro value hvalue
  refine h value ?_
  rw [hpositions]
  exact mem_asValues.2 ⟨rfl, hvalue⟩

theorem onlyExpression_toDump (hvalues : HasValues construct)
    (hchildren : construct.dumpChildren = [value])
    (hpositions : construct.positions = asValues [value]) :
    onlyExpression (construct.toDump range) = .ok value := by
  have hvalue : expression value = .ok value :=
    expression_of_isValue (hvalues.isValue_of_positions hpositions value (by simp))
  simp only [onlyExpression, onlyChild, Construct.children_toDump, hchildren, ok_bind, hvalue]

theorem literal_toDump (h : value.Admissible) :
    asTagged ((Construct.literal value).toDump range) value.tag = .ok (.literal value) := by
  cases value with
  | integer text =>
    have hvalue : attr ((Construct.literal (.integer text)).toDump range) "value" = .ok text := rfl
    have htext : Text.normalizeInteger text = some text := h
    simp only [Literal.tag, asTagged, integer, hvalue, ok_bind, htext, pure_eq_ok]
  | float text =>
    have hvalue : attr ((Construct.literal (.float text)).toDump range) "value" = .ok text := rfl
    have htext : Text.isFloat text = true := h
    simp only [Literal.tag, asTagged, float, hvalue, ok_bind, htext, if_true, pure_eq_ok]
  | boolean value => cases value <;> rfl
  | string text => rfl
  | nil => rfl

/-- The reading for its tag gives an admissible construct back from its node. -/
theorem asTagged_toDump (h : construct.Admissible)
    (hvalues : HasValues construct) (helse : ∀ branch ∈ construct.alternative,
      branch.kind = "brace_stmt" ∨ branch.kind = "if_stmt") :
    asTagged (construct.toDump range) construct.tag = .ok construct := by
  have hexpr : ∀ value, (Role.value, value) ∈ construct.positions → expression value = .ok value :=
    fun value hvalue => expression_of_isValue (hvalues value hvalue)
  cases construct with
  | function decl => exact function_toDump range h hvalues
  | initializer params body => exact initializer_toDump range h hvalues
  | variableDecl decl => exact variableDecl_toDump range h hvalues
  | typeDecl kind decl => exact typeDecl_toDump range h
  | enumCase decl => exact enumCase_toDump range h hvalues
  | ifStmt test thenBranch otherwise => exact ifStmt_toDump range hvalues helse
  | guardStmt test otherwise => exact guardStmt_toDump range hvalues
  | switchStmt subject cases => exact switchStmt_toDump range h hvalues
  | doCatch body catches => exact doCatch_toDump range h
  | literal value => exact literal_toDump range h
  | call callee arguments => exact call_toDump range h hvalues
  | dictionaryLiteral entries => exact dictionary_toDump range hvalues
  | closure params body => exact closure_toDump range params body
  | invalid | unknown => exact h.elim
  | file | importModule | extensionDecl | block | breakStmt | continueStmt | deferStmt => rfl
  | typeAlias name ty =>
    have hty : requiredTy ((Construct.typeAlias name ty).toDump range) "type" = .ok ty :=
      requiredTy_of_eq h rfl
    simp [hty]
  | reference name type =>
    have hty : optionalTy ((Construct.reference name type).toDump range) "type" = .ok type :=
      optionalTy_of_eq h (by simp [List.lookup_cons])
    simp [hty]
  | implicitMember name type =>
    have hty : optionalTy ((Construct.implicitMember name type).toDump range) "type" = .ok type :=
      optionalTy_of_eq h (by simp [List.lookup_cons])
    simp [hty]
  | cast kind value ty =>
    have hty : requiredTy ((Construct.cast kind value ty).toDump range) "type" = .ok ty :=
      requiredTy_of_eq h rfl
    have hkind : castKind ((Construct.cast kind value ty).toDump range).kind = kind := by
      cases kind <;> rfl
    have hvalue := onlyExpression_toDump range hvalues (Eq.refl [value]) rfl
    simp only [Construct.tag, asTagged, cast, hty, hkind, hvalue, ok_bind, pure_eq_ok]
  | returnStmt value =>
    cases value with
    | none => rfl
    | some value => simp [hexpr value (by simp)]
  | whileStmt test body =>
    simp [whileStmt, braces_braces, hexpr test (by simp)]
  | repeatWhile body test =>
    simp [repeatWhile, braces_braces, hexpr test (by simp)]
  | forEach binder sequence body =>
    simp [forEach, braces_braces, hexpr sequence (by simp)]
  | binary operator lhs rhs =>
    simp [binary, hexpr lhs (by simp), hexpr rhs (by simp)]
  | assign target value =>
    simp [assign, hexpr target (by simp), hexpr value (by simp)]
  | subscript base index =>
    simp [subscript, hexpr base (by simp), hexpr index (by simp)]
  | ternary test thenValue elseValue =>
    simp [ternary, hexpr test (by simp), hexpr thenValue (by simp), hexpr elseValue (by simp)]
  | prefixUnary operator value | member value name =>
    have hvalue := onlyExpression_toDump range hvalues (Eq.refl [value]) rfl
    simp [hvalue]
  | wrapped form value | throwStmt value =>
    have hvalue := onlyExpression_toDump range hvalues (Eq.refl [value]) rfl
    simp [hvalue]
  | interpolated values | arrayLiteral values | tuple values =>
    have hall : values.mapM expression = .ok values :=
      mapM_expression (hvalues.isValue_of_positions rfl)
    simp [hall]

end Reading

end SwiftToKotlin.Swift
