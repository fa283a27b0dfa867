import SwiftToKotlin.Proofs.Lowering.Building.Statement

/-!
# How declarations are lowered

The members of a type or an extension are lowered as its members, but for types in an extension,
which move to the file. With that every construct is covered: any node is lowered by the rules, from
the lowering of its parts, each in its place.
-/

namespace SwiftToKotlin.Lowering

open Swift (Node TypeDecl EnumCaseDecl Role)
open Frame (Builds around_reference around_literal around_call around_binary)

variable {frame : Frame} {place : Place}

/-! ## Types -/

namespace TypeBody

/-- The members of both kinds, the static ones last. -/
def Members.all (members : Members) : List Kotlin.Node :=
  members.instances ++ members.statics

theorem around_nodes (members : Members) : frame.Around members.all (members.nodes range) := by
  refine .append (.refl members.instances) ?_
  split
  · next hempty =>
    rw [List.isEmpty_iff.1 hempty]
    exact .refl _
  · exact .around (by simp) (by simp)

/-- Sorting members into static and other ones loses none of them. -/
theorem mem_sorted (lowered : List (Bool × List Kotlin.Node)) (node) :
    node ∈ (lowered.filter (!·.1)).flatMap Prod.snd ++ (lowered.filter (·.1)).flatMap Prod.snd ↔
      node ∈ lowered.flatMap Prod.snd := by
  simp only [List.mem_append, List.mem_flatMap, List.mem_filter]
  constructor
  · rintro (⟨entry, ⟨hentry, -⟩, hnode⟩ | ⟨entry, ⟨hentry, -⟩, hnode⟩)
    · exact ⟨entry, hentry, hnode⟩
    · exact ⟨entry, hentry, hnode⟩
  · rintro ⟨entry, hentry, hnode⟩
    cases hstatic : entry.1 with
    | false => exact .inl ⟨entry, ⟨hentry, by simp [hstatic]⟩, hnode⟩
    | true => exact .inr ⟨entry, ⟨hentry, hstatic⟩, hnode⟩

theorem builds_members (hscope : scope.receiver? = none)
    (h : frame.AllAllowed { place with owner := scope.owner } .statement nodes) :
    frame.Builds role place [] (fun descent => members descent scope nodes) Members.all
      fun _ => True := by
  have hmember (node : Node) (hnode : node ∈ nodes) :
      frame.Builds .statement { place with owner := scope.owner } []
        (fun descent => memberOf descent node) Prod.snd fun _ => True :=
    (Builds.statement (h node hnode)).bind fun _ => .pure (.refl _)
  refine .withScope scope (fun receiver name heq => ?_)
    (.inBlock ((Builds.mapM nodes hmember).bind fun lowered => .pure (.of_mem_iff ?_)))
  · rw [heq] at hscope
    cases hscope
  · exact mem_sorted lowered

/-- Of a property that goes to the constructor only the initial value is lowered. -/
theorem builds_constructorProperties
    (hnames : ∀ node ∈ nodes, ∀ name ∈ node.construct.names, frame.source name)
    (h : ∀ node ∈ nodes, ∀ decl, node.construct = .variableDecl decl →
      frame.AllAllowed place .value decl.init.toList) :
    frame.Builds .statement place [] (fun descent => constructorProperties descent nodes)
      (List.flatMap Kotlin.Param.parts) fun params => ∀ param ∈ params, frame.given param.name := by
  induction nodes with
  | nil => exact .given (.refl _) (by simp)
  | cons node rest ih =>
    have hrest := ih (fun part hpart => hnames part (List.mem_cons_of_mem _ hpart))
      fun part hpart => h part (List.mem_cons_of_mem _ hpart)
    unfold constructorProperties
    split
    · next decl hc =>
      have hinit := h node List.mem_cons_self decl hc
      have hown : decl.name ∈ node.construct.names := by simp [hc, Swift.Construct.names]
      have hname := frame.naming.own (hnames node List.mem_cons_self _ hown)
      have hproperty : frame.Builds .statement place []
          (fun descent => constructorProperty descent decl node.range) Kotlin.Param.parts
          fun param => frame.given param.name :=
        .after (fun _ _ hreport => keeps_propertyType (fun _ _ => silent_lowerTy _ _ _ hreport) _ _)
          fun _ => .look (Function.keeps_variableType decl) fun _ =>
            (Builds.declare _ _).first fun _ _ =>
              (Builds.optionM decl.init fun value hvalue =>
                builds_kept (hinit value (Option.mem_toList.2 hvalue))).bind fun _ =>
                  .given (.of_mem_iff (by simp [Kotlin.Param.parts])) hname
      exact hproperty.knowing fun _ hfirst => hrest.knowing fun _ hothers =>
        .given (.of_mem_iff (by simp)) (List.forall_mem_cons.2 ⟨hfirst, hothers⟩)
    · exact hrest

section Types

variable {decl : TypeDecl Node} (hname : frame.source decl.name)
  (hmembers : frame.AllAllowed { place with owner := .type } .statement decl.members)

theorem around_conjunction {same : String → Kotlin.Node}
    (hsame : ∀ field, frame.Around [] [same field]) (fields : List String)
    (h : frame.Around [] [first]) :
    frame.Around []
      [fields.foldl (fun equal field => .binary .conj equal (same field) range) first] := by
  induction fields generalizing first with
  | nil => exact h
  | cons field rest ih => exact ih (around_binary .conj h (hsame field))

theorem around_equalsMember (className : String) (stored : List String) :
    frame.Around [] [equalsMember className stored range] := by
  have hfield (name field : String) :
      frame.Around [] [.member (.reference name range) field range] :=
    .layer (by simp) (around_reference _)
  have hclass : frame.Around []
      [⟨.cast .check (.reference "other" range) (.named className []), range⟩] :=
    .layer (by simp) (around_reference _)
  refine .layer ?_ (.layer (by simp) (around_conjunction (fun field =>
    around_binary .eq (hfield "this" field) (hfield "other" field)) stored hclass))
  simpa using And.intro (frame.naming.supplied "equals" (by decide))
    (frame.naming.supplied "other" (by decide))

theorem around_hashCodeMember (stored) : frame.Around [] [hashCodeMember stored range] := by
  have hfields : frame.Around [] (stored.map (Kotlin.Node.reference · range)) := by
    induction stored with
    | nil => exact .refl []
    | cons field rest ih => exact (around_reference field).append ih
  refine .layer (by simpa using frame.naming.supplied "hashCode" (by decide)) (.layer (by simp) ?_)
  split
  · exact around_literal _
  · exact .trans hfields ((around_call (around_reference _) _).trans (Call.around_method _ _ _))

include hname hmembers

variable
    (hnames : ∀ node ∈ decl.members, ∀ name ∈ node.construct.names, frame.source name)
    (hinits : ∀ node ∈ decl.members, ∀ property, node.construct = .variableDecl property →
      frame.AllAllowed { place with owner := .type } .value property.init.toList)

include hnames hinits in
theorem builds_dataClass :
    frame.MakesNode role place [] fun descent => dataClass descent decl range := by
  have hgiven := frame.naming.own hname
  have hin {node : Node} (hnode : node ∈ (decl.members.partition isStoredProperty).1) :
      node ∈ decl.members := by
    simp at hnode
    exact hnode.1
  have hrest : frame.AllAllowed { place with owner := .type } .statement
      (decl.members.partition isStoredProperty).2 := fun node hnode =>
    hmembers node (by simp at hnode; exact hnode.1)
  have hstored : frame.Builds .statement { place with owner := .type } [] _ _ _ :=
    builds_constructorProperties (fun node hnode => hnames node (hin hnode))
      fun node hnode => hinits node (hin hnode)
  refine (show frame.Builds role place [] _
      (fun made => made.1.flatMap Kotlin.Param.parts ++ made.2.all)
      fun made => ∀ param ∈ made.1, frame.given param.name from .inBlock ?_).knowing
    fun made hparams => .look keeps_types fun _ => .pure (.layer ?_ ?_)
  · exact (hstored.withScope (.type decl.name) fun _ _ h => nomatch h).knowing fun _ hparams =>
      (builds_members rfl hrest).bind fun _ => .given (.refl _) hparams
  · simpa [hgiven] using hparams
  · simpa using (Kotlin.BuiltAround.refl (made.1.flatMap Kotlin.Param.parts)).append
      (around_nodes made.2)

theorem builds_classWithEquality :
    frame.MakesNode role place [] fun descent => classWithEquality descent decl range := by
  have hgiven := frame.naming.own hname
  refine .after (silent_warn _ _) fun _ => (builds_members rfl hmembers).bind fun members =>
    .look keeps_types fun _ => .pure (.layer (by simpa using hgiven) ?_)
  have hequality (className : String) (stored : List String) : frame.Around []
      [equalsMember className stored range, hashCodeMember stored range] :=
    (around_equalsMember className stored).append (around_hashCodeMember stored)
  have hall (className : String) (stored : List String) :=
    ((Kotlin.BuiltAround.refl members.instances).append (hequality className stored)).append
      (.refl members.statics)
  simpa [Members.all] using (hall _ _).trans (around_nodes ⟨_, members.statics⟩)

theorem builds_classDecl :
    frame.MakesNode role place [] fun descent => classDecl descent decl range := by
  have hgiven := frame.naming.own hname
  exact .look keeps_types fun _ => (builds_members rfl hmembers).bind fun _ =>
    .pure (.layer (by simpa using hgiven) (by simpa using around_nodes _))

include hnames hinits in
theorem builds_structDecl :
    frame.MakesNode role place [] fun descent => structDecl descent decl range := by
  refine .look keeps_types fun _ => ?_
  split
  · exact builds_dataClass hname hmembers hnames hinits
  · exact builds_classWithEquality hname hmembers

omit hmembers in
theorem builds_protocolDecl
    (h : frame.AllAllowed { place with owner := .protocol } .statement decl.members) :
    frame.MakesNode role place [] fun descent => protocolDecl descent decl range := by
  have hgiven := frame.naming.own hname
  exact (builds_members rfl h).bind fun _ =>
    .pure (.layer (by simpa using hgiven) (by simpa using around_nodes _))

end Types

theorem builds_extensionDecl (hextension : frame.extensions (extensionType extended) extended)
    (h : ∀ node ∈ nodes, frame.allowed
      { place with owner := if isNestedType node then .file else .extension } .statement node) :
    frame.MakesNodes role place [] fun descent => extensionDecl descent extended nodes range := by
  have hmember (node : Node) (hnode : node ∈ nodes) :
      frame.MakesNodes .statement { place with owner := .extension } [] fun descent =>
        extensionMember descent node := by
    have hallowed := h node hnode
    unfold extensionMember
    split
    · next hnested =>
      rw [if_pos hnested] at hallowed
      exact .withScope .topLevel (fun _ _ h => nomatch h) (.statement hallowed)
    · next hnested =>
      rw [if_neg hnested] at hallowed
      exact .statement hallowed
  have hreceiver : frame.Builds role place [] (fun _ => extensionReceiver extended range)
      (fun _ => []) (· = extensionType extended) :=
    .silent (fun _ _ hreport =>
      keeps_extensionReceiver (fun _ _ => silent_lowerTy _ _ _ hreport) extended range)
      (extensionReceiver_fst extended range)
  have hrest : frame.MakesNodes role place [] fun descent => (do
      let receiver ← extensionReceiver extended range
      withScope (.extension receiver extended) <| inBlock do
        return (← nodes.mapM (extensionMember descent)).flatten) := by
    refine hreceiver.first fun receiver hknown => ?_
    subst hknown
    refine .withScope _ (fun _ _ heq => ?_) (.inBlock ((Builds.mapM nodes hmember).bind fun _ =>
      .pure (.of_mem_iff (by simp))))
    cases heq
    exact hextension
  refine .look keeps_types fun _ => ?_
  split
  · exact .after (silent_warn _ _) fun _ => hrest
  · exact hrest

end TypeBody

/-! ## Enums -/

namespace Enum

theorem builds_rawValue (rawType : String) (next)
    (h : frame.AllAllowed place .value case.rawValue.toList) :
    frame.Builds role place [] (fun descent => rawValue descent rawType next case range) Prod.fst
      fun _ => True := by
  have hliteral (n : Int) : frame.Around [] [integerLiteral n range] := by
    unfold integerLiteral
    split
    · exact .layer (by simp) (around_literal _)
    · exact around_literal _
  unfold rawValue
  split
  · next value hsome =>
    exact (Builds.value (h value (by simp [hsome]))).bind fun _ => .pure (.refl _)
  · split
    · exact .pure (around_literal _)
    · split
      · exact .pure (hliteral _)
      · exact .pure (.refl _)

theorem builds_entries (enum : String) (rawType next)
    (h : ∀ case ∈ cases, frame.AllAllowed place .value case.1.rawValue.toList) :
    frame.Builds role place [] (fun descent => entries descent enum rawType next cases)
      (List.flatMap Kotlin.EnumEntry.args) fun made => ∀ entry ∈ made, frame.given entry.name := by
  induction cases generalizing next with
  | nil => exact .given (.refl _) (by simp)
  | cons case rest ih =>
    have hrest (next : Option Int) :=
      ih next fun case hcase => h case (List.mem_cons_of_mem _ hcase)
    refine (Builds.nameCase _ _ _).first fun name hname => ?_
    have hall {args : List Kotlin.Node} {entries : List (Kotlin.EnumEntry Kotlin.Node)}
        (hothers : ∀ entry ∈ entries, frame.given entry.name) :
        ∀ entry ∈ (⟨name, args⟩ :: entries : List (Kotlin.EnumEntry Kotlin.Node)),
          frame.given entry.name :=
      List.forall_mem_cons.2 ⟨hname, hothers⟩
    split
    · exact (builds_rawValue _ _ (h case List.mem_cons_self)).bind fun _ =>
        (hrest _).knowing fun _ hothers => .given (.of_mem_iff (by simp)) (hall hothers)
    · simp only [pure_bind]
      exact (hrest _).knowing fun _ hothers => .given (.of_mem_iff (by simp)) (hall hothers)

/-- The cases stand among the members. -/
theorem mem_of_mem_placedCases (h : placed ∈ placedCases nodes) :
    (⟨.enumCase placed.1, placed.2⟩ : Node) ∈ nodes := by
  obtain ⟨⟨construct, range⟩, hmember, hcase⟩ := List.mem_filterMap.1 h
  cases construct with
  | enumCase case =>
    cases hcase
    exact hmember
  | _ => cases hcase

section Enums

variable {decl : TypeDecl Node} (hname : frame.source decl.name)
  (hmembers : frame.AllAllowed { place with owner := .type } .statement decl.members)

theorem builds_ownMembers
    (hmembers : frame.AllAllowed { place with owner := .type } .statement decl.members) :
    frame.Builds role place [] (fun descent => TypeBody.members descent (.type decl.name)
      (decl.members.filter (!isEnumCase ·))) TypeBody.Members.all fun _ => True :=
  TypeBody.builds_members rfl fun node hnode => hmembers node (List.mem_filter.1 hnode).1

theorem builds_caseClass (enum : String)
    (hnames : ∀ name ∈ case.params.map Swift.Param.fieldName, frame.source name) :
    frame.MakesNode role place [] fun _ => caseClass enum case range := by
  have hfield (param : Swift.Param Node) (hparam : param ∈ case.params) :
      frame.Builds role place [] (fun _ => caseField range param) Kotlin.Param.parts
        fun field => frame.given field.name :=
    .after (silent_lowerTy _ _) fun _ =>
      .given (.refl _) (frame.naming.own (hnames _ (List.mem_map_of_mem hparam)))
  exact (Builds.nameCase _ _ _).first fun _ hname => (Builds.mapM case.params hfield).knowing
    fun _ hfields => .pure (.around (by simpa [hname] using hfields) (by simp))

include hname hmembers

theorem builds_enumClass (hraw : ∀ node ∈ decl.members, ∀ case, node.construct = .enumCase case →
      frame.AllAllowed place .value case.rawValue.toList) :
    frame.MakesNode role place [] fun descent => enumClass descent decl range := by
  have hgiven := frame.naming.own hname
  have hcases (case : EnumCaseDecl Node × Option SourceRange)
      (hcase : case ∈ placedCases decl.members) :
      frame.AllAllowed place .value case.1.rawValue.toList :=
    hraw _ (mem_of_mem_placedCases hcase) _ rfl
  have hparams (rawType : Option String) :
      (rawType.toList.map rawValueParam).flatMap Kotlin.Param.parts = [] := by
    cases rawType <;> simp [rawValueParam, Kotlin.Param.parts]
  refine (builds_entries _ _ _ hcases).knowing fun entries hentries =>
    (builds_ownMembers hmembers).bind fun members => .look keeps_types fun _ => .pure (.layer ?_ ?_)
  · intro name hname
    simp only [Kotlin.Construct.names, List.mem_cons, List.mem_append, List.mem_map] at hname
    rcases hname with rfl | ⟨_, ⟨_, _, rfl⟩, rfl⟩ | ⟨entry, hentry, rfl⟩
    · exact hgiven
    · exact frame.naming.supplied "rawValue" (by decide)
    · exact hentries entry hentry
  · simpa [hparams] using (Kotlin.BuiltAround.refl (entries.flatMap Kotlin.EnumEntry.args)).append
      (TypeBody.around_nodes members)

variable (hnames : ∀ node ∈ decl.members, ∀ name ∈ node.construct.names, frame.source name)

include hnames

theorem builds_sealedClass :
    frame.MakesNode role place [] fun descent => sealedClass descent decl range := by
  have hgiven := frame.naming.own hname
  have hcases (case : EnumCaseDecl Node × Option SourceRange)
      (hcase : case ∈ placedCases decl.members) :
      ∀ name ∈ case.1.params.map Swift.Param.fieldName, frame.source name :=
    hnames _ (mem_of_mem_placedCases hcase)
  refine (Builds.nodes (placedCases decl.members) fun case hcase =>
    builds_caseClass _ (hcases case hcase)).bind fun cases =>
      (builds_ownMembers hmembers).bind fun members => .look keeps_types fun _ =>
        .pure (.layer (by simpa using hgiven) ?_)
  simpa using (Kotlin.BuiltAround.refl cases).append (TypeBody.around_nodes members)

theorem builds_enumDecl
    (hraw : ∀ node ∈ decl.members, ∀ case, node.construct = .enumCase case →
      frame.AllAllowed place .value case.rawValue.toList) :
    frame.MakesNode role place [] fun descent => enumDecl descent decl range := by
  refine .look keeps_types fun _ => ?_
  split
  · exact builds_enumClass hname hmembers hraw
  · exact builds_sealedClass hname hmembers hnames

end Enums

end Enum

/-! ## Programs -/

theorem builds_typeDecl (h : frame.Lowers place node) (hc : node.construct = .typeDecl kind decl) :
    frame.MakesNode role place [] fun descent => typeDecl descent kind decl range := by
  have hmember {member : Node} (hmember : member ∈ decl.members) :
      member.StandsIn .statement node :=
    .here (by simpa [hc] using hmember)
  have hname : frame.source decl.name := h.own hc List.mem_cons_self
  have hnames (member : Node) (hin : member ∈ decl.members) := h.partNames _ _ (hmember hin)
  cases kind with
  | structType =>
    refine TypeBody.builds_structDecl hname (h.all hc (by simp) fun _ => rfl) hnames
      fun member hin property hproperty value hvalue => ?_
    have hinit : value.StandsIn .value member := .here (by simpa [hproperty] using hvalue)
    exact h.part hc (hinit.trans (hmember hin)) rfl
  | classType => exact TypeBody.builds_classDecl hname (h.all hc (by simp) fun _ => rfl)
  | protocolType => exact TypeBody.builds_protocolDecl hname (h.all hc (by simp) fun _ => rfl)
  | enumType =>
    refine Enum.builds_enumDecl hname (h.all hc (by simp) fun _ => rfl) hnames
      fun member hin case hcase value hvalue => ?_
    have hraw : value.StandsIn .value member := .here (by simp [hcase, Option.mem_toList.1 hvalue])
    exact h.part hc (hraw.trans (hmember hin)) rfl

theorem builds_switchStmt (h : frame.Lowers place node)
    (hc : node.construct = .switchStmt subject cases) :
    frame.MakesNode role place [] fun descent =>
      Statement.switchStmt descent subject cases range := by
  refine Statement.builds_switchStmt (h.one hc (by simp) rfl)
    (fun case hcase pattern hpattern => ?_) fun case hcase statement hstatement => ?_
  · refine h.one hc (List.mem_append_right _ (List.mem_flatMap.2 ⟨case, hcase, ?_⟩)) rfl
    simpa using hpattern
  · refine h.one hc (List.mem_append_right _ (List.mem_flatMap.2 ⟨case, hcase, ?_⟩)) rfl
    simpa using Statement.withoutLastBreak_subset _ hstatement

theorem builds_importModule (name : String) :
    frame.MakesNodes role place [] fun _ => importModule name range := by
  refine .look keeps_read fun _ => ?_
  split
  · exact .pure (.refl _)
  · exact .pure (.around (by simp) (by simp))

theorem builds_unknown (hplain : frame.Plain (Expression.unknownComment kind range))
    (h : frame.AllAllowed place .statement children) :
    frame.MakesNodes .statement place [] fun descent => unknown descent kind children range := by
  refine (builds_sequence fun child hchild => h child (List.mem_filter.1 hchild).1).bind
    fun rest => .pure ?_
  have hcomment : frame.Around [] [Expression.unknownComment kind range] := .around hplain (by simp)
  exact hcomment.append (.refl rest)

theorem builds_lowerStatement (h : frame.LowersStatement place node) :
    frame.MakesNodes .statement place [] fun descent => lowerStatement descent node := by
  have one {action : Descent → Lower Kotlin.Node}
      (haction : frame.MakesNode .statement place [] action) :
      frame.MakesNodes .statement place [] fun descent => (do return [← action descent]) :=
    haction.bind fun _ => .pure (.refl _)
  unfold lowerStatement
  split
  · next hc =>
    exact (builds_statements (h.all hc (by simp) fun _ => rfl)).bind fun _ =>
      .pure (.around (by simp) (by simp))
  · exact builds_importModule _
  · next hc =>
    exact one (Function.builds_function (fun _ => h.own hc) (h.all hc (by simp) fun _ => rfl)
      (h.all hc (by simp) fun _ => rfl))
  · next hc =>
    refine one (Function.builds_initializer (fun _ => h.own hc) (h.all hc (by simp) fun _ => rfl)
      (h.all hc (by simp) fun _ => rfl) fun howner => ?_)
    exact h.refused _ (by simp [hc, Place.obstacle?, howner])
  · next hc =>
    refine one (Function.builds_variableDecl (h.own hc List.mem_cons_self)
      (h.all hc (by simp) fun _ => rfl) (h.all hc (by simp) fun _ => rfl) fun hstored howner => ?_)
    exact h.refused _ (by simp [hc, Place.obstacle?, hstored, howner])
  · next hc => exact one (builds_typeDecl h.toLowers hc)
  · exact one (.refuse rfl fun h => nomatch h)
  · next hc =>
    refine TypeBody.builds_extensionDecl (h.extension _ _ hc) fun member hmember => ?_
    exact h.one hc (by simpa using hmember) rfl
  · next hc =>
    have hgiven := frame.naming.own (h.own hc List.mem_cons_self)
    exact .after (silent_lowerTy _ _) fun _ => .pure (.around (by simpa using hgiven) (by simp))
  · next hc => exact one (Statement.builds_block (h.all hc (by simp) fun _ => rfl))
  · next hc =>
    refine one (Statement.builds_returnStmt (h.all hc (by simp) fun _ => rfl) fun hclosures => ?_)
    exact h.refused _ (by simp [hc, Place.obstacle?, hclosures])
  · next hc =>
    refine one (Statement.builds_ifStmt (h.all hc (by simp +contextual) fun _ => rfl)
      (fun branch hbranch items hitems item hitem => ?_) (fun _ => h.own hc)
      (h.all hc (by simp) fun _ => rfl) (h.all hc (by simp +contextual) fun _ => rfl))
    have hin : branch.StandsIn .statement node := .here (by simp [hc, Option.mem_def.1 hbranch])
    have hpart : item.StandsIn .statement branch := .here (by simpa [hitems] using hitem)
    exact h.part hc (hpart.trans hin) rfl
  · next hc =>
    exact Statement.builds_guardStmt (fun _ => h.own hc) (h.all hc (by simp) fun _ => rfl)
      (h.all hc (by simp) fun _ => rfl)
  · next hc =>
    refine one (Statement.builds_whileStmt ?_ ?_)
    · exact h.all hc (by simp) fun _ => rfl
    · exact h.one hc (by simp) rfl
  · next hc =>
    refine one (Statement.builds_repeatWhile ?_ ?_)
    · exact h.all hc (by simp) fun _ => rfl
    · exact h.one hc (by simp) rfl
  · next hc =>
    refine one (Statement.builds_forEach ?_ (h.own hc List.mem_cons_self) ?_)
    · exact h.all hc (by simp) fun _ => rfl
    · exact h.one hc (by simp) rfl
  · next hc => exact one (builds_switchStmt h.toLowers hc)
  · next hc =>
    refine one (.breakStmt (fun hcase => ?_) (h.left hc))
    exact h.refused _ (by simp [hc, Place.obstacle?, hcase])
  · exact .pure (.around (by simp) (by simp))
  · next hc =>
    exact (Builds.value (h.one hc (by simp) rfl)).bind fun _ => .pure (.around (by simp) (by simp))
  · exact one (.refuse rfl fun h => nomatch h)
  · next hc =>
    refine one (Statement.builds_doCatch (h.all hc (by simp +contextual) fun _ => rfl)
      (fun _ => h.own hc) fun clause hclause statement hstatement => ?_)
    refine h.one hc (Swift.mem_asStatements.2 ⟨rfl, List.mem_append_right _ ?_⟩) rfl
    exact List.mem_flatMap.2 ⟨clause, hclause, hstatement⟩
  · next hc => exact one (Statement.builds_assign (h.all hc (by simp) fun _ => rfl))
  · next hc =>
    split
    · next hop =>
      exact one (Statement.builds_compoundAssign hop (h.all hc (by simp) fun _ => rfl))
    · exact one (Expression.builds_lower (.of_isValue h.toLowers (.inl (by rw [hc]; rfl))))
  · next hc => exact .pure (.around (h.invalid _ _ hc) (by simp))
  · next hc => exact builds_unknown (h.unknown _ _ hc) (h.all hc (by simp) fun _ => rfl)
  · refine one (Expression.builds_lower (.of_isValue h.toLowers ?_))
    rw [Swift.Node.IsValue]
    cases hc : node.construct with
    | literal value => cases value <;> exact .inl rfl
    | wrapped form => cases form <;> exact .inl rfl
    | interpolated | reference | prefixUnary | call | member | implicitMember | subscript
    | arrayLiteral | dictionaryLiteral | tuple | closure | ternary | cast => exact .inl rfl
    | _ => exfalso; solve_by_elim

end SwiftToKotlin.Lowering
