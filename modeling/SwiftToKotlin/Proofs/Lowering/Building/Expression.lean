import SwiftToKotlin.Proofs.Lowering.Building

/-!
# How expressions are lowered

Lowering an expression lowers parts of it as values, in the place of the expression itself. Only
the body of a closure is a place of its own.
-/

namespace SwiftToKotlin.Lowering

open Swift (Node Argument Ty Role)
open Frame (Builds around_reference around_literal around_call around_binary around_member)

variable {frame : Frame}

theorem builds_sequence (h : frame.AllAllowed place .statement nodes) :
    frame.MakesNodes .statement place [] fun descent => descent.sequence nodes :=
  (Builds.mapM nodes fun node hnode => .statement (h node hnode)).bind fun _ =>
    .pure (.of_mem_iff (by simp))

theorem builds_statements (h : frame.AllAllowed place .statement nodes) :
    frame.MakesNodes role place [] fun descent => descent.statements nodes :=
  (builds_sequence h).inBlock

theorem builds_kept (h : frame.allowed place .value node) :
    frame.MakesNode role place [] fun descent => descent.kept node := by
  refine (Builds.value h).bind fun _ => .look (keeps_placedStruct node) fun _ => ?_
  split
  · exact .pure (.layer (by simp) (.around (by simp) (by simp)))
  · exact .after (silent_warn _ _) fun _ => .pure (.refl _)
  · exact .pure (.refl _)

theorem builds_keptList (h : frame.AllAllowed place .value nodes) :
    frame.MakesNodes role place [] fun descent => nodes.mapM descent.kept :=
  .nodes nodes fun node hnode => builds_kept (h node hnode)

theorem builds_valueList (h : frame.AllAllowed place .value nodes) :
    frame.MakesNodes role place [] fun descent => nodes.mapM descent.value :=
  .nodes nodes fun node hnode => .value (h node hnode)

theorem builds_caseName (enum case : String) :
    frame.Builds role place [] (fun _ => caseName enum case) (fun _ => []) frame.given :=
  .look keeps_types fun _ => .nameCase _ _ _

theorem builds_caseReference (enum case : String) :
    frame.MakesNode role place [] fun _ => caseReference enum case range :=
  (builds_caseName enum case).first fun _ _ => .pure (.layer (by simp) (around_reference _))

/-! ## Calls -/

namespace Call

theorem around_method (receiver) (name : String) (safe : Bool) :
    frame.Around [receiver] [method receiver name safe range] :=
  .layer (by simp) (.around (by simp) (by simp))

section

variable {arguments : List (Argument Node)}
  (h : frame.AllAllowed place .value (arguments.map Argument.value))

include h

theorem builds_namedArguments (names) :
    frame.Builds role place [] (fun descent => namedArguments descent names arguments)
      (List.map Kotlin.Argument.value) fun _ => True := by
  induction arguments generalizing names with
  | nil => exact .pure (.of_mem_iff (by simp))
  | cons argument rest ih =>
    have hrest := ih (fun node hnode => h node (List.mem_cons_of_mem _ hnode)) names.tail
    exact (builds_kept (h _ List.mem_cons_self)).bind fun _ =>
      hrest.bind fun _ => .pure (.of_mem_iff (by simp))

theorem builds_withArguments (callee names) :
    frame.MakesNode role place [callee] fun descent =>
      withArguments descent callee arguments names range := by
  unfold withArguments
  dsimp only
  split
  · next last hlast =>
    split
    · have hmem : last.value ∈ arguments.map Argument.value :=
        List.mem_map_of_mem (List.mem_of_getLast? hlast)
      have hfirst : frame.AllAllowed place .value (arguments.dropLast.map Argument.value) :=
        fun node hnode => h node (List.map_subset _ (List.dropLast_subset _) hnode)
      exact (Builds.value (h _ hmem)).bind fun _ => (builds_namedArguments hfirst _).bind fun _ =>
        .pure (.around (by simp) (by simp [or_comm]))
    · exact (builds_namedArguments h _).bind fun _ => .pure (.around (by simp) (by simp))
  · exact .pure (.around (by simp) (by simp))

end

@[simp] theorem parts_spacedParts (values) :
    (spacedParts values).flatMap Kotlin.TemplatePart.parts = values := by
  fun_induction spacedParts values with
  | case1 => rfl
  | case2 => rfl
  | case3 _ _ _ ih => simp [Kotlin.TemplatePart.parts, ih]

theorem builds_print (h : frame.AllAllowed place .value (arguments.map Argument.value)) :
    frame.MakesNode role place [] fun descent => print descent arguments range := by
  have hsome : frame.AllAllowed place .value
      ((arguments.filter (·.label.isNone)).map Argument.value) :=
    fun node hnode => h node (List.map_subset _ List.filter_sublist.subset hnode)
  refine .after (fun _ _ hreport => Keeps.forM _ (keeps_warnOfDropped fun _ _ =>
    silent_warn _ _ _ hreport)) fun _ => (builds_valueList hsome).bind fun values => .pure ?_
  rcases values with _ | ⟨value, _ | ⟨second, rest⟩⟩
  · exact around_call (around_reference _) _
  · exact around_call (around_reference _) _
  · have htemplate : frame.Around (value :: second :: rest)
        [⟨.template (spacedParts (value :: second :: rest)), range⟩] :=
      .around (by simp) (by simp)
    exact htemplate.trans (around_call (around_reference _) _)

theorem around_rawValueLookup (enum : String) (value) :
    frame.Around [value] [rawValueLookup enum value range] := by
  have hentries : frame.Around []
      [method (.reference (identifier enum) range) "values" false range] :=
    (around_reference _).trans (around_method _ _ _)
  have hfirst : frame.Around []
      [.member (method (.reference (identifier enum) range) "values" false range) "firstOrNull"
        range] :=
    .layer (by simp) hentries
  have hraw : frame.Around [] [.member (.reference "it" range) "rawValue" range] :=
    .layer (by simp) (around_reference _)
  exact .layer (by simp) (hfirst.append (.layer (by simp) (around_binary .eq hraw (.refl [value]))))

section

variable {arguments : List (Argument Node)}
  (h : frame.AllAllowed place .value (arguments.map Argument.value))

include h

theorem builds_construction (name : String) (callee : Node) :
    frame.MakesNode role place [] fun descent =>
      construction descent name callee arguments range := by
  have hcall (names : Option (List String)) : frame.MakesNode role place [] fun descent =>
      withArguments descent (.reference (identifier name) callee.range) arguments names range :=
    (builds_withArguments h _ names).handing (around_reference _)
  refine .look keeps_types fun _ => ?_
  dsimp only
  split
  · split
    · exact (Builds.value (h _ List.mem_cons_self)).bind fun _ => .pure (around_rawValueLookup _ _)
    · exact hcall _
  · exact hcall _

theorem builds_caseConstruction (enum case : String) (callee : Node) :
    frame.MakesNode role place [] fun descent =>
      caseConstruction descent enum case callee arguments range :=
  .look keeps_types fun _ => (builds_caseReference _ _).bind fun callee =>
    builds_withArguments h callee _

omit h in
theorem builds_converted (convert read : String) (h : frame.allowed place .value value) :
    frame.MakesNode role place [] fun descent => converted descent convert read value range :=
  .look (keeps_isText value) fun _ => (Builds.value h).bind fun _ => .pure (around_method _ _ _)

theorem builds_knownMethod (form) (hbase : frame.allowed place .value (chainTarget base).1) :
    frame.MakesNode role place [] fun descent => knownMethod descent form base arguments range := by
  unfold knownMethod
  generalize chainTarget base = chain at hbase ⊢
  refine (Builds.value hbase).bind fun _ => ?_
  split
  · have hreversed : frame.AllAllowed place .value (arguments.reverse.map Argument.value) := by
      simpa [Frame.AllAllowed] using h
    exact (builds_keptList hreversed).bind fun _ =>
      .pure (around_call (around_member (.refl _) _ _) _)
  · have hplain : frame.AllAllowed place .value
        ((arguments.map fun argument => { argument with label := none }).map Argument.value) := by
      simpa [Frame.AllAllowed] using h
    exact (builds_withArguments hplain _ _).handing (around_member (.refl _) _ _)

variable (hcallee : frame.allowed place .value callee)

include hcallee

theorem builds_plain :
    frame.MakesNode role place [] fun descent => plain descent callee arguments range :=
  (Builds.value hcallee).bind fun lowered => builds_withArguments h lowered _

theorem builds_ofName (name : String) :
    frame.MakesNode role place [] fun descent => ofName descent name callee arguments range := by
  refine .look keeps_types fun _ => ?_
  split
  · exact builds_construction h name callee
  · split
    · exact builds_print h
    · split
      · exact builds_converted _ _ (h _ List.mem_cons_self)
      · exact builds_plain h hcallee

theorem builds_ofMember (hbase : frame.allowed place .value (chainTarget base).1) (name : String) :
    frame.MakesNode role place [] fun descent =>
      ofMember descent base name callee arguments range := by
  refine .look (keeps_casePattern callee) fun _ => ?_
  split
  · exact builds_caseConstruction h _ _ _
  · refine .look (keeps_isText _) fun _ => ?_
    split
    · exact builds_knownMethod h _ hbase
    · exact builds_plain h hcallee

theorem builds_ofImplicitMember :
    frame.MakesNode role place [] fun descent =>
      ofImplicitMember descent callee arguments range := by
  refine .look (keeps_casePattern callee) fun _ => ?_
  split
  · exact builds_caseConstruction h _ _ _
  · exact builds_plain h hcallee

/-- A method may be called on what is inside of the base of its callee. -/
theorem builds_lower (hbase : ∀ base name, callee.construct = .member base name →
      frame.allowed place .value (chainTarget base).1) :
    frame.MakesNode role place [] fun descent => Call.lower descent callee arguments range := by
  unfold Call.lower
  split
  · exact builds_ofName h hcallee _
  · next base name hc => exact builds_ofMember h hcallee (hbase base name hc) name
  · exact builds_ofImplicitMember h hcallee
  · exact builds_plain h hcallee

end

end Call

/-! ## Expressions -/

namespace Expression

theorem builds_templatePart {segment : Node} (h : frame.allowed place .value segment) :
    frame.Builds role place [] (fun descent => templatePart descent segment)
      Kotlin.TemplatePart.parts fun _ => True := by
  unfold templatePart
  split
  · exact .pure (.refl _)
  · exact (Builds.value h).bind fun _ => .pure (.refl _)

theorem builds_binary (operator : String) (h : frame.AllAllowed place .value [lhs, rhs]) :
    frame.MakesNode role place [] fun descent => binary descent operator lhs rhs range := by
  unfold binary
  split
  · exact .refuse rfl fun h => nomatch h
  · split
    · exact (Builds.value (h lhs (by simp))).bind fun _ =>
        (Builds.value (h rhs (by simp))).bind fun _ => .pure (.around (by simp) (by simp))
    · exact .refuse rfl fun h => nomatch h

theorem builds_prefixUnary (operator : String) (h : frame.allowed place .value operand) :
    frame.MakesNode role place [] fun descent => prefixUnary descent operator operand range := by
  unfold prefixUnary
  split
  · exact (Builds.value h).bind fun _ => .pure (Call.around_method _ _ _)
  · split
    · exact (Builds.value h).bind fun _ => .pure (.around (by simp) (by simp))
    · exact .refuse rfl fun h => nomatch h

theorem builds_tuple (h : frame.AllAllowed place .value items) :
    frame.MakesNode role place [] fun descent => tuple descent items range := by
  unfold tuple
  split
  · exact .pure (around_reference _)
  · exact .value (h _ List.mem_cons_self)
  · exact (builds_keptList h).bind fun _ => .pure (around_call (around_reference _) _)
  · exact (builds_keptList h).bind fun _ => .pure (around_call (around_reference _) _)
  · exact .refuse rfl fun h => nomatch h

theorem builds_dictionaryEntry (h : frame.AllAllowed place .value [entry.1, entry.2]) :
    frame.MakesNode role place [] fun descent => dictionaryEntry descent range entry :=
  (Builds.value (h entry.1 (by simp))).bind fun _ =>
    (builds_kept (h entry.2 (by simp))).bind fun _ => .pure (.around (by simp) (by simp))

theorem builds_subscript (hindex : frame.allowed place .value index)
    (hbase : frame.allowed place .value (chainTarget base).1) :
    frame.MakesNode role place [] fun descent => subscript descent base index range := by
  refine (Builds.value hindex).bind fun position => (Builds.value hbase).bind fun receiver => ?_
  split
  · exact .pure (.trans (.of_mem_iff (by simp [or_comm]))
      (around_call (around_member (.refl [receiver]) _ _) [position]))
  · exact .pure (.around (by simp) (by simp [or_comm]))

theorem around_property (receiver type) (name : String) (safe : Bool) :
    frame.Around [receiver] [property receiver type name safe range] := by
  have hplain (name : String) : frame.Around [receiver] [⟨.member receiver name safe, range⟩] :=
    around_member (.refl _) _ _
  have hmethod (name : String) : frame.Around [receiver] [Call.method receiver name safe range] :=
    Call.around_method _ _ _
  unfold property
  dsimp only
  split
  · exact hplain _
  · exact hmethod _
  · split
    · exact hmethod _
    · exact hplain _
  · split
    · exact hmethod _
    · exact hplain _
  · exact hplain _

theorem builds_member (h : frame.allowed place .value (chainTarget base).1) (name : String) :
    frame.MakesNode role place [] fun descent => member descent base name range := by
  refine .look keeps_types fun _ => ?_
  split
  · exact builds_caseReference _ _
  · exact .look (keeps_typeOf _) fun _ => (Builds.value h).bind fun _ =>
      .pure (around_property _ _ _ _)

theorem builds_implicitMember (name : String) (ty) :
    frame.MakesNode role place [] fun _ => implicitMember name ty range := by
  refine .look keeps_types fun _ => .look keeps_surroundings fun _ => ?_
  split
  · exact builds_caseReference _ _
  · split
    · exact .pure (.layer (by simp) (around_reference _))
    · exact .refuse rfl fun h => nomatch h

section

variable (h : frame.AllAllowed place .statement body)
  (hvalue : ∀ node ∈ body, ∀ value, node.construct = .returnStmt (some value) →
    frame.allowed place .value value)

theorem builds_lastStatement (h : frame.allowed place .statement node)
    (hvalue : ∀ value, node.construct = .returnStmt (some value) →
      frame.allowed place .value value) :
    frame.MakesNodes .statement place [] fun descent => lastStatement descent node := by
  unfold lastStatement
  split
  · next value hc => exact (builds_kept (hvalue value hc)).bind fun _ => .pure (.refl _)
  · exact .pure (.refl _)
  · exact .statement h

include h hvalue

theorem builds_closureBody :
    frame.MakesNodes .statement place [] fun descent => closureBody descent body := by
  unfold closureBody
  split
  · next last hlast =>
    have hlastIn := List.mem_of_getLast? hlast
    exact (builds_statements fun node hnode => h node (List.dropLast_subset _ hnode)).bind fun _ =>
      (builds_lastStatement (h last hlastIn) (hvalue last hlastIn)).bind fun _ => .pure (.refl _)
  · exact .pure (.refl _)

end

theorem builds_closure (hparams : ∀ name ∈ params, frame.source name)
    (h : frame.AllAllowed (place.enter .closure) .statement body)
    (hvalue : ∀ node ∈ body, ∀ value, node.construct = .returnStmt (some value) →
      frame.allowed (place.enter .closure) .value value) :
    frame.MakesNode role place [] fun descent => closure descent params body range := by
  have hdeclared : frame.MakesNodes .statement (place.enter .closure) [] fun descent => (do
      params.forM (declare · none)
      closureBody descent body) := by
    clear hparams
    induction params with
    | nil => simpa using builds_closureBody h hvalue
    | cons param rest ih => simpa using (Builds.declare param none).first fun _ _ => ih
  refine hdeclared.inClosure.bind fun made => .pure (.around ?_ (by simp))
  intro name hname
  split at hname
  · obtain ⟨index, -, rfl⟩ := List.mem_map.1 hname
    exact frame.naming.anonymous index
  · obtain ⟨param, hparam, rfl⟩ := List.mem_map.1 hname
    exact frame.naming.own (hparams param hparam)

theorem builds_wrapped (form) {inner : Node} (h : frame.allowed place .value inner) :
    frame.MakesNode role place [] fun descent => wrapped descent form inner range := by
  refine (Builds.value h).bind fun lowered => ?_
  split
  · exact .pure (.around (by simp) (by simp))
  · have hlambda : frame.Around [lowered] [⟨.lambda [] [lowered], range⟩] :=
      .around (by simp) (by simp)
    have hattempt : frame.Around [lowered]
        [⟨.call (.reference "runCatching" range) [] (some ⟨.lambda [] [lowered], range⟩), range⟩] :=
      .layer (by simp) ((around_reference _).append hlambda)
    exact .pure (hattempt.trans (Call.around_method _ _ _))
  · exact .pure (.refl _)

theorem builds_ternary (h : frame.AllAllowed place .value [test, thenValue, elseValue]) :
    frame.MakesNode role place [] fun descent => ternary descent test thenValue elseValue range :=
  (Builds.value (h test (by simp))).bind fun _ =>
    (builds_kept (h thenValue (by simp))).bind fun _ =>
      (builds_kept (h elseValue (by simp))).bind fun _ => .pure (.around (by simp) (by simp))

/-- What is refused as a value is none. -/
theorem builds_lower (h : frame.LowersValue place node) :
    frame.MakesNode role place [] fun descent => Expression.lower descent node := by
  unfold Expression.lower
  split
  · exact .pure (around_literal _)
  · next segments hc =>
    have hparts : frame.AllAllowed place .value segments := h.all hc (by simp) fun _ => rfl
    exact (Builds.mapM segments fun segment hmem => builds_templatePart (hparts segment hmem)).bind
      fun _ => .pure (.around (by simp) (by simp))
  · exact .reference _ _
  · next hc => exact builds_binary _ (h.all hc (by simp) fun _ => rfl)
  · next hc => exact builds_prefixUnary _ (h.one hc (by simp) rfl)
  · exact .refuse rfl fun h => nomatch h
  · next callee arguments hc =>
    have hparts : frame.AllAllowed place .value (callee :: arguments.map Argument.value) :=
      h.all hc (by simp) fun _ => rfl
    have hcallee : callee.StandsIn .value node := .here (by simp [hc])
    refine Call.builds_lower (fun value hvalue => hparts value (List.mem_cons_of_mem _ hvalue))
      (hparts callee List.mem_cons_self) fun base name hmember => ?_
    have hbase : base.StandsIn .value callee := .here (by simp [hmember])
    exact h.target hc (hbase.trans hcallee) fun _ => rfl
  · next hc => exact builds_member (h.target hc (.here (by simp [hc])) fun _ => rfl) _
  · exact builds_implicitMember _ _
  · next hc =>
    exact builds_subscript (h.one hc (by simp) rfl)
      (h.target hc (.here (by simp [hc])) fun _ => rfl)
  · next hc =>
    exact (builds_keptList (h.all hc (by simp) fun _ => rfl)).bind fun _ =>
      .pure (around_call (around_reference _) _)
  · next entries hc =>
    refine (Builds.nodes entries fun entry hentry => builds_dictionaryEntry ?_).bind fun _ =>
      .pure (around_call (around_reference _) _)
    refine h.all hc (fun part hpart => ?_) fun _ => rfl
    exact Swift.mem_asValues.2 ⟨rfl, List.mem_flatMap.2 ⟨entry, hentry, hpart⟩⟩
  · next hc => exact builds_tuple (h.all hc (by simp) fun _ => rfl)
  · next params body hc =>
    refine builds_closure (fun name hname => h.own hc hname) (h.all hc (by simp) fun _ => rfl)
      fun last hlast value hreturn => ?_
    have hin : last.StandsIn .statement node := .here (by simpa [hc] using hlast)
    have hvalue : value.StandsIn .value last := .here (by simp [hreturn])
    exact h.part hc (hvalue.trans hin) rfl
  · next hc => exact builds_ternary (h.all hc (by simp) fun _ => rfl)
  · next hc => exact builds_wrapped _ (h.one hc (by simp) rfl)
  · next hc =>
    exact (Builds.value (h.one hc (by simp) rfl)).bind fun _ =>
      .after (silent_lowerTy _ _) fun _ => .pure (.around (by simp) (by simp))
  · next hc => exact .pure (.around (h.invalid _ _ hc) (by simp))
  · next hc => exact .pure (.around (h.unknown _ _ hc) (by simp))
  · refine .refuse rfl fun _ => h.refused fun hvalue => ?_
    rw [Swift.Node.IsValue] at hvalue
    cases hc : node.construct with
    | literal | interpolated | reference | binary | prefixUnary | assign | call | member
    | implicitMember | subscript | arrayLiteral | dictionaryLiteral | tuple | closure | ternary
    | wrapped | cast | invalid | unknown => solve_by_elim
    | _ =>
      rw [hc] at hvalue
      rcases hvalue with hvalue | hvalue <;> cases hvalue

end Expression

end SwiftToKotlin.Lowering
