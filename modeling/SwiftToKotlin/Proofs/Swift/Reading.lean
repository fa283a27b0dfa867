import SwiftToKotlin.Proofs.Swift.Reading.Parts

/-!
# What reading one dump node can give

A node is read as the construct that the catalogue names for its kind; in particular reading never
gives a placeholder for a node that it refuses. A construct draws its parts from below the node, and
whatever it has where a value is expected has been checked to be of a kind of expressions, or of a
kind that is not known. The one part that is not drawn from the dump is the return that stands for
the single expression of a closure: it is made up around a child. A dump that is told in another way
is read as the same construct, with other ranges and over parts that are told in that way.
-/

namespace SwiftToKotlin.Swift

open Dump.Node (Below)

namespace Reading

variable {r : Retelling}

section Attributes

variable (r : Retelling) (raw : Dump.Node) (h : key ∈ keys)

include h

theorem attr_retell : attr (r.retell raw) key = attr raw key := by
  unfold attr
  rw [r.attr_retell raw key h]

theorem requiredTy_retell : requiredTy (r.retell raw) key = requiredTy raw key := by
  unfold requiredTy
  rw [attr_retell r raw h]

theorem optionalTy_retell : optionalTy (r.retell raw) key = optionalTy raw key := by
  unfold optionalTy
  rw [r.attr_retell raw key h]

omit h in
theorem expectKind_retell (kind : String) :
    expectKind kind (r.retell raw) = expectKind kind raw := by
  unfold expectKind
  rw [r.kind_retell]

omit h in
theorem accessorKind_retell : accessorKind (r.retell raw) = accessorKind raw := by
  unfold accessorKind
  simp (disch := decide) only [r.attr_retell]

end Attributes

/-! ## Values and bodies -/

theorem expression_agrees (raw) (h : child.Below raw) :
    Agree (fun value => Supplied raw (asValues [value])) r.retell (expression child)
      (expression (r.retell child)) := by
  unfold expression
  rw [r.kind_retell]
  exact .ite (fun hvalue => .ok (.values (by simpa using ⟨h, hvalue⟩)) rfl) fun _ => .error _

theorem expressions_agree (h : children ⊆ raw.children) :
    Agree (fun values => Supplied raw (asValues values)) (List.map r.retell)
      (children.mapM expression) ((children.map r.retell).mapM expression) :=
  (Agree.mapM fun _ hchild => expression_agrees raw (.child (h hchild))).mono fun _ hall =>
    .values fun value hvalue => (hall value hvalue).of_mem_values (by simp)

theorem braces_agree (raw) (h : body ∈ raw.children) :
    Agree (DrawsFrom raw) (List.map r.retell) (braces body) (braces (r.retell body)) := by
  unfold braces
  rw [expectKind_retell, r.children_retell]
  exact .same fun _ => .pure (fun _ hpart => .grandchild h hpart) rfl

theorem onlyChild_agrees :
    Agree (· ∈ raw.children) r.retell (onlyChild raw) (onlyChild (r.retell raw)) := by
  unfold onlyChild
  rw [r.children_retell]
  rcases raw.children with _ | ⟨child, _ | ⟨second, rest⟩⟩
  · exact .error _
  · exact .ok (by simp) rfl
  · simp only [List.map_cons, List.length_cons, List.length_map]
    exact .error _

theorem param_agrees : Agree (fun param => Supplied raw (asValues param.parts))
    (Param.map r.retell) (param raw) (param (r.retell raw)) := by
  unfold param paramLabel
  simp (disch := decide) only [r.kind_retell, attr_retell, requiredTy_retell, r.attr_retell,
    r.children_retell]
  refine .checked (.same fun _ => .same fun _ => ?_)
  rcases h : raw.children with _ | ⟨value, _ | ⟨second, rest⟩⟩
  · exact .pure .nil rfl
  · exact (expression_agrees raw (.child (by simp [h]))).bind fun _ hvalue => .pure hvalue rfl
  · exact .error _

theorem params_agree (h : list ∈ raw.children) :
    Agree (fun params => Supplied raw (asValues (params.flatMap Param.parts)))
      (List.map (Param.map r.retell)) (params list) (params (r.retell list)) := by
  unfold params
  rw [r.children_retell]
  exact (Agree.mapM fun _ hitem => param_agrees.mono fun _ hparam =>
    Supplied.deeper h (.deeper hitem hparam)).mono fun _ hall => .allValues hall

/-! ## Declarations -/

theorem optionalBody_agrees (h : children ⊆ raw.children) :
    Agree (fun body => DrawsFrom raw (body.getD [])) (Option.map (List.map r.retell))
      (optionalBody children) (optionalBody (children.map r.retell)) := by
  rcases children with _ | ⟨child, _ | ⟨extra, rest⟩⟩
  · exact .ok (by simp [DrawsFrom]) rfl
  · simp only [optionalBody, List.map_cons, r.kind_retell, r.children_retell]
    exact .ite (fun _ => .ok (fun _ hpart => .grandchild (h (by simp)) hpart) rfl) fun _ => .error _
  · simp only [optionalBody, List.map_cons, r.kind_retell]
    exact .ite (fun _ => .error _) fun _ => .error _

theorem signature_agrees : Agree (fun result =>
    Supplied raw (asValues (result.1.flatMap Param.parts) ++ asStatements (result.2.getD [])))
    (Prod.map (List.map (Param.map r.retell)) (Option.map (List.map r.retell)))
    (signature raw.children) (signature (raw.children.map r.retell)) := by
  have hall := optionalBody_agrees (r := r) (List.Subset.refl raw.children)
  rcases h : raw.children with _ | ⟨first, rest⟩
  · exact .ok .nil rfl
  · rw [h] at hall
    simp only [signature, List.map_cons, r.kind_retell]
    refine .ite (fun _ => ?_) fun _ => hall.bind fun _ hbody => .pure (.statements hbody) rfl
    exact (optionalBody_agrees (by simp [h])).bind fun _ hbody =>
      (params_agree (by simp [h])).bind fun _ hparams =>
        .pure (hparams.append (.statements hbody)) rfl

theorem function_agrees : AgreeLayer r raw .function (function raw) (function (r.retell raw)) := by
  unfold function
  simp (disch := decide) only [attr_retell, optionalTy_retell, r.children_retell, r.has_retell]
  exact .same fun _ => .same fun _ => signature_agrees.bind fun _ hparts => .pure ⟨rfl, hparts⟩ rfl

theorem initializer_agrees :
    AgreeLayer r raw .initializer (initializer raw) (initializer (r.retell raw)) := by
  unfold initializer
  rw [r.children_retell]
  exact signature_agrees.bind fun _ hparts => .pure ⟨rfl, hparts⟩ rfl

theorem initialValue_agrees (h : children ⊆ raw.children) :
    Agree (fun init => Supplied raw (asValues init.toList)) (Option.map r.retell)
      (initialValue children) (initialValue (children.map r.retell)) := by
  rcases children with _ | ⟨value, _ | ⟨second, rest⟩⟩
  · exact .ok .nil rfl
  · exact (expression_agrees raw (.child (h (by simp)))).bind fun _ hvalue => .pure hvalue rfl
  · exact .error _

theorem accessorBody_agrees : Agree (fun body => DrawsFrom raw (body.getD []))
    (Option.map (List.map r.retell)) (accessorBody raw) (accessorBody (r.retell raw)) := by
  unfold accessorBody
  rw [r.children_retell]
  rcases h : raw.children with _ | ⟨body, _ | ⟨second, rest⟩⟩
  · exact .ok (by simp [DrawsFrom]) rfl
  · simp only [List.map_cons, List.map_nil, r.kind_retell, r.children_retell]
    exact .ite (fun _ => .ok (fun _ hpart => .grandchild (by simp [h]) hpart) rfl) fun _ => .error _
  · exact .error _

theorem accessors_agree (h : own ⊆ raw.children) (seen) :
    Agree (fun accessors => DrawsFrom raw (accessors.flatMap Accessor.parts))
      (List.map (Accessor.map r.retell)) (accessors seen own)
      (accessors seen (own.map r.retell)) := by
  induction own generalizing seen with
  | nil => exact .ok (by simp [DrawsFrom]) rfl
  | cons first rest ih =>
    obtain ⟨hfirst, hrest⟩ := List.cons_subset.1 h
    simp only [List.map_cons, accessors, accessorKind_retell]
    refine .same fun kind => .checked (accessorBody_agrees.bind fun _ hbody =>
      (ih hrest _).bind fun _ haccessors => .pure ?_ rfl)
    exact List.forall_mem_append.2 ⟨fun part hpart => .deeper hfirst (hbody part hpart), haccessors⟩

theorem filter_retell (raws : List Dump.Node) (hp : ∀ raw, p (r.retell raw) = p raw) :
    (raws.map r.retell).filter p = (raws.filter p).map r.retell := by
  rw [List.filter_map]
  simp [Function.comp_def, hp]

theorem variableDecl_agrees :
    AgreeLayer r raw .variableDecl (variableDecl raw) (variableDecl (r.retell raw)) := by
  unfold variableDecl
  simp (disch := decide) only [attr_retell, optionalTy_retell, r.children_retell, r.has_retell,
    List.partition_eq_filter_filter]
  rw [filter_retell _ (by simp [r.kind_retell]), filter_retell _ (by simp [r.kind_retell])]
  exact .same fun _ => .same fun _ =>
    (initialValue_agrees (List.filter_subset_self _)).bind fun _ hinit =>
      (accessors_agree (List.filter_subset_self _) _).bind fun _ haccessors =>
        .pure ⟨rfl, hinit.append (.statements haccessors)⟩ rfl

theorem caseParts_agree (list rawValue) (hchildren : children ⊆ raw.children)
    (hlist : list.toList ⊆ raw.children) (hraw : Supplied raw (asValues rawValue.toList)) :
    Agree (fun result => result.1.toList ⊆ raw.children ∧ Supplied raw (asValues result.2.toList))
      (Prod.map (Option.map r.retell) (Option.map r.retell)) (caseParts list rawValue children)
      (caseParts (list.map r.retell) (rawValue.map r.retell) (children.map r.retell)) := by
  induction children generalizing list rawValue with
  | nil => exact .ok ⟨hlist, hraw⟩ rfl
  | cons child rest ih =>
    obtain ⟨hchild, hrest⟩ := List.cons_subset.1 hchildren
    simp only [List.map_cons, caseParts, r.kind_retell, Option.isNone_map]
    refine .ite (fun _ => ih (some child) rawValue hrest (by simpa using hchild) hraw) fun _ =>
      .ite (fun _ => ?_) fun _ => .error _
    exact (expression_agrees raw (.child hchild)).bind fun found hvalue =>
      ih list (some found) hrest hlist hvalue

theorem enumCase_agrees : AgreeLayer r raw .enumCase (enumCase raw) (enumCase (r.retell raw)) := by
  unfold enumCase
  simp (disch := decide) only [attr_retell, r.children_retell]
  refine .same fun _ => (caseParts_agree none none (List.Subset.refl _) (by simp) .nil).bind ?_
  rintro ⟨_ | list, _ | value⟩ hparts
  · exact .pure ⟨rfl, hparts.2⟩ rfl
  · exact .pure ⟨rfl, hparts.2⟩ rfl
  · exact (params_agree (hparts.1 (by simp))).bind fun _ hparams =>
      .pure ⟨rfl, by simpa using hparams⟩ rfl
  · exact .error _

/-! ## Statements -/

theorem condition_agrees (raw) (h : test ∈ raw.children) :
    Agree (fun condition => Supplied raw (asValues condition.parts))
      (fun condition => (condition.map r.retell).relocate r.move) (condition test)
      (condition (r.retell test)) := by
  unfold condition
  simp (disch := decide) only [r.kind_retell, r.attr_retell, r.children_retell, r.range_retell]
  refine .ite (fun _ => ?_) fun _ =>
    (expression_agrees raw (.child h)).bind fun _ hvalue => .pure hvalue rfl
  cases test.attr "name" with
  | none => exact .error _
  | some name =>
    rcases hchild : test.children with _ | ⟨value, _ | ⟨second, rest⟩⟩
    · exact .error _
    · exact (expression_agrees raw (.grandchild h (by simp [hchild]))).bind fun _ hvalue =>
        .pure hvalue rfl
    · exact .error _

theorem elseBranch_agrees (h : other ∈ raw.children) :
    Agree (fun branch => DrawsFrom raw [branch]) r.retell (elseBranch other)
      (elseBranch (r.retell other)) := by
  unfold elseBranch
  simp only [r.kind_retell]
  exact .ite (fun _ => .ok (by simpa [DrawsFrom] using Below.child h) rfl) fun _ => .error _

theorem ifStmt_agrees : AgreeLayer r raw .ifStmt (ifStmt raw) (ifStmt (r.retell raw)) := by
  unfold ifStmt
  rw [r.children_retell]
  rcases h : raw.children with _ | ⟨test, _ | ⟨thenBranch, rest⟩⟩
  · exact .error _
  · exact .error _
  · refine (condition_agrees raw (by simp [h])).bind fun _ hcondition =>
      (braces_agree raw (by simp [h])).bind fun _ hthen => ?_
    rcases rest with _ | ⟨other, rest⟩
    · exact .pure ⟨rfl, hcondition.append (.statements (by simpa using hthen))⟩ rfl
    · exact (elseBranch_agrees (by simp [h])).bind fun _ helse =>
        .pure ⟨rfl, hcondition.append (.statements (List.forall_mem_append.2 ⟨hthen, helse⟩))⟩ rfl

theorem guardStmt_agrees :
    AgreeLayer r raw .guardStmt (guardStmt raw) (guardStmt (r.retell raw)) := by
  unfold guardStmt
  rw [r.children_retell]
  rcases h : raw.children with _ | ⟨test, _ | ⟨body, _ | ⟨extra, rest⟩⟩⟩
  · exact .error _
  · exact .error _
  · exact (condition_agrees raw (by simp [h])).bind fun _ hcondition =>
      (braces_agree raw (by simp [h])).bind fun _ hbody =>
        .pure ⟨rfl, hcondition.append (.statements hbody)⟩ rfl
  · exact .error _

theorem whileStmt_agrees :
    AgreeLayer r raw .whileStmt (whileStmt raw) (whileStmt (r.retell raw)) := by
  unfold whileStmt
  rw [r.children_retell]
  rcases h : raw.children with _ | ⟨test, _ | ⟨body, _ | ⟨extra, rest⟩⟩⟩
  · exact .error _
  · exact .error _
  · exact (expression_agrees raw (.child (by simp [h]))).bind fun _ htest =>
      (braces_agree raw (by simp [h])).bind fun _ hbody =>
        .pure ⟨rfl, htest.append (.statements hbody)⟩ rfl
  · exact .error _

theorem repeatWhile_agrees :
    AgreeLayer r raw .repeatWhile (repeatWhile raw) (repeatWhile (r.retell raw)) := by
  unfold repeatWhile
  rw [r.children_retell]
  rcases h : raw.children with _ | ⟨body, _ | ⟨test, _ | ⟨extra, rest⟩⟩⟩
  · exact .error _
  · exact .error _
  · exact (braces_agree raw (by simp [h])).bind fun _ hbody =>
      (expression_agrees raw (.child (by simp [h]))).bind fun _ htest =>
        .pure ⟨rfl, (Supplied.statements hbody).append htest⟩ rfl
  · exact .error _

theorem forEach_agrees : AgreeLayer r raw .forEach (forEach raw) (forEach (r.retell raw)) := by
  unfold forEach
  simp (disch := decide) only [attr_retell, r.children_retell]
  refine .same fun _ => ?_
  rcases h : raw.children with _ | ⟨sequence, _ | ⟨body, _ | ⟨extra, rest⟩⟩⟩
  · exact .error _
  · exact .error _
  · exact (expression_agrees raw (.child (by simp [h]))).bind fun _ hsequence =>
      (braces_agree raw (by simp [h])).bind fun _ hbody =>
        .pure ⟨rfl, hsequence.append (.statements hbody)⟩ rfl
  · exact .error _

theorem switchCase_agrees (seenDefault : Bool) :
    Agree (fun case => Supplied raw (asValues case.patterns ++ asStatements case.body))
      (fun case => (case.map r.retell).relocate r.move) (switchCase seenDefault raw)
      (switchCase seenDefault (r.retell raw)) := by
  unfold switchCase
  simp (disch := decide) only [expectKind_retell, r.has_retell, r.children_retell,
    r.range_retell, List.getLast?_map, ← List.map_dropLast, List.isEmpty_map]
  refine .same fun _ => .checked ?_
  cases hbody : raw.children.getLast? with
  | none => exact .error _
  | some body =>
    refine (braces_agree raw (List.mem_of_getLast? hbody)).bind fun _ hbody => .checked ?_
    exact (expressions_agree (List.dropLast_subset _)).bind fun _ hpatterns =>
      .pure (hpatterns.append (.statements hbody)) rfl

theorem switchCases_agree (h : cases ⊆ raw.children) (seenDefault : Bool) :
    Agree (∀ case ∈ ·, Supplied raw (asValues case.patterns ++ asStatements case.body))
      (List.map fun case => (case.map r.retell).relocate r.move) (switchCases seenDefault cases)
      (switchCases seenDefault (cases.map r.retell)) := by
  induction cases generalizing seenDefault with
  | nil => exact .ok (by simp) rfl
  | cons first rest ih =>
    obtain ⟨hfirst, hrest⟩ := List.cons_subset.1 h
    simp (disch := decide) only [List.map_cons, switchCases, r.has_retell]
    exact (switchCase_agrees seenDefault).bind fun _ hcase => (ih hrest _).bind fun _ hcases =>
      .pure (List.forall_mem_cons.2 ⟨.deeper hfirst hcase, hcases⟩) rfl

theorem switchStmt_agrees :
    AgreeLayer r raw .switchStmt (switchStmt raw) (switchStmt (r.retell raw)) := by
  unfold switchStmt
  rw [r.children_retell]
  rcases h : raw.children with _ | ⟨subject, cases⟩
  · exact .error _
  · refine (expression_agrees raw (.child (by simp [h]))).bind fun _ hsubject =>
      (switchCases_agree (by simp [h]) false).bind fun _ hcases =>
        .pure ⟨rfl, hsubject.append (.flatMap hcases)⟩ ?_
    simp [Construct.carry, Construct.map, Construct.relocate]

theorem catchClause_agrees : Agree (fun clause => DrawsFrom raw clause.body)
    (fun clause => (clause.map r.retell).relocate r.move) (catchClause raw)
    (catchClause (r.retell raw)) := by
  unfold catchClause
  simp (disch := decide) only [expectKind_retell, r.attr_retell, r.children_retell,
    r.range_retell, optionalTy_retell]
  refine .same fun _ => ?_
  rcases h : raw.children with _ | ⟨body, _ | ⟨extra, rest⟩⟩
  · exact .error _
  · exact (braces_agree raw (by simp [h])).bind fun _ hbody => .same fun _ => .pure hbody rfl
  · exact .error _

theorem doCatch_agrees : AgreeLayer r raw .doCatch (doCatch raw) (doCatch (r.retell raw)) := by
  unfold doCatch
  rw [r.children_retell]
  rcases h : raw.children with _ | ⟨body, catches⟩
  · exact .error _
  · simp only [List.map_cons, List.isEmpty_map]
    have hclause (clause : Dump.Node) (hmem : clause ∈ catches) :
        Agree (fun made => DrawsFrom raw made.body)
          (fun made => (made.map r.retell).relocate r.move) (catchClause clause)
          (catchClause (r.retell clause)) :=
      catchClause_agrees.mono fun _ hbody part hpart =>
        .deeper (by simp [h, hmem]) (hbody part hpart)
    refine (braces_agree raw (by simp [h])).bind fun _ hbody => .checked
      ((Agree.mapM hclause).bind fun _ hcatches => .pure ⟨rfl, .statements ?_⟩ ?_)
    · exact List.forall_mem_append.2 ⟨hbody, DrawsFrom.flatMap hcatches⟩
    · simp [Construct.carry, Construct.map, Construct.relocate]

/-! ## Expressions -/

theorem two_agree {f : Dump.Node → Dump.Node → Construct Dump.Node}
    (h : raw.children = [first, second]) (htag : ∀ first second, (f first second).tag = tag)
    (hpositions : ∀ first second, (f first second).positions = asValues [first, second])
    (hf : ∀ first second,
      f (r.retell first) (r.retell second) = (f first second).carry r.move r.retell) :
    AgreeLayer r raw tag (do return f (← expression first) (← expression second))
      (do return f (← expression (r.retell first)) (← expression (r.retell second))) := by
  refine (expression_agrees raw (.child (by simp [h]))).bind fun _ hfirst =>
    (expression_agrees raw (.child (by simp [h]))).bind fun _ hsecond =>
      .pure ⟨htag _ _, ?_⟩ (hf _ _)
  rw [hpositions]
  exact hfirst.append hsecond

theorem binary_agrees : AgreeLayer r raw .binary (binary raw) (binary (r.retell raw)) := by
  unfold binary
  simp (disch := decide) only [attr_retell, r.children_retell]
  refine .same fun operator => ?_
  rcases h : raw.children with _ | ⟨lhs, _ | ⟨rhs, _ | ⟨extra, rest⟩⟩⟩
  · exact .error _
  · exact .error _
  · exact two_agree h (fun _ _ => rfl) (fun _ _ => rfl) fun _ _ => rfl
  · exact .error _

theorem assign_agrees : AgreeLayer r raw .assign (assign raw) (assign (r.retell raw)) := by
  unfold assign
  rw [r.children_retell]
  rcases h : raw.children with _ | ⟨target, _ | ⟨value, _ | ⟨extra, rest⟩⟩⟩
  · exact .error _
  · exact .error _
  · exact two_agree h (fun _ _ => rfl) (fun _ _ => rfl) fun _ _ => rfl
  · exact .error _

theorem subscript_agrees :
    AgreeLayer r raw .subscript (subscript raw) (subscript (r.retell raw)) := by
  unfold subscript
  rw [r.children_retell]
  rcases h : raw.children with _ | ⟨base, _ | ⟨index, _ | ⟨extra, rest⟩⟩⟩
  · exact .error _
  · exact .error _
  · exact two_agree h (fun _ _ => rfl) (fun _ _ => rfl) fun _ _ => rfl
  · exact .error _

theorem argument_agrees (raw) (h : item ∈ raw.children) :
    Agree (fun argument => Supplied raw (asValues [argument.value])) (Argument.map r.retell)
      (argument item) (argument (r.retell item)) := by
  unfold argument
  simp (disch := decide) only [r.kind_retell, r.attr_retell, r.children_retell]
  refine .ite (fun _ => ?_) fun _ =>
    (expression_agrees raw (.child h)).bind fun _ hvalue => .pure hvalue rfl
  rcases hchild : item.children with _ | ⟨value, _ | ⟨extra, rest⟩⟩
  · exact .error _
  · exact (expression_agrees raw (.grandchild h (by simp [hchild]))).bind fun _ hvalue =>
      .pure hvalue rfl
  · exact .error _

theorem call_agrees : AgreeLayer r raw .call (call raw) (call (r.retell raw)) := by
  unfold call
  rw [r.children_retell]
  rcases h : raw.children with _ | ⟨callee, arguments⟩
  · exact .error _
  · refine (expression_agrees raw (.child (by simp [h]))).bind fun _ hcallee =>
      (Agree.mapM fun item hitem => argument_agrees raw (by simp [h, hitem])).bind
        fun _ harguments => .pure ⟨rfl, hcallee.append (.values fun part hpart => ?_)⟩ rfl
    obtain ⟨argument, hargument, rfl⟩ := List.mem_map.1 hpart
    exact (harguments argument hargument).of_mem_values (by simp)

theorem mem_of_mem_pairs (h : entry ∈ pairs nodes) : entry.1 ∈ nodes ∧ entry.2 ∈ nodes := by
  fun_induction pairs nodes with
  | case1 key value rest ih =>
    rcases List.mem_cons.1 h with rfl | h
    · simp
    · simp [ih h]
  | case2 => cases h

theorem pairs_retell (raws) :
    pairs (raws.map r.retell) =
      (pairs raws).map fun entry => (r.retell entry.1, r.retell entry.2) := by
  fun_induction pairs raws with
  | case1 key value rest ih => rw [List.map_cons, List.map_cons, pairs, ih, List.map_cons]
  | case2 raws hpair =>
    rcases raws with _ | ⟨key, _ | ⟨value, rest⟩⟩
    · rfl
    · rfl
    · exact absurd rfl (hpair key value rest)

theorem dictionary_agrees :
    AgreeLayer r raw .dictionaryLiteral (dictionary raw) (dictionary (r.retell raw)) := by
  unfold dictionary
  simp only [r.children_retell, List.length_map]
  refine .checked ((expressions_agree (List.Subset.refl _)).bind fun values hvalues =>
    .pure ⟨rfl, .allValues fun entry hentry => .values fun part hpart => ?_⟩ ?_)
  · have hmem := mem_of_mem_pairs hentry
    simp only [List.mem_cons, List.not_mem_nil, or_false] at hpart
    rcases hpart with rfl | rfl
    · exact hvalues.of_mem_values hmem.1
    · exact hvalues.of_mem_values hmem.2
  · rw [pairs_retell]
    rfl

theorem ternary_agrees : AgreeLayer r raw .ternary (ternary raw) (ternary (r.retell raw)) := by
  unfold ternary
  rw [r.children_retell]
  refine (expressions_agree (List.Subset.refl _)).bind fun values hvalues => ?_
  rcases values with _ | ⟨test, _ | ⟨thenValue, _ | ⟨elseValue, _ | ⟨extra, rest⟩⟩⟩⟩
  · exact .error _
  · exact .error _
  · exact .error _
  · exact .pure ⟨rfl, hvalues⟩ rfl
  · exact .error _

theorem one_agrees {f : Dump.Node → Construct Dump.Node} (htag : ∀ value, (f value).tag = tag)
    (hpositions : ∀ value, (f value).positions = asValues [value])
    (hf : ∀ value, f (r.retell value) = (f value).carry r.move r.retell) :
    AgreeLayer r raw tag (do return f (← onlyExpression raw))
      (do return f (← onlyExpression (r.retell raw))) := by
  have hvalue : Agree (fun value => Supplied raw (asValues [value])) r.retell (onlyExpression raw)
      (onlyExpression (r.retell raw)) :=
    onlyChild_agrees.bind fun _ hchild => expression_agrees raw (.child hchild)
  exact hvalue.bind fun value hvalue => .pure ⟨htag value, by rwa [hpositions]⟩ (hf value)

theorem all_agree {f : List Dump.Node → Construct Dump.Node} (htag : ∀ values, (f values).tag = tag)
    (hpositions : ∀ values, (f values).positions = asValues values)
    (hf : ∀ values, f (values.map r.retell) = (f values).carry r.move r.retell) :
    AgreeLayer r raw tag (do return f (← raw.children.mapM expression))
      (do return f (← (r.retell raw).children.mapM expression)) := by
  rw [r.children_retell]
  exact (expressions_agree (List.Subset.refl _)).bind fun values hvalues =>
    .pure ⟨htag values, by rwa [hpositions]⟩ (hf values)

theorem returnStmt_agrees : AgreeLayer r raw .returnStmt
    (do return .returnStmt (← raw.children.head?.mapM expression))
    (do return .returnStmt (← (r.retell raw).children.head?.mapM expression)) := by
  rw [r.children_retell, List.head?_map]
  cases h : raw.children.head? with
  | none => exact .pure ⟨rfl, .nil⟩ rfl
  | some value =>
    have hvalue : Agree (fun value => Supplied raw (asValues value.toList)) (Option.map r.retell)
        ((some value).mapM expression) ((some (r.retell value)).mapM expression) :=
      (expression_agrees raw (.child (List.mem_of_head? h))).bind fun _ hvalue => .pure hvalue rfl
    exact hvalue.bind fun _ hvalue => .pure ⟨rfl, hvalue⟩ rfl

/-- Only closures take a part that is not of the dump. -/
theorem asTagged_agrees (h : tag ≠ .closure) :
    AgreeLayer r raw tag (asTagged raw tag) (asTagged (r.retell raw) tag) := by
  have hchildren : Supplied raw (asStatements raw.children) :=
    .statements fun _ hpart => .child hpart
  cases tag with
  | function => exact function_agrees
  | initializer => exact initializer_agrees
  | variableDecl => exact variableDecl_agrees
  | enumCase => exact enumCase_agrees
  | returnStmt => exact returnStmt_agrees
  | ifStmt => exact ifStmt_agrees
  | guardStmt => exact guardStmt_agrees
  | whileStmt => exact whileStmt_agrees
  | repeatWhile => exact repeatWhile_agrees
  | forEach => exact forEach_agrees
  | switchStmt => exact switchStmt_agrees
  | deferStmt =>
    exact onlyChild_agrees.bind fun _ hchild => (braces_agree raw hchild).bind fun _ hbody =>
      .pure ⟨rfl, .statements hbody⟩ rfl
  | doCatch => exact doCatch_agrees
  | binary => exact binary_agrees
  | assign => exact assign_agrees
  | call => exact call_agrees
  | subscript => exact subscript_agrees
  | dictionaryLiteral => exact dictionary_agrees
  | ternary => exact ternary_agrees
  | closure => exact absurd rfl h
  | cast =>
    simp (disch := decide) only [asTagged, cast, requiredTy_retell, r.kind_retell]
    exact .same fun _ => one_agrees (fun _ => rfl) (fun _ => rfl) fun _ => rfl
  | throwStmt | wrapped => exact one_agrees (fun _ => rfl) (fun _ => rfl) fun _ => rfl
  | prefixUnary | member =>
    simp (disch := decide) only [asTagged, attr_retell]
    exact .same fun _ => one_agrees (fun _ => rfl) (fun _ => rfl) fun _ => rfl
  | interpolated | arrayLiteral | tuple =>
    exact all_agree (fun _ => rfl) (fun _ => rfl) fun _ => rfl
  | file | block => exact .ok ⟨rfl, hchildren⟩ (by rw [r.children_retell]; rfl)
  | unknown => exact .ok ⟨rfl, hchildren⟩ (by rw [r.children_retell, r.kind_retell]; rfl)
  | typeDecl | extensionDecl =>
    simp (disch := decide) only [asTagged, typeDecl, attr_retell, r.attr_retell, r.children_retell]
    exact .same fun _ => .pure ⟨rfl, hchildren⟩ rfl
  | breakStmt | continueStmt | nilLiteral => exact .ok ⟨rfl, .nil⟩ rfl
  | invalid =>
    simp only [asTagged, r.kind_retell]
    exact .error _
  | importModule | stringLiteral =>
    simp (disch := decide) only [asTagged, attr_retell]
    exact .same fun _ => .pure ⟨rfl, .nil⟩ rfl
  | typeAlias | reference | implicitMember =>
    simp (disch := decide) only [asTagged, attr_retell, requiredTy_retell, optionalTy_retell]
    exact .same fun _ => .same fun _ => .pure ⟨rfl, .nil⟩ rfl
  | integerLiteral | floatLiteral =>
    simp (disch := decide) only [asTagged, integer, float, attr_retell]
    refine .same fun _ => ?_
    split
    · exact .pure ⟨rfl, .nil⟩ rfl
    · exact .error _
  | booleanLiteral =>
    simp (disch := decide) only [asTagged, boolean, attr_retell]
    refine .same fun _ => ?_
    split
    · exact .pure ⟨rfl, .nil⟩ rfl
    · exact .pure ⟨rfl, .nil⟩ rfl
    · exact .error _

theorem closureBody_agrees (h : body ∈ raw.children) :
    Agree (DrawsOrReturns raw) (List.map r.retell) (closureBody body)
      (closureBody (r.retell body)) := by
  unfold closureBody expression
  simp only [r.kind_retell, r.children_retell]
  refine .ite (fun _ => .ok (.inl fun _ hpart => .grandchild h hpart) rfl) fun _ => ?_
  split
  · exact .pure (.inr ⟨body, h, rfl⟩) (by simp [r.retell_bare, r.range_retell])
  · exact .error _

theorem closure_agrees : Agree (fun construct => ∃ params body,
    construct = .closure params body ∧ DrawsOrReturns raw body)
    (Construct.carry r.move r.retell) (closure raw) (closure (r.retell raw)) := by
  have hparam (item : Dump.Node) : Agree (fun _ => True) id (closureParam item)
      (closureParam (r.retell item)) := by
    unfold closureParam
    simp (disch := decide) only [expectKind_retell, attr_retell]
    exact ⟨(id_map _).symm, fun _ _ => trivial⟩
  unfold closure
  rw [r.children_retell]
  rcases h : raw.children with _ | ⟨body, _ | ⟨second, _ | ⟨extra, rest⟩⟩⟩
  · exact .error _
  · exact (closureBody_agrees (by simp [h])).bind fun _ hbody => .pure ⟨_, _, rfl, hbody⟩ rfl
  · simp only [List.map_cons, List.map_nil, expectKind_retell, r.children_retell]
    refine .same fun _ => (Agree.mapM fun item _ => hparam item).bind fun _ _ =>
      (closureBody_agrees (by simp [h])).bind fun _ hbody => .pure ⟨_, _, rfl, hbody⟩ ?_
    rw [List.map_id]
    rfl
  · exact .error _

theorem asTagged_tag (raw) (tag : Tag) : Gives (·.tag = tag) (asTagged raw tag) := by
  intro construct h
  by_cases htag : tag = .closure
  · subst htag
    obtain ⟨_, _, rfl, -⟩ := (closure_agrees (r := .relocating id)).gives construct h
    rfl
  · exact ((asTagged_agrees (r := .relocating id) htag).gives construct h).tag

end Reading

/-! ## Any node -/

open Reading (Agree HasValues DrawsOrReturns Gives)

theorem keys_of_required : ∀ entry ∈ Catalogue.entries, ∀ key ∈ entry.required,
    key ∈ Reading.keys := by
  decide

theorem Entry.validate_retell (hentry : entry ∈ Catalogue.entries) (r : Reading.Retelling) (raw) :
    entry.validate (r.retell raw) = entry.validate raw := by
  have hmissing : entry.required.find? (fun key => !(r.retell raw).has key) =
      entry.required.find? (fun key => !raw.has key) := by
    rw [← List.head?_filter, ← List.head?_filter, List.filter_congr fun key hkey => ?_]
    rw [r.has_retell raw (keys_of_required entry hentry key hkey)]
  unfold validate
  rw [hmissing, r.children_retell, List.length_map]

/-- A node is read as what the catalogue says of its kind, or as unknown if it says nothing. Values
stand where values are expected, and all parts come from the dump or are made up. -/
theorem Construct.read_agrees (r : Reading.Retelling) (raw) :
    Agree (fun construct =>
        construct.tag = ((Catalogue.entryFor? raw.kind).bind Entry.tag).getD .unknown ∧
          HasValues construct ∧ DrawsOrReturns raw construct.parts)
      (carry r.move r.retell) (read raw) (read (r.retell raw)) := by
  have hsupplied {construct : Construct Dump.Node}
      (h : Reading.Supplied raw construct.positions) :
      HasValues construct ∧ DrawsOrReturns raw construct.parts := by
    refine ⟨fun value hvalue => (h .value value hvalue).2 rfl, .inl fun part hpart => ?_⟩
    rw [← map_snd_positions] at hpart
    obtain ⟨⟨role, part⟩, hmem, rfl⟩ := List.mem_map.1 hpart
    exact (h role part hmem).1
  unfold read
  rw [r.kind_retell]
  cases hentry : Catalogue.entryFor? raw.kind with
  | none =>
    exact .ok ⟨rfl, hsupplied (.statements fun _ hpart => .child hpart)⟩
      (by rw [r.children_retell]; rfl)
  | some entry =>
    dsimp only [Option.bind_some]
    rw [Entry.validate_retell (List.mem_of_find?_eq_some hentry)]
    refine .same fun _ => ?_
    cases entry.tag with
    | none => exact .error _
    | some tag =>
      by_cases htag : tag = .closure
      · subst htag
        refine Reading.closure_agrees.mono ?_
        rintro _ ⟨params, body, rfl, hbody⟩
        exact ⟨rfl, by simp [HasValues], hbody⟩
      · exact (Reading.asTagged_agrees htag).mono fun _ h => ⟨h.tag, hsupplied h.supplied⟩

theorem Construct.read_retell (r : Reading.Retelling) (raw) :
    Construct.read (r.retell raw) = (Construct.read raw).map (Construct.carry r.move r.retell) :=
  (read_agrees r raw).carried

theorem Construct.tag_of_read (h : Construct.read raw = .ok construct) :
    construct.tag = ((Catalogue.entryFor? raw.kind).bind Entry.tag).getD .unknown :=
  ((read_agrees (.relocating id) raw).gives construct h).1

theorem Construct.read_supplies (raw) :
    Gives (fun construct => HasValues construct ∧ DrawsOrReturns raw construct.parts)
      (Construct.read raw) :=
  fun construct h => ((read_agrees (.relocating id) raw).gives construct h).2

/-- Reading never gives the placeholder for a node that it refuses. -/
theorem Construct.read_ne_invalid : Construct.read raw ≠ .ok (.invalid kind flaw) := by
  intro h
  have htag := tag_of_read h
  cases hentry : Catalogue.entryFor? raw.kind with
  | none => simp [hentry, tag] at htag
  | some entry =>
    have hmem : entry ∈ Catalogue.entries := List.mem_of_find?_eq_some hentry
    have hne : ∀ entry ∈ Catalogue.entries, entry.tag ≠ some .invalid := by decide
    cases hown : entry.tag with
    | none => simp [hentry, hown, tag] at htag
    | some own =>
      simp only [hentry, hown, tag, Option.bind_some, Option.getD_some] at htag
      exact hne entry hmem (by rw [hown, htag])

end SwiftToKotlin.Swift
