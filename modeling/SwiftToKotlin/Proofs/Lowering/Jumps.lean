import SwiftToKotlin.Proofs.Lowering.DeclaredForms

/-!
# Statements that leave a jump

A return, break or continue is kept as it is unless its place refuses it. Whether it surfaces in
what becomes of a statement around it depends on what stands in between: the statements of most
constructs are lowered in the place of the whole, while the bodies of functions, initializers and
accessors, and for some searches of lambdas, close it in. Here it is said which statements leave a
jump, and how that is compared with what their lowering makes.
-/

namespace SwiftToKotlin.Lowering

open Swift (Node Construct)

variable {α β : Type}

/-! ## Open statements -/

/-- The jump that a statement is. -/
def jump? : Construct Node → Option Kotlin.Jump
  | .returnStmt _ => some .returning
  | .breakStmt => some .breaking
  | .continueStmt => some .continuing
  | _ => none

/-- Whether the branch of a condition becomes the lambda of a `let`. -/
def isSafeLet (condition : Swift.Condition Node) (thenBranch : List Node)
    (otherwise : Option Node) : Bool :=
  match condition with
  | .expr _ => false
  | .binding name value _ => bindingStyle name value thenBranch otherwise.isSome = .safeLet

/-- The statements after `else`. -/
def elseItems (branch : Node) : List Node :=
  match branch.construct with
  | .block items => items
  | _ => [branch]

/-- The statements in a construct that are lowered outside of any body of a function. Of those in
lambdas it depends on the search whether they count. -/
def openStatements (lambdas : Bool) : Construct Node → List Node
  | .file items => items
  | .typeDecl _ decl => decl.members
  | .extensionDecl _ members => members
  | .block items => if lambdas then items else []
  | .ifStmt condition thenBranch otherwise =>
    (if lambdas || !isSafeLet condition thenBranch otherwise then thenBranch else []) ++
      otherwise.toList.flatMap elseItems
  | .guardStmt _ otherwise => otherwise
  | .whileStmt _ body => body
  | .repeatWhile body _ => body
  | .forEach _ _ body => body
  | .switchStmt _ cases => cases.flatMap fun case => Statement.withoutLastBreak case.body
  | .doCatch body catches => body ++ catches.flatMap Swift.CatchClause.body
  | .unknown _ children => children.filter fun child => !child.construct.tag.isExpression
  | _ => []

variable {place : Place} {node : Node}

theorem mem_elseItems (h : part ∈ elseItems branch) :
    part = branch ∨ part.StandsIn .statement branch := by
  unfold elseItems at h
  split at h
  · next hc => exact .inr (.here (by simpa [hc] using h))
  · exact .inl (List.mem_singleton.1 h)

/-- Open statements are parts of the construct, or of the block after its `else`. -/
theorem standsIn_of_mem_openStatements (h : part ∈ openStatements lambdas node.construct) :
    part.StandsIn .statement node := by
  unfold openStatements at h
  split at h
  case h_5 condition thenBranch otherwise hc =>
    rcases List.mem_append.1 h with h | h
    · have hthen : part ∈ thenBranch := by
        split at h
        · exact h
        · cases h
      exact .here (by simp [hc, hthen])
    · obtain ⟨branch, hbranch, hitem⟩ := List.mem_flatMap.1 h
      have hin : branch.StandsIn .statement node :=
        .here (by simp [hc, Option.mem_toList.1 hbranch])
      rcases mem_elseItems hitem with rfl | hitem
      · exact hin
      · exact hitem.trans hin
  case h_4 items hc =>
    split at h
    · exact .here (by simpa [hc] using h)
    · cases h
  case h_10 subject cases hc =>
    obtain ⟨case, hcase, hstatement⟩ := List.mem_flatMap.1 h
    refine .here ?_
    rw [hc]
    refine List.mem_append_right _ (List.mem_flatMap.2 ⟨case, hcase, ?_⟩)
    simpa using Statement.withoutLastBreak_subset _ hstatement
  case h_11 body catches hc => exact .here (by simpa [hc] using h)
  case h_12 kind children hc => exact .here (by simpa [hc] using (List.mem_filter.1 h).1)
  case h_13 => cases h
  all_goals
    next hc => exact .here (by simp [hc, h])

/-- No function is entered on the way to an open statement, so the closures stay the same. -/
theorem closures_within (h : part ∈ openStatements lambdas node.construct) :
    (place.within node.construct .statement part).closures = place.closures := by
  cases hc : node.construct with
  | function decl => simp [hc, openStatements] at h
  | initializer params body => simp [hc, openStatements] at h
  | variableDecl decl => simp [hc, openStatements] at h
  | closure params body => simp [hc, openStatements] at h
  | _ => rfl

/-! ## Statements that leave a jump -/

/-- The statement is a jump of the kinds that its place keeps, or has an open statement that leaves
one. -/
inductive Leaves (search : Kotlin.Search) : Place → Node → Prop
  | jump {place : Place} {node : Node} (hjump : jump? node.construct = some kind)
      (hkind : search.kinds kind = true) (hkept : place.obstacle? node.construct = none) :
      Leaves search place node
  | part {place : Place} {node part : Node}
      (hpart : part ∈ openStatements search.lambdas node.construct)
      (h : Leaves search (place.within node.construct .statement part) part) :
      Leaves search place node

theorem leaves_iff : Leaves search place node ↔
    (∃ kind, jump? node.construct = some kind ∧ search.kinds kind = true ∧
      place.obstacle? node.construct = none) ∨
    ∃ part ∈ openStatements search.lambdas node.construct,
      Leaves search (place.within node.construct .statement part) part := by
  constructor
  · intro h
    cases h with
    | jump hjump hkind hkept => exact .inl ⟨_, hjump, hkind, hkept⟩
    | part hpart h => exact .inr ⟨_, hpart, h⟩
  · rintro (⟨kind, hjump, hkind, hkept⟩ | ⟨part, hpart, h⟩)
    · exact .jump hjump hkind hkept
    · exact .part hpart h

/-- Without open statements nothing but a jump leaves one. -/
theorem not_leaves_of_quiet (hc : node.construct = construct) (hjump : jump? construct = none)
    (hopen : openStatements search.lambdas construct = []) :
    ¬ Leaves search place node := by
  rw [leaves_iff, hc, hjump, hopen]
  simp

theorem eq_returnStmt_of_jump? (h : jump? construct = some .returning) :
    ∃ value, construct = .returnStmt value := by
  unfold jump? at h
  split at h
  · next value => exact ⟨value, rfl⟩
  all_goals cases h

/-- In a closure every return is refused. -/
theorem not_leaves_of_closures (hlambdas : search.lambdas = true) (h : 0 < place.closures) :
    ¬ Leaves search place node := by
  intro hleaves
  induction hleaves with
  | jump hjump hkind hkept =>
    obtain rfl := search.returning_of_lambdas hlambdas _ hkind
    obtain ⟨value, hc⟩ := eq_returnStmt_of_jump? hjump
    simp [hc, Place.obstacle?, Nat.ne_of_gt h] at hkept
  | part hpart _ ih => exact ih (by rwa [closures_within hpart])

/-! ## What lowering shows of it -/

/-- Nothing is shown that is not there, and if the tree fits the height that is left, then what is
there is shown. -/
structure Shows (fits leaves shown : Prop) : Prop where
  sound : shown → leaves
  complete : fits → leaves → shown

namespace Shows

theorem of_not (hleaves : ¬ leaves) (hshown : ¬ shown) : Shows fits leaves shown :=
  ⟨fun h => absurd h hshown, fun _ h => absurd h hleaves⟩

theorem of_iff (h : shown ↔ leaves) : Shows fits leaves shown :=
  ⟨h.1, fun _ => h.2⟩

theorem congr (h : Shows fits leaves shown) (hfits : fits' → fits) (hleaves : leaves' ↔ leaves)
    (hshown : shown' ↔ shown) : Shows fits' leaves' shown' :=
  ⟨fun hs => hleaves.2 (h.sound (hshown.1 hs)),
    fun hf hl => hshown.2 (h.complete (hfits hf) (hleaves.1 hl))⟩

theorem or (h : Shows fits leaves shown) (h' : Shows fits' leaves' shown') :
    Shows (fits ∧ fits') (leaves ∨ leaves') (shown ∨ shown') :=
  ⟨Or.imp h.sound h'.sound, fun hf => Or.imp (h.complete hf.1) (h'.complete hf.2)⟩

end Shows

/-- What the nodes made of statements show, if the height is left for them. -/
abbrev ShowsJumps (search : Kotlin.Search) (height : Nat) (place : Place) (statements : List Node)
    (made : List Kotlin.Node) : Prop :=
  Shows (∀ node ∈ statements, node.height ≤ height)
    (∃ node ∈ statements, Leaves search place node) (search.FindsAmong made)

theorem ShowsJumps.append (h : ShowsJumps search height place statements made)
    (h' : ShowsJumps search height place more others) :
    ShowsJumps search height place (statements ++ more) (made ++ others) := by
  refine (h.or h').congr (fun hfits => ?_) ?_ Kotlin.Search.findsAmong_append
  · exact List.forall_mem_append.1 hfits
  · simp only [List.mem_append, or_and_right, exists_or]

/-- The statements of many items show what each item shows. -/
theorem ShowsJumps.flatMap {items : List α}
    (h : Shows (∀ item ∈ items, ∀ node ∈ statements item, node.height ≤ height)
      (∃ item ∈ items, ∃ node ∈ statements item, Leaves search place node)
      (search.FindsAmong made)) :
    ShowsJumps search height place (items.flatMap statements) made := by
  refine h.congr (fun hfits item hitem node hnode => ?_) ?_ Iff.rfl
  · exact hfits node (List.mem_flatMap.2 ⟨item, hitem, hnode⟩)
  · simp only [List.mem_flatMap]
    grind

/-- A statement that is no jump shows what its open statements show. -/
theorem Shows.of_open (hc : node.construct = construct) (hjump : jump? construct = none)
    (h : Shows (∀ part ∈ openStatements search.lambdas construct, part.height ≤ height)
      (∃ part ∈ openStatements search.lambdas construct,
        Leaves search (place.within construct .statement part) part) shown) :
    Shows (node.height ≤ height + 1) (Leaves search place node) shown := by
  subst hc
  refine h.congr (fun hfits part hpart => ?_) ?_ Iff.rfl
  · have hlt := (standsIn_of_mem_openStatements hpart).height_lt
    omega
  · rw [leaves_iff]
    simp [hjump]

/-! ## Results at a place -/

/-- In surroundings that tell the place, the action has such a result, and the surroundings are
found again. -/
def ReturnsAt (context : Context) (place : Place) (action : Lower α) (P : α → Prop) : Prop :=
  ∀ state, place.Matches state.surroundings →
    P ((action.run context).run state).1 ∧
      ((action.run context).run state).2.surroundings = state.surroundings

namespace ReturnsAt

theorem of_returns (h : Returns context action P)
    (hkeeps : Keeps (Framed view) action) : ReturnsAt context place action P :=
  fun state _ => ⟨h state, (hkeeps context state).surroundings⟩

/-- Every state has a place. -/
theorem returns (h : ∀ place, ReturnsAt context place action P) : Returns context action P :=
  fun state => (h _ state (Place.matches_ofSurroundings state.surroundings)).1

theorem mono (h : ReturnsAt context place action P) (hP : ∀ a, P a → P' a) :
    ReturnsAt context place action P' :=
  fun state hstate => (h state hstate).imp_left (hP _)

theorem pure (h : P a) : ReturnsAt context place (Pure.pure a) P :=
  fun _ _ => ⟨h, rfl⟩

theorem bind (h : ReturnsAt context place action P)
    (hf : ∀ a, P a → ReturnsAt context place (f a) Q) :
    ReturnsAt context place (action >>= f) Q := by
  intro state hstate
  obtain ⟨hresult, hsame⟩ := h state hstate
  obtain ⟨hfinal, hend⟩ := hf _ hresult _ (hsame.symm ▸ hstate)
  exact ⟨hfinal, hend.trans hsame⟩

theorem after (h : KeepsOuter action) (hf : ∀ a, ReturnsAt context place (f a) Q) :
    ReturnsAt context place (action >>= f) Q :=
  (of_returns (fun _ => trivial) h : ReturnsAt context place action fun _ => True).bind
    fun a _ => hf a

theorem looking (h : ∀ around, place.Matches around → ReturnsAt context place (f around) P) :
    ReturnsAt context place (surroundings >>= f) P :=
  fun state hstate => h state.surroundings hstate state hstate

theorem inBlock (h : ReturnsAt context place action P) :
    ReturnsAt context place (inBlock action) P :=
  fun state => h state.opened

theorem surrounded {inner : Place}
    (hchange : ∀ around, place.Matches around → inner.Matches (change around))
    (h : ReturnsAt context inner action P) : ReturnsAt context place (surrounded change action) P :=
  fun state hstate => ⟨(h (state.amid change) (hchange _ hstate)).1, rfl⟩

theorem entering (h : ReturnsAt context (place.enter body) action P) :
    ReturnsAt context place (Lowering.surrounded (fun around => body.change around) action) P :=
  h.surrounded fun _ haround => haround.enter body

theorem withScope (h : ReturnsAt context { place with owner := scope.owner } action P) :
    ReturnsAt context place (withScope scope action) P :=
  h.surrounded fun _ haround => haround.withScope scope

theorem inClosure (h : ReturnsAt context (place.enter .closure) action P) :
    ReturnsAt context place (inClosure action) fun result => P result.1 :=
  fun state hstate => ⟨(h state.enclosed (hstate.enter .closure)).1, rfl⟩

/-- Many actions show together what each of them shows. -/
theorem mapM {fits leaves : α → Prop} {shown : β → Prop} (items : List α)
    (h : ∀ a ∈ items, ReturnsAt context place (f a) fun b => Shows (fits a) (leaves a) (shown b)) :
    ReturnsAt context place (items.mapM f) fun results =>
      Shows (∀ a ∈ items, fits a) (∃ a ∈ items, leaves a) (∃ b ∈ results, shown b) := by
  induction items with
  | nil => exact .pure (.of_not (by simp) (by simp))
  | cons item rest ih =>
    rw [List.mapM_cons]
    have hrest := ih fun a ha => h a (List.mem_cons_of_mem _ ha)
    refine (h item List.mem_cons_self).bind fun first hfirst => hrest.bind fun others hothers =>
      .pure ((hfirst.or hothers).congr List.forall_mem_cons.1 ?_ ?_)
    · simp
    · simp

end ReturnsAt

/-! ## Results in every state -/

namespace Returns

theorem forall_mapM (items : List α) (h : ∀ a, Returns context (f a) Q) :
    Returns context (items.mapM f) fun results => ∀ b ∈ results, Q b := by
  induction items with
  | nil => exact .pure (by simp)
  | cons item rest ih =>
    rw [List.mapM_cons]
    exact (h item).bind fun _ hfirst => ih.bind fun _ hothers =>
      .pure (List.forall_mem_cons.2 ⟨hfirst, hothers⟩)

theorem forall_optionM (item : Option α) (h : ∀ a, Returns context (f a) Q) :
    Returns context (Swift.optionM f item) fun result => ∀ b ∈ result, Q b := by
  cases item with
  | none => exact .pure (by simp)
  | some a => exact (h a).bind fun _ hb => .pure (by simpa using hb)

end Returns

end SwiftToKotlin.Lowering
