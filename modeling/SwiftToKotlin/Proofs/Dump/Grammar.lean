import SwiftToKotlin.Proofs.Dump.Lexical
import SwiftToKotlin.Proofs.Dump.Range

/-!
# The grammar of dumps

The grammar is a relation between tokens and the items they spell, and a node is made of a kind and
its items. The parser reads from left to right with a stack of open nodes. What the stack still
demands of the tokens to come is a relation as well, and each step of the parser keeps it. So the
parser accepts exactly the dumps of the grammar, with the trees that the grammar gives them.
-/

namespace SwiftToKotlin.Dump

/-! ## Items -/

/-- What can stand in a node after its kind. -/
inductive Item
  | entry (key value : String)
  | place (range : SourceRange)
  | child (node : Node)

namespace Item

def entry? : Item → Option (String × String)
  | entry key value => some (key, value)
  | _ => none

def place? : Item → Option SourceRange
  | place range => some range
  | _ => none

def child? : Item → Option Node
  | child node => some node
  | _ => none

end Item

/-- The node with the items: attributes and children in their order, and the last of the ranges. -/
def Node.ofItems (kind : String) (items : List Item) : Node :=
  ⟨kind, items.filterMap Item.entry?, items.filterMap Item.child?,
    (items.filterMap Item.place?).getLast?⟩

mutual

/-- The tokens spell the item. A range is an item on its own and as the value of `range`; as any
other value it is kept as text. -/
inductive IsItem (file : String) : List Token → Item → Prop
  | flag (name : String) : IsItem file [.word name] (.entry name "")
  | quoted (key value : String) :
      IsItem file [.word key, .equals, .quoted value] (.entry key value)
  | word (key value : String) : IsItem file [.word key, .equals, .word value] (.entry key value)
  | bracketed (text : String) (hkey : key ≠ "range") :
      IsItem file [.word key, .equals, .bracketed text] (.entry key s!"[{text}]")
  | range (hrange : RangeText file text range) :
      IsItem file [.bracketed text] (.place range)
  | namedRange (hrange : RangeText file text range) :
      IsItem file [.word "range", .equals, .bracketed text] (.place range)
  | node {inner : List Token} {items : List Item} (kind : String)
      (hitems : AreItems file inner items) :
      IsItem file (.opening :: .word kind :: (inner ++ [.closing])) (.child (.ofItems kind items))

inductive AreItems (file : String) : List Token → List Item → Prop
  | nil : AreItems file [] []
  | cons {item : Item} {items : List Item}
      (hitem : IsItem file first item) (hitems : AreItems file tokens items) :
      AreItems file (first ++ tokens) (item :: items)

end

/-- The tokens spell one node. -/
def Derives (file : String) (tokens : List Token) (node : Node) : Prop :=
  IsItem file tokens (.child node)

/-- The text is a dump of the tree. -/
def IsDump (file text : String) (node : Node) : Prop :=
  ∃ tokens, Lexes text.toList tokens ∧ Derives file tokens node ∧ node.height ≤ maxDepth

/-! ## Heights -/

theorem Node.heights_le_iff : Node.heights nodes ≤ bound ↔ ∀ node ∈ nodes, node.height ≤ bound := by
  induction nodes with
  | nil => simp [Node.heights]
  | cons node rest ih => simp [Node.heights, Nat.max_le, ih]

/-- The nodes among the items leave room for `depth` nodes around them. -/
def Fits (depth : Nat) (items : List Item) : Prop :=
  ∀ node, .child node ∈ items → node.height + depth ≤ maxDepth

theorem height_ofItems_add_le_iff (kind : String) (items) (depth : Nat) :
    (Node.ofItems kind items).height + depth ≤ maxDepth ↔
      depth + 1 ≤ maxDepth ∧ Fits (depth + 1) items := by
  have hmem (node : Node) : node ∈ items.filterMap Item.child? ↔ .child node ∈ items := by
    simp only [List.mem_filterMap]
    constructor
    · rintro ⟨item, hitem, h⟩
      cases item with
      | entry | place => simp [Item.child?] at h
      | child found =>
        obtain rfl : found = node := by simpa [Item.child?] using h
        exact hitem
    · intro h
      exact ⟨_, h, rfl⟩
  have hbound : (Node.ofItems kind items).height + depth ≤ maxDepth ↔
      depth + 1 ≤ maxDepth ∧
        Node.heights (items.filterMap Item.child?) ≤ maxDepth - (depth + 1) := by
    simp only [Node.ofItems, Node.height]
    omega
  rw [hbound, Node.heights_le_iff]
  constructor
  · rintro ⟨hdepth, h⟩
    exact ⟨hdepth, fun node hnode => by have := h node ((hmem node).2 hnode); omega⟩
  · rintro ⟨hdepth, h⟩
    exact ⟨hdepth, fun node hnode => by have := h node ((hmem node).1 hnode); omega⟩

namespace Parser

/-! ## Open nodes -/

namespace Frame

def add (frame : Frame) : Item → Frame
  | .entry key value => frame.addAttribute key value
  | .place range => frame.setRange range
  | .child node => frame.addChild node

theorem close_foldl_add (frame) (items : List Item) :
    (items.foldl add frame).close =
      ⟨frame.kind, frame.attributes.reverse ++ items.filterMap Item.entry?,
        frame.children.reverse ++ items.filterMap Item.child?,
        (items.filterMap Item.place?).getLast?.or frame.range⟩ := by
  induction items generalizing frame with
  | nil => simp [close]
  | cons item items ih =>
    rw [List.foldl_cons, ih]
    cases item with
    | entry key value =>
      simp [add, addAttribute, List.filterMap_cons, Item.entry?, Item.child?, Item.place?]
    | place range =>
      simp only [add, List.filterMap_cons, Item.place?,
        List.getLast?_cons]
      cases (items.filterMap Item.place?).getLast? <;> rfl
    | child node => simp [add, addChild, List.filterMap_cons, Item.entry?, Item.child?, Item.place?]

theorem close_foldl_add_start (opening : Nat) (kind : String) (items : List Item) :
    (items.foldl add (start opening kind)).close = .ofItems kind items := by
  simp [close_foldl_add, start, Node.ofItems]

end Frame

/-- What the tokens must be after a node has been closed. -/
def Follow (file : String) : Node → List Frame → List Token → Node → Prop
  | node, [], tokens, root => tokens = [] ∧ root = node
  | node, parent :: outer, tokens, root =>
    ∃ inner items rest, tokens = inner ++ .closing :: rest ∧ AreItems file inner items ∧
      Fits (outer.length + 1) items ∧
      Follow file (items.foldl Frame.add (parent.addChild node)).close outer rest root

/-- What the tokens must be in an open node. -/
def Fill (file : String) (frame : Frame) (outer : List Frame) (tokens : List Token)
    (root : Node) : Prop :=
  ∃ inner items rest, tokens = inner ++ .closing :: rest ∧ AreItems file inner items ∧
    Fits (outer.length + 1) items ∧
    Follow file (items.foldl Frame.add frame).close outer rest root

/-- What the tokens must be for the tree to be read. A word that may be a name is still to be
looked at, and so is the equals sign after it. -/
def Completes (file : String) : Expectation → List Token → Node → Prop
  | .root, tokens, root => Derives file tokens root ∧ root.height ≤ maxDepth
  | .kind opening outer, tokens, root =>
    ∃ kind rest, tokens = .word kind :: rest ∧ Fill file (.start opening kind) outer rest root
  | .item frame outer, tokens, root => Fill file frame outer tokens root
  | .flagOrEquals name frame outer, tokens, root =>
    Fill file frame outer (.word name :: tokens) root
  | .value name _ frame outer, tokens, root =>
    Fill file frame outer (.word name :: .equals :: tokens) root
  | .done node, tokens, root => tokens = [] ∧ root = node

section Fill

variable {file : String}

/-- An open node is closed next, or another item comes first. -/
theorem fill_iff :
    Fill file frame outer tokens root ↔
      (∃ rest, tokens = .closing :: rest ∧ Follow file frame.close outer rest root) ∨
      ∃ first item rest, tokens = first ++ rest ∧ IsItem file first item ∧
        Fits (outer.length + 1) [item] ∧ Fill file (frame.add item) outer rest root := by
  constructor
  · rintro ⟨_, _, rest, rfl, hitems, hfits, hfollow⟩
    cases hitems with
    | nil => exact .inl ⟨rest, rfl, hfollow⟩
    | @cons first tokens item items hitem hitems =>
      refine .inr ⟨first, item, tokens ++ .closing :: rest, by simp, hitem, ?_, ?_⟩
      · intro node hnode
        exact hfits node (by simp at hnode; simp [hnode])
      · exact ⟨tokens, items, rest, rfl, hitems, fun node hnode => hfits node (by simp [hnode]),
          hfollow⟩
  · rintro (⟨rest, rfl, hfollow⟩ | ⟨first, item, _, rfl, hitem, hfit, tokens, items, rest, rfl,
      hitems, hfits, hfollow⟩)
    · exact ⟨[], [], rest, rfl, .nil, by simp [Fits], hfollow⟩
    · refine ⟨first ++ tokens, item :: items, rest, by simp, .cons hitem hitems, ?_, hfollow⟩
      intro node hnode
      rcases List.mem_cons.1 hnode with rfl | hnode
      · exact hfit node (by simp)
      · exact hfits node hnode

theorem fill_closing_iff :
    Fill file frame outer (.closing :: tokens) root ↔
      Follow file frame.close outer tokens root := by
  rw [fill_iff]
  constructor
  · rintro (⟨rest, heq, h⟩ | ⟨first, item, rest, heq, hitem, -⟩)
    · obtain rfl : tokens = rest := by simpa using heq
      exact h
    · cases hitem <;> simp at heq
  · intro h
    exact .inl ⟨tokens, rfl, h⟩

theorem not_fill_equals : ¬ Fill file frame outer (.equals :: tokens) root := by
  rw [fill_iff]
  rintro (⟨rest, heq, -⟩ | ⟨first, item, rest, heq, hitem, -⟩)
  · simp at heq
  · cases hitem <;> simp at heq

theorem not_fill_quoted : ¬ Fill file frame outer (.quoted text :: tokens) root := by
  rw [fill_iff]
  rintro (⟨rest, heq, -⟩ | ⟨first, item, rest, heq, hitem, -⟩)
  · simp at heq
  · cases hitem <;> simp at heq

theorem fill_bracketed_iff :
    Fill file frame outer (.bracketed text :: tokens) root ↔
      ∃ range, RangeText file text range ∧ Fill file (frame.setRange range) outer tokens root := by
  rw [fill_iff]
  constructor
  · rintro (⟨rest, heq, -⟩ | ⟨first, item, rest, heq, hitem, -, h⟩)
    · simp at heq
    · cases hitem with
      | range hrange =>
        obtain ⟨rfl, rfl⟩ : text = _ ∧ tokens = rest := by simpa using heq
        exact ⟨_, hrange, h⟩
      | flag | quoted | word | bracketed | namedRange | node => simp at heq
  · rintro ⟨range, hrange, h⟩
    exact .inr ⟨[.bracketed text], .place range, tokens, rfl, .range hrange, by simp [Fits], h⟩

/-- A word that no equals sign follows is a flag. -/
theorem fill_flag_iff (hnext : .equals ∉ tokens.head?) :
    Fill file frame outer (.word name :: tokens) root ↔
      Fill file (frame.addAttribute name "") outer tokens root := by
  rw [fill_iff]
  constructor
  · rintro (⟨rest, heq, -⟩ | ⟨first, item, rest, heq, hitem, -, h⟩)
    · simp at heq
    · cases hitem with
      | flag name' =>
        obtain ⟨rfl, rfl⟩ : name = name' ∧ tokens = rest := by simpa using heq
        exact h
      | quoted | word | bracketed | namedRange => simp_all
      | range | node => simp at heq
  · intro h
    exact .inr ⟨[.word name], .entry name "", tokens, rfl, .flag name, by simp [Fits], h⟩

/-- A name and an equals sign want exactly one more token, the value. -/
theorem fill_pair_iff :
    Fill file frame outer (.word name :: .equals :: tokens) root ↔
      ∃ token item rest, tokens = token :: rest ∧ IsItem file [.word name, .equals, token] item ∧
        Fill file (frame.add item) outer rest root := by
  rw [fill_iff]
  constructor
  · rintro (⟨rest, heq, -⟩ | ⟨first, item, rest, heq, hitem, -, h⟩)
    · simp at heq
    · cases hitem with
      | flag name' =>
        obtain ⟨-, rfl⟩ : name = name' ∧ .equals :: tokens = rest := by simpa using heq
        exact absurd h not_fill_equals
      | quoted key value =>
        obtain ⟨rfl, rfl⟩ : name = key ∧ tokens = .quoted value :: rest := by simpa using heq
        exact ⟨_, _, rest, rfl, .quoted name value, h⟩
      | word key value =>
        obtain ⟨rfl, rfl⟩ : name = key ∧ tokens = .word value :: rest := by simpa using heq
        exact ⟨_, _, rest, rfl, .word name value, h⟩
      | @bracketed key text hkey =>
        obtain ⟨rfl, rfl⟩ : name = key ∧ tokens = .bracketed text :: rest := by simpa using heq
        exact ⟨_, _, rest, rfl, .bracketed text hkey, h⟩
      | @namedRange text range hrange =>
        obtain ⟨rfl, rfl⟩ : name = "range" ∧ tokens = .bracketed text :: rest := by
          simpa using heq
        exact ⟨_, _, rest, rfl, .namedRange hrange, h⟩
      | range | node => simp at heq
  · rintro ⟨token, item, rest, rfl, hitem, h⟩
    refine .inr ⟨_, item, rest, rfl, hitem, ?_, h⟩
    cases hitem <;> simp [Fits]

/-- A parenthesis opens a node, which has to fit into the depth. -/
theorem fill_opening_iff (opening : Nat) :
    Fill file frame outer (.opening :: tokens) root ↔
      outer.length + 1 < maxDepth ∧ ∃ kind rest, tokens = .word kind :: rest ∧
        Fill file (.start opening kind) (frame :: outer) rest root := by
  rw [fill_iff]
  constructor
  · rintro (⟨rest, heq, -⟩ | ⟨first, item, rest, heq, hitem, hfit, h⟩)
    · simp at heq
    · cases hitem with
      | @node inner items kind hitems =>
        obtain rfl : tokens = .word kind :: (inner ++ .closing :: rest) := by simpa using heq
        obtain ⟨hdepth, hfits⟩ :=
          (height_ofItems_add_le_iff kind items _).1 (hfit (.ofItems kind items) (by simp))
        refine ⟨hdepth, kind, _, rfl, inner, items, rest, rfl, hitems, hfits, ?_⟩
        rw [Frame.close_foldl_add_start]
        exact h
      | flag | quoted | word | bracketed | range | namedRange => simp at heq
  · rintro ⟨hdepth, kind, _, rfl, inner, items, rest, rfl, hitems, hfits, h⟩
    rw [Frame.close_foldl_add_start] at h
    refine .inr ⟨_, _, rest, by simp, .node kind hitems, ?_, h⟩
    intro node hnode
    obtain rfl : node = .ofItems kind items := by simpa using hnode
    exact (height_ofItems_add_le_iff kind items _).2 ⟨hdepth, hfits⟩

/-! ## One step of the parser -/

theorem completes_closeNode_iff :
    Completes file (closeNode frame outer) tokens root ↔
      Follow file frame.close outer tokens root := by
  cases outer with
  | nil => exact Iff.rfl
  | cons parent outer => exact Iff.rfl

/-- The step is taken, and the tokens after it complete the tree. -/
def Proceeds (file : String) (step : Step) (tokens : List Token) (root : Node) : Prop :=
  ∃ next, step = .ok next ∧ Completes file next tokens root

theorem proceeds_ok_iff :
    Proceeds file (.ok next) tokens root ↔ Completes file next tokens root := by
  simp [Proceeds]

theorem not_proceeds_error : ¬ Proceeds file (.error fault) tokens root := by
  simp [Proceeds]

theorem proceeds_acceptRange_iff :
    Proceeds file (acceptRange file offset text frame outer) tokens root ↔
      ∃ range, RangeText file text range ∧ Fill file (frame.setRange range) outer tokens root := by
  unfold acceptRange
  cases hread : readRange file text with
  | none =>
    simp only [not_proceeds_error, false_iff]
    rintro ⟨range, hrange, -⟩
    simp [readRange_eq_some_iff.2 hrange] at hread
  | some range =>
    have hunique (other : SourceRange) : RangeText file text other ↔ other = range := by
      rw [← readRange_eq_some_iff, hread, Option.some.injEq, eq_comm]
    simp [proceeds_ok_iff, hunique, Completes]

theorem proceeds_acceptItem_iff :
    Proceeds file (acceptItem file frame outer lexeme) tokens root ↔
      Fill file frame outer (lexeme.token :: tokens) root := by
  obtain ⟨offset, token⟩ := lexeme
  cases token with
  | opening =>
    rw [fill_opening_iff offset, acceptItem]
    by_cases hdepth : outer.length + 1 ≥ maxDepth
    · simp [hdepth, not_proceeds_error, Nat.not_lt_of_ge hdepth]
    · simp only [hdepth, if_false, proceeds_ok_iff, Completes]
      simp [Nat.lt_of_not_ge hdepth]
  | closing => simp only [acceptItem, proceeds_ok_iff, completes_closeNode_iff, fill_closing_iff]
  | equals => simp only [acceptItem, not_proceeds_error, not_fill_equals]
  | word name => simp only [acceptItem, proceeds_ok_iff, Completes]
  | quoted text => simp only [acceptItem, not_proceeds_error, not_fill_quoted]
  | bracketed text => simp only [acceptItem, proceeds_acceptRange_iff, fill_bracketed_iff]

theorem proceeds_acceptValue_iff :
    Proceeds file (acceptValue file name frame outer lexeme) tokens root ↔
      Fill file frame outer (.word name :: .equals :: lexeme.token :: tokens) root := by
  obtain ⟨offset, token⟩ := lexeme
  have hpair : Fill file frame outer (.word name :: .equals :: token :: tokens) root ↔
      ∃ item, IsItem file [.word name, .equals, token] item ∧
        Fill file (frame.add item) outer tokens root := by
    rw [fill_pair_iff]
    constructor
    · rintro ⟨token', item, rest, heq, hitem, h⟩
      obtain ⟨rfl, rfl⟩ := List.cons.inj heq
      exact ⟨item, hitem, h⟩
    · rintro ⟨item, hitem, h⟩
      exact ⟨token, item, tokens, rfl, hitem, h⟩
  rw [hpair]
  cases token with
  | opening | closing | equals =>
    simp only [acceptValue, not_proceeds_error, false_iff]
    rintro ⟨item, hitem, -⟩
    cases hitem
  | word value =>
    simp only [acceptValue, proceeds_ok_iff]
    constructor
    · intro h
      exact ⟨_, .word name value, h⟩
    · rintro ⟨item, hitem, h⟩
      cases hitem
      exact h
  | quoted value =>
    simp only [acceptValue, proceeds_ok_iff]
    constructor
    · intro h
      exact ⟨_, .quoted name value, h⟩
    · rintro ⟨item, hitem, h⟩
      cases hitem
      exact h
  | bracketed text =>
    by_cases hname : name = "range"
    · subst hname
      simp only [acceptValue, if_true, proceeds_acceptRange_iff]
      constructor
      · rintro ⟨range, hrange, h⟩
        exact ⟨_, .namedRange hrange, h⟩
      · rintro ⟨item, hitem, h⟩
        cases hitem with
        | bracketed _ hkey => exact absurd rfl hkey
        | namedRange hrange => exact ⟨_, hrange, h⟩
    · simp only [acceptValue, hname, if_false, proceeds_ok_iff]
      constructor
      · intro h
        exact ⟨_, .bracketed text hname, h⟩
      · rintro ⟨item, hitem, h⟩
        cases hitem with
        | bracketed => exact h
        | namedRange => exact absurd rfl hname

/-- The root is a node in no other node. -/
theorem completes_root_iff (opening : Nat) :
    Completes file .root tokens root ↔
      ∃ rest, tokens = .opening :: rest ∧ Completes file (.kind opening []) rest root := by
  constructor
  · rintro ⟨hderives, hheight⟩
    cases hderives with
    | @node inner items kind hitems =>
      obtain ⟨-, hfits⟩ := (height_ofItems_add_le_iff kind items 0).1 hheight
      refine ⟨_, rfl, kind, _, rfl, inner, items, [], rfl, hitems, hfits, rfl, ?_⟩
      rw [Frame.close_foldl_add_start]
  · rintro ⟨_, rfl, kind, _, rfl, inner, items, _, rfl, hitems, hfits, rfl, rfl⟩
    rw [Frame.close_foldl_add_start]
    exact ⟨.node kind hitems, (height_ofItems_add_le_iff kind items 0).2 ⟨by decide, hfits⟩⟩

/-- A step of the parser changes nothing about the trees that the tokens complete. -/
theorem proceeds_step_iff :
    Proceeds file (step file expectation lexeme) tokens root ↔
      Completes file expectation (lexeme.token :: tokens) root := by
  cases expectation with
  | root =>
    obtain ⟨offset, token⟩ := lexeme
    rw [completes_root_iff offset]
    cases token with
    | opening => simp [step, proceeds_ok_iff]
    | closing | equals | word | quoted | bracketed => simp [step, not_proceeds_error]
  | kind opening outer =>
    obtain ⟨offset, token⟩ := lexeme
    cases token with
    | word kind => simp [step, proceeds_ok_iff, Completes]
    | opening | closing | equals | quoted | bracketed => simp [step, not_proceeds_error, Completes]
  | item frame outer => exact proceeds_acceptItem_iff
  | flagOrEquals name frame outer =>
    obtain ⟨offset, token⟩ := lexeme
    by_cases htoken : token = .equals
    · subst htoken
      exact proceeds_ok_iff
    · have hstep : step file (.flagOrEquals name frame outer) ⟨offset, token⟩ =
          acceptItem file (frame.addAttribute name "") outer ⟨offset, token⟩ := by
        cases token <;> first | rfl | exact absurd rfl htoken
      rw [hstep, proceeds_acceptItem_iff, Completes, fill_flag_iff (by simpa using htoken)]
  | value name equals frame outer => exact proceeds_acceptValue_iff
  | done node => simp [step, not_proceeds_error, Completes]

end Fill

/-! ## A whole text -/

theorem completes_nil_iff :
    Completes file expectation [] root ↔ finish size expectation = .ok root := by
  have hfill {frame : Frame} {outer : List Frame} : ¬ Fill file frame outer [] root := by
    rintro ⟨inner, items, rest, heq, -⟩
    simp at heq
  cases expectation with
  | root => simp [completes_root_iff 0, finish]
  | kind opening outer => simp [Completes, finish]
  | item frame outer => simp [Completes, finish, hfill]
  | flagOrEquals name frame outer => simp [Completes, finish, fill_flag_iff, hfill]
  | value name equals frame outer => simp [Completes, finish, fill_pair_iff]
  | done node => simp [Completes, finish, eq_comm]

/-- The parser reads the tree that the tokens complete, and no other. -/
theorem completes_iff_foldlM (file : String) (size : Nat) (root : Node) (lexemes : List Lexeme)
    (expectation) :
    Completes file expectation (lexemes.map Lexeme.token) root ↔
      (lexemes.foldlM (step file) expectation >>= finish size) = .ok root := by
  induction lexemes generalizing expectation with
  | nil => exact completes_nil_iff
  | cons lexeme lexemes ih =>
    rw [List.map_cons, ← proceeds_step_iff, List.foldlM_cons]
    cases hstep : step file expectation lexeme with
    | error fault =>
      simp only [not_proceeds_error, false_iff]
      intro h
      cases h
    | ok next =>
      rw [proceeds_ok_iff, ih next]
      rfl

end Parser

theorem parseLexemes_eq_ok_iff
    :
    parseLexemes file size lexemes ending = .ok node ↔
      ending = none ∧ Parser.Completes file .root (lexemes.map Lexeme.token) node := by
  rw [Parser.completes_iff_foldlM file size, parseLexemes]
  cases ending with
  | none => simp
  | some fault => cases lexemes.foldlM (Parser.step file) .root <;> simp [bind, Except.bind]

theorem parse_eq_ok_iff_parseLexemes :
    parse file text = .ok node ↔
      parseLexemes file text.utf8ByteSize (lex text.toList).1 (lex text.toList).2 = .ok node := by
  unfold parse
  rcases lex text.toList with ⟨lexemes, ending⟩
  dsimp only
  split
  · next hroot => simp [hroot]
  · next hfault => simp [hfault]

theorem parse_eq_ok_iff_isDump : parse file text = .ok node ↔ IsDump file text node := by
  rw [parse_eq_ok_iff_parseLexemes, parseLexemes_eq_ok_iff]
  constructor
  · rintro ⟨hending, hderives, hheight⟩
    exact ⟨_, (lexes_iff _ _).2 ⟨hending, rfl⟩, hderives, hheight⟩
  · rintro ⟨tokens, hlexes, hderives, hheight⟩
    obtain ⟨hending, rfl⟩ := (lexes_iff _ _).1 hlexes
    exact ⟨hending, hderives, hheight⟩

/-- A text is read as a tree exactly when it is a dump of that tree, and every other text is
answered with an error. -/
theorem parse_accepts_exactly_dumps (file text : String) :
    (∀ node, parse file text = .ok node ↔ IsDump file text node) ∧
      ((∃ error, parse file text = .error error) ↔ ¬ ∃ node, IsDump file text node) := by
  refine ⟨fun node => parse_eq_ok_iff_isDump, ?_⟩
  constructor
  · rintro ⟨error, herror⟩ ⟨node, hnode⟩
    rw [parse_eq_ok_iff_isDump.2 hnode] at herror
    cases herror
  · intro hnone
    cases hparse : parse file text with
    | error error => exact ⟨error, rfl⟩
    | ok node => exact absurd ⟨node, parse_eq_ok_iff_isDump.1 hparse⟩ hnone

end SwiftToKotlin.Dump
