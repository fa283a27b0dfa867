import SwiftToKotlin.Proofs.Dump.Grammar

/-!
# Trees written as dumps

A tree is written as its tokens, with strings escaped and blanks around the tokens, and is read back
as it was. Between two words a blank is needed, everywhere else it may be left out. A file name may
hold dashes and colons, since a range is cut at its last dash and a place at its last colons.
-/

namespace SwiftToKotlin

/-- The range as it stands in a dump, without its brackets. -/
def SourceRange.written (range : SourceRange) : String :=
  s!"{range.file}:{range.startLine}:{range.startColumn} - line:{range.endLine}:{range.endColumn}"

namespace Dump

/-! ## Trees that can be written -/

/-- The text can stand as a word. -/
def IsWord (text : String) : Prop :=
  text.toList ≠ [] ∧ ∀ c ∈ text.toList, isWordChar c = true

instance (text : String) : Decidable (IsWord text) :=
  decidable_of_iff (text.toList ≠ [] ∧ text.toList.all isWordChar = true) (by simp [IsWord])

/-- The file name has a first character that is not blank and no closing bracket, and all numbers
have 64 bits. -/
structure WritableRange (range : SourceRange) : Prop where
  file_head : ∃ c rest, range.file.toList = c :: rest ∧ Text.isBlank c = false
  file_open : ']' ∉ range.file.toList
  startLine_lt : range.startLine < Nat.pow 2 64
  startColumn_lt : range.startColumn < Nat.pow 2 64
  endLine_lt : range.endLine < Nat.pow 2 64
  endColumn_lt : range.endColumn < Nat.pow 2 64

/-- Kinds and keys are words; values are arbitrary. -/
inductive Node.Writable : Node → Prop
  | intro {kind : String} {attributes : List (String × String)} {children : List Node}
      {range : Option SourceRange} (hkind : IsWord kind)
      (hkeys : ∀ entry ∈ attributes, IsWord entry.1) (hrange : ∀ r ∈ range, WritableRange r)
      (hchildren : ∀ child ∈ children, child.Writable) :
      Node.Writable ⟨kind, attributes, children, range⟩

/-! ## Tokens and their spelling -/

def attributeTokens (entry : String × String) : List Token :=
  [.word entry.1, .equals, .quoted entry.2]

mutual

/-- Attributes stand first, then the range, then the children. -/
def Node.tokens : Node → List Token
  | ⟨kind, attributes, children, range⟩ =>
    .opening :: .word kind ::
      (attributes.flatMap attributeTokens
        ++ range.toList.map (fun r => .bracketed r.written)
        ++ Node.tokensOfAll children ++ [.closing])

def Node.tokensOfAll : List Node → List Token
  | [] => []
  | node :: rest => node.tokens ++ Node.tokensOfAll rest

end

def escape (c : Char) : List Char :=
  if c = '"' ∨ c = '\\' then ['\\', c] else [c]

def Token.spelling : Token → List Char
  | opening => ['(']
  | closing => [')']
  | equals => ['=']
  | word text => text.toList
  | quoted text => '"' :: (text.toList.flatMap escape ++ ['"'])
  | bracketed text => '[' :: (text.toList ++ [']'])

/-- The text is the spellings of the tokens with blanks around them. Any number of blanks will do,
as long as what follows a word does not go on with it. -/
inductive Spaced : List Token → List Char → Prop
  | nil (hblanks : ∀ c ∈ blanks, Text.isBlank c = true) : Spaced [] blanks
  | cons (hblanks : ∀ c ∈ blanks, Text.isBlank c = true)
      (hapart : ∀ name, token = .word name → ∀ c ∈ text.head?, isWordChar c = false)
      (h : Spaced tokens text) : Spaced (token :: tokens) (blanks ++ (token.spelling ++ text))

/-! ## Spelled tokens are found again -/

/-- The token can be spelled. -/
def Token.Writable : Token → Prop
  | word text => IsWord text
  | bracketed text => ']' ∉ text.toList
  | _ => True

theorem quotes_escape (c : Char) (h : Quotes '"' body value) :
    Quotes '"' (escape c ++ body) (c :: value) := by
  by_cases hquote : c = '"'
  · subst hquote
    exact .escape (by simp [escapes]) h
  · by_cases hescape : c = '\\'
    · subst hescape
      exact .escape (by simp [escapes]) h
    · simpa [escape, hquote, hescape] using Quotes.plain hquote hescape h

theorem quotes_flatMap_escape (value) : Quotes '"' (value.flatMap escape) value := by
  induction value with
  | nil => exact .nil
  | cons c value ih => exact quotes_escape c ih

theorem lexes_blanks (hblanks : ∀ c ∈ blanks, Text.isBlank c = true) (h : Lexes text tokens) :
    Lexes (blanks ++ text) tokens := by
  induction blanks with
  | nil => exact h
  | cons c blanks ih => exact .blank (hblanks c (by simp)) (ih fun d hd => hblanks d (by simp [hd]))

theorem lexes_spelling (htoken : token.Writable)
    (hapart : ∀ name, token = .word name → ∀ c ∈ text.head?, isWordChar c = false)
    (h : Lexes text tokens) : Lexes (token.spelling ++ text) (token :: tokens) := by
  cases token with
  | opening => exact .opening h
  | closing => exact .closing h
  | equals => exact .equals h
  | word name =>
    obtain ⟨hne, hchars⟩ := htoken
    obtain ⟨c, more, hname⟩ := List.exists_cons_of_ne_nil hne
    obtain rfl : name = String.ofList (c :: more) := by rw [← hname, String.ofList_toList]
    have hmore : ∀ d ∈ more, isWordChar d = true := fun d hd => hchars d (by simp [hd])
    rw [Token.spelling, String.toList_ofList]
    exact .word (hchars c (by simp)) hmore (hapart _ rfl) h
  | quoted value =>
    have hquoted := Lexes.quoted (.inl rfl) (quotes_flatMap_escape value.toList) h
    simpa [Token.spelling] using hquoted
  | bracketed inner =>
    have hbracketed := Lexes.bracketed htoken h
    simpa [Token.spelling] using hbracketed

theorem lexes_of_spaced (htokens : ∀ token ∈ tokens, token.Writable) (h : Spaced tokens text) :
    Lexes text tokens := by
  induction h with
  | nil hblanks => simpa using lexes_blanks hblanks .nil
  | cons hblanks hapart _ ih =>
    exact lexes_blanks hblanks (lexes_spelling (htokens _ (by simp)) hapart
      (ih fun token htoken => htokens token (by simp [htoken])))

/-! ## Written ranges are read back -/

theorem digits_toDigits (hn : n < Nat.pow 2 64) : Digits (Nat.toDigits 10 n) n where
  ne_nil := Nat.toDigits_ne_nil
  isDigit _ hc := Nat.isDigit_of_mem_toDigits (by decide) (by decide) hc
  value := Nat.ofDigitChars_toDigits (by decide) (by decide)
  lt := hn

/-- A line and a column behind a file. -/
def placeChars (file : List Char) (line column : Nat) : List Char :=
  file ++ ':' :: Nat.toDigits 10 line ++ ':' :: Nat.toDigits 10 column

theorem placeText_placeChars (file) (hline : line < Nat.pow 2 64)
    (hcolumn : column < Nat.pow 2 64) :
    PlaceText (placeChars file line column) (some file) line column :=
  .inFile (.inl (digits_toDigits hline)) (.inl (digits_toDigits hcolumn))

theorem isBlank_eq_false_of_isDigit (hc : c.isDigit = true) : Text.isBlank c = false := by
  have hrange : 48 ≤ c.toNat ∧ c.toNat ≤ 57 := by
    simpa [Char.isDigit, UInt32.le_iff_toNat_le] using hc
  simp only [Text.isBlank]
  grind

theorem trim_placeChars (line : Nat) (hfile : ∃ c rest, file = c :: rest ∧ Text.isBlank c = false) :
    Text.trim (placeChars file line column) = placeChars file line column := by
  obtain ⟨c, rest, rfl, hc⟩ := hfile
  apply Text.trim_eq_self
  · simpa [placeChars] using hc
  · intro d hd
    have hends : placeChars (c :: rest) line column =
        (c :: rest ++ ':' :: Nat.toDigits 10 line ++ [':']) ++ Nat.toDigits 10 column := by
      simp [placeChars]
    have hlast : d ∈ (Nat.toDigits 10 column).getLast? := by
      rwa [hends, List.getLast?_append_of_ne_nil _ Nat.toDigits_ne_nil] at hd
    exact isBlank_eq_false_of_isDigit
      (Nat.isDigit_of_mem_toDigits (by decide) (by decide) (List.mem_of_mem_getLast? hlast))

theorem toList_written (range : SourceRange) :
    range.written.toList = placeChars range.file.toList range.startLine range.startColumn ++ dash ++
      placeChars ['l', 'i', 'n', 'e'] range.endLine range.endColumn := by
  have hself (text : String) : toString text = text := rfl
  simp [SourceRange.written, placeChars, dash, hself]

/-- There are not enough blanks after the last dash for another one. -/
theorem not_recurs_dash (hstop : ' ' ∉ stop) : ¬ Text.Recurs dash stop := by
  intro hrecurs
  have hcount := hrecurs.sublist.count_le ' '
  simp [dash, List.count_eq_zero.2 hstop] at hcount

theorem not_mem_toDigits (hc : c.isDigit = false) (n : Nat) : c ∉ Nat.toDigits 10 n := by
  intro hmem
  have hdigit : c.isDigit = true := Nat.isDigit_of_mem_toDigits (by decide) (by decide) hmem
  simp [hc] at hdigit

theorem rangeText_written (file : String) (h : WritableRange range) :
    RangeText file range.written range := by
  have hstop : ' ' ∉ placeChars ['l', 'i', 'n', 'e'] range.endLine range.endColumn := by
    simp [placeChars, not_mem_toDigits]
  have hstart := placeText_placeChars range.file.toList h.startLine_lt h.startColumn_lt
  have hend := placeText_placeChars ['l', 'i', 'n', 'e'] h.endLine_lt h.endColumn_lt
  rw [← trim_placeChars _ h.file_head] at hstart
  rw [← trim_placeChars _ ⟨'l', _, rfl, by decide⟩] at hend
  have hfile : fileOr file (some range.file.toList) = range.file := by
    obtain ⟨c, rest, hname, -⟩ := h.file_head
    rw [hname, fileOr, ← hname, String.ofList_toList]
  have hrange : RangeText file range.written ⟨fileOr file (some range.file.toList), _, _, _, _⟩ :=
    .intro (toList_written range) (not_recurs_dash hstop) hstart hend
  rwa [hfile] at hrange

theorem bracket_not_mem_written (h : WritableRange range) : ']' ∉ range.written.toList := by
  simp [toList_written, placeChars, dash, h.file_open, not_mem_toDigits]

/-! ## Written trees are read back -/

theorem Node.tokensOfAll_eq (nodes) : Node.tokensOfAll nodes = nodes.flatMap tokens := by
  induction nodes with
  | nil => rfl
  | cons node rest ih => rw [Node.tokensOfAll, List.flatMap_cons, ih]

/-- Things that are each spelled as an item are spelled one after the other as items. -/
theorem areItems_flatMap {α : Type} {spell : α → List Token} {item : α → Item} {list : List α}
    (hlist : ∀ a ∈ list, IsItem file (spell a) (item a)) (h : AreItems file tokens items) :
    AreItems file (list.flatMap spell ++ tokens) (list.map item ++ items) := by
  induction list with
  | nil => exact h
  | cons a list ih =>
    rw [List.flatMap_cons, List.append_assoc]
    exact .cons (hlist a (by simp)) (ih fun b hb => hlist b (by simp [hb]))

/-- The attributes, the range and the children of a node in the order in which they are written. -/
def Node.items (node : Node) : List Item :=
  node.attributes.map (fun entry => .entry entry.1 entry.2) ++
    (node.range.toList.map .place ++ (node.children.map .child ++ []))

theorem Node.ofItems_items (kind : String) (attributes children range) :
    Node.ofItems kind (Node.items ⟨kind, attributes, children, range⟩) =
      ⟨kind, attributes, children, range⟩ := by
  simp only [Node.ofItems, Node.items, List.filterMap_append, List.filterMap_map,
    Function.comp_def, Item.entry?, Item.child?, Item.place?]
  cases range <;> simp

theorem isItem_tokens (file : String) (h : node.Writable) :
    IsItem file node.tokens (.child node) := by
  induction h with
  | @intro kind attributes children range hkind hkeys hrange hchildren ih =>
    have hitems : AreItems file
        (attributes.flatMap attributeTokens ++
          (range.toList.flatMap (fun r => [.bracketed r.written]) ++
            (children.flatMap Node.tokens ++ [])))
        (Node.items ⟨kind, attributes, children, range⟩) := by
      refine areItems_flatMap (fun entry _ => .quoted entry.1 entry.2) ?_
      refine areItems_flatMap (fun r hr => .range (rangeText_written file (hrange r ?_))) ?_
      · simpa using hr
      · exact areItems_flatMap ih .nil
    have hnode := IsItem.node kind hitems
    rw [Node.ofItems_items] at hnode
    simpa [Node.tokens, Node.tokensOfAll_eq, List.map_eq_flatMap] using hnode

theorem writable_of_mem_tokens {node : Node} (h : node.Writable) :
    ∀ token ∈ node.tokens, token.Writable := by
  induction h with
  | @intro kind attributes children range hkind hkeys hrange hchildren ih =>
    intro token htoken
    simp only [Node.tokens, Node.tokensOfAll_eq, List.mem_cons, List.mem_append, List.mem_flatMap,
      List.mem_map, List.not_mem_nil, or_false] at htoken
    rcases htoken with rfl | rfl | ((⟨entry, hentry, htoken⟩ | ⟨r, hr, rfl⟩) |
      ⟨child, hchild, htoken⟩) | rfl
    · trivial
    · exact hkind
    · simp only [attributeTokens, List.mem_cons, List.not_mem_nil, or_false] at htoken
      rcases htoken with rfl | rfl | rfl
      · exact hkeys entry hentry
      · trivial
      · trivial
    · exact bracket_not_mem_written (hrange r (by simpa using hr))
    · exact ih child hchild token htoken
    · trivial

/-- A tree that is not too high is read back from any text in which it is written. -/
theorem parse_written (file : String) {text : String} {node : Node}
    (hheight : node.height ≤ maxDepth) (hnode : node.Writable)
    (htext : Spaced node.tokens text.toList) : parse file text = .ok node := by
  rw [parse_eq_ok_iff_isDump]
  exact ⟨node.tokens, lexes_of_spaced (writable_of_mem_tokens hnode) htext,
    isItem_tokens file hnode, hheight⟩

/-- The tokens with the same blanks before each of them. -/
theorem spaced_flatMap (hne : blanks ≠ []) (hblanks : ∀ c ∈ blanks, Text.isBlank c = true)
    (tokens) :
    Spaced tokens (tokens.flatMap fun token => blanks ++ token.spelling) := by
  induction tokens with
  | nil => exact .nil (by simp)
  | cons token tokens ih =>
    rw [List.flatMap_cons, List.append_assoc]
    refine .cons hblanks ?_ ih
    intro name _ c hc
    obtain ⟨blank, more, rfl⟩ := List.exists_cons_of_ne_nil hne
    cases tokens with
    | nil => simp at hc
    | cons next tokens =>
      obtain rfl : blank = c := by simpa using hc
      simp [isWordChar, hblanks blank (by simp)]

/-- A tree with a dash and colons in its file name, and with a string full of delimiters. -/
def awkwardNode : Node :=
  ⟨"call_expr", [("text", "\\n \"a\" ](=)"), ("text", "")],
    [⟨"brace_stmt", [], [], none⟩], some ⟨"a - 1:2.swift", 1, 0, 10, Nat.pow 2 64 - 1⟩⟩

theorem parse_written_awkwardNode :
    awkwardNode.height ≤ maxDepth ∧ awkwardNode.Writable ∧
      parse "main.swift" (String.ofList (awkwardNode.tokens.flatMap fun token =>
        ['\n', ' '] ++ token.spelling)) = .ok awkwardNode := by
  have hheight : awkwardNode.height ≤ maxDepth := by decide
  have hchild : Node.Writable ⟨"brace_stmt", [], [], none⟩ :=
    .intro (by decide) (by simp) (by simp) (by simp)
  have hrange : WritableRange ⟨"a - 1:2.swift", 1, 0, 10, Nat.pow 2 64 - 1⟩ :=
    ⟨⟨'a', " - 1:2.swift".toList, by decide, by decide⟩, by decide, by decide, by decide, by decide,
      by decide⟩
  have hnode : awkwardNode.Writable :=
    .intro (by decide) (by decide) (by simpa using hrange) (by simpa using hchild)
  refine ⟨hheight, hnode, parse_written "main.swift" hheight hnode ?_⟩
  rw [String.toList_ofList]
  exact spaced_flatMap (by simp) (by simp [Text.isBlank]) _

end Dump

end SwiftToKotlin
