import OnePass.Proofs.NodeNames
import OnePass.Proofs.Outlines
import OnePass.Proofs.Signatures

/-!
# Lines of a dump

Whatever a source has in its names, strings and characters, a dump of its tree is made of printable
characters, tabs before them and newlines at the ends of its lines (`Text.Printable`). Names are
those of the source or of signatures (`called_of_parse`, `Course.titled`), and the rest is numbers,
words of the front end or made visible. The line of an expression begins with the word for its sort
of node, and no other line begins with such a word (`Note.not_prefix`).

`dump_outlines_tree` says what the lines are. The callee of a call has none
(`callee_not_dumped`), though it is a part of the tree like any other.
-/

namespace OnePass

/-! ## Printable text -/

namespace Text

/-- All characters are printable ASCII. -/
def Printable (text : List Char) : Prop := ∀ c ∈ text, ' ' ≤ c ∧ c ≤ '~'

instance (text : List Char) : Decidable (Printable text) :=
  List.decidableBAll (fun c => ' ' ≤ c ∧ c ≤ '~') text

variable {s t : List Char}

theorem printable_append : Printable (s ++ t) ↔ Printable s ∧ Printable t := List.forall_mem_append

theorem printable_cons {c : Char} : Printable (c :: t) ↔ (' ' ≤ c ∧ c ≤ '~') ∧ Printable t :=
  List.forall_mem_cons

theorem Printable.subset (h : Printable t) (hsubset : s ⊆ t) : Printable s :=
  fun c hc => h c (hsubset hc)

theorem printable_flatMap {α : Type} {f : α → List Char} {xs : List α}
    (h : ∀ x ∈ xs, Printable (f x)) : Printable (xs.flatMap f) := by
  intro c hc
  obtain ⟨x, hx, hc⟩ := List.mem_flatMap.1 hc
  exact h x hx c hc

theorem printable_intercalate {sep : List Char} {texts : List (List Char)} (hsep : Printable sep)
    (h : ∀ text ∈ texts, Printable text) : Printable (sep.intercalate texts) := by
  induction texts with
  | nil => exact List.forall_mem_nil _
  | cons text texts ih =>
    rw [List.forall_mem_cons] at h
    cases texts with
    | nil => simpa using h.1
    | cons =>
      rw [List.intercalate_cons_cons]
      exact printable_append.2 ⟨printable_append.2 ⟨h.1, hsep⟩, ih h.2⟩

theorem printable_digitChar (n : Nat) : Printable [n.digitChar] := by
  by_cases hn : n < 16
  · exact (by decide : ∀ m < 16, Printable [Nat.digitChar m]) n hn
  · have hstar : n.digitChar = '*' := by
      unfold Nat.digitChar
      repeat rw [if_neg (by omega)]
    rw [hstar]
    decide

theorem printable_toDigits {radix : Nat} (hradix : 1 < radix) (n : Nat) :
    Printable (Nat.toDigits radix n) := by
  induction n using Nat.strongRecOn with
  | ind n ih =>
    rw [Nat.toDigits_eq_if hradix]
    split
    · exact printable_digitChar n
    · rename_i hn
      refine printable_append.2 ⟨ih _ (Nat.div_lt_self ?_ hradix), printable_digitChar _⟩
      omega

theorem printable_visibleChar (c : Char) : Printable (visibleChar c) := by
  unfold visibleChar
  split
  case h_7 =>
    split
    · exact List.forall_mem_singleton.2 ‹_›
    · exact printable_append.2 ⟨printable_append.2 ⟨by decide, printable_toDigits (by decide) _⟩,
        by decide⟩
  all_goals decide

theorem printable_visible (text : List Char) : Printable (visible text) :=
  printable_flatMap fun c _ => printable_visibleChar c

theorem printable_padded (width value : Nat) : Printable (Number.padded 10 width value) := by
  refine printable_append.2 ⟨fun c hc => ?_, printable_toDigits (by decide) _⟩
  rw [List.eq_of_mem_replicate hc]
  decide

theorem printable_toFixed (places : Nat) (x : Number.Binary64) :
    Printable (x.toFixed places).toList := by
  have hsign : Printable (if x.isNegative then "-" else "").toList := by
    split <;> decide
  have hdigits := printable_padded (places + 1) (x.steps places)
  unfold Number.Binary64.toFixed
  split
  · decide
  · dsimp only
    split
    · rw [String.toList_append]
      exact printable_append.2 ⟨hsign, by decide⟩
    · simp only [String.toList_append, String.toList_ofList, printable_append]
      exact ⟨⟨⟨hsign, hdigits.subset (List.take_subset _ _)⟩, by decide⟩,
        hdigits.subset (List.drop_subset _ _)⟩

end Text

open Text (Printable printable_append printable_cons)

/-! ## Names -/

theorem Lexicon.Identifier.printable {name : List Char} (h : Lexicon.Identifier name) :
    Printable name := by
  intro c hc
  have hname := h.contains c hc
  simp only [CharClass.contains, CharClass.within, Lexicon.nameChars, List.any_cons, List.any_nil,
    Bool.or_false, Bool.bne_false, Bool.or_eq_true, Bool.and_eq_true, decide_eq_true_eq] at hname
  rcases hname with ⟨hle, hle'⟩ | ⟨hle, hle'⟩ | ⟨hle, hle'⟩ | ⟨hle, hle'⟩
  all_goals exact ⟨Char.le_trans (by decide) hle, Char.le_trans hle' (by decide)⟩

/-- The name of a type is printable, parts and all. -/
theorem TypeName.printable {name : List Char} (h : TypeName name) : Printable name := by
  induction h with
  | identifier h => exact h.printable
  | @signature params result hnames _ _ htypes hresult =>
    have hparam : ∀ p ∈ params, Printable (paramChars p) := by
      intro p hp
      simp only [paramChars, printable_append, printable_cons]
      exact ⟨(hnames p hp).printable, by decide, by decide, htypes p hp⟩
    have hparams : Printable ([',', ' '].intercalate (params.map paramChars)) :=
      Text.printable_intercalate (by decide) (List.forall_mem_map.2 hparam)
    simp only [signatureChars, printable_append, printable_cons]
    refine ⟨by decide, hparams, by decide, ?_⟩
    cases result with
    | none => exact List.forall_mem_nil _
    | some r =>
      simp only [Option.elim, printable_append]
      exact ⟨by decide, hresult r rfl⟩

theorem Node.label_chars (node : Node) :
    Printable node.label.toList ∧ 'x' ∈ node.label.toList ∧ ' ' ∉ node.label.toList := by
  unfold Node.label
  split <;> decide

/-! ## Lines -/

namespace Line

/-- The characters of the line, without the newline at its end. -/
def chars (l : Line) : List Char := List.replicate l.indent '\t' ++ l.text.toList

theorem toList_toText (l : Line) : l.toText.toList = l.chars ++ ['\n'] := by
  simp [toText, chars, Text.repeated]

theorem toList_foldl (lines : List Line) (text : String) :
    (lines.foldl (fun text l => text ++ l.toText) text).toList =
      text.toList ++ lines.flatMap fun l => l.chars ++ ['\n'] := by
  induction lines generalizing text with
  | nil => simp
  | cons l lines ih =>
    rw [List.foldl_cons, ih, String.toList_append, toList_toText, List.flatMap_cons,
      List.append_assoc]

theorem toList_render (lines : List Line) :
    (render lines).toList = lines.flatMap fun l => l.chars ++ ['\n'] :=
  toList_foldl lines ""

theorem newline_not_mem {l : Line} (h : Printable l.text.toList) : '\n' ∉ l.chars := by
  rw [chars, List.mem_append]
  rintro (hindent | htext)
  · exact absurd (List.eq_of_mem_replicate hindent) (by decide)
  · exact absurd (h _ htext) (by decide)

/-- Where no line is broken, the text has just these lines. -/
theorem splitOn_render {lines : List Line} (h : ∀ l ∈ lines, '\n' ∉ l.chars) :
    (render lines).toList.splitOn '\n' = lines.map chars ++ [[]] := by
  rw [toList_render]
  induction lines with
  | nil => rfl
  | cons l lines ih =>
    rw [List.forall_mem_cons] at h
    rw [List.flatMap_cons, List.append_assoc, List.singleton_append,
      List.splitOn_append_cons_self_of_not_mem h.1, ih h.2]
    rfl

end Line

/-! ## Texts of lines -/

variable {label text : String}

/-- A word, behind which there may be details between parentheses. -/
inductive Detailed (label : String) : String → Prop where
  | plain : Detailed label label
  | details {items : List (String × String)}
      (hitems : ∀ item ∈ items, Printable item.1.toList ∧ Printable item.2.toList) :
      Detailed label (Tree.details label items)

namespace Detailed

/-- Behind the word there is nothing or a blank. -/
theorem exists_rest (h : Detailed label text) :
    ∃ rest, text.toList = label.toList ++ rest ∧ ∀ c ∈ rest.head?, c = ' ' := by
  cases h with
  | plain => exact ⟨[], by simp, nofun⟩
  | details =>
    refine ⟨_, by simp [Tree.details, List.append_assoc]; rfl, ?_⟩
    rintro c ⟨⟩
    rfl

theorem printable (h : Detailed label text) (hlabel : Printable label.toList) :
    Printable text.toList := by
  cases h with
  | plain => exact hlabel
  | @details items hitems =>
    have hall : ∀ item ∈ items, Printable (item.1 ++ ": " ++ item.2).toList := by
      intro item hitem
      simp only [String.toList_append, printable_append]
      exact ⟨⟨(hitems item hitem).1, by decide⟩, (hitems item hitem).2⟩
    simp only [Tree.details, String.toList_append, String.toList_intercalate, List.map_map,
      printable_append]
    refine ⟨⟨⟨hlabel, by decide⟩, ?_⟩, by decide⟩
    exact Text.printable_intercalate (by decide) (List.forall_mem_map.2 hall)

theorem one {key value : String} (hkey : Printable key.toList) (hvalue : Printable value.toList) :
    Detailed label (Tree.details label [(key, value)]) :=
  .details (List.forall_mem_singleton.2 ⟨hkey, hvalue⟩)

theorem two {key value key' value' : String} (hkey : Printable key.toList)
    (hvalue : Printable value.toList) (hkey' : Printable key'.toList)
    (hvalue' : Printable value'.toList) :
    Detailed label (Tree.details label [(key, value), (key', value')]) :=
  .details (List.forall_mem_cons.2 ⟨⟨hkey, hvalue⟩, List.forall_mem_singleton.2 ⟨hkey', hvalue'⟩⟩)

/-- A text is not behind another word, if that has a character that its own has not. -/
theorem not_prefix (h : Detailed label text) {word : List Char} {c : Char} (hc : c ∈ word)
    (hlabel : c ∉ label.toList) (hblank : ' ' ∉ word) : ¬ word <+: text.toList := by
  obtain ⟨rest, htext, hrest⟩ := h.exists_rest
  rw [htext]
  intro hprefix
  rcases List.prefix_or_prefix_of_prefix hprefix (List.prefix_append _ _) with hle | ⟨more, rfl⟩
  · exact hlabel (hle.subset hc)
  · cases more with
    | nil => exact hlabel (List.append_nil label.toList ▸ hc)
    | cons d more =>
      obtain ⟨tail, htail⟩ := (List.prefix_append_right_inj _).1 hprefix
      obtain rfl := hrest d (by rw [← htail]; rfl)
      exact hblank (List.mem_append_right _ (List.mem_cons_self ..))

end Detailed

theorem printable_inQuotes (h : Printable text.toList) :
    Printable (Tree.inQuotes text).toList := by
  simp only [Tree.inQuotes, String.toList_append, printable_append]
  exact ⟨⟨by decide, h⟩, by decide⟩

theorem printable_repr (n : Nat) : Printable (Nat.repr n).toList := by
  rw [Nat.toList_repr]
  exact Text.printable_toDigits (by decide) n

namespace Tree

variable {t : Tree} {id : EntityId} {e : Entity} {node : Node}

theorem Titled.printable (h : t.Titled) (he : t.entity? id = some e) : Printable e.name.toList :=
  (h id e he).1.printable

theorem Titled.printable_entityName (h : t.Titled) (id : EntityId) :
    Printable (t.entityName id).toList := by
  unfold entityName
  split
  · exact h.printable ‹_›
  · decide

/-- The line of a node is the word for it, and printable details. -/
theorem Titled.nodeText (h : t.Titled)
    (hnames : ∀ name, node.name? = some name → Lexicon.Identifier name.toList) :
    Detailed node.label (t.nodeText node) := by
  have hname (name : String) (hname : node.name? = some name) :
      Printable (inQuotes name).toList := printable_inQuotes (hnames name hname).printable
  have hentity (id : EntityId) : Printable (inQuotes (t.entityName id)).toList :=
    printable_inQuotes (h.printable_entityName id)
  cases node with
  | char byte =>
    refine .one (by decide) (printable_inQuotes ?_)
    rw [String.toList_ofList]
    exact Text.printable_visibleChar _
  | text value =>
    refine .one (by decide) (printable_inQuotes ?_)
    rw [String.toList_ofList]
    exact Text.printable_visible _
  | int => exact .two (by decide) (printable_repr _) (by decide) (printable_repr _)
  | float => exact .two (by decide) (Text.printable_toFixed _ _) (by decide) (printable_repr _)
  | bool value => exact .one (by decide) (by cases value <;> decide)
  | unary op side =>
    exact .two (by decide) (by cases op <;> decide) (by decide) (by cases side <;> decide)
  | binary op => exact .two (by decide) (by cases op <;> decide) (by decide) (hentity _)
  | definition _ op | typedef _ op =>
    exact .two (by decide) (by cases op <;> decide) (by decide) (hname _ rfl)
  | function => exact .two (by decide) (hname _ rfl) (by decide) (hentity _)
  | name | member => exact .one (by decide) (hname _ rfl)
  | signature | call | structLiteral => exact .one (by decide) (hentity _)
  | record form => exact .one (by decide) (by cases form <;> decide)
  | group | scope | result | argument | branch | loop | whileLoop => exact .plain

/-- The lines that stand for no expression have words of their own. -/
theorem Note.exists_label {text : String} (hnote : t.Note text) (h : t.Titled) :
    ∃ label, Detailed label text ∧ Printable label.toList ∧ 'x' ∉ label.toList := by
  have hkind (kind : EntityKind) : Printable kind.label.toList ∧ 'x' ∉ kind.label.toList := by
    unfold EntityKind.label
    split <;> decide
  cases hnote with
  | absent => exact ⟨_, .plain, by decide, by decide⟩
  | entity he =>
    exact ⟨_, .one (by decide) (printable_inQuotes (h.printable he)), hkind _⟩
  | @atom _ _ a he =>
    refine ⟨_, .details ?_, hkind _⟩
    simp only [List.forall_mem_cons]
    refine ⟨⟨by decide, printable_inQuotes (h.printable he)⟩, ⟨by decide, ?_⟩,
      ⟨by decide, printable_repr _⟩, nofun⟩
    unfold Reading.label
    split_ifs <;> decide

/-- They do not begin with the word for a sort of node. -/
theorem Note.not_prefix {text : String} (hnote : t.Note text) (h : t.Titled) (node : Node) :
    ¬ node.label.toList <+: text.toList := by
  obtain ⟨label, hdetailed, -, hlabel⟩ := hnote.exists_label h
  obtain ⟨-, hword, hblank⟩ := node.label_chars
  exact hdetailed.not_prefix hword hlabel hblank

/-! ## Whole dumps -/

/-- What the text of a tree is, given its lines and the expressions that these stand for. -/
structure DumpedAs (t : Tree) (main : ExprId) (rows : List (Option ExprId × Line)) : Prop where
  /-- Each line has a newline at its end, and there are no others. -/
  text : t.render.toList.splitOn '\n' = rows.map (fun row => row.2.chars) ++ [[]]
  printable : ∀ row ∈ rows, Printable row.2.text.toList
  /-- The line of an expression is the word for its sort of node, or that and more behind a
  blank. -/
  shown : ∀ id line, (some id, line) ∈ rows → ∃ e rest, t.expr? id = some e ∧
    line.text.toList = e.node.label.toList ++ rest ∧ ∀ c ∈ rest.head?, c = ' '
  /-- No other line begins with such a word. -/
  other : ∀ line, (none, line) ∈ rows → ∀ node : Node,
    ¬ node.label.toList <+: line.text.toList
  /-- A node is met before its children, and these in the order in which the node has them. -/
  preorder : t.Preorder [main] (rows.filterMap Prod.fst)
  once : (rows.filterMap Prod.fst).Nodup
  parts : ∀ id, id ∈ rows.filterMap Prod.fst ↔ t.Below main id ∧ ¬t.BelowCallee main id
  first : ∀ row ∈ rows.head?, row.2.indent = 0
  deeper : rows.IsChain fun row next => next.2.indent ≤ row.2.indent + 1

/-- The lines are those of an outline. -/
theorem Outline.dumpedAs {main : ExprId} {rows : List (Option ExprId × Line)}
    (h : t.Outline 0 [main] rows) (hlines : t.lines = rows.map Prod.snd) (htree : t.OneTree)
    (htitled : t.Titled) (hnames : ∀ id e, t.expr? id = some e → ∀ name,
      e.node.name? = some name → Lexicon.Identifier name.toList) : t.DumpedAs main rows := by
  have hdetailed : ∀ {id e}, t.expr? id = some e → Detailed e.node.label (t.nodeText e.node) :=
    fun he => htitled.nodeText (hnames _ _ he)
  have hprintable : ∀ row ∈ rows, Printable row.2.text.toList := by
    intro row hrow
    rcases h.stands row hrow with ⟨-, hnote⟩ | ⟨id, e, -, he, htext⟩
    · obtain ⟨label, hlabel, hword, -⟩ := hnote.exists_label htitled
      exact hlabel.printable hword
    · rw [htext]
      exact (hdetailed he).printable e.node.label_chars.1
  refine ⟨?_, hprintable, ?_, ?_, h.preorder, ?_, ?_, h.head_indent, h.isChain⟩
  · unfold Tree.render
    rw [hlines, Line.splitOn_render, List.map_map]
    · rfl
    · rw [List.forall_mem_map]
      exact fun row hrow => Line.newline_not_mem (hprintable row hrow)
  · intro id line hrow
    rcases h.stands _ hrow with ⟨hnone, -⟩ | ⟨_, e, hid, he, htext⟩
    · cases hnone
    · cases hid
      obtain ⟨rest, hrest, hblank⟩ := (hdetailed he).exists_rest
      exact ⟨e, rest, he, htext ▸ hrest, hblank⟩
  · intro line hrow
    rcases h.stands _ hrow with ⟨-, hnote⟩ | ⟨_, e, hid, -⟩
    · exact hnote.not_prefix htitled
    · cases hid
  · refine h.preorder.nodup htree (List.nodup_singleton _) ?_
    intro root hroot root' hroot' _ _ _
    exact (List.mem_singleton.1 hroot).trans (List.mem_singleton.1 hroot').symm
  · intro id
    rw [h.preorder.mem_iff]
    simp only [List.mem_singleton, exists_eq_left]
    exact htree.displays_iff

end Tree

namespace Grammar

/-- In a source that is accepted, all entities are called by names of types. -/
theorem titled_of_parse {tokens : TokenList} {tree : Tree} (h : parse tokens = .ok tree)
    (hnames : ∀ name, tokens.Names name → Lexicon.Identifier name.toList) : tree.Titled := by
  obtain ⟨s, members, span, hcourse, -, rfl⟩ := course_of_parse h
  exact (hcourse.titled hnames titled_withBuiltins).congr rfl

/-- A source that is accepted is dumped in lines of printable text. The first line has no tab and
every other at most one more than the line before it. In preorder, just one line begins with the
word for each expression below the main scope that is not below the callee of a call, and no other
line begins with such a word. Neither for expressions nor for entities does it matter how many steps
down are made, if there are as many as there are of them. -/
theorem dump_outlines_tree {source : String} {t : Tree} (h : parseSource source = .ok t) :
    (∃ main rows, t.mainScope = some main ∧ t.DumpedAs main rows ∧
      ∀ steps, t.exprs.size + 2 ≤ steps → t.exprLinesWithin steps (some main) 0 = t.lines) ∧
    ∀ id, t.HasEntity id → ∀ steps indent, t.entities.size + 1 ≤ steps →
      t.entityLinesWithin steps id indent = t.entityLines (some id) indent := by
  obtain ⟨tokens, htokens, hparse⟩ := parseSource_ok h
  have hsound := sound_of_parse hparse
  have htree := oneTree_of_parse hparse
  obtain ⟨main, hmain, hlast, -⟩ := htree.root
  have hnames : ∀ name, tokens.Names name → Lexicon.Identifier name.toList :=
    fun _ => Lexicon.identifier_of_tokenize htokens
  obtain ⟨rows, houtline, hlines, hsteps⟩ :=
    hsound.exists_outline hmain (Nat.lt_of_succ_le (Nat.le_of_eq hlast))
  refine ⟨⟨main, rows, hmain, ?_, hsteps⟩, ?_⟩
  · exact houtline.dumpedAs hlines htree (titled_of_parse hparse hnames) fun id e he name hname =>
      hnames name (called_of_parse hparse id e he name hname)
  · intro id hid steps indent hsteps
    obtain ⟨rows, -, hlines⟩ := hsound.settles_entity hid indent
    have hle : id.index + 1 ≤ t.entities.size := hid
    exact (hlines steps (by omega)).trans (hlines _ (by omega)).symm

/-- A newline that is given a name. -/
def newlineSource : String := "c := '\\n'\n"

/-- The newline does not break its line. -/
theorem dump_outlines_tree_newline : ∃ t main rows, parseSource newlineSource = .ok t ∧
    t.mainScope = some main ∧ t.DumpedAs main rows ∧
    "\t\tChar_Expr (data: '\\n')".toList ∈ t.render.toList.splitOn '\n' := by
  have hrun : (parseSource newlineSource).toOption.any (fun t =>
      decide ("\t\tChar_Expr (data: '\\n')".toList ∈ t.render.toList.splitOn '\n')) = true := by
    decide +kernel
  obtain ⟨t, hparse, hline⟩ := exists_parse hrun
  obtain ⟨⟨main, rows, hmain, hdumped, -⟩, -⟩ := dump_outlines_tree hparse
  exact ⟨t, main, rows, hparse, hmain, hdumped, of_decide_eq_true hline⟩

/-- A function that is called where it is defined. -/
def calledAtOnce : String := "f :: () \x7b\x7d()"

/-- The definition of the function is below the main scope, but no line shows a function. -/
theorem callee_not_dumped : ∃ t main callee e, parseSource calledAtOnce = .ok t ∧
    t.mainScope = some main ∧ t.Below main callee ∧ t.expr? callee = some e ∧
    e.node.label = "Function_Expr" ∧
    ∀ line ∈ t.render.toList.splitOn '\n',
      ¬ e.node.label.toList <+: line.dropWhile (· = '\t') := by
  have hrun : (parseSource calledAtOnce).toOption.any (fun t =>
      decide (t.mainScope = some ⟨4⟩ ∧
        (t.expr? ⟨4⟩).map (fun e => e.node.children) = some [⟨3⟩] ∧
        (t.expr? ⟨3⟩).map (fun e => e.node.children) = some [⟨2⟩] ∧
        (t.expr? ⟨2⟩).map (fun e => e.node.label) = some "Function_Expr" ∧
        ∀ line ∈ t.render.toList.splitOn '\n',
          ¬ "Function_Expr".toList <+: line.dropWhile (· = '\t'))) = true := by
    decide +kernel
  obtain ⟨t, hparse, hcheck⟩ := exists_parse hrun
  obtain ⟨hmain, hscope, hcall, hcallee, hlines⟩ := of_decide_eq_true hcheck
  obtain ⟨scope, hexpr, hparts⟩ := Option.map_eq_some_iff.1 hscope
  obtain ⟨call, hexpr', hparts'⟩ := Option.map_eq_some_iff.1 hcall
  obtain ⟨e, he, hlabel⟩ := Option.map_eq_some_iff.1 hcallee
  have hbelow : t.Below ⟨4⟩ ⟨3⟩ := .part .root hexpr (hparts ▸ List.mem_singleton_self _)
  refine ⟨t, ⟨4⟩, ⟨2⟩, e, hparse, hmain, ?_, he, hlabel, hlabel ▸ hlines⟩
  exact .part hbelow hexpr' (hparts' ▸ List.mem_singleton_self _)

end Grammar

end OnePass
