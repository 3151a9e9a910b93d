import OnePass.Proofs.Parts
import OnePass.Tree.Dump

/-!
# Outlines

A dump is an outline: under each line stands what belongs to it, one tab deeper (`Tree.Outline`).
The expressions that have a line are met in preorder (`Outline.preorder`), and a line has at most
one tab more than the one before it (`Outline.isChain`). The callee of a call has no line and
neither has what is below it, but every other part of the main scope has one, and only one
(`Preorder.mem_iff`, `Preorder.nodup`).

A dump is made with a bound on the steps down. It does not matter from some number of steps on,
since children are older than their parents and what an entity is made of is older than the entity
(`Settles`).
-/

namespace OnePass

/-- What may stand below the line of a node. -/
inductive DumpPart where
  | expr (id : Option ExprId)
  | entity (id : Option EntityId)

/-- The expression that is shown, if there is one. -/
def DumpPart.roots : DumpPart → List ExprId
  | .expr id => id.toList
  | .entity _ => []

namespace Node

/-- The children that a dump shows: all but the callee of a call. -/
def shown : Node → List ExprId
  | .call _ _ args => args.toList
  | node => node.children

/-- What stands below the line of a node, one tab deeper. -/
def underneath : Node → List DumpPart
  | .unary _ _ _ operand => [.expr (some operand)]
  | .binary _ _ left right => [.expr (some left), .expr (some right)]
  | .group inner => [.expr (some inner)]
  | .scope body _ | .record _ body _ => body.map fun id => .expr (some id)
  | .result value _ => [.expr value]
  | .name _ entity => [.entity entity]
  | .definition _ _ init entity _ => [.expr init, .entity (some entity)]
  | .signature params _ _ => [.expr params]
  | .function _ _ header body => [.expr (some header), .expr (some body)]
  | .call _ _ args => [.expr args]
  | .argument value _ => [.expr (some value)]
  | .branch cond thenScope elseScope _ =>
    [.expr (some cond), .expr (some thenScope), .expr elseScope]
  | .loop init cond step body _ =>
    [.expr (some init), .expr (some cond), .expr (some step), .expr (some body)]
  | .whileLoop cond body _ => [.expr (some cond), .expr (some body)]
  | .typedef _ _ body _ => [.expr (some body)]
  | .member base _ entity => [.expr (some base), .entity (some entity)]
  | .structLiteral _ args => [.expr args]
  | _ => []

/-- What stands behind the node and what is below it, with as many tabs as the node. -/
def following? : Node → Option ExprId
  | .definition _ _ _ _ next | .argument _ next => next
  | _ => none

theorem shown_eq (node : Node) :
    node.shown = node.underneath.flatMap DumpPart.roots ++ node.following?.toList := by
  cases node <;>
    simp [shown, children, underneath, following?, DumpPart.roots, List.flatMap_map]

theorem shown_sublist (node : Node) : node.shown.Sublist node.children := by
  cases node with
  | call => exact List.sublist_cons_self _ _
  | _ => exact .refl _

/-- A child is shown, or it is the callee of a call. -/
theorem shown_or_callee {node : Node} {part : ExprId} (h : part ∈ node.children) :
    part ∈ node.shown ∨ ∃ function args, node = .call part function args := by
  cases node with
  | call callee function args =>
    rcases List.mem_cons.1 h with rfl | h
    · exact .inr ⟨function, args, rfl⟩
    · exact .inl h
  | _ => exact .inl h

theorem child_of_underneath {node : Node} {c : ExprId}
    (h : .expr (some c) ∈ node.underneath) : c ∈ node.children := by
  refine (shown_sublist node).subset ?_
  rw [shown_eq]
  exact List.mem_append_left _ (List.mem_flatMap.2 ⟨_, h, List.mem_singleton_self c⟩)

theorem child_of_following {node : Node} {c : ExprId} (h : c ∈ node.following?.toList) :
    c ∈ node.children := by
  refine (shown_sublist node).subset ?_
  rw [shown_eq]
  exact List.mem_append_right _ h

theorem referent_of_underneath {node : Node} {m : EntityId}
    (h : .entity (some m) ∈ node.underneath) : node.referent? = some m := by
  cases node <;> simp_all [underneath, referent?]

end Node

namespace Tree

variable {t : Tree} {indent steps n m : Nat} {id root part : ExprId} {e : Expr}
  {roots roots' order order' : List ExprId} {rows rows' : List (Option ExprId × Line)}

/-! ## Preorder -/

/-- The expressions that a dump shows below some roots, in preorder. -/
inductive Preorder (t : Tree) : List ExprId → List ExprId → Prop where
  | nil : Preorder t [] []
  | cons {id : ExprId} {e : Expr} {roots order order' : List ExprId} (he : t.expr? id = some e)
      (hparts : Preorder t e.node.shown order) (hrest : Preorder t roots order') :
      Preorder t (id :: roots) (id :: (order ++ order'))

/-- The expression is shown below another, or that itself. -/
inductive Displays (t : Tree) (root : ExprId) : ExprId → Prop where
  | root : Displays t root root
  | part {id part : ExprId} {e : Expr} (hid : Displays t root id) (he : t.expr? id = some e)
      (hpart : part ∈ e.node.shown) : Displays t root part

theorem Displays.toBelow (h : t.Displays root id) : t.Below root id := by
  induction h with
  | root => exact .root
  | part _ he hpart ih => exact .part ih he ((Node.shown_sublist _).subset hpart)

theorem Displays.trans {inner : ExprId} (h : t.Displays root inner) (h' : t.Displays inner id) :
    t.Displays root id := by
  induction h' with
  | root => exact h
  | part _ he hpart ih => exact .part ih he hpart

/-- What is shown below an expression is itself or shown below one of its children. -/
theorem Displays.cases_head (h : t.Displays root id) (he : t.expr? root = some e) :
    id = root ∨ ∃ part ∈ e.node.shown, t.Displays part id := by
  induction h with
  | root => exact .inl rfl
  | part _ he' hpart ih =>
    rcases ih with rfl | ⟨part, hshown, hbelow⟩
    · obtain rfl := Option.some.inj (he.symm.trans he')
      exact .inr ⟨_, hpart, .root⟩
    · exact .inr ⟨part, hshown, .part hbelow he' hpart⟩

namespace Preorder

theorem append_cases (h : t.Preorder (roots ++ roots') order) :
    ∃ before after, order = before ++ after ∧ t.Preorder roots before ∧
      t.Preorder roots' after := by
  induction roots generalizing order with
  | nil => exact ⟨[], order, rfl, .nil, h⟩
  | cons root roots ih =>
    cases h with
    | cons he hparts hrest =>
      obtain ⟨before, after, rfl, hbefore, hafter⟩ := ih hrest
      exact ⟨_, after, by simp, .cons he hparts hbefore, hafter⟩

theorem append (h : t.Preorder roots order) (h' : t.Preorder roots' order') :
    t.Preorder (roots ++ roots') (order ++ order') := by
  induction h with
  | nil => exact h'
  | cons he hparts _ _ ih =>
    rw [List.cons_append, List.cons_append, List.append_assoc]
    exact .cons he hparts ih

/-- Just what is shown is met. -/
theorem mem_iff (h : t.Preorder roots order) : id ∈ order ↔ ∃ root ∈ roots, t.Displays root id := by
  induction h with
  | nil => simp
  | cons he hparts hrest ih ih' =>
    rw [List.mem_cons, List.mem_append, ih, ih', List.exists_mem_cons_iff, ← or_assoc]
    refine or_congr_left ⟨?_, fun h => h.cases_head he⟩
    rintro (rfl | ⟨part, hpart, hdisplays⟩)
    · exact .root
    · exact Displays.trans (.part .root he hpart) hdisplays

/-- In one tree nothing is met twice. -/
theorem nodup (h : t.Preorder roots order) (ht : t.OneTree) (hroots : roots.Nodup)
    (hapart : ∀ root ∈ roots, ∀ root' ∈ roots, ∀ id, t.Below root id → t.Below root' id →
      root = root') : order.Nodup := by
  induction h with
  | nil => exact .nil
  | @cons id e roots order order' he hparts hrest ih ih' =>
    have hmem : ∀ {x}, x ∈ order → ∃ part ∈ e.node.children, t.Below part x := by
      intro x hx
      obtain ⟨part, hpart, hdisplays⟩ := hparts.mem_iff.1 hx
      exact ⟨part, (Node.shown_sublist _).subset hpart, hdisplays.toBelow⟩
    have hparts_nodup : order.Nodup := by
      have hsublist := Node.shown_sublist e.node
      refine ih ((ht.nodup_children he).sublist hsublist) fun part hpart part' hpart' x hx hx' => ?_
      exact ht.child_eq he (hsublist.subset hpart) (hsublist.subset hpart') hx hx'
    have hrest_nodup : order'.Nodup := by
      refine ih' (List.nodup_cons.1 hroots).2 fun root hroot root' hroot' => ?_
      exact hapart root (.tail _ hroot) root' (.tail _ hroot')
    -- what is below `id` is below no other root
    have hother : ∀ {x}, t.Below id x → x ∉ order' := by
      intro x hx hx'
      obtain ⟨root, hroot, hdisplays⟩ := hrest.mem_iff.1 hx'
      obtain rfl := hapart id (.head _) root (.tail _ hroot) x hx hdisplays.toBelow
      exact (List.nodup_cons.1 hroots).1 hroot
    refine List.nodup_cons.2 ⟨?_, List.nodup_append.2 ⟨hparts_nodup, hrest_nodup, ?_⟩⟩
    · rw [List.mem_append]
      rintro (hid | hid)
      · obtain ⟨part, hpart, hbelow⟩ := hmem hid
        exact absurd (ht.le_of_below hbelow) (Nat.not_le.2 (ht.older he part hpart))
      · exact hother .root hid
    · intro x hx y hy hxy
      obtain ⟨part, hpart, hbelow⟩ := hmem hx
      exact hother ((Below.child he hpart).trans hbelow) (hxy ▸ hy)

end Preorder

/-- The expression is below the callee of a call, or that itself, and the call is below the root. -/
def BelowCallee (t : Tree) (root id : ExprId) : Prop :=
  ∃ call callee function args span, t.Below root call ∧
    t.expr? call = some ⟨.call callee function args, span⟩ ∧ t.Below callee id

/-- In one tree all parts are shown, but for callees and what is below these. -/
theorem OneTree.displays_iff (ht : t.OneTree) :
    t.Displays root id ↔ t.Below root id ∧ ¬t.BelowCallee root id := by
  constructor
  · intro h
    refine ⟨h.toBelow, ?_⟩
    rintro ⟨call, callee, function, args, span, hcall, hexpr, hbelow⟩
    have hcallee : callee ∈ (Node.call callee function args).children := .head _
    induction h with
    | root =>
      have hle := ht.le_of_below hbelow
      have hle' := ht.le_of_below hcall
      have hlt := ht.older hexpr callee hcallee
      omega
    | @part parent part x hparent he hpart ih =>
      have hchild := (Node.shown_sublist _).subset hpart
      cases hbelow with
      | root =>
        -- the callee itself is not among what is shown of the call
        obtain rfl := ht.parent_eq hexpr hcallee he hchild
        obtain rfl := Option.some.inj (hexpr.symm.trans he)
        exact (List.nodup_cons.1 (ht.nodup_children hexpr)).1 hpart
      | part hparent' he' hpart' =>
        obtain rfl := ht.parent_eq he' hpart' he hchild
        exact ih hparent'
  · rintro ⟨h, hcallees⟩
    induction h with
    | root => exact .root
    | @part parent part x hparent he hpart ih =>
      have hdisplays : t.Displays root parent := by
        refine ih ?_
        rintro ⟨call, callee, function, args, span, hcall, hexpr, hbelow⟩
        exact hcallees ⟨call, callee, function, args, span, hcall, hexpr, .part hbelow he hpart⟩
      rcases Node.shown_or_callee hpart with hshown | ⟨function, args, hnode⟩
      · exact .part hdisplays he hshown
      · refine absurd ⟨parent, part, function, args, x.span, hparent, ?_, .root⟩ hcallees
        rw [he, ← hnode]

/-! ## Outlines -/

/-- A text that stands for no expression. -/
inductive Note (t : Tree) : String → Prop where
  | absent : Note t "(NULL)"
  | entity {id : EntityId} {e : Entity} (he : t.entity? id = some e) :
      Note t (details e.kind.label [("name", inQuotes e.name)])
  | atom {id : EntityId} {e : Entity} {a : Atom} (he : t.entity? id = some e)
      (hkind : e.kind = .atom a) :
      Note t (details e.kind.label [("name", inQuotes e.name), ("desc", a.reading.label),
        ("size", Nat.repr a.size)])

/-- The lines that show some expressions one after the other, each with the expression that it
stands for: below each line there is what belongs to it, with one tab more, and what follows an
expression comes next. -/
inductive Outline (t : Tree) : Nat → List ExprId → List (Option ExprId × Line) → Prop where
  | nil {indent : Nat} : Outline t indent [] []
  | note {indent : Nat} {text : String} {roots : List ExprId}
      {under rows : List (Option ExprId × Line)} (hnote : t.Note text)
      (hunder : Outline t (indent + 1) [] under) (hrest : Outline t indent roots rows) :
      Outline t indent roots ((none, ⟨indent, text⟩) :: (under ++ rows))
  | node {indent : Nat} {id : ExprId} {e : Expr} {inner following roots : List ExprId}
      {under rows : List (Option ExprId × Line)} (he : t.expr? id = some e)
      (hshown : e.node.shown = inner ++ following) (hunder : Outline t (indent + 1) inner under)
      (hrest : Outline t indent (following ++ roots) rows) :
      Outline t indent (id :: roots) ((some id, ⟨indent, t.nodeText e.node⟩) :: (under ++ rows))

namespace Outline

theorem append (h : t.Outline indent roots rows) (h' : t.Outline indent roots' rows') :
    t.Outline indent (roots ++ roots') (rows ++ rows') := by
  induction h with
  | nil => exact h'
  | note hnote hunder _ _ ih =>
    rw [List.cons_append, List.append_assoc]
    exact .note hnote hunder (ih h')
  | node he hshown hunder _ _ ih =>
    rw [List.cons_append, List.cons_append, List.append_assoc]
    refine .node he hshown hunder ?_
    rw [← List.append_assoc]
    exact ih h'

/-- Expressions are met in preorder. -/
theorem preorder (h : t.Outline indent roots rows) :
    t.Preorder roots (rows.filterMap Prod.fst) := by
  induction h with
  | nil => exact .nil
  | note _ _ _ ih ih' =>
    have hnil := ih.append ih'
    simpa using hnil
  | @node _ id e inner following roots under rows he hshown _ _ ih ih' =>
    obtain ⟨before, after, horder, hbefore, hafter⟩ := ih'.append_cases
    have hparts := ih.append hbefore
    rw [← hshown] at hparts
    have hall := Preorder.cons he hparts hafter
    rw [List.filterMap_cons, List.filterMap_append, horder, ← List.append_assoc]
    exact hall

theorem le_indent (h : t.Outline indent roots rows) : ∀ row ∈ rows, indent ≤ row.2.indent := by
  induction h with
  | nil => exact nofun
  | note _ _ _ ih ih' | node _ _ _ _ ih ih' =>
    rw [List.forall_mem_cons, List.forall_mem_append]
    exact ⟨Nat.le_refl _, fun row hrow => Nat.le_of_succ_le (ih row hrow), ih'⟩

theorem head_indent (h : t.Outline indent roots rows) :
    ∀ row ∈ rows.head?, row.2.indent = indent := by
  cases h with
  | nil => exact nofun
  | note | node =>
    rintro row ⟨⟩
    rfl

/-- A line has at most one tab more than the one before it. -/
theorem isChain (h : t.Outline indent roots rows) :
    rows.IsChain fun row next => next.2.indent ≤ row.2.indent + 1 := by
  induction h with
  | nil => exact .nil
  | note _ hunder hrest ih ih' | node _ _ hunder hrest ih ih' =>
    refine List.isChain_cons.2 ⟨?_, List.isChain_append.2 ⟨ih, ih', ?_⟩⟩
    · intro next hnext
      rw [List.head?_append, Option.mem_def, Option.or_eq_some_iff] at hnext
      rcases hnext with hnext | ⟨-, hnext⟩
      · exact Nat.le_of_eq (hunder.head_indent next hnext)
      · exact Nat.le_succ_of_le (Nat.le_of_eq (hrest.head_indent next hnext))
    · intro row hrow next hnext
      have hle := hunder.le_indent row (List.mem_of_mem_getLast? hrow)
      rw [hrest.head_indent next hnext]
      omega

/-- What a line stands for. -/
theorem stands (h : t.Outline indent roots rows) : ∀ row ∈ rows,
    row.1 = none ∧ t.Note row.2.text ∨
      ∃ id e, row.1 = some id ∧ t.expr? id = some e ∧ row.2.text = t.nodeText e.node := by
  induction h with
  | nil => exact nofun
  | note hnote _ _ ih ih' =>
    rw [List.forall_mem_cons, List.forall_mem_append]
    exact ⟨.inl ⟨rfl, hnote⟩, ih, ih'⟩
  | node he _ _ _ ih ih' =>
    rw [List.forall_mem_cons, List.forall_mem_append]
    exact ⟨.inr ⟨_, _, rfl, he, rfl⟩, ih, ih'⟩

end Outline

/-! ## Steps -/

/-- From some number of steps on, what is shown with so many steps is the same outline. -/
def Settles (t : Tree) (n indent : Nat) (roots : List ExprId) (lines : Nat → List Line) : Prop :=
  ∃ rows, t.Outline indent roots rows ∧ ∀ steps, n ≤ steps → lines steps = rows.map Prod.snd

namespace Settles

variable {lines lines' : Nat → List Line} {text : String}

theorem mono (h : t.Settles n indent roots lines) (hn : n ≤ m) :
    t.Settles m indent roots lines := by
  obtain ⟨rows, houtline, hlines⟩ := h
  exact ⟨rows, houtline, fun steps hsteps => hlines steps (Nat.le_trans hn hsteps)⟩

theorem nil : t.Settles n indent [] fun _ => [] := ⟨[], .nil, fun _ _ => rfl⟩

theorem append (h : t.Settles n indent roots lines) (h' : t.Settles n indent roots' lines') :
    t.Settles n indent (roots ++ roots') fun steps => lines steps ++ lines' steps := by
  obtain ⟨rows, houtline, hlines⟩ := h
  obtain ⟨rows', houtline', hlines'⟩ := h'
  refine ⟨rows ++ rows', houtline.append houtline', fun steps hsteps => ?_⟩
  show lines steps ++ lines' steps = _
  rw [hlines steps hsteps, hlines' steps hsteps, List.map_append]

theorem flatMap {α : Type} {xs : List α} {roots : α → List ExprId} {lines : Nat → α → List Line}
    (h : ∀ x ∈ xs, t.Settles n indent (roots x) fun steps => lines steps x) :
    t.Settles n indent (xs.flatMap roots) fun steps => xs.flatMap (lines steps) := by
  induction xs with
  | nil => exact nil
  | cons x xs ih =>
    rw [List.forall_mem_cons] at h
    exact h.1.append (ih h.2)

/-- One step more is needed for what is one step further down. -/
theorem succ (h : t.Settles n indent roots fun steps => lines (steps + 1)) :
    t.Settles (n + 1) indent roots lines := by
  obtain ⟨rows, houtline, hlines⟩ := h
  refine ⟨rows, houtline, fun steps hsteps => ?_⟩
  obtain ⟨steps, rfl⟩ := Nat.exists_eq_succ_of_ne_zero (Nat.ne_zero_of_lt hsteps)
  exact hlines steps (Nat.le_of_succ_le_succ hsteps)

/-- A line that stands for no expression, and what is under it. -/
theorem note (hnote : t.Note text) (h : t.Settles n (indent + 1) [] lines) :
    t.Settles n indent [] fun steps => ⟨indent, text⟩ :: lines steps := by
  obtain ⟨rows, houtline, hlines⟩ := h
  refine ⟨_, .note hnote houtline .nil, fun steps hsteps => ?_⟩
  show ⟨indent, text⟩ :: lines steps = _
  rw [hlines steps hsteps, List.append_nil]
  rfl

/-- The line of an expression, what is under it and what follows it. -/
theorem node {inner following : List ExprId} (he : t.expr? id = some e)
    (hshown : e.node.shown = inner ++ following) (hunder : t.Settles n (indent + 1) inner lines)
    (hfollowing : t.Settles n indent following lines') :
    t.Settles n indent [id] fun steps =>
      ⟨indent, t.nodeText e.node⟩ :: (lines steps ++ lines' steps) := by
  obtain ⟨under, houtline, hlines⟩ := hunder
  obtain ⟨rows, houtline', hlines'⟩ := hfollowing
  refine ⟨_, .node he hshown houtline ((List.append_nil following).symm ▸ houtline'), ?_⟩
  intro steps hsteps
  show ⟨indent, t.nodeText e.node⟩ :: (lines steps ++ lines' steps) = _
  rw [hlines steps hsteps, hlines' steps hsteps, ← List.map_append]
  rfl

end Settles

/-! ## Entities -/

theorem settles_typeLine {id : EntityId} (hid : t.HasEntity id) (n indent : Nat) :
    t.Settles n indent [] fun _ => t.typeLine id indent := by
  obtain ⟨⟨name, kind⟩, he⟩ := hasEntity_iff.1 hid
  have hline : ∃ text, t.Note text ∧ t.typeLine id indent = [⟨indent, text⟩] := by
    unfold typeLine
    rw [he]
    cases kind with
    | atom a => exact ⟨_, .atom he rfl, rfl⟩
    | _ => exact ⟨_, .entity he, rfl⟩
  obtain ⟨text, hnote, hline⟩ := hline
  rw [hline]
  exact .note hnote .nil

/-- An entity is made of older ones, so that its lines are settled by its age. -/
theorem Sound.settles_entity (h : t.Sound) {id : EntityId} (hid : t.HasEntity id) (indent : Nat) :
    t.Settles (id.index + 1) indent [] fun steps => t.entityLinesWithin steps id indent := by
  induction hn : id.index using Nat.strongRecOn generalizing id indent with
  | ind n ih =>
    subst hn
    obtain ⟨e, he⟩ := hasEntity_iff.1 hid
    have hkind := h.kind he
    refine .succ ?_
    simp only [entityLinesWithin, he]
    have hnote : t.Note _ := .entity he
    cases hcase : e.kind with
    | var type =>
      rw [hcase] at hkind hnote
      exact .note hnote (settles_typeLine hkind.2.hasEntity _ _)
    | function params result =>
      rw [hcase] at hkind hnote
      obtain ⟨hparams, hresult, htype⟩ := hkind
      have hall : ∀ p ∈ params, t.Settles id.index (indent + 1) []
          fun steps => t.entityLinesWithin steps p (indent + 1) := fun p hp =>
        (ih p.index (hparams p hp) (Nat.lt_trans (hparams p hp) hid) (indent + 1) rfl).mono
          (hparams p hp)
      have hlines := (Settles.flatMap hall).append (settles_typeLine htype.hasEntity _ _)
      rw [List.append_nil, List.flatMap_eq_nil_iff.2 fun _ _ => rfl] at hlines
      exact .note hnote hlines
    | _ => exact settles_typeLine hid _ _

/-! ## Expressions -/

/-- The lines of a part, with at most `steps` steps down. -/
def partLinesWithin (t : Tree) (steps : Nat) (p : DumpPart) (indent : Nat) : List Line :=
  match p with
  | .expr id => t.exprLinesWithin steps id indent
  | .entity id => t.entityLines id indent

/-- Below the line of a node stands what it is made of, and behind that what follows. -/
theorem exprLinesWithin_succ (he : t.expr? id = some e) (steps indent : Nat) :
    t.exprLinesWithin (steps + 1) (some id) indent = ⟨indent, t.nodeText e.node⟩ ::
      ((e.node.underneath.flatMap fun p => t.partLinesWithin steps p (indent + 1)) ++
        e.node.following?.toList.flatMap fun id => t.exprLinesWithin steps (some id) indent) := by
  obtain ⟨node, span⟩ := e
  cases node with
  | definition _ _ _ _ next | argument _ next =>
    cases next <;>
      simp [exprLinesWithin, he, Node.underneath, Node.following?, partLinesWithin]
  | _ =>
    simp [exprLinesWithin, he, Node.underneath, Node.following?, partLinesWithin,
      List.flatMap_map]

/-- A part is settled if the expression that it shows is. -/
theorem Sound.settles_part (h : t.Sound) {p : DumpPart} {indent : Nat}
    (he : t.expr? id = some e) (hp : p ∈ e.node.underneath)
    (ih : ∀ c ∈ e.node.children, t.Settles n indent [c]
      fun steps => t.exprLinesWithin steps (some c) indent) (hn : 0 < n) :
    t.Settles n indent p.roots fun steps => t.partLinesWithin steps p indent := by
  cases p with
  | expr child =>
    cases child with
    | none =>
      refine .mono (.succ ?_) hn
      exact .note .absent .nil
    | some c => exact ih c (Node.child_of_underneath hp)
  | entity entity =>
    cases entity with
    | none => exact .note .absent .nil
    | some m =>
      have hm := (h.node he).referent m (Node.referent_of_underneath hp)
      obtain ⟨rows, houtline, hlines⟩ := h.settles_entity hm indent
      exact ⟨rows, houtline, fun _ _ => hlines _ (Nat.succ_le_succ (Nat.le_of_lt hm))⟩

/-- Children are older than their parents, so that the lines of an expression are settled by its
age. -/
theorem Sound.settles_expr (h : t.Sound) (hid : t.HasExpr id) (indent : Nat) :
    t.Settles (id.index + 2) indent [id] fun steps => t.exprLinesWithin steps (some id) indent := by
  induction hn : id.index using Nat.strongRecOn generalizing id indent with
  | ind n ih =>
    subst hn
    obtain ⟨e, he⟩ := hasExpr_iff.1 hid
    have hchild (c : ExprId) (hc : c ∈ e.node.children) (indent : Nat) :
        t.Settles (id.index + 1) indent [c]
          fun steps => t.exprLinesWithin steps (some c) indent := by
      have hlt := (h.node he).children c hc
      exact (ih c.index hlt (Nat.lt_trans hlt hid) indent rfl).mono (Nat.succ_le_succ hlt)
    have hunder := Settles.flatMap fun p hp => h.settles_part he hp
      (fun c hc => hchild c hc (indent + 1)) (Nat.succ_pos _)
    have hfollowing := Settles.flatMap fun c (hc : c ∈ e.node.following?.toList) =>
      hchild c (Node.child_of_following hc) indent
    rw [List.flatMap_singleton'] at hfollowing
    refine .succ ?_
    simp only [exprLinesWithin_succ he]
    exact .node he e.node.shown_eq hunder hfollowing

/-- The lines of a whole tree are an outline of its main scope, and it does not matter how many
steps down are made, if there are enough. -/
theorem Sound.exists_outline (h : t.Sound) {main : ExprId} (hmain : t.mainScope = some main)
    (hid : t.HasExpr main) : ∃ rows, t.Outline 0 [main] rows ∧ t.lines = rows.map Prod.snd ∧
      ∀ steps, t.exprs.size + 2 ≤ steps → t.exprLinesWithin steps (some main) 0 = t.lines := by
  obtain ⟨rows, houtline, hlines⟩ := h.settles_expr hid 0
  have hall : ∀ steps, t.exprs.size + 2 ≤ steps →
      t.exprLinesWithin steps (some main) 0 = rows.map Prod.snd := fun steps hsteps =>
    hlines steps (Nat.le_trans (Nat.add_le_add_right (Nat.le_of_lt hid) 2) hsteps)
  have htree : t.lines = rows.map Prod.snd := by
    unfold lines
    rw [hmain]
    exact hall _ (Nat.le_refl _)
  exact ⟨rows, houtline, htree, fun steps hsteps => (hall steps hsteps).trans htree.symm⟩

end Tree

end OnePass
