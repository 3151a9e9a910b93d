import OnePass.Proofs.Parts

/-!
# Enclosing constructs

A function holds its body and a record its members; the header of a function lies outside its
body. On the way down from an expression to one of its parts the last of these constructs is the
one that the part is in (`Tree.Inside`).

The constructs that are kept while a source is read are not seen in its tree. What a reading
makes is at home in the constructs around it all the same (`Homes`): a `return` belongs to the
last construct on the way down to it from what is loose, and if there is none on that way, to
the innermost of the constructs that were being read. The relation is built by readings
(`Homes.builds`), so that in the whole tree the way down alone tells the function of a `return`
(`inside_of_parse`). In one tree there is one way down, and hence the body of this function is
the innermost one around the `return` (`Tree.Encloses`).
-/

namespace OnePass

/-! ## The way down -/

namespace Node

/-- The construct that a node is. -/
def construct? : Node → Option Grammar.Construct
  | .function _ entity _ _ => some (.function entity)
  | .record .. => some .record
  | _ => none

/-- The parts of a construct that lie in its body. -/
def inner : Node → List ExprId
  | .function _ _ _ body => [body]
  | .record _ body _ => body
  | _ => []

/-- The parts of a node that lie where the node itself does. -/
def outer : Node → List ExprId
  | .function _ _ header _ => [header]
  | .record .. => []
  | node => node.children

theorem mem_children_of_inner {node : Node} {part : ExprId} (h : part ∈ node.inner) :
    part ∈ node.children := by
  cases node with
  | function => exact List.mem_cons_of_mem _ h
  | record => exact h
  | _ => cases h

theorem mem_children_of_outer {node : Node} {part : ExprId} (h : part ∈ node.outer) :
    part ∈ node.children := by
  cases node with
  | function => exact List.mem_pair.2 (.inl (List.mem_singleton.1 h))
  | record => cases h
  | _ => exact h

end Node

namespace Tree

variable {t t' : Tree} {root mid id part : ExprId} {e : Expr} {c c' : Option Grammar.Construct}
  {k : Grammar.Construct}

/-- The way down from one expression to another; `c` is the last construct on the way in whose
body the other one lies. -/
inductive Inside (t : Tree) (root : ExprId) : ExprId → Option Grammar.Construct → Prop where
  | root : Inside t root root none
  | outer {id part : ExprId} {c : Option Grammar.Construct} {e : Expr} (hid : Inside t root id c)
      (he : t.expr? id = some e) (hpart : part ∈ e.node.outer) : Inside t root part c
  | inner {id part : ExprId} {c : Option Grammar.Construct} {k : Grammar.Construct} {e : Expr}
      (hid : Inside t root id c) (he : t.expr? id = some e) (hk : e.node.construct? = some k)
      (hpart : part ∈ e.node.inner) : Inside t root part (some k)

namespace Inside

theorem mono (h : t.Inside root id c) (hgrows : t.Extends t') : t'.Inside root id c := by
  induction h with
  | root => exact .root
  | outer _ he hpart ih => exact .outer ih (hgrows.expr he) hpart
  | inner _ he hk hpart ih => exact .inner ih (hgrows.expr he) hk hpart

theorem toBelow (h : t.Inside root id c) : t.Below root id := by
  induction h with
  | root => exact .root
  | outer _ he hpart ih => exact .part ih he (Node.mem_children_of_outer hpart)
  | inner _ he _ hpart ih => exact .part ih he (Node.mem_children_of_inner hpart)

/-- Of two ways one after the other, the constructs of the second one are the last. -/
theorem trans (h : t.Inside root mid c) (h' : t.Inside mid id c') :
    t.Inside root id (c'.or c) := by
  induction h' with
  | root => exact h
  | outer _ he hpart ih => exact .outer ih he hpart
  | inner _ he hk hpart ih => exact .inner ih he hk hpart

/-- There is no way down from a name. -/
theorem eq_of_name (h : t.Inside root id c) {name : String} {entity : Option EntityId}
    {span : Span} (hname : t.expr? root = some ⟨.name name entity, span⟩) : id = root := by
  induction h with
  | root => rfl
  | outer _ he hpart ih =>
    cases he.symm.trans (ih ▸ hname)
    cases hpart
  | inner _ he _ hpart ih =>
    cases he.symm.trans (ih ▸ hname)
    cases hpart

/-- The way down divides at the last construct. -/
theorem last (h : t.Inside root id (some k)) : ∃ mid e body, t.expr? mid = some e ∧
    e.node.construct? = some k ∧ body ∈ e.node.inner ∧ t.Inside body id none := by
  generalize hc : some k = c at h
  induction h with
  | root => cases hc
  | outer _ he hpart ih =>
    obtain ⟨mid, x, body, hmid, hk, hbody, hinside⟩ := ih hc
    exact ⟨mid, x, body, hmid, hk, hbody, .outer hinside he hpart⟩
  | inner _ he hk hpart =>
    cases hc
    exact ⟨_, _, _, he, hk, hpart, .root⟩

/-- Whatever lies between the ends of a way without constructs lies on it, and so the way goes
on outside of that. -/
theorem between (h : t.Inside root id none) (ht : t.OneTree) (hroot : t.Below root mid)
    (hid : t.Below mid id) (hne : mid ≠ id) : ∃ e part, t.expr? mid = some e ∧
      part ∈ e.node.outer ∧ t.Below part id := by
  generalize hc : none = c at h
  induction h with
  | root =>
    have hle := ht.le_of_below hroot
    have hge := ht.le_of_below hid
    exact absurd (congrArg ExprId.mk (Nat.le_antisymm hle hge)) hne
  | inner => cases hc
  | @outer id part _ e hid' he hpart ih =>
    cases hid with
    | root => exact absurd rfl hne
    | part hparent he' hpart' =>
      obtain rfl := ht.parent_eq he (Node.mem_children_of_outer hpart) he' hpart'
      by_cases hmid : mid = id
      · subst hmid
        exact ⟨e, part, he, hpart, .root⟩
      · obtain ⟨x, next, hx, hnext, hbelow⟩ := ih hparent hmid hc
        exact ⟨x, next, hx, hnext, .part hbelow he (Node.mem_children_of_outer hpart)⟩

end Inside

/-! ## The function around an expression -/

/-- The expression `f` is a function with an entity and a body. -/
def IsFunction (t : Tree) (f : ExprId) (function : EntityId) (body : ExprId) : Prop :=
  ∃ name header span, t.expr? f = some ⟨.function name function header body, span⟩

/-- The body of the function holds the expression. Every other body around the expression is
around this body too, and there is no record between the two. -/
structure Encloses (t : Tree) (function : EntityId) (body id : ExprId) : Prop where
  function : ∃ f, t.IsFunction f function body
  inside : t.Below body id
  innermost : ∀ {f function' body'}, t.IsFunction f function' body' → t.Below body' id →
    t.Below body' body
  apart : ∀ {r form members frame span}, t.expr? r = some ⟨.record form members frame, span⟩ →
    t.Below body r → t.Below r id → r = id

/-- On the way down the last construct is the function whose body is the innermost one. -/
theorem Inside.encloses {function : EntityId} (h : t.Inside root id (some (.function function)))
    (ht : t.OneTree) : ∃ body, t.Encloses function body id := by
  obtain ⟨f, ⟨node, span⟩, body, he, hk, hbody, hinside⟩ := h.last
  cases node with
  | function name entity header scope =>
    cases hk
    obtain rfl := List.mem_singleton.1 hbody
    refine ⟨body, ⟨f, name, header, span, he⟩, hinside.toBelow, ?_, ?_⟩
    · rintro f' function' body' ⟨name', header', span', he'⟩ hbelow
      have hbody' : body' ∈ [header', body'] := List.mem_pair.2 (.inr rfl)
      rcases ht.below_total hinside.toBelow hbelow with hunder | hover
      · -- the other body is no part of this one: the way down would go through its header
        cases hunder with
        | root => exact .root
        | @part p _ x hparent hx hpart =>
          obtain rfl := ht.parent_eq hx hpart he' hbody'
          cases hx.symm.trans he'
          have hf' := (Below.child he' hbody').trans hbelow
          have hne : p ≠ id := by
            rintro rfl
            exact absurd (ht.le_of_below hbelow) (Nat.not_le.2 (ht.older he' _ hbody'))
          obtain ⟨x, part, hx', hpart', hunder'⟩ := hinside.between ht hparent hf' hne
          cases hx'.symm.trans he'
          obtain rfl := List.mem_singleton.1 hpart'
          have hsame := ht.child_eq he' (List.mem_pair.2 (.inl rfl)) hbody' hunder' hbelow
          have hapart := ht.nodup_children he'
          exact absurd (List.mem_singleton.2 hsame) (List.nodup_cons.1 hapart).1
      · exact hover
    · intro r form members frame span' hr hbody' hbelow
      by_contra hne
      obtain ⟨x, part, hx, hpart, _⟩ := hinside.between ht hbody' hbelow hne
      cases hx.symm.trans hr
      cases hpart
  | record => cases hk
  | _ => cases hk

end Tree

/-! ## What a reading makes is at home -/

namespace Grammar

variable {t t₁ t' : Tree} {roots roots₁ roots' : List ExprId} {c : List Construct} {id : ExprId}

/-- Between the two trees the loose expressions were taken up, but for names, outside of
constructs. What is new and returns belongs to the last construct on the way down to it from
what is loose or else to the innermost of those around the reading. -/
structure Homes (c : List Construct) (t : Tree) (roots : List ExprId) (t' : Tree)
    (roots' : List ExprId) : Prop where
  grows : t.Extends t'
  kept : ∀ r ∈ roots, (∃ r' ∈ roots', t'.Inside r' r none) ∨
    ∃ name entity span, t'.expr? r = some ⟨.name name entity, span⟩
  made : ∀ {id value function span}, t'.expr? id = some ⟨.result value function, span⟩ →
    t.expr? id = some ⟨.result value function, span⟩ ∨ ∃ r ∈ roots', ∃ d, t'.Inside r id d ∧
      d.or c.head? = some (.function function)

namespace Homes

theorem refl : Homes c t roots t roots := ⟨.refl, fun r hr => .inl ⟨r, hr, .root⟩, .inl⟩

theorem trans (h : Homes c t roots t₁ roots₁) (h' : Homes c t₁ roots₁ t' roots') :
    Homes c t roots t' roots' := by
  refine ⟨h.grows.trans h'.grows, ?_, ?_⟩
  · intro r hr
    rcases h.kept r hr with ⟨r₁, hr₁, hinside⟩ | ⟨name, entity, span, hname⟩
    · rcases h'.kept r₁ hr₁ with ⟨r', hr', hinside'⟩ | ⟨name, entity, span, hname⟩
      · exact .inl ⟨r', hr', hinside'.trans (hinside.mono h'.grows)⟩
      · obtain rfl := (hinside.mono h'.grows).eq_of_name hname
        exact .inr ⟨name, entity, span, hname⟩
    · exact .inr ⟨name, entity, span, h'.grows.expr hname⟩
  · intro id value function span he
    rcases h'.made he with he₁ | hnew
    · rcases h.made he₁ with hold | ⟨r₁, hr₁, d, hinside, hd⟩
      · exact .inl hold
      · -- what it was found in has been taken up since, unless that is just a name
        have hinside' := hinside.mono h'.grows
        rcases h'.kept r₁ hr₁ with ⟨r', hr', hdown⟩ | ⟨name, entity, span', hname⟩
        · refine .inr ⟨r', hr', d, ?_, hd⟩
          have hway := hdown.trans hinside'
          rwa [Option.or_none] at hway
        · obtain rfl := hinside'.eq_of_name hname
          cases he.symm.trans hname
    · exact .inr hnew

theorem more (h : Homes c t roots t₁ roots₁) (h' : Homes c t₁ [] t' roots') :
    Homes c t roots t' (roots₁ ++ roots') := by
  refine h.trans ⟨h'.grows, ?_, ?_⟩
  · exact fun r hr => .inl ⟨r, List.mem_append_left _ hr, .root⟩
  · intro id value function span he
    rcases h'.made he with hold | ⟨r, hr, d, hinside, hd⟩
    · exact .inl hold
    · exact .inr ⟨r, List.mem_append_right _ hr, d, hinside, hd⟩

/-- No expression has been made. -/
theorem unchanged (hexprs : t'.exprs = t.exprs) (hgrows : t.Extends t') :
    Homes c t roots t' roots :=
  ⟨hgrows, fun r hr => .inl ⟨r, hr, .root⟩,
    fun {id _ _ _} he => .inl ((Tree.expr?_congr hexprs id).symm.trans he)⟩

/-- One more expression, which takes up what is loose. -/
theorem push {e : Expr} (htaken : ∀ r ∈ roots, r ∈ e.node.outer ∨
      ∃ name entity span, t.expr? r = some ⟨.name name entity, span⟩)
    (hreturns : ∀ {value function}, e.node = .result value function →
      c.head? = some (.function function)) :
    Homes c t roots (t.pushExpr e).2 [⟨t.exprs.size⟩] := by
  have hgrows := t.pushExpr_extends e
  have hnew := t.expr?_pushExpr_new e
  refine ⟨hgrows, ?_, ?_⟩
  · intro r hr
    rcases htaken r hr with hpart | ⟨name, entity, span, hname⟩
    · exact .inl ⟨_, List.mem_singleton_self _, .outer .root hnew hpart⟩
    · exact .inr ⟨name, entity, span, hgrows.expr hname⟩
  · intro id value function span he
    rcases Tree.of_expr?_pushExpr he with hold | ⟨rfl, rfl⟩
    · exact .inl hold
    · exact .inr ⟨_, List.mem_singleton_self _, none, .root, hreturns rfl⟩

/-- One more construct, around what was read in it. -/
theorem construct {e : Expr} {k : Construct} {body : List ExprId}
    (hk : e.node.construct? = some k) (h : Homes (k :: c) t [] t₁ body)
    (hbody : ∀ r ∈ body, r ∈ e.node.inner) (htaken : ∀ r ∈ roots, r ∈ e.node.outer) :
    Homes c t roots (t₁.pushExpr e).2 [⟨t₁.exprs.size⟩] := by
  have hgrows := t₁.pushExpr_extends e
  have hnew := t₁.expr?_pushExpr_new e
  refine ⟨h.grows.trans hgrows, ?_, ?_⟩
  · exact fun r hr => .inl ⟨_, List.mem_singleton_self _, .outer .root hnew (htaken r hr)⟩
  · intro id value function span he
    rcases Tree.of_expr?_pushExpr he with he | ⟨rfl, rfl⟩
    · rcases h.made he with hold | ⟨r, hr, d, hinside, hd⟩
      · exact .inl hold
      · have hdown : (t₁.pushExpr e).2.Inside _ r (some k) := .inner .root hnew hk (hbody r hr)
        refine .inr ⟨_, List.mem_singleton_self _, _, hdown.trans (hinside.mono hgrows), ?_⟩
        rw [Option.or_assoc]
        exact hd
    · cases hk

end Homes

/-- Readings put expressions where they belong. -/
theorem Homes.builds : Builds Homes where
  refl := .refl
  trans h h' := h.trans h'
  more h h' := h.more h'
  quiet hquiet hevolves := .unchanged hquiet.exprs hevolves.toExtends
  bindBody hs hbind _ _ := by
    obtain rfl := Tree.bindBody_ok hbind
    exact .unchanged rfl (Tree.modifyFrame_extends _ _ (fun _ => rfl) (fun _ => rfl))
  push {_ _ e} _ hplain := by
    obtain ⟨node, span⟩ := e
    refine .push (fun r hr => .inl ?_) ?_
    · cases node with
      | function | record => exact hplain.elim
      | _ => exact hr
    · rintro value function ⟨⟩
      exact hplain
  literal {_ _ _ _ _ _ _ e} hnode _ hbase := by
    refine .push ?_ ?_
    · intro r hr
      rcases List.mem_cons.1 hr with rfl | hr
      · exact .inr ⟨_, _, _, hbase⟩
      · rw [hnode]
        exact .inl hr
    · intro value function hresult
      cases hnode.symm.trans hresult
  function {_ _ _ _ _ _ _ e} hnode _ hbody := by
    refine .construct (by rw [hnode]; rfl) hbody ?_ ?_
    · rw [hnode]
      exact fun r hr => hr
    · rw [hnode]
      exact fun r hr => hr
  record {_ _ _ _ _ _ e} hnode _ hbody := by
    refine .construct (by rw [hnode]; rfl) hbody ?_ nofun
    rw [hnode]
    exact fun r hr => hr

/-! ## Whole sources -/

/-- In a source that is accepted, the last construct on the way down to a `return` is the
function it belongs to. -/
theorem inside_of_parse {tokens : TokenList} {tree : Tree} (h : parse tokens = .ok tree)
    {value : Option ExprId} {function : EntityId} {span : Span}
    (he : tree.expr? id = some ⟨.result value function, span⟩) :
    ∃ main, tree.Inside main id (some (.function function)) := by
  obtain ⟨body, log, s, hread, rfl⟩ := parse_reads h
  have hbody := hread.building Homes.builds _ ⟨Tree.sound_withBuiltins, rfl⟩ hasExpr_empty trivial
  let main : Expr :=
    ⟨.scope body Tree.mainFrame,
      (Cursor.start tokens).current.span.merge s.cursor.previousSpan⟩
  have hmain : Homes [] Tree.withBuiltins [] (s.tree.pushExpr main).2 [s.newExpr] :=
    hbody.trans (Homes.push (fun r hr => .inl hr) nofun)
  have hfinished : Homes [] Tree.withBuiltins [] (s.finished _ body).tree [s.newExpr] :=
    hmain.trans (.unchanged rfl (setMainScope_evolves (some s.newExpr)).toExtends)
  rcases hfinished.made he with hold | ⟨main, _, d, hinside, hd⟩
  · cases hold
  · refine ⟨main, ?_⟩
    rw [List.head?_nil, Option.or_none] at hd
    exact hd ▸ hinside

end Grammar

end OnePass
