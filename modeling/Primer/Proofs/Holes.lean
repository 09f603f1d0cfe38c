import Primer.Checker.Analysis
import Primer.Proofs.Nodes

/-!
# Places of expressions

An expression or statement without one of the expressions in it, however deep. Another can be put
there (`Stmt.Site.fill`), and a check reaches the place with the names in scope there
(`Stmt.Site.reach`). Every expression in a statement has such a place, unless it stands in the body
of a function (`Occurs.exists_site`).
-/

namespace Primer

/-- An operator on two operands, with its span. -/
def BinaryOp.apply (op : BinaryOp) (span : Span) (left right : Expr) : Expr :=
  match op with
  | arithmetic o => .arithmetic span o left right
  | relational o => .relational span o left right
  | logical o => .logical span o left right

namespace Expr

/-- An expression without one of its parts. -/
inductive Hole where
  | left (span : Span) (op : BinaryOp) (right : Expr)
  | right (span : Span) (op : BinaryOp) (left : Expr)
  | negate (span : Span)
  | not (span : Span)
  | cast (span : Span) (target : Ty)
  | group (span : Span)
  | argument (span : Span) (name : String) (before after : List Expr)
  | receiver (span : Span) (name : String) (arguments : List Expr)
  | methodArgument (span : Span) (receiver : Expr) (name : String) (before after : List Expr)
  | target (span : Span) (index : Expr)
  | index (span : Span) (target : Expr)
  | cellTarget (span : Span) (index column : Expr)
  | cellIndex (span : Span) (target column : Expr)
  | column (span : Span) (target index : Expr)
  | item (span : Span) (before after : List Expr)
  | row (span : Span) (before after : List Expr)

def Hole.fill : Hole → Expr → Expr
  | left span op r, x => op.apply span x r
  | right span op l, x => op.apply span l x
  | negate span, x => .negate span x
  | not span, x => .not span x
  | cast span t, x => .cast span t x
  | group span, x => .group span x
  | argument span f before after, x => .call span f (before ++ x :: after)
  | receiver span f args, x => .method span x f args
  | methodArgument span r f before after, x => .method span r f (before ++ x :: after)
  | target span i, x => .index span x i
  | index span t, x => .index span t x
  | cellTarget span i j, x => .cell span x i j
  | cellIndex span t j, x => .cell span t x j
  | column span t i, x => .cell span t i x
  | item span before after, x => .vector span (before ++ x :: after)
  | row span before after, x => .matrix span (before ++ x :: after)

/-- An expression in holes, the outermost first. -/
def fill (holes : List Hole) (x : Expr) : Expr := holes.foldr Hole.fill x

end Expr

namespace Stmt

/-- A statement without one of its expressions. -/
inductive Hole where
  | initial (span : Span) (name : String) (ty : Ty)
  | assigned (span : Span) (name : String)
  | target (span : Span) (index : Expr) (column : Option Expr) (value : Expr)
  | index (span : Span) (target : Expr) (column : Option Expr) (value : Expr)
  | column (span : Span) (target index value : Expr)
  | value (span : Span) (target index : Expr) (column : Option Expr)
  | step (span : Span) (up : Bool)
  | branch (span : Span) (body : Block) (otherwise : Option Stmt)
  | scrutinee (span : Span) (cases : List Case) (fallback : Option (List Stmt))
  | case (span : Span) (scrutinee : Expr) (before : List Case) (body : List Stmt) (own : Span)
      (after : List Case) (fallback : Option (List Stmt))
  | whileTest (span : Span) (body : Block)
  | doTest (span : Span) (body : Block)
  | forTest (span : Span) (first next : Option Stmt) (body : Block)
  | print (span : Span)
  | giveBack (span : Span)
  | start (span : Span) (name : String) (before after : List Expr)
  | expression (span : Span)

def Hole.fill : Hole → Expr → Stmt
  | initial span name ty, x => .declare span name ty (some x)
  | assigned span name, x => .assign span name x
  | target span i j v, x => .assignIndex span x i j v
  | index span t j v, x => .assignIndex span t x j v
  | column span t i v, x => .assignIndex span t i (some x) v
  | value span t i j, x => .assignIndex span t i j x
  | step span up, x => .step span x up
  | branch span body otherwise, x => .branch span x body otherwise
  | scrutinee span ks d, x => .switch span x ks d
  | case span e before body own after d, x => .switch span e (before ++ ⟨x, body, own⟩ :: after) d
  | whileTest span body, x => .whileLoop span x body
  | doTest span body, x => .doLoop span body x
  | forTest span first next body, x => .forLoop span first (some x) next body
  | print span, x => .print span x
  | giveBack span, x => .giveBack span (some x)
  | start span name before after, x => .start span name (before ++ x :: after)
  | expression span, x => .expression span x

/-- A statement without one of the statements directly in it. -/
inductive Nest where
  | inBlock (before after : List Stmt) (span : Span)
  | inBranch (span : Span) (test : Expr) (before after : List Stmt) (own : Span)
      (otherwise : Option Stmt)
  | inElse (span : Span) (test : Expr) (body : Block)
  | inCase (span : Span) (scrutinee : Expr) (cases : List Case) (value : Expr)
      (before after : List Stmt) (own : Span) (more : List Case) (fallback : Option (List Stmt))
  | inDefault (span : Span) (scrutinee : Expr) (cases : List Case) (before after : List Stmt)
  | inWhile (span : Span) (test : Expr) (before after : List Stmt) (own : Span)
  | inDo (span : Span) (before after : List Stmt) (own : Span) (test : Expr)
  | inFirst (span : Span) (test : Option Expr) (next : Option Stmt) (body : Block)
  | inNext (span : Span) (first : Option Stmt) (test : Option Expr) (body : Block)
  | inFor (span : Span) (first : Option Stmt) (test : Option Expr) (next : Option Stmt)
      (before after : List Stmt) (own : Span)

def Nest.fill : Nest → Stmt → Stmt
  | inBlock before after own, s => .block ⟨before ++ s :: after, own⟩
  | inBranch span test before after own other, s =>
    .branch span test ⟨before ++ s :: after, own⟩ other
  | inElse span test body, s => .branch span test body (some s)
  | inCase span e ks value before after own more d, s =>
    .switch span e (ks ++ ⟨value, before ++ s :: after, own⟩ :: more) d
  | inDefault span e ks before after, s => .switch span e ks (some (before ++ s :: after))
  | inWhile span test before after own, s => .whileLoop span test ⟨before ++ s :: after, own⟩
  | inDo span before after own test, s => .doLoop span ⟨before ++ s :: after, own⟩ test
  | inFirst span test next body, s => .forLoop span (some s) test next body
  | inNext span first test body, s => .forLoop span first test (some s) body
  | inFor span first test next before after own, s =>
    .forLoop span first test next ⟨before ++ s :: after, own⟩

/-- The place of an expression in a statement. -/
structure Site where
  /-- The statements around the one that has the expression, the outermost first. -/
  nests : List Nest
  hole : Hole
  /-- The expressions around it, the outermost first. -/
  holes : List Expr.Hole

namespace Site

/-- The statement with an expression in the place. -/
def fill (site : Site) (x : Expr) : Stmt :=
  site.nests.foldr Nest.fill (site.hole.fill (Expr.fill site.holes x))

end Site

end Stmt

/-! ## Reaching a place -/

namespace Checker

/-- A check that has passed the cases before one. -/
def switched (scrutinee : Expr) (cases : List Case) (c : Checker) : Checker :=
  Checker.cases (c.infer scrutinee).value cases
    ((c.observe (c.infer scrutinee)).enterLabelled (Label.ofSwitch scrutinee))

/-- A check that is about to pass on to the next round of a `for`. -/
def looped (first : Option Stmt) (test : Option Expr) (c : Checker) : Checker :=
  (optional first (c.enterLabelled (Label.ofFor test))).goesOn test

end Checker

namespace Stmt

open Checker (stmts optional condition caseValue switched looped)

/-- The check of a statement at its missing expression, where `x` stands for it. -/
def Hole.reach (x : Expr) : Hole → Checker → Checker
  | case _ e before _ _ _ _, c => switched e before c
  | whileTest _ _, c => c.enterLabelled (Label.ofWhile x)
  | doTest _ body, c => Checker.block body (c.enterLabelled (Label.ofDo x))
  | forTest _ first _ _, c => optional first (c.enterLabelled (Label.ofFor (some x)))
  | _, c => c

/-- The check of a statement at the missing statement in it. -/
def Nest.reach : Nest → Checker → Checker
  | inBlock before _ _, c => stmts before c.enterScope
  | inBranch _ test before _ _ _, c =>
    stmts before (c.observe (condition c.toNames test "if")).enterScope
  | inElse _ test body, c => Checker.block body (c.observe (condition c.toNames test "if"))
  | inCase _ e ks value before _ _ _ _, c =>
    let c' := switched e ks c
    stmts before (c'.observe (caseValue c'.toNames (c.infer e).value value))
  | inDefault _ e ks before _, c => stmts before (switched e ks c)
  | inWhile _ test before _ _, c =>
    let c := c.enterLabelled (Label.ofWhile test)
    stmts before (c.observe (condition c.toNames test "while")).enterScope
  | inDo _ before _ _ test, c => stmts before (c.enterLabelled (Label.ofDo test)).enterScope
  | inFirst _ test _ _, c => c.enterLabelled (Label.ofFor test)
  | inNext _ first test _, c => looped first test c
  | inFor _ first test next before _ _, c =>
    stmts before (optional next (looped first test c)).enterScope

/-- The check of a statement at a place in it, where `x` stands. -/
def Site.reach (site : Site) (x : Expr) (c : Checker) : Checker :=
  site.hole.reach (Expr.fill site.holes x) (site.nests.foldl (fun c nest => nest.reach c) c)

end Stmt

/-! ## Every expression has a place -/

/-- An expression stands in a node, and not in the body of a function. -/
inductive Occurs (x : Expr) : Node → Prop
  | here : Occurs x (.expr x)
  | part {n m} (hf : ∀ f, n ≠ .stmt (.function f)) (hm : m ∈ n.parts) (h : Occurs x m) : Occurs x n

theorem Expr.exists_hole {e x : Expr} (h : x ∈ e.parts) : ∃ k : Hole, k.fill x = e := by
  cases e with
  | arithmetic s op l r =>
    obtain rfl | rfl : x = l ∨ x = r := by simpa [parts] using h
    · exact ⟨.left s (.arithmetic op) r, rfl⟩
    · exact ⟨.right s (.arithmetic op) l, rfl⟩
  | relational s op l r =>
    obtain rfl | rfl : x = l ∨ x = r := by simpa [parts] using h
    · exact ⟨.left s (.relational op) r, rfl⟩
    · exact ⟨.right s (.relational op) l, rfl⟩
  | logical s op l r =>
    obtain rfl | rfl : x = l ∨ x = r := by simpa [parts] using h
    · exact ⟨.left s (.logical op) r, rfl⟩
    · exact ⟨.right s (.logical op) l, rfl⟩
  | negate s e =>
    obtain rfl := List.mem_singleton.1 h
    exact ⟨.negate s, rfl⟩
  | not s e =>
    obtain rfl := List.mem_singleton.1 h
    exact ⟨.not s, rfl⟩
  | cast s t e =>
    obtain rfl := List.mem_singleton.1 h
    exact ⟨.cast s t, rfl⟩
  | group s e =>
    obtain rfl := List.mem_singleton.1 h
    exact ⟨.group s, rfl⟩
  | call s f args =>
    obtain ⟨before, after, rfl⟩ := List.append_of_mem h
    exact ⟨.argument s f before after, rfl⟩
  | method s r f args =>
    obtain rfl | h := List.mem_cons.1 h
    · exact ⟨.receiver s f args, rfl⟩
    · obtain ⟨before, after, rfl⟩ := List.append_of_mem h
      exact ⟨.methodArgument s r f before after, rfl⟩
  | index s t i =>
    obtain rfl | rfl : x = t ∨ x = i := by simpa [parts] using h
    · exact ⟨.target s i, rfl⟩
    · exact ⟨.index s t, rfl⟩
  | cell s t i j =>
    obtain rfl | rfl | rfl : x = t ∨ x = i ∨ x = j := by simpa [parts] using h
    · exact ⟨.cellTarget s i j, rfl⟩
    · exact ⟨.cellIndex s t j, rfl⟩
    · exact ⟨.column s t i, rfl⟩
  | vector s items =>
    obtain ⟨before, after, rfl⟩ := List.append_of_mem h
    exact ⟨.item s before after, rfl⟩
  | matrix s rows =>
    obtain ⟨before, after, rfl⟩ := List.append_of_mem h
    exact ⟨.row s before after, rfl⟩
  | _ => cases h

/-- The node has a place in which `x` stands. -/
def Sited (x : Expr) : Node → Prop
  | .expr e => ∃ holes, Expr.fill holes x = e
  | .stmt s => ∃ site : Stmt.Site, site.fill x = s
  | .block b =>
    ∃ (site : Stmt.Site) (before after : List Stmt), b.body = before ++ site.fill x :: after
  | .case k => (∃ holes, Expr.fill holes x = k.value) ∨
    ∃ (site : Stmt.Site) (before after : List Stmt), k.body = before ++ site.fill x :: after

section Sited

variable {x e : Expr} {s : Stmt} {ss : List Stmt} {n : Node}

theorem Sited.hole (h : Sited x (.expr e)) (hole : Stmt.Hole) : Sited x (.stmt (hole.fill e)) := by
  obtain ⟨holes, rfl⟩ := h
  exact ⟨⟨[], hole, holes⟩, rfl⟩

theorem Sited.nest (h : Sited x (.stmt s)) (nest : Stmt.Nest) : Sited x (.stmt (nest.fill s)) := by
  obtain ⟨site, rfl⟩ := h
  exact ⟨{ site with nests := nest :: site.nests }, rfl⟩

theorem Sited.among (h : Sited x (.stmt s)) (hs : s ∈ ss) :
    ∃ (site : Stmt.Site) (before after : List Stmt), ss = before ++ site.fill x :: after := by
  obtain ⟨site, rfl⟩ := h
  obtain ⟨before, after, rfl⟩ := List.append_of_mem hs
  exact ⟨site, before, after, rfl⟩

/-- A block with a place in it has the statement with the place among those before and after. -/
theorem Sited.inBlock {b : Block} (h : Sited x (.block b)) :
    ∃ (s : Stmt) (before after : List Stmt),
      b = ⟨before ++ s :: after, b.span⟩ ∧ Sited x (.stmt s) := by
  obtain ⟨body, own⟩ := b
  obtain ⟨site, before, after, hb⟩ := h
  obtain rfl : body = _ := hb
  exact ⟨_, before, after, rfl, site, rfl⟩

theorem Sited.stmt (hf : ∀ f, s ≠ .function f) (hm : n ∈ s.nodes) (h : Sited x n) :
    Sited x (.stmt s) := by
  cases s with
  | declare span name ty v =>
    obtain ⟨e, hv, rfl⟩ := List.mem_map.1 hm
    obtain rfl := Option.mem_toList.1 hv
    exact h.hole (.initial span name ty)
  | assign span name v =>
    obtain rfl := List.mem_singleton.1 hm
    exact h.hole (.assigned span name)
  | assignIndex span t i j v =>
    simp only [Stmt.nodes, List.cons_append, List.nil_append, List.mem_cons, List.mem_append,
      List.mem_map, List.not_mem_nil, or_false] at hm
    obtain rfl | rfl | ⟨e, hj, rfl⟩ | rfl := hm
    · exact h.hole (.target span i j v)
    · exact h.hole (.index span t j v)
    · obtain rfl := Option.mem_toList.1 hj
      exact h.hole (.column span t i v)
    · exact h.hole (.value span t i j)
  | step span t up =>
    obtain rfl := List.mem_singleton.1 hm
    exact h.hole (.step span up)
  | block b =>
    obtain rfl := List.mem_singleton.1 hm
    obtain ⟨s, before, after, hb, hs⟩ := h.inBlock
    rw [hb]
    exact hs.nest (.inBlock before after b.span)
  | branch span test body other =>
    simp only [Stmt.nodes, List.cons_append, List.nil_append, List.mem_cons, List.mem_map] at hm
    obtain rfl | rfl | ⟨s, hs, rfl⟩ := hm
    · exact h.hole (.branch span body other)
    · obtain ⟨s, before, after, hb, hs⟩ := h.inBlock
      rw [hb]
      exact hs.nest (.inBranch span test before after body.span other)
    · obtain rfl := Option.mem_toList.1 hs
      exact h.nest (.inElse span test body)
  | switch span e ks d =>
    simp only [Stmt.nodes, List.cons_append, List.nil_append, List.mem_cons, List.mem_append,
      List.mem_map] at hm
    obtain rfl | ⟨k, hk, rfl⟩ | ⟨s, hs, rfl⟩ := hm
    · exact h.hole (.scrutinee span ks d)
    · obtain ⟨before, after, rfl⟩ := List.append_of_mem hk
      obtain ⟨value, body, own⟩ := k
      obtain hvalue | ⟨site, pre, post, hb⟩ := h
      · have hvalue : Sited x (.expr value) := hvalue
        exact hvalue.hole (.case span e before body own after d)
      · have hsite : Sited x (.stmt (site.fill x)) := ⟨site, rfl⟩
        obtain rfl : body = _ := hb
        exact hsite.nest (.inCase span e before value pre post own after d)
    · cases d with
      | none => cases hs
      | some ss =>
        obtain ⟨site, before, after, rfl⟩ := h.among hs
        have hsite : Sited x (.stmt (site.fill x)) := ⟨site, rfl⟩
        exact hsite.nest (.inDefault span e ks before after)
  | whileLoop span test body =>
    simp only [Stmt.nodes, List.mem_cons, List.not_mem_nil, or_false] at hm
    obtain rfl | rfl := hm
    · exact h.hole (.whileTest span body)
    · obtain ⟨s, before, after, hb, hs⟩ := h.inBlock
      rw [hb]
      exact hs.nest (.inWhile span test before after body.span)
  | doLoop span body test =>
    simp only [Stmt.nodes, List.mem_cons, List.not_mem_nil, or_false] at hm
    obtain rfl | rfl := hm
    · obtain ⟨s, before, after, hb, hs⟩ := h.inBlock
      rw [hb]
      exact hs.nest (.inDo span before after body.span test)
    · exact h.hole (.doTest span body)
  | forLoop span first test next body =>
    simp only [Stmt.nodes, List.mem_append, List.mem_map, List.mem_singleton] at hm
    obtain ((⟨s, hs, rfl⟩ | ⟨e, he, rfl⟩) | ⟨s, hs, rfl⟩) | rfl := hm
    · obtain rfl := Option.mem_toList.1 hs
      exact h.nest (.inFirst span test next body)
    · obtain rfl := Option.mem_toList.1 he
      exact h.hole (.forTest span first next body)
    · obtain rfl := Option.mem_toList.1 hs
      exact h.nest (.inNext span first test body)
    · obtain ⟨s, before, after, hb, hs⟩ := h.inBlock
      rw [hb]
      exact hs.nest (.inFor span first test next before after body.span)
  | breakOut span => cases hm
  | continueOn span => cases hm
  | print span v =>
    obtain rfl := List.mem_singleton.1 hm
    exact h.hole (.print span)
  | function f => exact absurd rfl (hf f)
  | giveBack span v =>
    obtain ⟨e, hv, rfl⟩ := List.mem_map.1 hm
    obtain rfl := Option.mem_toList.1 hv
    exact h.hole (.giveBack span)
  | start span name args =>
    obtain ⟨e, he, rfl⟩ := List.mem_map.1 hm
    obtain ⟨before, after, rfl⟩ := List.append_of_mem he
    exact h.hole (.start span name before after)
  | expression span v =>
    obtain rfl := List.mem_singleton.1 hm
    exact h.hole (.expression span)

theorem Occurs.sited (h : Occurs x n) : Sited x n := by
  induction h with
  | here => exact ⟨[], rfl⟩
  | @part n m hf hm _ ih =>
    cases n with
    | expr e =>
      obtain ⟨e', he, rfl⟩ := List.mem_map.1 hm
      obtain ⟨holes, rfl⟩ := ih
      obtain ⟨hole, rfl⟩ := Expr.exists_hole he
      exact ⟨hole :: holes, rfl⟩
    | stmt s => exact .stmt (fun f hs => hf f (by rw [hs])) hm ih
    | block b =>
      obtain ⟨s, hs, rfl⟩ := List.mem_map.1 hm
      exact ih.among hs
    | case k =>
      obtain rfl | hm := List.mem_cons.1 hm
      · exact .inl ih
      · obtain ⟨s, hs, rfl⟩ := List.mem_map.1 hm
        exact .inr (ih.among hs)

/-- Every expression in a statement, unless it stands in the body of a function, has a place. -/
theorem Occurs.exists_site (h : Occurs x (.stmt s)) : ∃ site : Stmt.Site, site.fill x = s := h.sited

end Sited

end Primer
