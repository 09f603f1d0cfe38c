import Primer.Proofs.Inference
import Primer.Proofs.Proper
import Primer.Proofs.Rendering
import Primer.Proofs.Stretch

/-!
# The nodes of a program

A program is a tree of expressions, statements, blocks and cases. What is no expression is written
as its constituents in order (`Stmt.form`, `SpellsForm`). A node is placed on tokens if its span is
from the first to the last of them, they are what it is written as, and its parts are placed in
order among them (`Placed`). Then spans nest, and those of siblings do not overlap.
-/

namespace Primer

/-- A part of a program that has a span. -/
inductive Node where
  | expr (expr : Expr)
  | stmt (stmt : Stmt)
  | block (block : Block)
  | case (case : Case)

/-- The nodes directly inside a statement, in source order. -/
def Stmt.nodes : Stmt → List Node
  | declare _ _ _ initial => initial.toList.map .expr
  | assign _ _ value => [.expr value]
  | assignIndex _ target index column value =>
    [.expr target, .expr index] ++ column.toList.map .expr ++ [.expr value]
  | step _ target _ => [.expr target]
  | block b => [.block b]
  | branch _ condition body otherwise =>
    [.expr condition, .block body] ++ otherwise.toList.map .stmt
  | switch _ scrutinee cases fallback =>
    [.expr scrutinee] ++ cases.map .case ++ (fallback.getD []).map .stmt
  | whileLoop _ condition body => [.expr condition, .block body]
  | doLoop _ body condition => [.block body, .expr condition]
  | forLoop _ first condition next body =>
    first.toList.map .stmt ++ condition.toList.map .expr ++ next.toList.map .stmt ++ [.block body]
  | breakOut _ => []
  | continueOn _ => []
  | print _ value => [.expr value]
  | function f => [.block f.body]
  | giveBack _ value => value.toList.map .expr
  | start _ _ arguments => arguments.map .expr
  | expression _ value => [.expr value]

/-- What statements, blocks and cases are made of: a token of a kind, a name, a type, the parameters
or the arguments with the bracket that closes them, or a smaller part. -/
inductive Constituent where
  | mark (kind : TokenKind)
  | name (name : String)
  | type (ty : Ty)
  | parameters (parameters : List Parameter)
  | arguments (arguments : List Expr)
  | expr (expr : Expr)
  | stmt (stmt : Stmt)
  | block (block : Block)
  | case (case : Case)

/-- A statement as it stands among others. The simple ones and declarations, which can also stand in
the header of a `for`, end before their semicolon. -/
def Stmt.row (s : Stmt) : List Constituent :=
  .stmt s :: if s.isFirst then [.mark .semicolon] else []

/-- The `default` of a switch. -/
def Stmt.fallbackForm : Option (List Stmt) → List Constituent
  | none => []
  | some body => [.mark .defaultWord, .mark .colon] ++ body.flatMap row

/-- What a statement is made of, in source order. -/
def Stmt.form : Stmt → List Constituent
  | declare _ n ty none => [.mark .varWord, .name n, .mark .colon, .type ty]
  | declare _ n ty (some value) =>
    [.mark .varWord, .name n, .mark .colon, .type ty, .mark .assignment, .expr value]
  | assign _ n value => [.name n, .mark .assignment, .expr value]
  | assignIndex _ target index none value =>
    [.expr (.index default target index), .mark .assignment, .expr value]
  | assignIndex _ target index (some column) value =>
    [.expr (.cell default target index column), .mark .assignment, .expr value]
  | step _ target up => [.expr target, .mark (if up then .plusPlus else .minusMinus)]
  | block b => [.block b]
  | branch _ condition body none =>
    [.mark .ifWord, .mark .openParen, .expr condition, .mark .closeParen, .block body]
  | branch _ condition body (some other) =>
    [.mark .ifWord, .mark .openParen, .expr condition, .mark .closeParen, .block body,
      .mark .elseWord, .stmt other]
  | switch _ scrutinee cases fallback =>
    [.mark .switchWord, .mark .openParen, .expr scrutinee, .mark .closeParen, .mark .openCurly] ++
      cases.map .case ++ fallbackForm fallback ++ [.mark .closeCurly]
  | whileLoop _ condition body =>
    [.mark .whileWord, .mark .openParen, .expr condition, .mark .closeParen, .block body]
  | doLoop _ body condition =>
    [.mark .doWord, .block body, .mark .whileWord, .mark .openParen, .expr condition,
      .mark .closeParen, .mark .semicolon]
  | forLoop _ first condition next body =>
    [.mark .forWord, .mark .openParen] ++ first.toList.map .stmt ++ [.mark .semicolon] ++
      condition.toList.map .expr ++ [.mark .semicolon] ++ next.toList.map .stmt ++
      [.mark .closeParen] ++ [.block body]
  | breakOut _ => [.mark .breakWord, .mark .semicolon]
  | continueOn _ => [.mark .continueWord, .mark .semicolon]
  | print _ value =>
    [.mark .printWord, .mark .openParen, .expr value, .mark .closeParen, .mark .semicolon]
  | function f =>
    [.type f.returns, .name f.name, .mark .openParen, .parameters f.parameters, .block f.body]
  | giveBack _ none => [.mark .returnWord, .mark .semicolon]
  | giveBack _ (some value) => [.mark .returnWord, .expr value, .mark .semicolon]
  | start _ n args =>
    [.mark .startWord, .name n, .mark .openParen, .arguments args, .mark .semicolon]
  | expression _ value => [.expr value]

def BlockOf.form (b : Block) : List Constituent :=
  [.mark .openCurly] ++ b.body.flatMap Stmt.row ++ [.mark .closeCurly]

def CaseOf.form (k : Case) : List Constituent :=
  [.mark .caseWord, .expr k.value, .mark .colon] ++ k.body.flatMap Stmt.row

/-- The tokens of typed parameters with commas between them and perhaps after the last, and of the
bracket that closes them. -/
inductive SpellsParameters : List Token → List Parameter → Prop
  | nil {z} (hz : z.kind = .closeParen) : SpellsParameters [z] []
  | last {q ts t z} (hq : q.ty.Spells ts) (ht : t.kind = .identifier) (hn : t.value = q.name)
    (hz : z.kind = .closeParen) : SpellsParameters (ts ++ [t, z]) [q]
  | cons {q ts t a us qs} (hq : q.ty.Spells ts) (ht : t.kind = .identifier) (hn : t.value = q.name)
    (ha : a.kind = .comma) (hqs : SpellsParameters us qs) :
    SpellsParameters (ts ++ t :: a :: us) (q :: qs)

mutual

/-- The tokens of a constituent. -/
inductive Constituent.Spells : List Token → Constituent → Prop
  | mark {t k} (ht : t.kind = k) : Constituent.Spells [t] (.mark k)
  | name {t} (ht : t.kind = .identifier) : Constituent.Spells [t] (.name t.value)
  | type {ts ty} (h : ty.Spells ts) : Constituent.Spells ts (.type ty)
  | parameters {ts qs} (h : SpellsParameters ts qs) : Constituent.Spells ts (.parameters qs)
  | arguments {ts es} (h : SpellsAll .closeParen ts es) : Constituent.Spells ts (.arguments es)
  | expr {ts e} (h : Spells ts e) : Constituent.Spells ts (.expr e)
  | stmt {ts s} (h : SpellsForm ts s.form) : Constituent.Spells ts (.stmt s)
  | block {ts b} (h : SpellsForm ts b.form) : Constituent.Spells ts (.block b)
  | case {ts k} (h : SpellsForm ts k.form) : Constituent.Spells ts (.case k)

/-- The tokens of constituents in order. -/
inductive SpellsForm : List Token → List Constituent → Prop
  | nil : SpellsForm [] []
  | cons {ts c us cs} (head : c.Spells ts) (tail : SpellsForm us cs) :
    SpellsForm (ts ++ us) (c :: cs)

end

namespace Node

def span : Node → Span
  | expr e => e.span
  | stmt s => s.span
  | block b => b.span
  | case k => k.span

/-- The nodes directly inside a node, in source order. -/
def parts : Node → List Node
  | expr e => e.parts.map expr
  | stmt s => s.nodes
  | block b => b.body.map stmt
  | case k => expr k.value :: k.body.map stmt

/-- The constituent that a node is for what it stands in. -/
def constituent : Node → Constituent
  | expr e => .expr e
  | stmt s => .stmt s
  | block b => .block b
  | case k => .case k

/-- The tokens are those of the node. -/
def Written (ts : List Token) : Node → Prop
  | expr e => Spells ts e
  | stmt s => SpellsForm ts s.form
  | block b => SpellsForm ts b.form
  | case k => SpellsForm ts k.form

end Node

mutual

/-- A node takes up these tokens, and its parts some of them. -/
inductive Placed : List Token → Node → Prop
  | mk {ts n} (written : n.Written ts) (covers : n.span.Covers ts) (parts : Laid ts n.parts) :
    Placed ts n

/-- Nodes take up some of these tokens, one behind the other. -/
inductive Laid : List Token → List Node → Prop
  | nil {ts} : Laid ts []
  | cons {skipped ts us n ns} (head : Placed ts n) (tail : Laid us ns) :
    Laid (skipped ++ ts ++ us) (n :: ns)

end

/-- A node of a program, at any depth. -/
inductive Program.Has (p : Program) : Node → Prop
  | top {s} (h : s ∈ p.body) : Has p (.stmt s)
  | part {n m} (h : Has p n) (hm : m ∈ n.parts) : Has p m

variable {ts us tokens : List Token} {n m : Node} {ns ms : List Node}

theorem Stmt.row_of_isAlternative {s : Stmt} (h : s.isAlternative = true) : s.row = [.stmt s] := by
  cases s <;> first | rfl | cases h

theorem Node.Written.spells (h : n.Written ts) : n.constituent.Spells ts := by
  cases n with
  | expr => exact .expr h
  | stmt => exact .stmt h
  | block => exact .block h
  | case => exact .case h

namespace SpellsForm

variable {c : Constituent} {cs ds : List Constituent}

theorem exists_cons (h : SpellsForm tokens (c :: cs)) :
    ∃ ts us, tokens = ts ++ us ∧ c.Spells ts ∧ SpellsForm us cs := by
  cases h with
  | cons hc hcs => exact ⟨_, _, rfl, hc, hcs⟩

theorem one (h : c.Spells ts) : SpellsForm ts [c] := by
  have hone : SpellsForm (ts ++ []) [c] := .cons h .nil
  rwa [List.append_nil] at hone

theorem append (h : SpellsForm ts cs) (h' : SpellsForm us ds) :
    SpellsForm (ts ++ us) (cs ++ ds) := by
  induction cs generalizing ts with
  | nil =>
    cases h
    exact h'
  | cons c cs ih =>
    obtain ⟨vs, ws, rfl, hc, hcs⟩ := h.exists_cons
    rw [List.append_assoc]
    exact .cons hc (ih hcs)

end SpellsForm

namespace Laid

theorem exists_cons (h : Laid tokens (n :: ns)) :
    ∃ skipped ts us, tokens = skipped ++ ts ++ us ∧ Placed ts n ∧ Laid us ns := by
  cases h with
  | cons hn hns => exact ⟨_, _, _, rfl, hn, hns⟩

theorem one (h : Placed ts n) : Laid ts [n] := by
  have hone : Laid ([] ++ ts ++ []) [n] := .cons h .nil
  simpa using hone

theorem append (hts : Laid ts ns) (hus : Laid us ms) : Laid (ts ++ us) (ns ++ ms) := by
  induction ns generalizing ts with
  | nil =>
    cases ms with
    | nil => exact .nil
    | cons m ms =>
      obtain ⟨skipped, vs, ws, rfl, hm, hms⟩ := hus.exists_cons
      have hall : Laid (ts ++ skipped ++ vs ++ ws) (m :: ms) := .cons hm hms
      simpa using hall
  | cons n ns ih =>
    obtain ⟨skipped, vs, ws, rfl, hn, hns⟩ := hts.exists_cons
    have hall : Laid (skipped ++ vs ++ (ws ++ us)) (n :: (ns ++ ms)) := .cons hn (ih hns)
    simpa using hall

/-- Tokens in front that no node takes up. -/
theorem behind (ts : List Token) (h : Laid us ns) : Laid (ts ++ us) ns := .append .nil h

theorem before (us : List Token) (h : Laid ts ns) : Laid (ts ++ us) ns := by
  have hnone : Laid us [] := .nil
  simpa using h.append hnone

/-- What is placed on the tokens of a node is laid where the node is. -/
theorem exchange (h : Laid ts [n]) (hm : ∀ {us}, Placed us n → Placed us m) : Laid ts [m] := by
  obtain ⟨skipped, us, vs, rfl, hn, hnil⟩ := h.exists_cons
  exact .cons (hm hn) .nil

theorem exists_of_mem (h : Laid tokens ns) (hn : n ∈ ns) :
    ∃ before ts after, tokens = before ++ ts ++ after ∧ Placed ts n := by
  induction ns generalizing tokens with
  | nil => cases hn
  | cons m ns ih =>
    obtain ⟨skipped, ts, us, rfl, hm, hns⟩ := h.exists_cons
    rcases List.mem_cons.1 hn with rfl | hn
    · exact ⟨skipped, ts, us, rfl, hm⟩
    · obtain ⟨before, ts', after, rfl, hn⟩ := ih hns hn
      exact ⟨skipped ++ ts ++ before, ts', after, by simp, hn⟩

/-- The spans of nodes in a row are in order and do not overlap. -/
theorem pairwise (h : Laid tokens ns) (ho : Ordered tokens) :
    ns.Pairwise fun n m => n.span.stop ≤ m.span.start := by
  induction ns generalizing tokens with
  | nil => exact .nil
  | cons n ns ih =>
    obtain ⟨skipped, ts, us, rfl, ⟨-, hcovers, -⟩, hns⟩ := h.exists_cons
    have ho : Ordered (ts ++ us) := ho.sublist (by simp)
    refine List.pairwise_cons.2 ⟨fun m hm => ?_, ih hns (ho.sublist (by simp))⟩
    obtain ⟨before, vs, after, rfl, -, hm, -⟩ := hns.exists_of_mem hm
    exact hcovers.apart hm (ho.sublist (by simp))

end Laid

theorem Placed.written (h : Placed ts n) : n.Written ts := by
  cases h
  assumption

theorem Placed.covers (h : Placed ts n) : n.span.Covers ts := by
  cases h
  assumption

theorem Placed.laid (h : Placed ts n) : Laid ts n.parts := by
  cases h
  assumption

theorem Placed.exists_of_mem (h : Placed tokens n) (hm : m ∈ n.parts) :
    ∃ before ts after, tokens = before ++ ts ++ after ∧ Placed ts m :=
  h.laid.exists_of_mem hm

/-- Every node of a program whose statements are placed is placed. -/
theorem Program.Has.placed {p : Program} (hp : Laid tokens (p.body.map .stmt)) (h : p.Has n) :
    ∃ before ts after, tokens = before ++ ts ++ after ∧ Placed ts n := by
  induction h with
  | top hs => exact hp.exists_of_mem (List.mem_map_of_mem hs)
  | part _ hm ih =>
    obtain ⟨before, ts, after, rfl, hn⟩ := ih
    obtain ⟨before', us, after', rfl, hm⟩ := hn.exists_of_mem hm
    exact ⟨before ++ before', us, after' ++ after, by simp, hm⟩

theorem Placed.nested (h : Placed ts n) (ho : Ordered ts) :
    n.span.start < n.span.stop ∧
      (∀ m ∈ n.parts, n.span.start ≤ m.span.start ∧ m.span.stop ≤ n.span.stop) ∧
      n.parts.Pairwise fun a b => a.span.stop ≤ b.span.start := by
  obtain ⟨-, hcovers, hparts⟩ := h
  refine ⟨hcovers.lt ho, fun m hm => ?_, hparts.pairwise ho⟩
  obtain ⟨before, us, after, rfl, -, hm, -⟩ := hparts.exists_of_mem hm
  exact hcovers.inside hm (by simp) ho

end Primer
