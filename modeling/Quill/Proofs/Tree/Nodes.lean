import Quill.Proofs.Grammar.Attempt
import Quill.Proofs.Typing.Usage

/-!
The nodes of a program and the tokens that they come from. A program is gone through in the order in
which it is written: a statement before its parts, an operator between its operands, an array before
its elements. Each node then has a token of its own, at the place and of the kind that the node
tells, and the tokens come in the order of the nodes (`Sink.parse_traces_nodes`).

The words of a phrase follow each other as its parts do, so all of it rests on `Rooted.append`.
-/
namespace Quill

inductive Node where
  | statement (stmt : Stmt)
  | content (content : Interpolation)
  | expression (e : Expr)

namespace Expr

def place : Expr → Location
  | literal _ location => location
  | identifier _ location => location
  | binary _ _ _ location => location
  | array _ location => location

mutual

/-- The nodes of an expression in the order in which they are written. -/
def nodes : Expr → List Node
  | literal value location => [.expression (literal value location)]
  | identifier name location => [.expression (identifier name location)]
  | binary left operator right location =>
    left.nodes ++ .expression (binary left operator right location) :: right.nodes
  | array elements location => .expression (array elements location) :: allNodes elements

def allNodes : List Expr → List Node
  | [] => []
  | e :: rest => e.nodes ++ allNodes rest

end

end Expr

/-- A statement, then the nodes of its parts. -/
def Stmt.nodes (stmt : Stmt) : List Node :=
  .statement stmt ::
    match stmt with
    | scalar _ _ value _ => value.nodes
    | array _ (.values value) _ => value.nodes
    | array _ (.sized ..) _ => []
    | output content _ => .content content :: Expr.allNodes content.expressions

def Program.nodes (program : Program) : List Node := program.statements.flatMap Stmt.nodes

namespace Node

def place : Node → Location
  | statement stmt => stmt.place
  | content interpolation => interpolation.location
  | expression e => e.place

/-- The token that a node comes from, with `before` in front of it. A content comes from the token
after its opening bracket, whatever that token is. -/
def Suits (before : List Token) (t : Token) : Node → Prop
  | statement (.scalar _ type _ _) => t.kind = .new ∨ t.kind = .bl ∧ type = .bool
  | statement (.array ..) => t.kind = .new
  | statement (.output ..) => t.kind = .stdout
  | content _ =>
    ∃ front stdout opening, before = front ++ [stdout, opening] ∧ stdout.kind = .stdout ∧
      opening.kind = .bracketOpen
  | expression (.literal value _) => LiteralWord t value
  | expression (.identifier name _) => t.kind = .identifier ∧ t.lexeme = name
  | expression (.binary _ operator _ _) => t.kind = operator.kind
  | expression (.array ..) => t.kind = .bracketOpen

/-- The token with an index is the one that a node comes from. -/
def At (tokens : List Token) (node : Node) (i : Nat) : Prop :=
  ∃ t, tokens[i]? = some t ∧ t.location = node.place ∧ node.Suits (tokens.take i) t

variable {tokens : List Token} {node : Node} {i : Nat}

theorem Suits.behind {before : List Token} {t : Token} (h : node.Suits before t)
    (front : List Token) : node.Suits (front ++ before) t := by
  cases node with
  | statement stmt => cases stmt <;> exact h
  | content interpolation =>
    obtain ⟨others, stdout, opening, rfl, kinds⟩ := h
    exact ⟨front ++ others, stdout, opening, (List.append_assoc ..).symm, kinds⟩
  | expression e => cases e <;> exact h

theorem At.lt_length (h : node.At tokens i) : i < tokens.length := by
  obtain ⟨t, found, -⟩ := h
  exact (List.getElem?_eq_some_iff.mp found).1

theorem At.before (h : node.At tokens i) (more : List Token) : node.At (tokens ++ more) i := by
  have inside := h.lt_length
  obtain ⟨t, found, place, suits⟩ := h
  refine ⟨t, ?_, place, ?_⟩
  · rw [List.getElem?_append_left inside]
    exact found
  · rw [List.take_append_of_le_length (Nat.le_of_lt inside)]
    exact suits

theorem At.behind (h : node.At tokens i) (front : List Token) :
    node.At (front ++ tokens) (front.length + i) := by
  obtain ⟨t, found, place, suits⟩ := h
  refine ⟨t, ?_, place, ?_⟩
  · rw [List.getElem?_append_right (Nat.le_add_right ..), Nat.add_sub_cancel_left]
    exact found
  · rw [List.take_length_add_append]
    exact suits.behind front

end Node

/-- Nodes that come from tokens of a list, one after the other. -/
def Rooted (tokens : List Token) (nodes : List Node) : Prop :=
  ∃ places, List.Forall₂ (Node.At tokens) nodes places ∧ places.Pairwise (· < ·)

namespace Rooted

variable {tokens more : List Token} {nodes others : List Node} {places : List Nat}

theorem lt_length (h : List.Forall₂ (Node.At tokens) nodes places) :
    ∀ i ∈ places, i < tokens.length := by
  induction h with
  | nil => simp
  | cons first _ ih => exact List.forall_mem_cons.mpr ⟨first.lt_length, ih⟩

theorem exists_at {node : Node} (h : Rooted tokens nodes) (member : node ∈ nodes) :
    ∃ i, node.At tokens i := by
  obtain ⟨places, tokenOf, -⟩ := h
  induction tokenOf with
  | nil => cases member
  | cons first _ ih =>
    rcases List.mem_cons.mp member with rfl | member
    · exact ⟨_, first⟩
    · exact ih member

theorem nil : Rooted tokens [] := ⟨[], .nil, .nil⟩

/-- The nodes of a phrase that another one follows: the other's tokens have their indices behind the
first one's. -/
theorem append (h : Rooted tokens nodes) (hmore : Rooted more others) :
    Rooted (tokens ++ more) (nodes ++ others) := by
  obtain ⟨places, tokenOf, increasing⟩ := h
  obtain ⟨later, laterTokenOf, laterIncreasing⟩ := hmore
  refine ⟨places ++ later.map (tokens.length + ·), ?_, ?_⟩
  · refine List.rel_append (tokenOf.imp fun _ _ found => found.before more) ?_
    exact List.forall₂_map_right_iff.mpr (laterTokenOf.imp fun _ _ found => found.behind tokens)
  · refine List.pairwise_append.mpr ⟨increasing, ?_, fun i early j late => ?_⟩
    · exact List.pairwise_map.mpr (laterIncreasing.imp fun before => Nat.add_lt_add_left before _)
    · obtain ⟨k, -, rfl⟩ := List.mem_map.mp late
      exact Nat.lt_add_right k (lt_length tokenOf i early)

/-- Tokens in front of a phrase that no node comes from. -/
theorem behind (h : Rooted tokens nodes) (front : List Token) : Rooted (front ++ tokens) nodes :=
  nil.append h

/-- Tokens behind a phrase that no node comes from. -/
theorem before (h : Rooted tokens nodes) (back : List Token) : Rooted (tokens ++ back) nodes := by
  rw [← List.append_nil nodes]
  exact h.append nil

theorem single (node : Node) {t : Token} (place : t.location = node.place)
    (suits : node.Suits [] t) : Rooted [t] [node] :=
  ⟨[0], .cons ⟨t, rfl, place, suits⟩ .nil, List.pairwise_singleton ..⟩

end Rooted

mutual

theorem ExpressionWord.rooted {word : List Token} {e : Expr} :
    ExpressionWord word e → Rooted word e.nodes
  | .operand h => h.rooted
  | @ExpressionWord.binary _ _ left right operator t hleft kind hright => by
    have own : Rooted [t] _ := .single (.expression (.binary left operator right t.location)) rfl kind
    exact hleft.rooted.append (own.append hright.rooted)

theorem OperandWord.rooted {word : List Token} {e : Expr} :
    OperandWord word e → Rooted word e.nodes
  | @OperandWord.literal t value h => .single (.expression (.literal value t.location)) rfl h
  | @OperandWord.identifier t kind =>
    .single (.expression (.identifier t.lexeme t.location)) rfl ⟨kind, rfl⟩
  | @OperandWord.parens first last _ _ _ inner _ => (inner.rooted.before [last]).behind [first]
  | .array h => h.rooted

theorem ArrayWord.rooted {word : List Token} {e : Expr} : ArrayWord word e → Rooted word e.nodes
  | @ArrayWord.empty first last opening _ => by
    have own : Rooted [first] _ := .single (.expression (.array [] first.location)) rfl opening
    exact own.before [last]
  | @ArrayWord.some first last _ es opening inner _ => by
    have own : Rooted [first] _ := .single (.expression (.array es first.location)) rfl opening
    exact own.append (inner.rooted.before [last])

theorem ElementsWord.rooted {word : List Token} {es : List Expr} :
    ElementsWord word es → Rooted word (Expr.allNodes es)
  | .one h => by
    rw [Expr.allNodes, Expr.allNodes, List.append_nil]
    exact h.rooted
  | @ElementsWord.more _ _ _ _ t hfirst _ hothers =>
    hfirst.rooted.append (hothers.rooted.behind [t])

end

/-- The names of a content come from tokens behind its first one: a marker opens with a brace. -/
theorem ContentWord.rooted_tail {word : List Token} {pieces : List Segment}
    (h : ContentWord word pieces) :
    Rooted word.tail (Expr.allNodes (pieces.filterMap Segment.name?)) := by
  induction h with
  | nil => exact .nil
  | @text t word pieces _ _ _ _ ih =>
    cases word with
    | nil => exact ih
    | cons first word => exact ih.behind [first]
  | @marker first name last word pieces _ identifier _ _ ih =>
    have own : Rooted [name] _ :=
      .single (.expression (.identifier name.lexeme name.location)) rfl ⟨identifier, rfl⟩
    cases word with
    | nil => exact own.append (ih.behind [last])
    | cons t word => exact own.append (ih.behind [last, t])

/-- The nodes of a statement come from its tokens. -/
theorem StatementWord.rooted {word : List Token} {stmt : Stmt} (h : StatementWord word stmt) :
    Rooted word stmt.nodes := by
  cases h with
  | @scalar new name type equals _ tag value hnew _ _ _ hvalue =>
    have own : Rooted [new] _ :=
      .single (.statement (.scalar name.lexeme tag value new.location)) rfl (.inl hnew)
    exact own.append (hvalue.rooted.behind [name, type, equals])
  | @flag bl name equals _ value hbl _ _ hvalue =>
    have own : Rooted [bl] _ :=
      .single (.statement (.scalar name.lexeme .bool value bl.location)) rfl (.inr ⟨hbl, rfl⟩)
    exact own.append (hvalue.rooted.behind [name, equals])
  | @values new name opening closing equals _ value hnew _ _ _ _ hvalue =>
    have own : Rooted [new] _ :=
      .single (.statement (.array name.lexeme (.values value) new.location)) rfl hnew
    exact own.append (hvalue.rooted.behind [name, opening, closing, equals])
  | @sized new name _ _ _ _ _ _ tag size hnew =>
    have own : Rooted [new] _ :=
      .single (.statement (.array name.lexeme (.sized tag size) new.location)) rfl hnew
    exact own.before _
  | @output stdout opening closing first word pieces hstdout hopening hcontent _ hfirst =>
    let content := Interpolation.ofRuns pieces first.location
    have heads : Rooted [stdout, opening, first]
        [.statement (.output content stdout.location), .content content] := by
      have after : Node.Suits [stdout, opening] first (.content content) :=
        ⟨[], stdout, opening, rfl, hstdout, hopening⟩
      exact ⟨[0, 2], .cons ⟨stdout, rfl, rfl, hstdout⟩ (.cons ⟨first, rfl, rfl, after⟩ .nil),
        by simp⟩
    have names := hcontent.rooted_tail
    cases word with
    | nil =>
      obtain rfl : closing = first := Option.some.inj hfirst
      exact heads.append names
    | cons t word =>
      obtain rfl : t = first := Option.some.inj hfirst
      exact heads.append (names.before [closing])

/-- The nodes of the statements of a run come from the tokens ahead. What an attempt passes without
taking it, comments or a token that an error blames, gives no node. -/
theorem Cursor.attempts_rooted (c : Cursor) :
    Rooted c.ahead ((c.attempts.filterMap Attempt.statement?).flatMap Stmt.nodes) := by
  refine attempts_induction (motive := fun c attempts =>
    Rooted c.ahead ((attempts.filterMap Attempt.statement?).flatMap Stmt.nodes)) ?atMark ?step c
  case atMark => exact fun _ _ => .nil
  case step =>
    intro c attempt next later _ taken ih
    cases taken with
    | @accepted comments word stmt _ _ hword ahead _ =>
      rw [ahead]
      exact (hword.rooted.behind comments).append ih
    | @rejected comments passed cause stop _ _ _ ahead _ =>
      obtain ⟨blamed, left⟩ : stop.advance.ahead <:+ stop.ahead := List.tail_suffix _
      rw [ahead, ← left]
      exact (ih.behind blamed).behind (comments ++ passed)
    | @nothing comments ending _ _ _ ahead left _ =>
      obtain ⟨mark, whole⟩ : ending.tail <:+ ending := List.tail_suffix _
      rw [ahead, ← whole, ← left]
      exact (ih.behind mark).behind comments

/-- Each node of a program leads back to a token of its own, at the node's place and of the kind
that it is read from, and along the program the tokens come in the order of the list, whatever the
list is. -/
theorem Sink.parse_traces_nodes (sink : Sink) (tokens : List Token) :
    ∃ places : List Nat,
      List.Forall₂ (Node.At tokens) (sink.parse tokens).1.nodes places ∧
      places.Pairwise (· < ·) :=
  (Cursor.start tokens).attempts_rooted

end Quill
