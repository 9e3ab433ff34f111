import Stacklet.Proofs.Tree.Writing

/-! # Trees without their places

Two trees are the same up to places if they are equal without them. Whether a tree is canonical has
nothing to do with places, and tokens that are a tree's up to places are those of a tree that is the
same up to places.
-/

namespace Stacklet

/-! ## Forgetting places -/

/-- The value, at no place in particular. -/
def Located.unplaced {α : Type} (located : Located α) : Located α :=
  ⟨located.value, ⟨0, 0, 0⟩⟩

mutual

/-- An expression without its places. -/
def Expr.unplaced : Expr → Expr
  | .binary left op right => .binary left.unplaced op.unplaced right.unplaced
  | .unary op operand => .unary op.unplaced operand.unplaced
  | .literal value _ => .literal value none
  | .grouping inner => .grouping inner.unplaced
  | .var name => .var name.unplaced
  | .assign name value => .assign name.unplaced value.unplaced
  | .logical left op right => .logical left.unplaced op.unplaced right.unplaced
  | .call callee _ arguments => .call callee.unplaced ⟨0, 0, 0⟩ (Expr.unplacedAll arguments)
  | .lambda parameters body =>
    .lambda (parameters.map Located.unplaced) (Stmt.unplacedAll body)

/-- Expressions without their places. -/
def Expr.unplacedAll : List Expr → List Expr
  | [] => []
  | expr :: rest => expr.unplaced :: Expr.unplacedAll rest

/-- A statement without its places. -/
def Stmt.unplaced : Stmt → Stmt
  | .expression expr => .expression expr.unplaced
  | .print expr => .print expr.unplaced
  | .varDef name none => .varDef name.unplaced none
  | .varDef name (some value) => .varDef name.unplaced (some value.unplaced)
  | .block body => .block (Stmt.unplacedAll body)
  | .ifThen condition thenBranch => .ifThen condition.unplaced thenBranch.unplaced
  | .ifElse condition thenBranch elseBranch =>
    .ifElse condition.unplaced thenBranch.unplaced elseBranch.unplaced
  | .whileLoop condition body => .whileLoop condition.unplaced body.unplaced
  | .funDef function => .funDef function.unplaced
  | .ret _ none => .ret ⟨0, 0, 0⟩ none
  | .ret _ (some value) => .ret ⟨0, 0, 0⟩ (some value.unplaced)
  | .classDef name methods => .classDef name.unplaced (Function.unplacedAll methods)

/-- Statements without their places. -/
def Stmt.unplacedAll : List Stmt → List Stmt
  | [] => []
  | stmt :: rest => stmt.unplaced :: Stmt.unplacedAll rest

/-- A function without its places. -/
def Function.unplaced : Function → Function
  | .mk name parameters body =>
    .mk name.unplaced (parameters.map Located.unplaced) (Stmt.unplacedAll body)

/-- Functions without their places. -/
def Function.unplacedAll : List Function → List Function
  | [] => []
  | function :: rest => function.unplaced :: Function.unplacedAll rest

end

theorem Expr.unplacedAll_eq (exprs : List Expr) :
    Expr.unplacedAll exprs = exprs.map Expr.unplaced := by
  induction exprs with
  | nil => rfl
  | cons expr rest ih => rw [Expr.unplacedAll, ih, List.map_cons]

@[simp] theorem Expr.length_unplacedAll (exprs : List Expr) :
    (Expr.unplacedAll exprs).length = exprs.length := by
  rw [Expr.unplacedAll_eq, List.length_map]

theorem Stmt.unplacedAll_eq (body : List Stmt) :
    Stmt.unplacedAll body = body.map Stmt.unplaced := by
  induction body with
  | nil => rfl
  | cons stmt rest ih => rw [Stmt.unplacedAll, ih, List.map_cons]

theorem Function.unplacedAll_eq (functions : List Function) :
    Function.unplacedAll functions = functions.map Function.unplaced := by
  induction functions with
  | nil => rfl
  | cons function rest ih => rw [Function.unplacedAll, ih, List.map_cons]

/-! ## What places have nothing to do with -/

@[simp] theorem Expr.rank_unplaced (expr : Expr) : expr.unplaced.rank = expr.rank := by
  cases expr <;> rw [Expr.unplaced] <;> rfl

@[simp] theorem Stmt.isDeclaration_unplaced (stmt : Stmt) :
    stmt.unplaced.isDeclaration = stmt.isDeclaration := by
  cases stmt with
  | varDef name initializer => cases initializer <;> rw [Stmt.unplaced] <;> rfl
  | ret keyword value => cases value <;> rw [Stmt.unplaced] <;> rfl
  | _ => rw [Stmt.unplaced]; rfl

@[simp] theorem Stmt.isOpen_unplaced : ∀ stmt : Stmt, stmt.unplaced.isOpen = stmt.isOpen
  | .ifElse condition thenBranch elseBranch => by
      rw [Stmt.unplaced, Stmt.isOpen, Stmt.isOpen]
      exact elseBranch.isOpen_unplaced
  | .whileLoop condition body => by
      rw [Stmt.unplaced, Stmt.isOpen, Stmt.isOpen]
      exact body.isOpen_unplaced
  | .varDef _ none | .varDef _ (some _) | .ret _ none | .ret _ (some _) | .expression _ | .print _
  | .block _ | .ifThen .. | .funDef _ | .classDef .. => by rw [Stmt.unplaced]; rfl

theorem Expr.head?_unplaced : ∀ expr : Expr,
    expr.unplaced.marks.head?.map Mark.token = expr.marks.head?.map Mark.token
  | .binary left op right | .logical left op right => by
      simp only [Expr.unplaced, Expr.marks, List.head?_append, Option.map_or, left.head?_unplaced]
      rfl
  | .call callee paren arguments => by
      simp only [Expr.unplaced, Expr.marks, List.head?_append, Option.map_or, callee.head?_unplaced]
      rfl
  | .unary .. | .literal .. | .grouping .. | .var .. | .assign .. | .lambda .. => by
      rw [Expr.unplaced, Expr.marks, Expr.marks]
      rfl

@[simp] theorem Stmt.looksDeclared_unplaced (stmt : Stmt) :
    stmt.unplaced.looksDeclared = stmt.looksDeclared := by
  cases stmt with
  | expression expr =>
      have hhead := congrArg (Option.any (· = .keyword .kwFun)) expr.head?_unplaced
      rw [Option.any_map, Option.any_map] at hhead
      rw [Stmt.unplaced]
      exact hhead
  | varDef name initializer => cases initializer <;> rw [Stmt.unplaced] <;> rfl
  | ret keyword value => cases value <;> rw [Stmt.unplaced] <;> rfl
  | _ => rw [Stmt.unplaced]; rfl

mutual

@[simp] theorem Expr.canonical_unplaced : ∀ expr : Expr, expr.unplaced.Canonical ↔ expr.Canonical
  | .binary left op right | .logical left op right => by
      simp [Expr.unplaced, Expr.Canonical, left.canonical_unplaced, right.canonical_unplaced,
        Located.unplaced]
  | .unary op operand => by simp [Expr.unplaced, Expr.Canonical, operand.canonical_unplaced]
  | .literal value span => Iff.rfl
  | .grouping inner => by simp [Expr.unplaced, Expr.Canonical, inner.canonical_unplaced]
  | .var name => Iff.rfl
  | .assign name value => by simp [Expr.unplaced, Expr.Canonical, value.canonical_unplaced]
  | .call callee paren arguments => by
      simp [Expr.unplaced, Expr.Canonical, callee.canonical_unplaced,
        Expr.allCanonical_unplaced arguments]
  | .lambda parameters body => by
      simp [Expr.unplaced, Expr.Canonical, Stmt.allCanonical_unplaced body]

theorem Expr.allCanonical_unplaced : ∀ exprs : List Expr,
    Expr.AllCanonical (Expr.unplacedAll exprs) ↔ Expr.AllCanonical exprs
  | [] => Iff.rfl
  | expr :: rest => by
      simp [Expr.unplacedAll, Expr.AllCanonical, expr.canonical_unplaced,
        Expr.allCanonical_unplaced rest]

theorem Stmt.canonical_unplaced : ∀ stmt : Stmt, stmt.unplaced.Canonical ↔ stmt.Canonical
  | .expression expr | .print expr => by
      simp [Stmt.unplaced, Stmt.Canonical, expr.canonical_unplaced]
  | .varDef name none => Iff.rfl
  | .varDef name (some value) => by simp [Stmt.unplaced, Stmt.Canonical, value.canonical_unplaced]
  | .block body => by simp [Stmt.unplaced, Stmt.Canonical, Stmt.allCanonical_unplaced body]
  | .ifThen condition thenBranch => by
      simp [Stmt.unplaced, Stmt.Canonical, condition.canonical_unplaced,
        thenBranch.canonical_unplaced]
  | .ifElse condition thenBranch elseBranch => by
      simp [Stmt.unplaced, Stmt.Canonical, condition.canonical_unplaced,
        thenBranch.canonical_unplaced, elseBranch.canonical_unplaced]
  | .whileLoop condition body => by
      simp [Stmt.unplaced, Stmt.Canonical, condition.canonical_unplaced, body.canonical_unplaced]
  | .funDef function => by simp [Stmt.unplaced, Stmt.Canonical, function.canonical_unplaced]
  | .ret keyword none => Iff.rfl
  | .ret keyword (some value) => by simp [Stmt.unplaced, Stmt.Canonical, value.canonical_unplaced]
  | .classDef name methods => by
      simp [Stmt.unplaced, Stmt.Canonical, Function.allCanonical_unplaced methods]

theorem Stmt.allCanonical_unplaced : ∀ body : List Stmt,
    Stmt.AllCanonical (Stmt.unplacedAll body) ↔ Stmt.AllCanonical body
  | [] => Iff.rfl
  | stmt :: rest => by
      simp [Stmt.unplacedAll, Stmt.AllCanonical, stmt.canonical_unplaced,
        Stmt.allCanonical_unplaced rest]

theorem Function.canonical_unplaced : ∀ function : Function,
    function.unplaced.Canonical ↔ function.Canonical
  | .mk name parameters body => by
      simp [Function.unplaced, Function.Canonical, Stmt.allCanonical_unplaced body]

theorem Function.allCanonical_unplaced : ∀ functions : List Function,
    Function.AllCanonical (Function.unplacedAll functions) ↔ Function.AllCanonical functions
  | [] => Iff.rfl
  | function :: rest => by
      simp [Function.unplacedAll, Function.AllCanonical, function.canonical_unplaced,
        Function.allCanonical_unplaced rest]

end

mutual

theorem Expr.depth_unplaced : ∀ expr : Expr, expr.unplaced.depth = expr.depth
  | .binary left op right | .logical left op right => by
      simp [Expr.unplaced, Expr.depth, left.depth_unplaced, right.depth_unplaced]
  | .unary op operand => by simp [Expr.unplaced, Expr.depth, operand.depth_unplaced]
  | .literal value span => rfl
  | .grouping inner => by simp [Expr.unplaced, Expr.depth, inner.depth_unplaced]
  | .var name => rfl
  | .assign name value => by simp [Expr.unplaced, Expr.depth, value.depth_unplaced]
  | .call callee paren arguments => by
      simp [Expr.unplaced, Expr.depth, callee.depth_unplaced, Expr.depthOf_unplaced arguments]
  | .lambda parameters body => by
      simp [Expr.unplaced, Expr.depth, Stmt.depthOf_unplaced body]

theorem Expr.depthOf_unplaced : ∀ exprs : List Expr,
    Expr.depthOf (Expr.unplacedAll exprs) = Expr.depthOf exprs
  | [] => rfl
  | expr :: rest => by
      simp [Expr.unplacedAll, Expr.depthOf, expr.depth_unplaced, Expr.depthOf_unplaced rest]

theorem Stmt.depth_unplaced : ∀ stmt : Stmt, stmt.unplaced.depth = stmt.depth
  | .expression expr | .print expr => by simp [Stmt.unplaced, Stmt.depth, expr.depth_unplaced]
  | .varDef name none => rfl
  | .varDef name (some value) => by simp [Stmt.unplaced, Stmt.depth, value.depth_unplaced]
  | .block body => by simp [Stmt.unplaced, Stmt.depth, Stmt.depthOf_unplaced body]
  | .ifThen condition thenBranch => by
      simp [Stmt.unplaced, Stmt.depth, condition.depth_unplaced, thenBranch.depth_unplaced]
  | .ifElse condition thenBranch elseBranch => by
      simp [Stmt.unplaced, Stmt.depth, condition.depth_unplaced, thenBranch.depth_unplaced,
        elseBranch.depth_unplaced]
  | .whileLoop condition body => by
      simp [Stmt.unplaced, Stmt.depth, condition.depth_unplaced, body.depth_unplaced]
  | .funDef function => by simp [Stmt.unplaced, Stmt.depth, function.depth_unplaced]
  | .ret keyword none => rfl
  | .ret keyword (some value) => by simp [Stmt.unplaced, Stmt.depth, value.depth_unplaced]
  | .classDef name methods => by
      simp [Stmt.unplaced, Stmt.depth, Function.depthOf_unplaced methods]

theorem Stmt.depthOf_unplaced : ∀ body : List Stmt,
    Stmt.depthOf (Stmt.unplacedAll body) = Stmt.depthOf body
  | [] => rfl
  | stmt :: rest => by
      simp [Stmt.unplacedAll, Stmt.depthOf, stmt.depth_unplaced, Stmt.depthOf_unplaced rest]

theorem Function.depth_unplaced : ∀ function : Function, function.unplaced.depth = function.depth
  | .mk name parameters body => by
      simp [Function.unplaced, Function.depth, Stmt.depthOf_unplaced body]

theorem Function.depthOf_unplaced : ∀ functions : List Function,
    Function.depthOf (Function.unplacedAll functions) = Function.depthOf functions
  | [] => rfl
  | function :: rest => by
      simp [Function.unplacedAll, Function.depthOf, function.depth_unplaced,
        Function.depthOf_unplaced rest]

end

theorem isCanonical_unplacedAll (tree : List Stmt) :
    IsCanonical (Stmt.unplacedAll tree) ↔ IsCanonical tree := by
  rw [IsCanonical, IsCanonical, Stmt.allCanonical_unplaced, Stmt.depthOf_unplaced]

/-! ## Finding places -/

/-- A token of a rendering, wherever it stands. -/
def Mark.anywhere (mark : Mark) : Mark :=
  ⟨mark.token, none⟩

theorem Mark.Matches.placed {token : Token} {span : Span} {found : Located Token}
    (h : (Mark.placed token span).anywhere.Matches found) :
    (Mark.placed token found.span).Matches found := by
  refine ⟨h.1, fun place hplace => ?_⟩
  simpa [Mark.placed] using hplace.symm

/-- Tokens that are those of a value up to places are those of a value that is the same up to
places. -/
def Placeable {α : Type} (marks : α → List Mark) (unplaced : α → α) (value : α) : Prop :=
  ∀ ⦃tokens : List (Located Token)⦄, Written ((marks value).map Mark.anywhere) tokens →
    ∃ placed, unplaced placed = unplaced value ∧ Written (marks placed) tokens

section

variable {α β : Type} {marks : α → List Mark} {unplaced : α → α} {value : α} {values : List α}
variable {others : β → List Mark} {forget : β → β} {other : β}

/-- What is built from a value finds its places as the value does, if it is written in the same
way. -/
theorem Placeable.build (h : Placeable marks unplaced value) (build : α → β)
    (hmarks : ∀ value, others (build value) = marks value := by exact fun _ => rfl)
    (hunplaced : ∀ value, forget (build value) = build (unplaced value) := by
      exact fun _ => rfl)
    (hother : build value = other := by rfl) :
    Placeable others forget other := by
  subst hother
  intro tokens htokens
  rw [hmarks] at htokens
  obtain ⟨placed, hplaced, hwritten⟩ := h htokens
  refine ⟨build placed, ?_, ?_⟩
  · rw [hunplaced, hunplaced, hplaced]
  · rwa [hmarks]

theorem Placeable.append (h : Placeable marks unplaced value)
    (hother : Placeable others forget other) :
    Placeable (fun pair => marks pair.1 ++ others pair.2) (Prod.map unplaced forget)
      (value, other) := by
  intro tokens htokens
  rw [List.map_append] at htokens
  obtain ⟨front, back, rfl, hfront, hback⟩ := written_append.mp htokens
  obtain ⟨placed, hplaced, hwritten⟩ := h hfront
  obtain ⟨behind, hbehind, hwrittenBehind⟩ := hother hback
  exact ⟨(placed, behind), Prod.ext hplaced hbehind, hwritten.append hwrittenBehind⟩

theorem Placeable.closed (h : Placeable marks unplaced value) (symbol : Symbol) :
    Placeable (fun value => marks value ++ [.symbol symbol]) unplaced value := by
  intro tokens htokens
  rw [List.map_append] at htokens
  obtain ⟨front, close, rfl, hfront, hclose⟩ := written_concat.mp htokens
  obtain ⟨placed, hplaced, hwritten⟩ := h hfront
  exact ⟨placed, hplaced, hwritten.append (.cons hclose .nil)⟩

/-- A token without a place in the tree stands before the tokens of a value. -/
theorem Placeable.behind (h : Placeable marks unplaced value) (mark : Mark)
    (hmark : mark.anywhere = mark := by rfl) :
    Placeable (fun value => mark :: marks value) unplaced value := by
  intro tokens htokens
  rw [List.map_cons, hmark] at htokens
  obtain ⟨token, back, rfl, htoken, hback⟩ := written_cons.mp htokens
  obtain ⟨placed, hplaced, hwritten⟩ := h hback
  exact ⟨placed, hplaced, hwritten.cons htoken⟩

theorem placeable_flatMap (h : ∀ value ∈ values, Placeable marks unplaced value) :
    Placeable (List.flatMap marks) (List.map unplaced) values := by
  induction values with
  | nil =>
      intro tokens htokens
      exact ⟨[], rfl, htokens⟩
  | cons value rest ih =>
      obtain ⟨hvalue, hrest⟩ := List.forall_mem_cons.mp h
      exact (hvalue.append (ih hrest)).build (fun pair => pair.1 :: pair.2)

theorem placeable_listed (h : ∀ value ∈ values, Placeable marks unplaced value) :
    Placeable (fun values => listed (values.map marks)) (List.map unplaced) values := by
  induction values with
  | nil =>
      intro tokens htokens
      exact ⟨[], rfl, htokens⟩
  | cons value rest ih =>
      intro tokens htokens
      obtain ⟨hvalue, hrest⟩ := List.forall_mem_cons.mp h
      cases rest with
      | nil =>
          obtain ⟨first, hfirst, hwritten⟩ := hvalue htokens
          exact ⟨[first], congrArg (· :: []) hfirst, hwritten⟩
      | cons next rest =>
          -- There is a comma only because the others are not empty, wherever they are placed.
          simp only [List.map_cons, listed, List.map_append] at htokens
          obtain ⟨⟨first, _ | ⟨second, others⟩⟩, hplaced, hwritten⟩ :=
            hvalue.append ((ih hrest).behind (.symbol .comma)) (by simpa using htokens)
          · exact nomatch congrArg Prod.snd hplaced
          · obtain ⟨hfirst, hothers⟩ := Prod.ext_iff.mp hplaced
            exact ⟨first :: second :: others, List.cons_eq_cons.mpr ⟨hfirst, hothers⟩, hwritten⟩

/-- A token finds the place that a tree keeps of it. -/
theorem placeable_placed (token : α → Token) (located : Located α) :
    Placeable (fun located => [.placed (token located.value) located.span]) Located.unplaced
      located := by
  intro tokens htokens
  obtain ⟨found, _, rfl, hfound, hnil⟩ := written_cons.mp htokens
  obtain rfl := written_nil.mp hnil
  exact ⟨⟨located.value, found.span⟩, rfl, .cons hfound.placed .nil⟩

end

theorem placeable_name (name : Located String) :
    Placeable (fun name => [.name name]) Located.unplaced name :=
  placeable_placed Token.name name

theorem placeable_span (token : Token) (span : Span) :
    Placeable (fun span => [.placed token span]) (fun _ => ⟨0, 0, 0⟩) span :=
  (placeable_placed (fun _ => token) ⟨(), span⟩).build Located.span

/-- Statements find their places one after the other. -/
theorem placeable_marksOf {body : List Stmt}
    (h : ∀ stmt ∈ body, Placeable Stmt.marks Stmt.unplaced stmt) :
    Placeable Stmt.marksOf Stmt.unplacedAll body :=
  (placeable_flatMap h).build id Stmt.marksOf_eq Stmt.unplacedAll_eq

/-- A condition and what depends on it find their places behind the keyword. -/
theorem placeable_condition {α : Type} {marks : α → List Mark} {unplaced : α → α} {value : α}
    {condition : Expr} (hcondition : Placeable Expr.marks Expr.unplaced condition)
    (h : Placeable marks unplaced value) (word : Keyword) :
    Placeable (fun pair => .keyword word :: .symbol .openParen ::
        (pair.1.marks ++ .symbol .closeParen :: marks pair.2))
      (Prod.map Expr.unplaced unplaced) (condition, value) :=
  ((hcondition.append (h.behind (.symbol .closeParen))).behind (.symbol .openParen)).behind
    (.keyword word)

/-- Parameters and a body of statements find their places together. -/
theorem placeable_body (names : List (Located String)) {body : List Stmt}
    (hbody : ∀ stmt ∈ body, Placeable Stmt.marks Stmt.unplaced stmt) :
    Placeable (fun pair => parameterMarks pair.1 ++
        .symbol .openCurly :: (Stmt.marksOf pair.2 ++ [.symbol .closeCurly]))
      (Prod.map (List.map Located.unplaced) Stmt.unplacedAll) (names, body) := by
  have hnames := placeable_listed fun name (_ : name ∈ names) => placeable_name name
  exact ((hnames.closed .closeParen).behind (.symbol .openParen)).append
    (((placeable_marksOf hbody).closed .closeCurly).behind (.symbol .openCurly))

mutual

theorem Expr.placeable : ∀ expr : Expr, Placeable Expr.marks Expr.unplaced expr
  | .binary left op right => by
      have hparts :=
        left.placeable.append ((placeable_placed BinaryOp.token op).append right.placeable)
      exact hparts.build (fun (left, op, right) => Expr.binary left op right)
  | .logical left op right => by
      have hparts :=
        left.placeable.append ((placeable_placed LogicalOp.token op).append right.placeable)
      exact hparts.build (fun (left, op, right) => Expr.logical left op right)
  | .unary op operand => by
      have hparts := (placeable_placed UnaryOp.token op).append operand.placeable
      exact hparts.build (fun (op, operand) => Expr.unary op operand)
  | .literal value span => by
      intro tokens h
      obtain ⟨token, _, rfl, htoken, hnil⟩ := written_cons.mp h
      obtain rfl := written_nil.mp hnil
      -- A constant gets a place even if it had none.
      refine ⟨.literal value (some token.span), rfl, .cons ⟨htoken.1, fun place hplace => ?_⟩ .nil⟩
      simpa using hplace.symm
  | .grouping inner => by
      have hinner := (inner.placeable.closed .closeParen).behind (.symbol .openParen)
      exact hinner.build Expr.grouping
  | .var name => (placeable_name name).build Expr.var
  | .assign name value => by
      have hparts := (placeable_name name).append (value.placeable.behind (.symbol .assign))
      exact hparts.build (fun (name, value) => Expr.assign name value)
  | .call callee paren arguments => by
      have hvalues := placeable_listed (Expr.allPlaceable arguments)
      have hclosed := hvalues.append (placeable_span (.symbol .closeParen) paren)
      refine (callee.placeable.append (hclosed.behind (.symbol .openParen))).build
        (fun (callee, arguments, paren) => Expr.call callee paren arguments) (fun parts => ?_)
        fun parts => ?_
      · rw [Expr.marks, Expr.marksOf_eq]
      · rw [Expr.unplaced, Expr.unplacedAll_eq]
        rfl
  | .lambda parameters body => by
      have hparts := (placeable_body parameters (Stmt.allPlaceable body)).behind (.keyword .kwFun)
      exact hparts.build (fun (parameters, body) => Expr.lambda parameters body)

theorem Expr.allPlaceable : ∀ exprs : List Expr, ∀ expr ∈ exprs,
    Placeable Expr.marks Expr.unplaced expr
  | [] => List.forall_mem_nil _
  | expr :: rest => List.forall_mem_cons.mpr ⟨expr.placeable, Expr.allPlaceable rest⟩

theorem Stmt.placeable : ∀ stmt : Stmt, Placeable Stmt.marks Stmt.unplaced stmt
  | .expression expr =>
      (expr.placeable.closed .semicolon).build Stmt.expression
  | .print expr => by
      have hclosed := (expr.placeable.closed .semicolon).behind (.keyword .kwPrint)
      exact hclosed.build Stmt.print
  | .varDef name none => by
      have hclosed := ((placeable_name name).closed .semicolon).behind (.keyword .kwVar)
      exact hclosed.build (Stmt.varDef · none)
  | .varDef name (some value) => by
      have hvalue := (value.placeable.closed .semicolon).behind (.symbol .assign)
      exact (((placeable_name name).append hvalue).behind (.keyword .kwVar)).build
        (fun (name, value) => Stmt.varDef name (some value))
  | .block body => by
      have hbody := placeable_marksOf (Stmt.allPlaceable body)
      exact ((hbody.closed .closeCurly).behind (.symbol .openCurly)).build Stmt.block
  | .ifThen condition thenBranch => by
      have hparts := placeable_condition condition.placeable thenBranch.placeable .kwIf
      exact hparts.build (fun (condition, thenBranch) => Stmt.ifThen condition thenBranch)
  | .ifElse condition thenBranch elseBranch => by
      have hbranches :=
        thenBranch.placeable.append (elseBranch.placeable.behind (.keyword .kwElse))
      exact (placeable_condition condition.placeable hbranches .kwIf).build
        (fun (condition, thenBranch, elseBranch) => Stmt.ifElse condition thenBranch elseBranch)
  | .whileLoop condition body => by
      have hparts := placeable_condition condition.placeable body.placeable .kwWhile
      exact hparts.build (fun (condition, body) => Stmt.whileLoop condition body)
  | .funDef function =>
      (function.placeable.behind (.keyword .kwFun)).build Stmt.funDef
  | .ret keyword none =>
      ((placeable_span (.keyword .kwReturn) keyword).closed .semicolon).build (Stmt.ret · none)
  | .ret keyword (some value) => by
      have hparts := (placeable_span (.keyword .kwReturn) keyword).append
        (value.placeable.closed .semicolon)
      exact hparts.build (fun (keyword, value) => Stmt.ret keyword (some value))
  | .classDef name methods => by
      have hmethods := (placeable_flatMap (Function.allPlaceable methods)).closed .closeCurly
      refine (((placeable_name name).append (hmethods.behind (.symbol .openCurly))).behind
        (.keyword .kwClass)).build (fun (name, methods) => Stmt.classDef name methods)
        (fun parts => ?_) fun parts => ?_
      · rw [Stmt.marks, Function.marksOf_eq]
        rfl
      · rw [Stmt.unplaced, Function.unplacedAll_eq]
        rfl

theorem Stmt.allPlaceable : ∀ body : List Stmt, ∀ stmt ∈ body,
    Placeable Stmt.marks Stmt.unplaced stmt
  | [] => List.forall_mem_nil _
  | stmt :: rest => List.forall_mem_cons.mpr ⟨stmt.placeable, Stmt.allPlaceable rest⟩

theorem Function.placeable : ∀ function : Function,
    Placeable Function.marks Function.unplaced function
  | .mk name parameters body => by
      have hparts := (placeable_name name).append
        (placeable_body parameters (Stmt.allPlaceable body))
      exact hparts.build (fun (name, parameters, body) => Function.mk name parameters body)

theorem Function.allPlaceable : ∀ functions : List Function, ∀ function ∈ functions,
    Placeable Function.marks Function.unplaced function
  | [] => List.forall_mem_nil _
  | function :: rest => List.forall_mem_cons.mpr ⟨function.placeable, Function.allPlaceable rest⟩

end

end Stacklet
