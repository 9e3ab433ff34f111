import Stacklet.Tree

/-! # Nodes of a tree

A tree is made of expressions and statements, which stand within each other to any depth: the body
of a function without a name has statements within an expression. The nodes of a tree are all of
these, each before what is within it.
-/

namespace Stacklet

/-- An expression or a statement of a tree. -/
inductive Node where
  | expr (expr : Expr)
  | stmt (stmt : Stmt)

mutual

/-- The nodes within an expression. -/
def Expr.within : Expr → List Node
  | .binary left _ right => .expr left :: (left.within ++ .expr right :: right.within)
  | .unary _ operand => .expr operand :: operand.within
  | .literal .. | .var .. => []
  | .grouping inner => .expr inner :: inner.within
  | .assign _ value => .expr value :: value.within
  | .logical left _ right => .expr left :: (left.within ++ .expr right :: right.within)
  | .call callee _ arguments => .expr callee :: (callee.within ++ Expr.nodesOf arguments)
  | .lambda _ body => Stmt.nodesOf body

/-- The nodes of expressions. -/
def Expr.nodesOf : List Expr → List Node
  | [] => []
  | expr :: rest => .expr expr :: (expr.within ++ Expr.nodesOf rest)

/-- The nodes within a statement. -/
def Stmt.within : Stmt → List Node
  | .expression expr => .expr expr :: expr.within
  | .print expr => .expr expr :: expr.within
  | .varDef _ none => []
  | .varDef _ (some value) => .expr value :: value.within
  | .block body => Stmt.nodesOf body
  | .ifThen condition thenBranch =>
    .expr condition :: (condition.within ++ .stmt thenBranch :: thenBranch.within)
  | .ifElse condition thenBranch elseBranch =>
    .expr condition :: (condition.within ++ .stmt thenBranch :: (thenBranch.within ++
      .stmt elseBranch :: elseBranch.within))
  | .whileLoop condition body => .expr condition :: (condition.within ++ .stmt body :: body.within)
  | .funDef function => function.within
  | .ret _ none => []
  | .ret _ (some value) => .expr value :: value.within
  | .classDef _ methods => Function.nodesOf methods

/-- The nodes of statements. -/
def Stmt.nodesOf : List Stmt → List Node
  | [] => []
  | stmt :: rest => .stmt stmt :: (stmt.within ++ Stmt.nodesOf rest)

/-- The nodes within a function. -/
def Function.within : Function → List Node
  | .mk _ _ body => Stmt.nodesOf body

/-- The nodes within functions. -/
def Function.nodesOf : List Function → List Node
  | [] => []
  | function :: rest => function.within ++ Function.nodesOf rest

end

/-- The nodes within a node. -/
def Node.within : Node → List Node
  | .expr whole => whole.within
  | .stmt whole => whole.within

/-- Whether a node is a conditional with one arm. -/
def Node.isIfThen : Node → Bool
  | .stmt (.ifThen ..) => true
  | _ => false

/-- Whether a node is a conditional with two arms. -/
def Node.isIfElse : Node → Bool
  | .stmt (.ifElse ..) => true
  | _ => false

/-- How many arms the conditionals among some nodes have. -/
def armCount (nodes : List Node) : Nat :=
  nodes.countP Node.isIfThen + 2 * nodes.countP Node.isIfElse

@[simp] theorem armCount_nil : armCount [] = 0 := rfl

@[simp] theorem armCount_append (left right : List Node) :
    armCount (left ++ right) = armCount left + armCount right := by
  simp only [armCount, List.countP_append]
  omega

@[simp] theorem armCount_expr (expr : Expr) (rest : List Node) :
    armCount (.expr expr :: rest) = armCount rest := rfl

@[simp] theorem armCount_print (expr : Expr) (rest : List Node) :
    armCount (.stmt (.print expr) :: rest) = armCount rest := rfl

@[simp] theorem armCount_block (body : List Stmt) (rest : List Node) :
    armCount (.stmt (.block body) :: rest) = armCount rest := rfl

@[simp] theorem armCount_ifThen (condition : Expr) (thenBranch : Stmt) (rest : List Node) :
    armCount (.stmt (.ifThen condition thenBranch) :: rest) = 1 + armCount rest := by
  rw [armCount, List.countP_cons_of_pos rfl, List.countP_cons_of_neg Bool.false_ne_true, armCount]
  omega

@[simp] theorem armCount_ifElse (condition : Expr) (thenBranch elseBranch : Stmt)
    (rest : List Node) :
    armCount (.stmt (.ifElse condition thenBranch elseBranch) :: rest) = 2 + armCount rest := by
  rw [armCount, List.countP_cons_of_neg Bool.false_ne_true, List.countP_cons_of_pos rfl, armCount]
  omega

theorem armCount_eq_zero_iff {nodes : List Node} :
    armCount nodes = 0 ↔ ∀ node ∈ nodes, ¬ node.isIfThen ∧ ¬ node.isIfElse := by
  have hcounts : armCount nodes = 0 ↔
      nodes.countP Node.isIfThen = 0 ∧ nodes.countP Node.isIfElse = 0 := by
    rw [armCount]
    omega
  rw [hcounts, List.countP_eq_zero, List.countP_eq_zero]
  exact ⟨fun h node hnode => ⟨h.1 node hnode, h.2 node hnode⟩,
    fun h => ⟨fun node hnode => (h node hnode).1, fun node hnode => (h node hnode).2⟩⟩

end Stacklet
