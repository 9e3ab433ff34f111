import Mathlib.Computability.Language
import Stacklet.Proofs.Tree.Beginnings

/-! # Forms of the structured language

The grammar of the structured language as data, in the extended notation of Backus and Naur, and the
words of tokens that it spells. There are no bounds on nesting and listings in it, and any
expression without an assignment may stand before an equals sign. A declaration that begins with
`fun` declares a function.
-/

namespace Stacklet

/-- The categories through which the grammar is recursive. -/
inductive Category where
  | declaration
  | statement
  | expression
  | operand

/-- What a part of a program can look like. -/
inductive Form where
  /-- One token of a class. -/
  | one (accepts : Token → Bool)
  | nothing
  | category (category : Category)
  | seq (front back : Form)
  | alt (left right : Form)
  | many (form : Form)
  /-- A form, as far as it does not begin with a token. -/
  | avoiding (token : Token) (form : Form)

namespace Form

/-! ## The grammar -/

def oneOf (tokens : List Token) : Form :=
  one (· ∈ tokens)

def keyword (word : Keyword) : Form :=
  oneOf [.keyword word]

def symbol (mark : Symbol) : Form :=
  oneOf [.symbol mark]

def name : Form :=
  one fun
    | .name _ => true
    | _ => false

def sequence : List Form → Form
  | [] => nothing
  | form :: more => seq form (sequence more)

def choice (form : Form) : List Form → Form
  | [] => form
  | other :: more => alt form (other.choice more)

def optional (form : Form) : Form :=
  alt form nothing

/-- Nothing, or items with commas between them, and the closing parenthesis. -/
def listing (item : Form) : Form :=
  sequence [optional (seq item (many (seq (symbol .comma) item))), symbol .closeParen]

def arguments : Form :=
  listing (category .expression)

/-- A block, behind its opening brace. -/
def block : Form :=
  sequence [many (category .declaration), symbol .closeCurly]

/-- The parameters and the body of a function. -/
def lambda : Form :=
  sequence [symbol .openParen, listing name, symbol .openCurly, block]

def literal : Form :=
  one fun
    | .keyword .kwFalse | .keyword .kwTrue | .keyword .kwNil | .number _ | .string _ => true
    | _ => false

def primary : Form :=
  literal.choice [name, sequence [symbol .openParen, category .expression, symbol .closeParen]]

def calls : Form :=
  many (seq (symbol .openParen) arguments)

def operand : Form :=
  (sequence [keyword .kwFun, lambda]).choice [
    sequence [oneOf [.symbol .bang, .symbol .minus], category .operand],
    sequence [primary, calls]]

/-- The operators of a level. -/
def operators : Grammar.Level → List Token
  | .disjunction => [.keyword .kwOr]
  | .conjunction => [.keyword .kwAnd]
  | .equality => [.symbol .equal, .symbol .bangEqual]
  | .comparison => [.symbol .greater, .symbol .greaterEqual, .symbol .less, .symbol .lessEqual]
  | .term => [.symbol .minus, .symbol .plus]
  | .factor => [.symbol .slash, .symbol .times]

/-- Operands of one level behind a first one. -/
def chain (level : Grammar.Level) (operand : Form) : Form :=
  many (seq (oneOf (operators level)) operand)

/-- An expression whose operators are on the given levels, loosest first. -/
def infixed : List Grammar.Level → Form
  | [] => category .operand
  | level :: tighter => seq (infixed tighter) (chain level (infixed tighter))

def expression : Form :=
  seq (infixed Grammar.Level.all) (optional (seq (symbol .assign) (category .expression)))

def expressionStatement : Form :=
  sequence [category .expression, symbol .semicolon]

/-- A variable, behind its keyword. -/
def varDefinition : Form :=
  sequence [name, optional (seq (symbol .assign) (category .expression)), symbol .semicolon]

def forInitializer : Form :=
  (sequence [symbol .semicolon]).choice [
    sequence [keyword .kwVar, varDefinition],
    expressionStatement]

/-- A `for`, behind its keyword. -/
def forStatement : Form :=
  sequence [symbol .openParen, forInitializer, optional (category .expression), symbol .semicolon,
    optional (category .expression), symbol .closeParen, category .statement]

/-- An `if`, behind its keyword. -/
def ifStatement : Form :=
  sequence [symbol .openParen, category .expression, symbol .closeParen, category .statement,
    optional (seq (keyword .kwElse) (category .statement))]

/-- A `return`, behind its keyword. -/
def returnStatement : Form :=
  sequence [optional (category .expression), symbol .semicolon]

/-- A `while`, behind its keyword. -/
def whileStatement : Form :=
  sequence [symbol .openParen, category .expression, symbol .closeParen, category .statement]

def statement : Form :=
  (sequence [keyword .kwFor, forStatement]).choice [
    sequence [keyword .kwIf, ifStatement],
    sequence [keyword .kwPrint, expressionStatement],
    sequence [keyword .kwReturn, returnStatement],
    sequence [keyword .kwWhile, whileStatement],
    sequence [symbol .openCurly, block],
    expressionStatement]

def function : Form :=
  sequence [name, lambda]

/-- A class, behind its keyword. -/
def classDefinition : Form :=
  sequence [name, symbol .openCurly, many function, symbol .closeCurly]

def declaration : Form :=
  (sequence [keyword .kwClass, classDefinition]).choice [
    sequence [keyword .kwFun, function],
    sequence [keyword .kwVar, varDefinition],
    avoiding (.keyword .kwFun) (category .statement)]

def program : Form :=
  sequence [many (category .declaration), oneOf [.endOfInput]]

end Form

/-- What a category stands for. -/
def Category.rule : Category → Form
  | declaration => .declaration
  | statement => .statement
  | expression => .expression
  | operand => .operand

/-! ## Words -/

namespace Form

/-- A word of tokens has a form. -/
inductive Spells : Form → List Token → Prop
  | one {accepts : Token → Bool} {token : Token} (h : accepts token = true) :
      Spells (one accepts) [token]
  | nothing : Spells nothing []
  | category {category : Category} {word : List Token} (h : Spells category.rule word) :
      Spells (.category category) word
  | seq {form more : Form} {front back : List Token} (hfront : Spells form front)
      (hback : Spells more back) : Spells (seq form more) (front ++ back)
  | left {form other : Form} {word : List Token} (h : Spells form word) :
      Spells (alt form other) word
  | right {form other : Form} {word : List Token} (h : Spells other word) :
      Spells (alt form other) word
  | none {form : Form} : Spells (many form) []
  | some {form : Form} {front back : List Token} (hfront : Spells form front)
      (hback : Spells (many form) back) : Spells (many form) (front ++ back)
  | avoiding {form : Form} {token : Token} {word : List Token} (h : Spells form word)
      (hfirst : word.head? ≠ Option.some token) : Spells (avoiding token form) word

/-- The words of a form. -/
def language (form : Form) : Language Token :=
  {word | form.Spells word}

theorem mem_language_one {accepts : Token → Bool} {word : List Token} :
    word ∈ (one accepts).language ↔ ∃ token, accepts token = true ∧ word = [token] := by
  constructor
  · rintro ⟨h⟩
    exact ⟨_, h, rfl⟩
  · rintro ⟨token, h, rfl⟩
    exact Spells.one h

@[simp] theorem language_nothing : nothing.language = 1 := by
  ext word
  constructor
  · rintro ⟨⟩
    exact Language.nil_mem_one
  · intro h
    rw [(Language.mem_one word).mp h]
    exact Spells.nothing

@[simp] theorem language_category (category : Category) :
    (Form.category category).language = category.rule.language := by
  ext word
  constructor
  · intro h
    cases h with
    | category h => exact h
  · intro h
    exact Spells.category h

@[simp] theorem language_seq (front back : Form) :
    (seq front back).language = front.language * back.language := by
  ext word
  constructor
  · intro h
    cases h with
    | seq hfront hback => exact Language.append_mem_mul hfront hback
  · intro h
    obtain ⟨first, hfirst, second, hsecond, rfl⟩ := Language.mem_mul.mp h
    exact Spells.seq hfirst hsecond

@[simp] theorem language_alt (left right : Form) :
    (alt left right).language = left.language + right.language := by
  ext word
  constructor
  · intro h
    cases h with
    | left h => exact .inl h
    | right h => exact .inr h
  · rintro (h | h)
    · exact Spells.left h
    · exact Spells.right h

theorem language_many (form : Form) :
    (many form).language = (alt (seq form (many form)) nothing).language := by
  ext word
  constructor
  · intro h
    cases h with
    | none => exact Spells.right .nothing
    | some hfront hback => exact Spells.left (.seq hfront hback)
  · intro h
    cases h with
    | left h =>
        cases h with
        | seq hfront hback => exact Spells.some hfront hback
    | right h =>
        cases h with
        | nothing => exact Spells.none

/-- What is repeated can be read part by part. -/
theorem language_many_seq (front back : Form) :
    (many (seq front back)).language =
      (alt (seq front (seq back (many (seq front back)))) nothing).language := by
  rw [language_many]
  simp only [language_alt, language_seq, mul_assoc]

theorem language_optional_seq (form more : Form) :
    (seq (optional form) more).language = (alt (seq form more) more).language := by
  simp only [optional, language_alt, language_seq, language_nothing, add_mul, one_mul]

theorem language_optional_seq_seq (front back more : Form) :
    (seq (optional (seq front back)) more).language =
      (alt (seq front (seq back more)) more).language := by
  rw [language_optional_seq]
  simp only [language_alt, language_seq, mul_assoc]

/-! ## First tokens -/

/-- Whether a form spells the empty word. -/
def nullable : Form → Bool
  | one _ | category _ => false
  | nothing | many _ => true
  | seq front back => front.nullable && back.nullable
  | alt left right => left.nullable || right.nullable
  | avoiding _ form => form.nullable

end Form

/-- Tokens that a statement can begin with. -/
def Token.opensStatement : Token → Bool
  | .keyword .kwFor | .keyword .kwIf | .keyword .kwPrint | .keyword .kwReturn => true
  | .keyword .kwWhile | .symbol .openCurly => true
  | token => token.opensExpr

/-- Whether a word of a category can begin with a token. -/
def Category.opens : Category → Token → Bool
  | declaration, token => token.opensDeclaration || token.opensStatement
  | statement, token => token.opensStatement
  | expression, token | operand, token => token.opensExpr

namespace Form

/-- Whether a word of a form can begin with a token. -/
def opens : Form → Token → Bool
  | one accepts, token => accepts token
  | nothing, _ => false
  | category kind, token => kind.opens token
  | seq front back, token => front.opens token || front.nullable && back.opens token
  | alt left right, token => left.opens token || right.opens token
  | many form, token => form.opens token
  | avoiding other form, token => token ≠ other && form.opens token

@[simp] theorem opens_optional (form : Form) (token : Token) :
    (optional form).opens token = form.opens token :=
  Bool.or_false _

theorem opens_symbol_seq {mark : Symbol} {more : Form} {token : Token} :
    (seq (symbol mark) more).opens token = true ↔ token = .symbol mark := by
  simp [opens, nullable, symbol, oneOf]

theorem nullable_rule (category : Category) : category.rule.nullable = false := by
  cases category <;> rfl

theorem opens_rule {category : Category} {token : Token} (h : category.rule.opens token = true) :
    category.opens token = true := by
  cases token with
  | keyword word => cases category <;> cases word <;> first | rfl | exact nomatch h
  | symbol mark => cases category <;> cases mark <;> first | rfl | exact nomatch h
  | endOfInput => cases category <;> exact nomatch h
  | _ => cases category <;> rfl

/-- A word of a form is empty only if the form allows it, and begins with a first token of it. -/
theorem Spells.begins {form : Form} {word : List Token} (h : form.Spells word) :
    (word = [] → form.nullable = true) ∧ ∀ token ∈ word.head?, form.opens token = true := by
  induction h with
  | one h => exact ⟨nofun, fun token htoken => by cases htoken; exact h⟩
  | nothing => exact ⟨fun _ => rfl, nofun⟩
  | category h ih =>
      refine ⟨fun hword => ?_, fun token htoken => opens_rule (ih.2 token htoken)⟩
      have hnullable := ih.1 hword
      rw [nullable_rule] at hnullable
      exact nomatch hnullable
  | @seq form more front back hfront hback ihfront ihback =>
      cases front with
      | nil =>
          have hnullable := ihfront.1 rfl
          simp only [nullable, opens, hnullable, Bool.true_and, Bool.or_eq_true]
          exact ⟨ihback.1, fun token htoken => .inr (ihback.2 token htoken)⟩
      | cons first front =>
          refine ⟨nofun, fun token htoken => ?_⟩
          rw [opens, ihfront.2 token htoken, Bool.true_or]
  | left h ih =>
      simp only [nullable, opens, Bool.or_eq_true]
      exact ⟨fun hword => .inl (ih.1 hword), fun token htoken => .inl (ih.2 token htoken)⟩
  | right h ih =>
      simp only [nullable, opens, Bool.or_eq_true]
      exact ⟨fun hword => .inr (ih.1 hword), fun token htoken => .inr (ih.2 token htoken)⟩
  | none => exact ⟨fun _ => rfl, nofun⟩
  | @some form front back hfront hback ihfront ihback =>
      refine ⟨fun _ => rfl, ?_⟩
      cases front with
      | nil => exact ihback.2
      | cons first front => exact ihfront.2
  | @avoiding form other word h hfirst ih =>
      refine ⟨ih.1, fun token htoken => ?_⟩
      have hne : token ≠ other := by
        rintro rfl
        exact hfirst htoken
      rw [opens, ih.2 token htoken, decide_eq_true hne, Bool.true_and]

/-- The first token of a word of a form with something behind it is one of the form, unless the form
spells nothing. -/
theorem opens_of_cons_mem {form : Form} {behind : Language Token} {token : Token}
    {word : List Token} (h : token :: word ∈ form.language * behind) :
    form.opens token = true ∨ form.nullable = true ∧ token :: word ∈ behind := by
  obtain ⟨front, hfront, back, hback, happend⟩ := Language.mem_mul.mp h
  cases front with
  | nil => exact .inr ⟨hfront.begins.1 rfl, happend ▸ hback⟩
  | cons first front =>
      obtain ⟨rfl, -⟩ := List.cons.inj happend
      exact .inl (hfront.begins.2 first rfl)

theorem notMem_of_opens {form : Form} {behind : Language Token} {token : Token}
    (hopens : form.opens token = false) (hnullable : form.nullable = false) (word : List Token) :
    token :: word ∉ form.language * behind := by
  intro hword
  rcases opens_of_cons_mem hword with hopened | ⟨hempty, -⟩
  · exact nomatch hopens.symm.trans hopened
  · exact nomatch hnullable.symm.trans hempty

/-! ## Forms that are spelled -/

/-- Whether a form has a word. -/
def Productive (form : Form) : Prop :=
  ∃ word, form.Spells word

@[simp] theorem productive_oneOf (token : Token) (more : List Token) :
    (oneOf (token :: more)).Productive :=
  ⟨[token], .one (decide_eq_true List.mem_cons_self)⟩

@[simp] theorem productive_symbol (mark : Symbol) : (symbol mark).Productive :=
  productive_oneOf _ _

@[simp] theorem productive_name : name.Productive :=
  ⟨[.name ""], .one rfl⟩

@[simp] theorem productive_many (form : Form) : (many form).Productive :=
  ⟨[], .none⟩

@[simp] theorem productive_optional (form : Form) : (optional form).Productive :=
  ⟨[], .right .nothing⟩

@[simp] theorem productive_nothing : nothing.Productive :=
  ⟨[], .nothing⟩

@[simp] theorem productive_seq {front back : Form} :
    (seq front back).Productive ↔ front.Productive ∧ back.Productive := by
  constructor
  · rintro ⟨_, h⟩
    cases h with
    | seq hfront hback => exact ⟨⟨_, hfront⟩, ⟨_, hback⟩⟩
  · rintro ⟨⟨_, hfront⟩, ⟨_, hback⟩⟩
    exact ⟨_, .seq hfront hback⟩

@[simp] theorem productive_sequence_nil : (sequence []).Productive :=
  productive_nothing

@[simp] theorem productive_sequence_cons {form : Form} {more : List Form} :
    (sequence (form :: more)).Productive ↔ form.Productive ∧ (sequence more).Productive :=
  productive_seq

@[simp] theorem productive_listing (item : Form) : (listing item).Productive := by
  simp [listing]

@[simp] theorem productive_calls : calls.Productive :=
  productive_many _

@[simp] theorem productive_block : block.Productive := by
  simp [block]

@[simp] theorem productive_lambda : lambda.Productive := by
  simp [lambda]

@[simp] theorem productive_forInitializer : forInitializer.Productive :=
  ⟨[.symbol .semicolon], .left (.seq (.one rfl) .nothing)⟩

theorem spells_infixed (levels : List Grammar.Level) :
    (infixed levels).Spells [.keyword .kwNil] := by
  induction levels with
  | nil => exact .category (.right (.right (.seq (.left (.one rfl)) (.seq .none .nothing))))
  | cons level tighter ih => exact .seq ih .none

theorem spells_expression : (category .expression).Spells [.keyword .kwNil] :=
  .category (.seq (spells_infixed _) (.right .nothing))

theorem spells_statement :
    (category .statement).Spells [.keyword .kwNil, .symbol .semicolon] :=
  .category (.right (.right (.right (.right (.right (.right
    (.seq spells_expression (.seq (.one rfl) .nothing))))))))

@[simp] theorem productive_category (kind : Category) : (category kind).Productive := by
  cases kind with
  | declaration =>
      exact ⟨_, .category (.right (.right (.right (.avoiding spells_statement nofun))))⟩
  | statement => exact ⟨_, spells_statement⟩
  | expression => exact ⟨_, spells_expression⟩
  | operand => exact ⟨_, spells_infixed []⟩

theorem exists_mem_mul {form : Form} {behind : Language Token} (hform : form.Productive)
    (hbehind : ∃ word, word ∈ behind) : ∃ word, word ∈ form.language * behind := by
  obtain ⟨front, hfront⟩ := hform
  obtain ⟨back, hback⟩ := hbehind
  exact ⟨_, Language.append_mem_mul hfront hback⟩

end Form

end Stacklet
