/-!
# Syntax trees of scripts

The syntax tree of a script, as far as its nodes own bytes that can be
attributed.  Identifiers that only name something (of functions, parameters,
labels, caught values) are part of the node that declares them.

## Main definitions

* `Form` — the shapes of a node, over the type of the nodes inside it.
* `Node` — a node: the range of its bytes and its form.
* `Form.label` — the word for a shape.
-/

namespace SizeAtlas.Script

/-- An identifier that names something. -/
structure Identifier where
  /-- The name, with its escapes resolved. -/
  name : String
  /-- The offset of its first byte. -/
  start : Nat
  /-- The offset after its last byte. -/
  stop : Nat
  deriving DecidableEq, Repr, Inhabited

/-- The shapes of a node whose inner nodes have the type `α`. -/
inductive Form (α : Type) where
  | blockStatement (body : List α)
  | ifStatement (test consequent : α) (alternate : Option α)
  | binaryExpression (left right : α)
  | logicalExpression (left right : α)
  | assignmentExpression (left right : α)
  | memberExpression (object key : α)
  /-- A property without a key is one whose name and value share their bytes. -/
  | property (key : Option α) (value : α)
  | tryStatement (block : α) (handler finalizer : Option α)
  | catchClause (body : α)
  | functionDeclaration (id : Option Identifier) (body : α)
  | functionExpression (id : Option Identifier) (body : α)
  | throwStatement (argument : α)
  | returnStatement (argument : Option α)
  | unaryExpression (argument : α)
  | updateExpression (argument : α)
  | callExpression (callee : α) (arguments : List α)
  | newExpression (callee : α) (arguments : List α)
  | variableDeclaration (declarations : List α)
  | variableDeclarator (id : Option Identifier) (init : Option α)
  | arrayExpression (elements : List α)
  | objectExpression (properties : List α)
  | expressionStatement (expression : α)
  | breakStatement
  | continueStatement
  | labeledStatement (body : α)
  | switchStatement (discriminant : α) (cases : List α)
  | switchCase (test : Option α) (consequent : List α)
  | sequenceExpression (expressions : List α)
  | conditionalExpression (test consequent alternate : α)
  | forStatement (init test update : Option α) (body : α)
  | whileStatement (test body : α)
  | doWhileStatement (test body : α)
  | forInStatement (left right body : α)
  | identifier (name : String)
  | literal
  | thisExpression
  | emptyStatement
  | debuggerStatement
  /-- Syntax whose bytes cannot be attributed. -/
  | unsupported (kind : String)
  deriving Repr, Inhabited

namespace Form

variable {α : Type}

/-- The word for a shape. -/
def label : Form α → String
  | blockStatement _ => "BlockStatement"
  | ifStatement _ _ _ => "IfStatement"
  | binaryExpression _ _ => "BinaryExpression"
  | logicalExpression _ _ => "LogicalExpression"
  | assignmentExpression _ _ => "AssignmentExpression"
  | memberExpression _ _ => "MemberExpression"
  | property _ _ => "Property"
  | tryStatement _ _ _ => "TryStatement"
  | catchClause _ => "CatchClause"
  | functionDeclaration _ _ => "FunctionDeclaration"
  | functionExpression _ _ => "FunctionExpression"
  | throwStatement _ => "ThrowStatement"
  | returnStatement _ => "ReturnStatement"
  | unaryExpression _ => "UnaryExpression"
  | updateExpression _ => "UpdateExpression"
  | callExpression _ _ => "CallExpression"
  | newExpression _ _ => "NewExpression"
  | variableDeclaration _ => "VariableDeclaration"
  | variableDeclarator _ _ => "VariableDeclarator"
  | arrayExpression _ => "ArrayExpression"
  | objectExpression _ => "ObjectExpression"
  | expressionStatement _ => "ExpressionStatement"
  | breakStatement => "BreakStatement"
  | continueStatement => "ContinueStatement"
  | labeledStatement _ => "LabeledStatement"
  | switchStatement _ _ => "SwitchStatement"
  | switchCase _ _ => "SwitchCase"
  | sequenceExpression _ => "SequenceExpression"
  | conditionalExpression _ _ _ => "ConditionalExpression"
  | forStatement _ _ _ _ => "ForStatement"
  | whileStatement _ _ => "WhileStatement"
  | doWhileStatement _ _ => "DoWhileStatement"
  | forInStatement _ _ _ => "ForInStatement"
  | identifier _ => "Identifier"
  | literal => "Literal"
  | thisExpression => "ThisExpression"
  | emptyStatement => "EmptyStatement"
  | debuggerStatement => "DebuggerStatement"
  | unsupported kind => kind

/-- The nodes inside a shape, in the order in which they are attributed.  The
test of a case comes after its statements. -/
def parts : Form α → List α
  | blockStatement body => body
  | ifStatement test consequent alternate => test :: consequent :: alternate.toList
  | binaryExpression left right => [left, right]
  | logicalExpression left right => [left, right]
  | assignmentExpression left right => [left, right]
  | memberExpression object key => [object, key]
  | property key value => key.toList ++ [value]
  | tryStatement block handler finalizer => block :: (handler.toList ++ finalizer.toList)
  | catchClause body => [body]
  | functionDeclaration _ body => [body]
  | functionExpression _ body => [body]
  | throwStatement argument => [argument]
  | returnStatement argument => argument.toList
  | unaryExpression argument => [argument]
  | updateExpression argument => [argument]
  | callExpression callee arguments => callee :: arguments
  | newExpression callee arguments => callee :: arguments
  | variableDeclaration declarations => declarations
  | variableDeclarator _ init => init.toList
  | arrayExpression elements => elements
  | objectExpression properties => properties
  | expressionStatement expression => [expression]
  | labeledStatement body => [body]
  | switchStatement discriminant cases => discriminant :: cases
  | switchCase test consequent => consequent ++ test.toList
  | sequenceExpression expressions => expressions
  | conditionalExpression test consequent alternate => [test, consequent, alternate]
  | forStatement init test update body =>
    init.toList ++ test.toList ++ update.toList ++ [body]
  | whileStatement test body => [test, body]
  | doWhileStatement test body => [test, body]
  | forInStatement left right body => [left, right, body]
  | breakStatement | continueStatement | identifier _ | literal | thisExpression
  | emptyStatement | debuggerStatement | unsupported _ => []

theorem sizeOf_lt_of_mem_parts [SizeOf α] {x : α} {f : Form α} (h : x ∈ f.parts) :
    sizeOf x < sizeOf f := by
  have list : ∀ {l : List α}, x ∈ l → sizeOf x < sizeOf l := List.sizeOf_lt_of_mem
  have option : ∀ {o : Option α}, o = some x → sizeOf x < sizeOf o := by
    rintro _ rfl
    simp
  cases f <;> simp [parts] at h ⊢ <;> grind

end Form

/-- A node of a syntax tree. -/
inductive Node where
  | mk (start stop : Nat) (form : Form Node)
  deriving Inhabited

namespace Node

/-- The offset of the first byte of a node. -/
def start : Node → Nat
  | mk start _ _ => start

/-- The offset after the last byte of a node. -/
def stop : Node → Nat
  | mk _ stop _ => stop

/-- The shape of a node. -/
def form : Node → Form Node
  | mk _ _ form => form

/-- The bytes of a node, none if it ends before it starts. -/
def length (n : Node) : Nat := n.stop - n.start

/-- Whether a node has no bytes. -/
def isEmpty (n : Node) : Bool := n.stop ≤ n.start

/-- The word for the shape of a node. -/
def label (n : Node) : String := n.form.label

/-- Whether a node is a function. -/
def isFunction (n : Node) : Bool :=
  match n.form with
  | .functionDeclaration _ _ | .functionExpression _ _ => true
  | _ => false

/-- Whether a node is a call. -/
def isCall (n : Node) : Bool :=
  match n.form with
  | .callExpression _ _ => true
  | _ => false

/-- Whether a node is an object literal. -/
def isObject (n : Node) : Bool :=
  match n.form with
  | .objectExpression _ => true
  | _ => false

/-- Whether a node declares one variable. -/
def isDeclarator (n : Node) : Bool :=
  match n.form with
  | .variableDeclarator _ _ => true
  | _ => false

/-- The value that a variable is declared with. -/
def initializer? (n : Node) : Option Node :=
  match n.form with
  | .variableDeclarator _ init => init
  | _ => none

/-- The name of a plain identifier. -/
def variableName? (n : Node) : Option String :=
  match n.form with
  | .identifier name => some name
  | _ => none

theorem sizeOf_form_lt (n : Node) : sizeOf n.form < sizeOf n := by
  cases n
  simp only [form, mk.sizeOf_spec]
  omega

theorem sizeOf_lt_of_mem_parts {c n : Node} (h : c ∈ n.form.parts) : sizeOf c < sizeOf n :=
  Nat.lt_trans (Form.sizeOf_lt_of_mem_parts h) n.sizeOf_form_lt

end Node

end SizeAtlas.Script
