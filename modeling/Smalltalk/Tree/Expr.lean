import Smalltalk.Source.Span

/-!
# Expressions and statements

Expressions are trees. Every node carries a number beside its span: nodes are numbered in the order
in which they are finished, so a node has a larger number than everything inside it. What later
stages find out about a node is kept in tables over these numbers. A tree that did not come from a
text may use one node in several places, which its number then shows.
-/

namespace Smalltalk

/-- A name where it is declared, or a selector where it is used. -/
structure Ident where
  /-- The name itself. -/
  name : String
  /-- Where it stands. -/
  span : Span := {}
  deriving DecidableEq, Inhabited

/-- The number and the place of a node. -/
structure NodeInfo where
  /-- Nodes are numbered from zero in the order in which they are finished. -/
  id : Nat
  /-- Where the node stands. -/
  span : Span
  deriving DecidableEq, Inhabited

/-- Expressions that stand for a value by themselves. -/
inductive Atom where
  /-- A 32-bit integer. -/
  | integer (value : Int32)
  /-- A floating-point number, as the bits of a 32-bit number. -/
  | float (bits : UInt32)
  /-- A character. -/
  | character (value : Char)
  /-- A string. -/
  | string (value : String)
  /-- The object `nil`. -/
  | nilObject
  /-- The object `true`. -/
  | trueObject
  /-- The object `false`. -/
  | falseObject
  /-- The receiver of the running method. -/
  | receiver
  deriving DecidableEq, Inhabited

/-- One keyword of a keyword message. -/
structure KeywordPart where
  /-- The keyword with its colon. -/
  keyword : Ident
  /-- The keyword and its argument. -/
  span : Span
  deriving DecidableEq, Inhabited

/-- What a message is called, in one of its three forms. -/
inductive Selector where
  /-- A name, and no argument. -/
  | unary (word : Ident)
  /-- An operator, and one argument. -/
  | binary (operator : Ident)
  /-- Keywords, each with an argument. -/
  | keyword (parts : List KeywordPart)
  deriving DecidableEq, Inhabited

namespace Selector

/-- The keywords of a message, one after the other. -/
def joined (parts : List KeywordPart) : String :=
  String.join (parts.map (·.keyword.name))

/-- The text of a selector. -/
def text : Selector → String
  | unary word => word.name
  | binary operator => operator.name
  | keyword parts => joined parts

/-- From the first keyword to the last. -/
def joinedSpan : List KeywordPart → Span
  | [] => {}
  | part :: parts => part.keyword.span.merge ((part :: parts).getLast (by simp)).keyword.span

/-- The selector as a single name. -/
def ident : Selector → Ident
  | unary word => word
  | binary operator => operator
  | keyword parts => ⟨joined parts, joinedSpan parts⟩

end Selector

/-- An expression or a statement. -/
inductive Expr where
  /-- A value by itself. -/
  | atom (info : NodeInfo) (value : Atom)
  /-- A variable. -/
  | name (info : NodeInfo) (name : String)
  /-- An array of the values of its elements. -/
  | array (info : NodeInfo) (items : List Expr)
  /-- A block; `close` is its closing bracket. -/
  | block (info : NodeInfo) (params locals : List Ident) (statements : List Expr) (close : Span)
  /-- A message to a receiver. -/
  | send (info : NodeInfo) (receiver : Expr) (selector : Selector) (arguments : List Expr)
  /-- A message to the receiver of the running method, as an instance of its superclass. -/
  | superSend (info : NodeInfo) (selector : Ident) (arguments : List Expr)
  /-- The assignment of a value to a variable. -/
  | assign (info : NodeInfo) (target value : Expr)
  /-- The return of a value from a method. -/
  | ret (info : NodeInfo) (value : Expr)
  deriving Inhabited

namespace Expr

/-- The number and the place of a node. -/
def info : Expr → NodeInfo
  | atom info _ | name info _ | array info _ | block info _ _ _ _ | send info _ _ _
  | superSend info _ _ | assign info _ _ | ret info _ => info

/-- The number of a node. -/
def id (e : Expr) : Nat := e.info.id

/-- The place of a node. -/
def span (e : Expr) : Span := e.info.span

/-- The direct parts of an expression, from left to right. -/
def children : Expr → List Expr
  | atom _ _ | name _ _ => []
  | array _ items => items
  | block _ _ _ statements _ => statements
  | send _ receiver _ arguments => receiver :: arguments
  | superSend _ _ arguments => arguments
  | assign _ target value => [target, value]
  | ret _ value => [value]

mutual

/-- An expression and everything inside it, outer nodes first, from left to right. -/
def nodes : Expr → List Expr
  | e@(atom _ _) | e@(name _ _) => [e]
  | e@(array _ items) => e :: nodesOfAll items
  | e@(block _ _ _ statements _) => e :: nodesOfAll statements
  | e@(send _ receiver _ arguments) => e :: (receiver.nodes ++ nodesOfAll arguments)
  | e@(superSend _ _ arguments) => e :: nodesOfAll arguments
  | e@(assign _ target value) => e :: (target.nodes ++ value.nodes)
  | e@(ret _ value) => e :: value.nodes

/-- The nodes of several expressions. -/
def nodesOfAll : List Expr → List Expr
  | [] => []
  | e :: es => e.nodes ++ nodesOfAll es

end

end Expr

end Smalltalk
