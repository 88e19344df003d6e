import PageProbe.Span

/-!
A `Node` tells apart what the library looks at: names, member chains, calls, assignments, objects,
functions, declarations and statements. Everything else is `plain`: it only holds further nodes.
Parts are listed in the order in which the tree is walked, which is the order of the text but for two
forms: the test of a do-while comes before its body, and the body of a class before its superclass.
-/

namespace PageProbe.Script

/-- What a plain node is. Only the parser asks: it decides what may stand as a pattern. -/
inductive Form where
  | literal
  | template
  | tagged
  | array
  | hole
  | construction
  | classBody
  | superMember
  | optionalChain
  | metaProperty
  | unary
  | await
  | update
  | operation
  | yield
  | sequence
  /-- A member `name` or `name = value` of an object, which stands for a binding in a pattern. -/
  | shorthand
  | accessor
  | classMember
  | pattern
  | invalid
  | block
deriving DecidableEq, Repr, Inhabited

inductive Node where
  | name (span : Span) (text : String)
  | this (span : Span)
  | string (span : Span) (value : String)
  | paren (span : Span) (inner : Node)
  /-- A member of an object. The property is known when it is written as a name or as a quoted text
      in brackets; `parts` holds what stands in the brackets. -/
  | member (span : Span) (object : Node) (property : Option String) (parts : List Node)
  | call (span : Span) (callee : Node) (arguments : List Node)
  /-- An assignment, `plain` when its operator is `=`. -/
  | assign (span : Span) (plain : Bool) (target value : Node)
  | object (span : Span) (members : List Node)
  /-- A member of an object with a value. The key is known unless it is computed or a big integer;
      `keyParts` holds what a computed key is made of. -/
  | property (span : Span) (key : Option String) (keyParts : List Node) (value : Node)
  /-- A member of an object that is a function. Its span starts at the words before the key. -/
  | method (span : Span) (keyStart : Nat) (key : Option String) (keyParts : List Node)
      (function : Node)
  | spread (span : Span) (inner : Node)
  /-- A function that is no arrow, `named` when it is an expression with a name of its own. -/
  | function (span : Span) (named : Bool) (params body : List Node)
  | arrow (span : Span) (params body : List Node)
  | functionDecl (span : Span) (name : String) (function : Node)
  | varDecl (span : Span) (declarators : List Node)
  | declarator (span : Span) (binding : Node) (init : Option Node)
  | statement (span : Span) (parts : List Node)
  | plain (form : Form) (span : Span) (parts : List Node)
deriving Repr, Inhabited

namespace Node

def span : Node → Span
  | .name s _ => s
  | .this s => s
  | .string s _ => s
  | .paren s _ => s
  | .member s _ _ _ => s
  | .call s _ _ => s
  | .assign s _ _ _ => s
  | .object s _ => s
  | .property s _ _ _ => s
  | .method s _ _ _ _ => s
  | .spread s _ => s
  | .function s _ _ _ => s
  | .arrow s _ _ => s
  | .functionDecl s _ _ => s
  | .varDecl s _ => s
  | .declarator s _ _ => s
  | .statement s _ => s
  | .plain _ s _ => s

/-- The node inside any number of parentheses. -/
def unparen : Node → Node
  | .paren _ inner => inner.unparen
  | n => n

/-- Whether a node is a function of either kind, parentheses set aside. -/
def isFunction : Node → Bool
  | .paren _ inner => inner.isFunction
  | .function .. => true
  | .arrow .. => true
  | _ => false

/-- The name of a chain of members such as `a.b.c`. The chain starts at a name or at `this`, and all
    of its properties are known. -/
def chainName? : Node → Option String
  | .name _ text => some text
  | .this _ => some "this"
  | .paren _ inner => inner.chainName?
  | .member _ holder key _ => do
    let chain ← holder.chainName?
    let last ← key
    return chain ++ "." ++ last
  | _ => none

/-- The name that an assignment to a node binds. A target in parentheses has none. -/
def targetName? : Node → Option String
  | .name _ text => some text
  | .member s holder key parts => chainName? (.member s holder key parts)
  | _ => none

end Node
end PageProbe.Script
