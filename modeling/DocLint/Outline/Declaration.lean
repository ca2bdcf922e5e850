import DocLint.DocBlock.Basic

/-!
# Declarations

What a file declares: class-like types, functions, properties and constants. Each declaration has
a name, the range of tokens it takes up and the documentation block attached to it.

* `Declaration.fullname`: the name with the class it belongs to.
* `Declaration.anchor`: the token whose place is reported.
-/

namespace DocLint

/-- A range of token indexes, both ends included. -/
structure Span where
  first : Nat
  last : Nat
  deriving DecidableEq, Repr

/-- A class, interface, trait or enum. -/
structure ClassDecl where
  name : Text
  /-- The word that introduces it, in lower case. -/
  keyword : Text
  /-- From the word to the closing brace. -/
  span : Span
  /-- The brace that opens the body. -/
  body : Option Nat
  doc : Option DocBlock
  deriving DecidableEq, Repr

/-- A parameter of a function. -/
structure Parameter where
  /-- The declared type, empty if there is none. -/
  typeHint : Text
  /-- The name with its dollar sign, and with `...` in front if it is variadic. -/
  name : Text
  deriving DecidableEq, Repr

/-- A function or a method. -/
structure FunctionDecl where
  name : Text
  /-- The class of a method. -/
  owner : Option Text
  /-- From the word `function` to the closing brace or the semicolon. -/
  span : Span
  /-- The brace that opens the body. -/
  body : Option Nat
  parameters : List Parameter
  doc : Option DocBlock
  deriving DecidableEq, Repr

/-- A property of a class. -/
structure PropertyDecl where
  /-- The name without its dollar sign. -/
  name : Text
  /-- The class of the property. -/
  owner : Text
  /-- The whole statement, also when it declares several properties. -/
  span : Span
  /-- The token of the name. -/
  nameToken : Nat
  doc : Option DocBlock
  deriving DecidableEq, Repr

/-- How a constant is declared. -/
inductive ConstantForm where
  | const
  | define
  deriving DecidableEq, Repr

/-- A constant. -/
structure ConstantDecl where
  name : Text
  /-- The class of a class constant. -/
  owner : Option Text
  form : ConstantForm
  /-- The whole statement, also when it declares several constants. -/
  span : Span
  /-- The token of the name, or the word `define`. -/
  nameToken : Nat
  doc : Option DocBlock
  deriving DecidableEq, Repr

/-- A name within a class. -/
def qualified (owner : Option Text) (name : Text) : Text :=
  match owner with
  | some c => c ++ "::" ++ name
  | none => name

/-- A declaration of any kind. -/
inductive Declaration where
  | classLike (d : ClassDecl)
  | function (d : FunctionDecl)
  | property (d : PropertyDecl)
  | constant (d : ConstantDecl)
  deriving DecidableEq, Repr

namespace Declaration

/-- The name as declared. -/
def name : Declaration → Text
  | classLike d => d.name
  | function d => d.name
  | property d => d.name
  | constant d => d.name

/-- The name with the class it belongs to. -/
def fullname : Declaration → Text
  | classLike d => d.name
  | function d => qualified d.owner d.name
  | property d => qualified (some d.owner) ('$' :: d.name)
  | constant d => qualified d.owner d.name

/-- The tokens of the declaration. -/
def span : Declaration → Span
  | classLike d => d.span
  | function d => d.span
  | property d => d.span
  | constant d => d.span

/-- The attached documentation. -/
def doc : Declaration → Option DocBlock
  | classLike d => d.doc
  | function d => d.doc
  | property d => d.doc
  | constant d => d.doc

/-- The token whose place stands for the declaration. -/
def anchor : Declaration → Nat
  | classLike d => d.span.first
  | function d => d.span.first
  | property d => d.nameToken
  | constant d => d.nameToken

/-- The class-like declaration, if it is one. -/
def classLike? : Declaration → Option ClassDecl
  | classLike d => some d
  | _ => none

/-- The function, if it is one. -/
def function? : Declaration → Option FunctionDecl
  | function d => some d
  | _ => none

/-- The property, if it is one. -/
def property? : Declaration → Option PropertyDecl
  | property d => some d
  | _ => none

/-- The constant, if it is one. -/
def constant? : Declaration → Option ConstantDecl
  | constant d => some d
  | _ => none

end Declaration

end DocLint
