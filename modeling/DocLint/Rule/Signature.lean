import DocLint.Rule.Basic

/-!
# The rule on parameters

The documentation of a function names its parameters: one `@param` tag for each parameter, in
order, with its type and name, and no `@return` tag without a type.

* `slotsMatch`: the slots of a tag agree with a parameter.
* `signatureMatches`: the tags of a block agree with a list of parameters.
-/

namespace DocLint.Rule

/-- The slots give a type and the name of the parameter; a declared type is given as declared. -/
def slotsMatch (slots : List Text) (p : Parameter) : Bool :=
  match slots with
  | type :: name :: _ =>
    (p.typeHint.isEmpty || p.typeHint == type) && type != Tag.typePlaceholder && p.name == name
  | _ => false

/-- The slots of a `@return` tag give a type. -/
def givesType (slots : List Text) : Bool :=
  slots.head?.any fun type => !type.isEmpty && type != Tag.typePlaceholder

/-- The tags of the block agree with the parameters. -/
def signatureMatches (d : DocBlock) (ps : List Parameter) : Bool :=
  let params := d.slotsNamed "param"
  params.length == ps.length &&
    ((params.zip ps).all fun (slots, p) => slotsMatch slots p) &&
    (d.slotsNamed "return").all givesType

/-- The documentation of every function agrees with its parameters. -/
def functionParameters : Rule where
  code := "functionarguments"
  description := "Phpdocs for functions properly define all parameters"
  findings f := f.outline.functions.filterMap fun g =>
    (g.doc.filter fun d => !signatureMatches d g.parameters).map fun d =>
      ({ : Finding }.atLine (d.lineOf "@param")).withField "function"
        (Declaration.function g).fullname

end DocLint.Rule
