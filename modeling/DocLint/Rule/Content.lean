import DocLint.Rule.Basic

/-!
# Rules on what documentation says

* `summaries`: the documentation of a file and of its classes has a short description.
* `fileCopyright`, `classesCopyright`: it has a filled `@copyright` tag.
* `propertyTypes`: the documentation of a property has a `@var` tag with a type.
* `defineDescriptions`: the documentation of a `define` call reads `NAME - explanation`; `describes`
  says exactly when it does.
-/

namespace DocLint.Rule

open Text

/-- A finding for each class with documentation that fails the test. -/
def classesFailing (f : SourceFile) (bad : DocBlock → Bool)
    (finding : ClassDecl → DocBlock → Finding) : List Finding :=
  f.outline.classes.filterMap fun c => (c.doc.filter bad).map (finding c)

/-! ## Short descriptions -/

/-- The documentation has no short description. -/
def lacksSummary (d : DocBlock) : Bool := d.short.isEmpty

/-- Documentation of the file and of classes starts with a short description. -/
def summaries : Rule where
  code := "phpdocsfirstline"
  aliases := ["phpdocsfistline"]
  description := "File-level phpdocs block and class phpdocs should have a short description"
  findings f :=
    ((f.outline.fileDoc.filter lacksSummary).map fun d =>
      ({ : Finding }.atLine d.line).withField "object" "file").toList ++
    classesFailing f lacksSummary fun c d =>
      ({ : Finding }.atLine d.line).withField "object" ("class " ++ c.name)

/-! ## Copyright -/

/-- The documentation has no filled `@copyright` tag. -/
def lacksCopyright (d : DocBlock) : Bool := (d.filledTags "copyright").isEmpty

/-- The documentation of the file has a `@copyright` tag. -/
def fileCopyright : Rule where
  code := "filehascopyright"
  description := "Files must have a @copyright tag"
  findings f := ((f.outline.fileDoc.filter lacksCopyright).map fun d =>
    { : Finding }.atLine (d.lineOf "@copyright")).toList

/-- The documentation of every class has a `@copyright` tag. -/
def classesCopyright : Rule where
  code := "classeshavecopyright"
  description := "Classes must have a @copyright tag"
  findings f := classesFailing f lacksCopyright fun c d =>
    ({ : Finding }.atLine (d.lineOf "@copyright")).withField "object" c.name

/-! ## Types of properties -/

/-- Some `@var` tag gives a type. -/
def hasVarType (d : DocBlock) : Bool :=
  (d.slotsNamed "var").any fun slots => slots.head?.any (· != Tag.typePlaceholder)

/-- The documentation of a property gives its type. -/
def propertyTypes : Rule where
  code := "variableshasvar"
  description := "Phpdocs for variables contain @var with variable type"
  findings f := f.outline.properties.filterMap fun p =>
    (p.doc.filter (!hasVarType ·)).map fun d =>
      ({ : Finding }.atLine (d.lineOf "@var")).withField "variable" (Declaration.property p).fullname

/-! ## Descriptions of defines -/

/-- What follows `name`, blanks, a dash and a blank, if the text starts with these. -/
def explanation? (name t : Text) : Option Text := do
  let rest ← dropPrefix? name t
  if (rest.takeWhile isBlank).isEmpty then none
  match rest.dropWhile isBlank with
  | '-' :: c :: e => if isBlank c then some e else none
  | _ => none

/-- The explanations read after leading blanks, the most blanks first. -/
def explanations (name t : Text) : List Text :=
  let lead := (t.takeWhile isBlank).length
  (List.range (lead + 1)).reverse.filterMap fun n => explanation? name (t.drop n)

/-- The description starts with the name and a dash, and an explanation follows. The name is looked
for behind as many leading blanks as possible. -/
def describes (name description : Text) : Bool :=
  (explanations name description).head?.any fun e => !(trim e).isEmpty

/-- The documentation of a `define` call describes its constant. -/
def defineDescriptions : Rule where
  code := "definedoccorrect"
  description := "Check syntax for define statement"
  findings f := (f.outline.constantsOf .define).filterMap fun c =>
    (c.doc.filter fun d => !describes c.name d.description).map fun d =>
      ({ : Finding }.atLine d.line).withField "object" (Declaration.constant c).fullname

end DocLint.Rule
