import DocLint.Rule.Basic

/-!
# Rules on the presence of documentation

Every declaration is documented, the file is documented, and no comment is opened with an extra
mark.

* `fileDocPresent`, `classesDocumented`, `functionsDocumented`, `propertiesDocumented`,
  `constsDocumented`, `definesDocumented`, `noInlineDocs`.
-/

namespace DocLint.Rule

/-- A finding for each declaration without documentation, its full name in the field `key`. -/
def undocumented (key : Text) (f : SourceFile) (ds : List Declaration) : List Finding :=
  (ds.filter (·.doc.isNone)).map fun d =>
    ({ : Finding }.atDeclaration f d).withField key d.fullname

/-- The file starts with documentation. -/
def fileDocPresent : Rule where
  code := "filephpdocpresent"
  description := "File-level phpdocs block is present"
  findings f := if f.outline.fileDoc.isSome then [] else [{}]

/-- Every class-like declaration is documented. -/
def classesDocumented : Rule where
  code := "classesdocumented"
  description := "All classes are documented"
  findings f := undocumented "class" f (f.outline.classes.map .classLike)

/-- Every function is documented. -/
def functionsDocumented : Rule where
  code := "functionsdocumented"
  description := "All functions are documented"
  findings f := undocumented "function" f (f.outline.functions.map .function)

/-- Every property is documented. -/
def propertiesDocumented : Rule where
  code := "variablesdocumented"
  description := "All variables are documented"
  findings f := undocumented "variable" f (f.outline.properties.map .property)

/-- Every constant declared by `const` is documented. -/
def constsDocumented : Rule where
  code := "constsdocumented"
  description := "All constants are documented"
  findings f := undocumented "object" f ((f.outline.constantsOf .const).map .constant)

/-- Every constant declared by a call of `define` is documented. -/
def definesDocumented : Rule where
  code := "definesdocumented"
  description := "All define statements are documented"
  findings f := undocumented "object" f ((f.outline.constantsOf .define).map .constant)

/-- No comment is opened with an extra mark. -/
def noInlineDocs : Rule where
  code := "noinlinephpdocs"
  description := "There are no comments starting with three or more slashes"
  findings f := (f.outline.docs.filter (·.isInline)).map fun d =>
    { : Finding }.atToken f d.tokenIndex

end DocLint.Rule
