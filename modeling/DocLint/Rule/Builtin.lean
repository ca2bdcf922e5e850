import DocLint.Rule.Content
import DocLint.Rule.Presence
import DocLint.Rule.Signature

/-!
# The built-in rules
-/

namespace DocLint.Rule

/-- The built-in rules, in the order in which they are registered. -/
def builtin : List Rule :=
  [fileDocPresent, classesDocumented, functionsDocumented, propertiesDocumented, constsDocumented,
   definesDocumented, noInlineDocs, summaries, functionParameters, propertyTypes,
   defineDescriptions, fileCopyright, classesCopyright]

end DocLint.Rule
