import ClusterConfig.Text.Blank

/-!
# References to patches

`@path` names a file that is decrypted and has its variables expanded, `@!path` a file that is
read as it is, and any other text is the patch itself.
-/

set_option autoImplicit false

namespace ClusterConfig.Patch

/-- An entry of a list of patches. -/
inductive Reference where
  | file (path : String)
  | literal (path : String)
  | inline (text : String)
deriving DecidableEq

def Reference.parse (text : String) : Reference :=
  match text.toList with
  | '@' :: '!' :: path => .literal (String.ofList path)
  | '@' :: path => .file (String.ofList path)
  | _ => .inline text

/-- The path of a reference to a file. -/
def Reference.path? : Reference → Option String
  | .file path => some path
  | .literal path => some path
  | .inline _ => none

end ClusterConfig.Patch
