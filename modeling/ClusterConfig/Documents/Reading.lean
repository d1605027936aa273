import ClusterConfig.Encryption.Decryptor
import ClusterConfig.Text.Comment
import ClusterConfig.Variables.EnvFile
import ClusterConfig.Variables.Expansion

/-!
# Reading documents

A document is decrypted if it is encrypted, loses its comments and has its variables expanded, in
this order. Assignments made by its expressions stay for the documents read after it.
-/

set_option autoImplicit false

namespace ClusterConfig.Documents

open Encryption (Decryptor DecryptError)

/-- Why a document cannot be read; the path is that of the document. -/
inductive ReadError where
  | read (path : String) (reason : FileError)
  | decrypt (path : String) (reason : DecryptError)
  | notText (path : String)
  | expand (path : String) (reason : ExpansionError)
deriving DecidableEq

namespace ReadError

/-- The texts of an error and of what caused it. -/
def messages : ReadError → List String
  | .read path _ => ["failed to read " ++ Text.quotedPath path]
  | .decrypt path reason => ["failed to decrypt " ++ Text.quotedPath path, reason.message]
  | .notText path => [Text.quotedPath path ++ " is not valid UTF-8"]
  | .expand path reason =>
    ["failed to substitute variables in " ++ Text.quotedPath path, reason.message]

end ReadError

/-- Where documents come from and what they are read with. -/
structure Source where
  files : FileTree
  decrypt : Decryptor

/-- The text of a document from its bytes, and the variables after it. -/
def readBytes (decrypt : Decryptor) (path : String) (content : ByteArray) (vars : Bindings) :
    Bindings × Except ReadError String :=
  match Encryption.unwrap decrypt content with
  | .error reason => (vars, .error (.decrypt path reason))
  | .ok plain =>
    match String.fromUTF8? plain with
    | none => (vars, .error (.notText path))
    | some text =>
      let (vars, result) := Variables.substitute (Text.stripComments text) vars
      (vars, result.mapError (.expand path))

def read (source : Source) (path : String) (vars : Bindings) :
    Bindings × Except ReadError String :=
  match source.files.read path with
  | .error reason => (vars, .error (.read path reason))
  | .ok content => readBytes source.decrypt path content vars

end ClusterConfig.Documents
