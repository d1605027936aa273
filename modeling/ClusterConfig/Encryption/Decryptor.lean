import ClusterConfig.Encryption.Envelope
import ClusterConfig.Files.Tree
import ClusterConfig.Text.Quoted

/-!
# Decrypting documents

A decryptor maps the bytes of an encrypted document and its format to those of the plain document.
Documents that are not encrypted never reach it.
-/

set_option autoImplicit false

namespace ClusterConfig.Encryption

/-- Why a document cannot be decrypted. -/
inductive DecryptError where
  /-- The program cannot be started. -/
  | spawn (program : String) (reason : FileError)
  /-- The program ended with a status other than zero; `report` is what it wrote besides. -/
  | failed (program : String) (status : Nat) (report : String)
  | unavailable
deriving DecidableEq

def DecryptError.message : DecryptError → String
  | .spawn program _ => "failed to spawn decryptor " ++ Text.quoted program
  | .failed program status report =>
    "decryptor " ++ Text.quoted program ++ " failed with exit status: " ++ toString status ++ ": " ++
      report
  | .unavailable => "the document is encrypted, but no decryptor is configured"

abbrev Decryptor := ByteArray → Format → Except DecryptError ByteArray

namespace Decryptor

/-- For runs that expect no encrypted document. -/
def unavailable : Decryptor := fun _ _ => .error .unavailable

/-- Answers the same plain document for every encrypted one. -/
def constant (plain : ByteArray) : Decryptor := fun _ _ => .ok plain

end Decryptor

/-- The plain form of a document. -/
def unwrap (decrypt : Decryptor) (content : ByteArray) : Except DecryptError ByteArray :=
  if isEncrypted content then decrypt content (.ofBytes content) else .ok content

theorem unwrap_plain (decrypt : Decryptor) {content : ByteArray} (h : isEncrypted content = false) :
    unwrap decrypt content = .ok content := by
  simp [unwrap, h]

end ClusterConfig.Encryption
