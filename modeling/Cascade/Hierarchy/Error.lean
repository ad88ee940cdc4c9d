import Cascade.Decimal.Layout
import Cascade.Files.Basic
import Cascade.Yaml.Error
/-!
What can go wrong with a hierarchy and its data files.
-/
namespace Cascade

/-- Why a document is no hierarchy. -/
inductive DocumentFlaw
  | yaml (cause : YamlError)
  | notAMapping
  | levelsNotAList
  | unsupportedVersion (version : Nat)
  | unexpectedLevel (found : String)
  deriving DecidableEq

def DocumentFlaw.message : DocumentFlaw → String
  | yaml cause => cause.message
  | notAMapping => "expected a mapping"
  | levelsNotAList => "'hierarchy' must be a list"
  | unsupportedVersion version => "unsupported hierarchy version " ++ Decimal.digitText version
  | unexpectedLevel found => "unexpected hierarchy level " ++ found

inductive SourceFlaw
  | yaml (cause : YamlError)
  | notAMapping (found : String)
  deriving DecidableEq

def SourceFlaw.message : SourceFlaw → String
  | yaml cause => cause.message
  | notAMapping found => "expected a mapping, found " ++ found

/-- Why a value could not be encrypted. -/
inductive EncryptionFlaw
  | publicKey
  | messageTooLong
  deriving DecidableEq

def EncryptionFlaw.message : EncryptionFlaw → String
  | publicKey => "invalid public key: not an RSA public key"
  | messageTooLong => "message too long"

inductive HierarchyError
  | io (path : String) (cause : IoError)
  | source (path : String) (flaw : SourceFlaw)
  | document (flaw : DocumentFlaw)
  | levelOutOfRange (level count : Nat)
  | encryption (flaw : EncryptionFlaw)
  deriving DecidableEq

def HierarchyError.message : HierarchyError → String
  | io path cause => "failed to access " ++ path ++ ": " ++ cause.message
  | source path flaw => "invalid YAML in " ++ path ++ ": " ++ flaw.message
  | document flaw => "invalid hierarchy document: " ++ flaw.message
  | levelOutOfRange level count =>
    "hierarchy level " ++ Decimal.digitText level ++ " does not exist (" ++
      Decimal.digitText count ++ " levels)"
  | encryption flaw => "encryption failed: " ++ flaw.message

/-- A word for programs that read answers. -/
def HierarchyError.kind : HierarchyError → String
  | io .. => "Io"
  | source .. => "Yaml"
  | document _ => "Document"
  | levelOutOfRange .. => "LevelOutOfRange"
  | encryption _ => "Encryption"

end Cascade
