import Cascade.Text.Split
import Cascade.Value.Basic
/-!
Facts of a node, and the identity that its name alone gives it.
-/
namespace Cascade

abbrev Facts := Table String Value

structure Identity where
  certname : String
  hostname : String
  domain : String
  deriving DecidableEq, Inhabited

namespace Identity

/-- The host is what stands before the first point, the domain what stands after it. -/
def ofCertname (certname : String) : Identity :=
  match Text.splitOnce ['.'] certname.toList with
  | some (host, domain) => ⟨certname, String.ofList host, String.ofList domain⟩
  | none => ⟨certname, certname, ""⟩

def facts (i : Identity) : Facts :=
  [("certname", .string i.certname), ("domain", .string i.domain), ("hostname", .string i.hostname)]

def get? (i : Identity) (name : String) : Option Value := Table.get? i.facts name

end Identity
end Cascade
