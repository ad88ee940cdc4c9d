import Cascade.Hierarchy.Document
import Cascade.Json.Basic
/-!
Hierarchies as JSON, for tools that look at them. What is not given is `null`.
-/
namespace Cascade

def KeyPaths.describe (k : KeyPaths) : Json :=
  .ofMembers [("public", .string k.publicKey), ("private", k.privateKey.elim .null .string)]

def Level.describe (l : Level) : Json :=
  .ofMembers [("name", .string l.name), ("path", .string l.template),
    ("datadir", l.datadir.elim .null .string), ("encryption", l.keys.elim .null KeyPaths.describe)]

def Hierarchy.describe (h : Hierarchy) : Json :=
  .ofMembers [("version", .ofNat h.version), ("datadir", .string h.datadir),
    ("encryption", h.keys.elim .null KeyPaths.describe),
    ("entries", .array (h.levels.map Level.describe))]

end Cascade
