import Cascade.Crypto.Gcm
import Cascade.Crypto.Rsa
import Cascade.Hierarchy.Document
/-!
Envelopes for values of encrypted levels. A fresh data key seals the text and is itself wrapped with
the public key of the level:

    ENC[PKCS1-AES256GCM,<base64 of: length of the wrapped key, wrapped key, nonce, sealed text>]

Values are only ever encrypted; whoever reads one gets the envelope.
-/
namespace Cascade.Envelope

def scheme : String := "PKCS1-AES256GCM"

def keyOfText (text : String) : Except HierarchyError Rsa.PublicKey :=
  match Rsa.ofText? text with
  | some key => .ok key
  | none => .error (.encryption .publicKey)

def loadKey (files : Files) (keys : KeyPaths) : Except HierarchyError Rsa.PublicKey :=
  match files.readText keys.publicKey with
  | .error e => .error (.io keys.publicKey e)
  | .ok text => keyOfText text

def write (wrapped nonce sealedText : List UInt8) : String :=
  let body := Bytes.ofNat 2 wrapped.length ++ wrapped ++ nonce ++ sealedText
  "ENC[" ++ scheme ++ "," ++ String.ofList (Text.Base64.encode body) ++ "]"

def encrypt (key : Rsa.PublicKey) (text : String) (entropy : Entropy) :
    Except HierarchyError (String × Entropy) :=
  let (dataKey, entropy) := entropy.take 32
  let (nonce, entropy) := entropy.take 12
  match key.wrap? dataKey entropy with
  | none => .error (.encryption .messageTooLong)
  | some (wrapped, entropy) =>
    .ok (write wrapped nonce (Gcm.encrypt dataKey nonce text.toUTF8.toList), entropy)

end Cascade.Envelope
