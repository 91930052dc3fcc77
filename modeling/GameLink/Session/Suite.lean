import GameLink.Crypto.Aead
import GameLink.Crypto.Curve25519
import GameLink.Crypto.Hkdf

/-!
# Cipher suites

The cryptographic functions that a session is built on.  Sessions take the suite as a
parameter, so that what they guarantee can be said of every suite with the laws that
the guarantee needs.
-/

namespace GameLink

/-- A symmetric, private or public key. -/
abbrev Key := Octets 32

/-- What both ends put into the derivation of their keys besides the secret. -/
abbrev Salt := Octets 16

/-- The number that makes each sealed payload unique. -/
abbrev Nonce := Octets 12

/-- The keys of both directions of a channel. -/
structure ChannelKeys where
  /-- What the server seals with. -/
  toClient : Key
  /-- What the client seals with. -/
  toServer : Key
deriving DecidableEq

/-- Key agreement, key derivation and authenticated encryption. -/
structure Suite where
  /-- The public key of a private key. -/
  publicKey : Key → Key
  /-- The secret of a private key and the public key of a peer. -/
  agree : Key → Key → Key
  /-- The channel keys for a salt, a secret and a label. -/
  derive : Salt → Bytes → Bytes → ChannelKeys
  /-- The sealed form of a message under a key, a nonce and associated data. -/
  seal? : Key → Nonce → Bytes → Bytes → Option Bytes
  /-- The message of a sealed form that is authentic. -/
  open? : Key → Nonce → Bytes → Bytes → Option Bytes

namespace Suite

/-- Channel keys from sixty-four octets. -/
def splitKeys (material : Octets 64) : ChannelKeys where
  toClient := ⟨material.bytes.take 32, by simp [material.length_eq]⟩
  toServer := ⟨material.bytes.drop 32, by simp [material.length_eq]⟩

/-- Curve25519, a key derivation with SHA-256, and ChaCha20 with Poly1305. -/
def standard : Suite where
  publicKey := Curve25519.publicKey
  agree := Curve25519.agree
  derive salt secret label :=
    splitKeys ⟨Hkdf.expand64 (Hkdf.extract salt.bytes secret) label, by simp⟩
  seal? key nonce associated message :=
    if message.length < Aead.messageLimit then
      some (Aead.sealText key.bytes nonce.bytes associated message)
    else
      none
  open? key nonce associated sealed :=
    Aead.openText? key.bytes nonce.bytes associated sealed

end Suite
end GameLink
