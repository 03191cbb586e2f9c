import Norr.Crypto.Primitives
import Norr.Lib.Fallible

/-! The Noise IKpsk2 handshake of `noise.cpp`.

A message written into a caller's buffer is the returned byte string; `room` is the size of
that buffer. `drawn` is the private key the random generator would return. -/

namespace Norr

def kNoiseProtocolName : String := "Noise_IKpsk2_25519_ChaChaPoly_BLAKE2s"

def kNoiseHashLength : ℕ := 32

def kNoiseDhLength : ℕ := 32

def kNoiseMessage1Overhead : ℕ := 32 + 32 + 16 + 16

def kNoiseMessage2Overhead : ℕ := 32 + 16

inductive NoiseError
  | unsupportedPlatform
  | invalidState
  | decryptionFailed
  | messageTooShort
  | bufferTooSmall
  | badPublicKey
  | missingRemoteStatic
  deriving DecidableEq, Repr

inductive HandshakeRole
  | initiator
  | responder
  deriving DecidableEq, Repr

structure HkdfOutputs where
  output1 : Digest
  output2 : Digest
  output3 : Digest

structure CipherState where
  key : TrafficKey := Octets.zero 32
  nonce : UInt64 := 0
  hasKey : Bool := false
  deriving DecidableEq

structure SymmetricState where
  chainingKey : Digest
  hash : Digest
  cipher : CipherState := {}
  deriving DecidableEq

structure NoiseResult where
  send : TrafficKey
  receive : TrafficKey
  handshakeHash : Digest
  remoteStatic : PublicKey
  deriving DecidableEq

structure NoiseHandshake where
  role : HandshakeRole
  symmetric : SymmetricState
  localStatic : KeyPair
  localEphemeral : KeyPair := ⟨Octets.zero 32, Octets.zero 32⟩
  remoteStatic : PublicKey := Octets.zero 32
  remoteEphemeral : PublicKey := Octets.zero 32
  preshared : PresharedKey
  hasRemoteStatic : Bool := false
  sentMessage1 : Bool := false
  hasReadMessage1 : Bool := false
  finished : Bool := false
  hasFixedEphemeral : Bool := false
  deriving DecidableEq

variable (crypto : Crypto)

def hmacBlake2s (key message : Bytes) : Digest :=
  let padded := (Octets.ofBytes 64
    (if 64 < key.length then (crypto.hash key []).toList else key)).toList
  let inner := crypto.hash (padded.map (· ^^^ 0x36) ++ message) []
  crypto.hash (padded.map (· ^^^ 0x5C) ++ inner.toList) []

def noiseHkdf (chainingKey inputKeyMaterial : Bytes) (outputs : ℕ) : HkdfOutputs :=
  let tempKey := (hmacBlake2s crypto chainingKey inputKeyMaterial).toList
  let first := hmacBlake2s crypto tempKey [0x01]
  let second := hmacBlake2s crypto tempKey (first.toList ++ [0x02])
  let third := hmacBlake2s crypto tempKey (second.toList ++ [0x03])
  if outputs = 1 then ⟨first, Octets.zero 32, Octets.zero 32⟩
  else if outputs = 2 then ⟨first, second, Octets.zero 32⟩
  else ⟨first, second, third⟩

namespace CipherState

def initializeWith (key : TrafficKey) : CipherState := ⟨key, 0, true⟩

def encryptWithAd (cipher : CipherState) (associatedData plaintext : Bytes) (room : ℕ) :
    Except NoiseError (Bytes × CipherState) :=
  if cipher.hasKey = false then
    if room < plaintext.length then .error .bufferTooSmall else .ok (plaintext, cipher)
  else
    match crypto.seal cipher.key cipher.nonce associatedData plaintext room with
    | .error .bufferTooSmall => .error .bufferTooSmall
    | .error _ => .error .unsupportedPlatform
    | .ok sealed => .ok (sealed, { cipher with nonce := cipher.nonce + 1 })

def decryptWithAd (cipher : CipherState) (associatedData ciphertext : Bytes) (room : ℕ) :
    Except NoiseError (Bytes × CipherState) :=
  if cipher.hasKey = false then
    if room < ciphertext.length then .error .bufferTooSmall else .ok (ciphertext, cipher)
  else
    match crypto.open cipher.key cipher.nonce associatedData ciphertext room with
    | .error .bufferTooSmall => .error .bufferTooSmall
    | .error _ => .error .decryptionFailed
    | .ok opened => .ok (opened, { cipher with nonce := cipher.nonce + 1 })

end CipherState

namespace SymmetricState

def initializeNamed (protocolName : String) : SymmetricState :=
  let name := protocolName.toUTF8.toList
  let hash := if name.length ≤ kNoiseHashLength then Octets.ofBytes 32 name else crypto.hash name []
  { chainingKey := hash, hash := hash }

def mixHash (symmetric : SymmetricState) (data : Bytes) : SymmetricState :=
  { symmetric with hash := crypto.hash (symmetric.hash.toList ++ data) [] }

def mixKey (symmetric : SymmetricState) (inputKeyMaterial : Octets 32) : SymmetricState :=
  let outputs := noiseHkdf crypto symmetric.chainingKey.toList inputKeyMaterial.toList 2
  { symmetric with
    chainingKey := outputs.output1
    cipher := CipherState.initializeWith outputs.output2 }

def mixKeyAndHash (symmetric : SymmetricState) (inputKeyMaterial : Octets 32) : SymmetricState :=
  let outputs := noiseHkdf crypto symmetric.chainingKey.toList inputKeyMaterial.toList 3
  let mixed := mixHash crypto { symmetric with chainingKey := outputs.output1 } outputs.output2.toList
  { mixed with cipher := CipherState.initializeWith outputs.output3 }

def encryptAndHash (symmetric : SymmetricState) (plaintext : Bytes) (room : ℕ) :
    Except NoiseError (Bytes × SymmetricState) :=
  match symmetric.cipher.encryptWithAd crypto symmetric.hash.toList plaintext room with
  | .error error => .error error
  | .ok (written, cipher) => .ok (written, mixHash crypto { symmetric with cipher := cipher } written)

def decryptAndHash (symmetric : SymmetricState) (ciphertext : Bytes) (room : ℕ) :
    Except NoiseError (Bytes × SymmetricState) :=
  match symmetric.cipher.decryptWithAd crypto symmetric.hash.toList ciphertext room with
  | .error error => .error error
  | .ok (written, cipher) =>
    .ok (written, mixHash crypto { symmetric with cipher := cipher } ciphertext)

def split (symmetric : SymmetricState) : TrafficKey × TrafficKey :=
  let outputs := noiseHkdf crypto symmetric.chainingKey.toList [] 2
  (outputs.output1, outputs.output2)

end SymmetricState

namespace NoiseHandshake

open Fallible

abbrev Action := Fallible NoiseHandshake NoiseError

def create (role : HandshakeRole) (localStatic : KeyPair) (remoteStatic : PublicKey)
    (preshared : PresharedKey) (prologue : Bytes) : Except NoiseError NoiseHandshake :=
  let symmetric := (SymmetricState.initializeNamed crypto kNoiseProtocolName).mixHash crypto prologue
  let handshake : NoiseHandshake := { role, symmetric, localStatic, preshared }
  match role with
  | .initiator =>
    if remoteStatic.toList.all (· == 0) then .error .missingRemoteStatic
    else
      .ok { handshake with
        remoteStatic
        hasRemoteStatic := true
        symmetric := symmetric.mixHash crypto remoteStatic.toList }
  | .responder =>
    .ok { handshake with symmetric := symmetric.mixHash crypto localStatic.publicKey.toList }

def useEphemeral (handshake : NoiseHandshake) (ephemeral : KeyPair) : NoiseHandshake :=
  { handshake with localEphemeral := ephemeral, hasFixedEphemeral := true }

def drawEphemeral (drawn : PrivateKey) : Action Unit := do
  let handshake ← get
  if handshake.hasFixedEphemeral = false then
    match crypto.generateKeypair drawn with
    | .error _ => throw .unsupportedPlatform
    | .ok ephemeral => modify ({ · with localEphemeral := ephemeral })

def mixEphemeral (ephemeral : PublicKey) : Action Unit :=
  modify fun handshake =>
    { handshake with
      symmetric := (handshake.symmetric.mixHash crypto ephemeral.toList).mixKey crypto ephemeral }

/-- The Diffie-Hellman step that every message repeats with other keys. -/
def mixShared (privateKey : PrivateKey) (peerPublic : PublicKey) : Action Unit :=
  match crypto.x25519 privateKey peerPublic with
  | .error _ => throw .badPublicKey
  | .ok shared =>
    modify fun handshake =>
      { handshake with symmetric := handshake.symmetric.mixKey crypto shared }

def encryptAndHash (plaintext : Bytes) (room : ℕ) : Action Bytes := do
  let handshake ← get
  match handshake.symmetric.encryptAndHash crypto plaintext room with
  | .error error => throw error
  | .ok (written, symmetric) =>
    modify ({ · with symmetric })
    pure written

def decryptAndHash (ciphertext : Bytes) (room : ℕ) : Action Bytes := do
  let handshake ← get
  match handshake.symmetric.decryptAndHash crypto ciphertext room with
  | .error error => throw error
  | .ok (written, symmetric) =>
    modify ({ · with symmetric })
    pure written

/-- The last step of both readers. -/
def decryptPayload (remaining : Bytes) (room : ℕ) : Action Bytes := do
  refuseWhen (remaining.length < kAeadTagSize) .messageTooShort
  refuseWhen (room < remaining.length - kAeadTagSize) .bufferTooSmall
  decryptAndHash crypto remaining room

def writeMessage1 (drawn : PrivateKey) (payload : Bytes) (room : ℕ) : Action Bytes := do
  let handshake ← get
  refuseWhen (handshake.role ≠ .initiator ∨ handshake.sentMessage1 ∨ handshake.finished) .invalidState
  refuseWhen (handshake.hasRemoteStatic = false) .missingRemoteStatic
  refuseWhen (room < kNoiseMessage1Overhead + payload.length) .bufferTooSmall
  drawEphemeral crypto drawn
  let ephemeral := (← get).localEphemeral
  mixEphemeral crypto ephemeral.publicKey
  mixShared crypto ephemeral.privateKey handshake.remoteStatic
  let static ← encryptAndHash crypto handshake.localStatic.publicKey.toList (room - kNoiseDhLength)
  mixShared crypto handshake.localStatic.privateKey handshake.remoteStatic
  let written ← encryptAndHash crypto payload (room - kNoiseDhLength - static.length)
  modify ({ · with sentMessage1 := true })
  pure (ephemeral.publicKey.toList ++ static ++ written)

def readMessage1 (message : Bytes) (room : ℕ) : Action Bytes := do
  let handshake ← get
  refuseWhen (handshake.role ≠ .responder ∨ handshake.hasReadMessage1 ∨ handshake.finished) .invalidState
  refuseWhen (message.length < kNoiseMessage1Overhead) .messageTooShort
  let remoteEphemeral := Octets.ofBytes 32 message
  modify ({ · with remoteEphemeral })
  mixEphemeral crypto remoteEphemeral
  mixShared crypto handshake.localStatic.privateKey remoteEphemeral
  let static ← decryptAndHash crypto (ByteOrder.slice message kNoiseDhLength 48) 32
  let remoteStatic := Octets.ofBytes 32 static
  modify ({ · with remoteStatic, hasRemoteStatic := true })
  mixShared crypto handshake.localStatic.privateKey remoteStatic
  let written ← decryptPayload crypto (message.drop (kNoiseDhLength + 48)) room
  modify ({ · with hasReadMessage1 := true })
  pure written

def writeMessage2 (drawn : PrivateKey) (payload : Bytes) (room : ℕ) : Action Bytes := do
  let handshake ← get
  refuseWhen (handshake.role ≠ .responder ∨ handshake.hasReadMessage1 = false ∨ handshake.finished) .invalidState
  refuseWhen (room < kNoiseMessage2Overhead + payload.length) .bufferTooSmall
  drawEphemeral crypto drawn
  let ephemeral := (← get).localEphemeral
  mixEphemeral crypto ephemeral.publicKey
  mixShared crypto ephemeral.privateKey handshake.remoteEphemeral
  mixShared crypto ephemeral.privateKey handshake.remoteStatic
  modify fun handshake =>
    { handshake with symmetric := handshake.symmetric.mixKeyAndHash crypto handshake.preshared }
  let written ← encryptAndHash crypto payload (room - kNoiseDhLength)
  modify ({ · with finished := true })
  pure (ephemeral.publicKey.toList ++ written)

def readMessage2Unchecked (message : Bytes) (room : ℕ) : Action Bytes := do
  let handshake ← get
  let remoteEphemeral := Octets.ofBytes 32 message
  modify ({ · with remoteEphemeral })
  mixEphemeral crypto remoteEphemeral
  mixShared crypto handshake.localEphemeral.privateKey remoteEphemeral
  mixShared crypto handshake.localStatic.privateKey remoteEphemeral
  modify fun handshake =>
    { handshake with symmetric := handshake.symmetric.mixKeyAndHash crypto handshake.preshared }
  let written ← decryptPayload crypto (message.drop kNoiseDhLength) room
  modify ({ · with finished := true })
  pure written

/-- A message that fails leaves the transcript as it was. -/
def readMessage2 (message : Bytes) (room : ℕ) : Action Bytes := do
  let handshake ← get
  refuseWhen (handshake.role ≠ .initiator ∨ handshake.sentMessage1 = false ∨ handshake.finished) .invalidState
  refuseWhen (message.length < kNoiseMessage2Overhead) .messageTooShort
  tryCatch (readMessage2Unchecked crypto message room) fun error => do
    modify ({ · with
      symmetric := handshake.symmetric
      remoteEphemeral := handshake.remoteEphemeral })
    throw error

def result (handshake : NoiseHandshake) : Except NoiseError NoiseResult :=
  if handshake.finished = false then .error .invalidState
  else
    let (first, second) := handshake.symmetric.split crypto
    let (send, receive) := match handshake.role with
      | .initiator => (first, second)
      | .responder => (second, first)
    .ok ⟨send, receive, handshake.symmetric.hash, handshake.remoteStatic⟩

end NoiseHandshake

end Norr
