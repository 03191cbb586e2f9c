import Norr.Lib.Bytes
import Mathlib.Data.Nat.Notation

/-! The cryptographic interface: `nonce.cpp`, the TrafficKeys of `crypto.cpp` and the HMAC of
`blake2s.cpp`, over the curve, the cipher and the hash of an arbitrary backend. -/

namespace Norr

abbrev Octets (size : ℕ) := Vector UInt8 size

abbrev PublicKey := Octets 32

abbrev PrivateKey := Octets 32

abbrev SharedSecret := Octets 32

abbrev TrafficKey := Octets 32

abbrev PresharedKey := Octets 32

abbrev Digest := Octets 32

abbrev Nonce := Octets 12

def kAeadTagSize : ℕ := 16

namespace Octets

/-- A zero-filled array whose leading octets have been overwritten. -/
def ofBytes (size : ℕ) (bytes : Bytes) : Octets size := Vector.ofFn fun index => bytes.getD index 0

def zero (size : ℕ) : Octets size := Vector.replicate size 0

@[simp]
theorem toList_length {size : ℕ} (octets : Octets size) : octets.toList.length = size :=
  Vector.length_toList

@[simp]
theorem ofBytes_append {size : ℕ} (octets : Octets size) (rest : Bytes) :
    ofBytes size (octets.toList ++ rest) = octets := by
  apply Vector.ext
  intro index bound
  simp only [ofBytes, Vector.getElem_ofFn]
  rw [List.getD_append _ _ _ _ (by simpa using bound), List.getD_eq_getElem _ _ (by simpa using bound)]
  simp

@[simp]
theorem ofBytes_toList {size : ℕ} (octets : Octets size) : ofBytes size octets.toList = octets := by
  simpa using ofBytes_append octets []

end Octets

structure KeyPair where
  publicKey : PublicKey
  privateKey : PrivateKey
  deriving DecidableEq

inductive CryptoError
  | unsupportedPlatform
  | initialisationFailed
  | authenticationFailed
  | bufferTooSmall
  | invalidKeyLength
  | invalidNonce
  | counterExhausted
  | weakPublicKey
  deriving DecidableEq, Repr

/-- The functions of the linked libraries, and BLAKE2s (`hash` takes the input, then the key). -/
structure Crypto where
  scalarmultBase : PrivateKey → Option PublicKey
  scalarmult : PrivateKey → PublicKey → Option SharedSecret
  aeadEncrypt : TrafficKey → Nonce → Bytes → Bytes → Option Bytes
  aeadDecrypt : TrafficKey → Nonce → Bytes → Bytes → Option Bytes
  hash : Bytes → Bytes → Digest
  mac : Bytes → Bytes → Octets 16
  xaeadEncrypt : Octets 32 → Octets 24 → Bytes → Bytes → Option Bytes
  xaeadDecrypt : Octets 32 → Octets 24 → Bytes → Bytes → Option Bytes

def makeNonce (counter : UInt64) : Nonce :=
  Octets.ofBytes 12 (List.replicate 4 0 ++ ByteOrder.littleEndian 8 counter.toNat)

theorem makeNonce_injective : Function.Injective makeNonce := by
  intro first second same
  have sized (counter : UInt64) : (makeNonce counter).toList =
      List.replicate 4 0 ++ ByteOrder.littleEndian 8 counter.toNat := by
    have whole := Octets.ofBytes_toList
      (⟨(List.replicate 4 0 ++ ByteOrder.littleEndian 8 counter.toNat).toArray, by simp⟩ : Octets 12)
    rw [Vector.toList_mk] at whole
    rw [makeNonce, whole, Vector.toList_mk]
  have bytes := congrArg Vector.toList same
  rw [sized, sized, List.append_cancel_left_eq] at bytes
  apply UInt64.toNat_inj.mp
  exact ByteOrder.littleEndian_injective 8 _ _ first.toNat_lt second.toNat_lt bytes

namespace Crypto

variable (crypto : Crypto)

def derivePublicKey (privateKey : PrivateKey) : Except CryptoError PublicKey :=
  match crypto.scalarmultBase privateKey with
  | none => .error .invalidKeyLength
  | some publicKey => .ok publicKey

/-- `drawn` is what the random generator returned. -/
def generateKeypair (drawn : PrivateKey) : Except CryptoError KeyPair :=
  match crypto.derivePublicKey drawn with
  | .error error => .error error
  | .ok publicKey => .ok ⟨publicKey, drawn⟩

def x25519 (privateKey : PrivateKey) (peerPublic : PublicKey) : Except CryptoError SharedSecret :=
  match crypto.scalarmult privateKey peerPublic with
  | none => .error .weakPublicKey
  | some secret => .ok secret

end Crypto

/-- TrafficKeys::seal into a buffer of `room` octets. -/
def Crypto.seal (crypto : Crypto) (key : TrafficKey) (counter : UInt64) (associatedData plaintext : Bytes)
    (room : ℕ) : Except CryptoError Bytes :=
  if room < plaintext.length + kAeadTagSize then .error .bufferTooSmall
  else
    match crypto.aeadEncrypt key (makeNonce counter) associatedData plaintext with
    | none => .error .authenticationFailed
    | some sealed => .ok sealed

def Crypto.open (crypto : Crypto) (key : TrafficKey) (counter : UInt64) (associatedData ciphertext : Bytes)
    (room : ℕ) : Except CryptoError Bytes :=
  if ciphertext.length < kAeadTagSize then .error .authenticationFailed
  else if room < ciphertext.length - kAeadTagSize then .error .bufferTooSmall
  else
    match crypto.aeadDecrypt key (makeNonce counter) associatedData ciphertext with
    | none => .error .authenticationFailed
    | some opened => .ok opened

namespace Crypto

variable (crypto : Crypto)

def Paired (pair : KeyPair) : Prop := crypto.derivePublicKey pair.privateKey = .ok pair.publicKey

instance (pair : KeyPair) : Decidable (crypto.Paired pair) :=
  decidable_of_iff (crypto.scalarmultBase pair.privateKey = some pair.publicKey) (by
    unfold Paired derivePublicKey
    cases crypto.scalarmultBase pair.privateKey <;> simp)

/-- What the backend is trusted for: the two sides of an exchange agree on a secret that is not
of low order, and decryption inverts encryption. -/
structure Correct : Prop where
  agree : ∀ first second : KeyPair, crypto.Paired first → crypto.Paired second →
    ∃ secret, crypto.x25519 first.privateKey second.publicKey = .ok secret ∧
      crypto.x25519 second.privateKey first.publicKey = .ok secret
  inverts : ∀ key nonce associatedData plaintext, ∃ sealed,
    crypto.aeadEncrypt key nonce associatedData plaintext = some sealed ∧
      sealed.length = plaintext.length + kAeadTagSize ∧
      crypto.aeadDecrypt key nonce associatedData sealed = some plaintext

variable {crypto}

/-- Decryption inverts encryption. -/
def Inverts (crypto : Crypto) : Prop := ∀ key nonce associatedData plaintext, ∃ sealed,
  crypto.aeadEncrypt key nonce associatedData plaintext = some sealed ∧
    sealed.length = plaintext.length + kAeadTagSize ∧
    crypto.aeadDecrypt key nonce associatedData sealed = some plaintext

theorem Inverts.seal_ok (inverts : crypto.Inverts) (key : TrafficKey) (counter : UInt64)
    (associatedData plaintext : Bytes) {room : ℕ} (fits : plaintext.length + kAeadTagSize ≤ room) :
    ∃ sealed, crypto.seal key counter associatedData plaintext room = .ok sealed ∧
      sealed.length = plaintext.length + kAeadTagSize ∧
      ∀ outRoom, plaintext.length ≤ outRoom →
        crypto.open key counter associatedData sealed outRoom = .ok plaintext := by
  obtain ⟨sealed, encrypted, sized, decrypted⟩ := inverts key (makeNonce counter) associatedData plaintext
  refine ⟨sealed, ?_, sized, ?_⟩
  · rw [Crypto.seal, if_neg (by omega), encrypted]
  · intro outRoom outFits
    rw [Crypto.open, if_neg (by omega), if_neg (by omega), decrypted]

/-- A ciphertext is as long as its plaintext and the tag. -/
def Sized (crypto : Crypto) : Prop := ∀ key nonce associatedData plaintext sealed,
  crypto.aeadEncrypt key nonce associatedData plaintext = some sealed →
    sealed.length = plaintext.length + kAeadTagSize

theorem Sized.seal_length (sized : crypto.Sized) {key : TrafficKey} {counter : UInt64}
    {associatedData plaintext sealed : Bytes} {room : ℕ}
    (done : crypto.seal key counter associatedData plaintext room = .ok sealed) :
    sealed.length = plaintext.length + kAeadTagSize := by
  unfold Crypto.seal at done
  split_ifs at done
  split at done
  · cases done
  · rename_i encrypted
    cases done
    exact sized _ _ _ _ _ encrypted

theorem Correct.aead_inverts (correct : crypto.Correct) : crypto.Inverts := correct.inverts

/-- A backend without secrecy, to run the model with. -/
def plain : Crypto where
  scalarmultBase privateKey := some privateKey
  scalarmult privateKey publicKey := some (Vector.zipWith (· ^^^ ·) privateKey publicKey)
  aeadEncrypt _ _ _ plaintext := some (plaintext ++ List.replicate 16 0)
  aeadDecrypt _ _ _ ciphertext := some (ciphertext.take (ciphertext.length - 16))
  hash _ _ := Octets.zero 32
  mac _ _ := Octets.zero 16
  xaeadEncrypt _ _ _ plaintext := some (plaintext ++ List.replicate 16 0)
  xaeadDecrypt _ _ _ ciphertext := some (ciphertext.take (ciphertext.length - 16))

def plainPair (octet : UInt8) : KeyPair := ⟨Vector.replicate 32 octet, Vector.replicate 32 octet⟩

theorem plain_paired (pair : KeyPair) : plain.Paired pair ↔ pair.privateKey = pair.publicKey := by
  simp [Paired, derivePublicKey, plain]

theorem plain_sized : plain.Sized := by
  rintro key nonce associatedData plaintext sealed ⟨⟩
  simp [kAeadTagSize]

theorem plain_correct : plain.Correct where
  agree := by
    intro first second firstPaired secondPaired
    rw [plain_paired] at firstPaired secondPaired
    refine ⟨_, rfl, ?_⟩
    rw [firstPaired, secondPaired]
    simp only [x25519, plain, Except.ok.injEq]
    apply Vector.ext
    intro index bound
    simp [UInt8.xor_comm]
  inverts := by
    intro key nonce associatedData plaintext
    refine ⟨_, rfl, by simp [kAeadTagSize], ?_⟩
    simp [plain]

end Crypto

end Norr
