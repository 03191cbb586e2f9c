import Norr.Net.Address

/-! Handshake MACs and cookies: `cookie.cpp`. -/

namespace Norr

open ByteOrder

abbrev Mac := Octets 16

abbrev Cookie := Octets 16

abbrev CookieNonce := Octets 24

def kLabelMac1 : String := "mac1----"

def kLabelCookie : String := "cookie--"

def kCookieNonceSize : ℕ := 24

def kCookieReplySize : ℕ := 60

def kCookieSecretLifetime : Duration := seconds 120

inductive CookieError
  | unsupportedPlatform
  | invalidMac
  | decryptionFailed
  | bufferTooSmall
  | messageTooShort
  deriving DecidableEq, Repr

structure CookieReply where
  receiverIndex : UInt32
  nonce : CookieNonce
  encryptedCookie : Octets 32
  deriving DecidableEq

structure CookieIssuer where
  mac1Key : Octets 32
  cookieKey : Octets 32
  secret : Octets 32 := Octets.zero 32
  previousSecret : Octets 32 := Octets.zero 32
  secretCreated : Instant := 0
  hasPrevious : Bool := false
  underLoad : Bool := false
  deriving DecidableEq

structure CookieHolder where
  mac1Key : Octets 32
  cookieKey : Octets 32
  cookie : Cookie := Octets.zero 16
  received : Instant := 0
  hasCookie : Bool := false
  deriving DecidableEq

def serializeCookieReply (reply : CookieReply) : Bytes :=
  bigEndian 4 reply.receiverIndex.toNat ++ reply.nonce.toList ++ reply.encryptedCookie.toList

def parseCookieReply (bytes : Bytes) : Except CookieError CookieReply :=
  if bytes.length < kCookieReplySize then .error .messageTooShort
  else
    .ok ⟨UInt32.ofNat (ofBigEndian (bytes.take 4)), Octets.ofBytes 24 (bytes.drop 4),
      Octets.ofBytes 32 (bytes.drop (4 + kCookieNonceSize))⟩

variable (crypto : Crypto)

def hashLabelAndKey (label : String) (key : PublicKey) : Octets 32 :=
  crypto.hash ((Octets.ofBytes 8 label.toUTF8.toList).toList ++ key.toList) []

def keyedMac (key message : Bytes) : Mac := crypto.mac key message

def mac1Key (responderStatic : PublicKey) : Octets 32 := hashLabelAndKey crypto kLabelMac1 responderStatic

def cookieKey (responderStatic : PublicKey) : Octets 32 :=
  hashLabelAndKey crypto kLabelCookie responderStatic

namespace CookieIssuer

def create (localStatic : PublicKey) : CookieIssuer :=
  { mac1Key := Norr.mac1Key crypto localStatic, cookieKey := Norr.cookieKey crypto localStatic }

/-- `drawn` replaces the secret when its lifetime is over. -/
def refresh (issuer : CookieIssuer) (drawn : Octets 32) (now : Instant) : CookieIssuer :=
  if issuer.secretCreated = 0 ∨ kCookieSecretLifetime ≤ now - issuer.secretCreated then
    let kept := if issuer.secretCreated ≠ 0 then
        { issuer with previousSecret := issuer.secret, hasPrevious := true }
      else issuer
    { kept with secret := drawn, secretCreated := now }
  else issuer

def cookieFor (secret : Octets 32) (source : Endpoint) : Cookie :=
  keyedMac crypto secret.toList source.address.bytes

def computeCookie (issuer : CookieIssuer) (source : Endpoint) (drawn : Octets 32) (now : Instant) :
    Cookie × CookieIssuer :=
  let issuer := issuer.refresh drawn now
  (cookieFor crypto issuer.secret source, issuer)

def computeMac1 (issuer : CookieIssuer) (message : Bytes) : Mac :=
  keyedMac crypto issuer.mac1Key.toList message

def verifyMac1 (issuer : CookieIssuer) (message : Bytes) (mac1 : Mac) : Bool :=
  issuer.computeMac1 crypto message = mac1

def verifyMac2 (issuer : CookieIssuer) (source : Endpoint) (message : Bytes) (mac2 : Mac)
    (drawn : Octets 32) (now : Instant) : Bool × CookieIssuer :=
  let issuer := issuer.refresh drawn now
  let check (secret : Octets 32) : Bool :=
    keyedMac crypto (cookieFor crypto secret source).toList message = mac2
  (check issuer.secret || (issuer.hasPrevious && check issuer.previousSecret), issuer)

def buildReply (issuer : CookieIssuer) (source : Endpoint) (receiverIndex : UInt32)
    (receivedMac1 : Mac) (drawn : Octets 32) (nonce : CookieNonce) (now : Instant) :
    Except CookieError CookieReply × CookieIssuer :=
  let (cookie, issuer) := issuer.computeCookie crypto source drawn now
  match crypto.xaeadEncrypt issuer.cookieKey nonce receivedMac1.toList cookie.toList with
  | none => (.error .decryptionFailed, issuer)
  | some encrypted => (.ok ⟨receiverIndex, nonce, Octets.ofBytes 32 encrypted⟩, issuer)

end CookieIssuer

namespace CookieHolder

def create (responderStatic : PublicKey) : CookieHolder :=
  { mac1Key := Norr.mac1Key crypto responderStatic
    cookieKey := Norr.cookieKey crypto responderStatic }

def acceptReply (holder : CookieHolder) (reply : CookieReply) (sentMac1 : Mac) (now : Instant) :
    Except CookieError CookieHolder :=
  match crypto.xaeadDecrypt holder.cookieKey reply.nonce sentMac1.toList reply.encryptedCookie.toList with
  | none => .error .decryptionFailed
  | some cookie =>
    .ok { holder with cookie := Octets.ofBytes 16 cookie, received := now, hasCookie := true }

def computeMac1 (holder : CookieHolder) (message : Bytes) : Mac :=
  keyedMac crypto holder.mac1Key.toList message

def computeMac2 (holder : CookieHolder) (message : Bytes) : Mac :=
  if holder.hasCookie then keyedMac crypto holder.cookie.toList message else Octets.zero 16

end CookieHolder

@[simp] theorem CookieIssuer.refresh_mac1Key (issuer : CookieIssuer) (drawn : Octets 32) (now : Instant) :
    (issuer.refresh drawn now).mac1Key = issuer.mac1Key := by
  unfold CookieIssuer.refresh
  split_ifs <;> rfl

@[simp] theorem CookieIssuer.refresh_cookieKey (issuer : CookieIssuer) (drawn : Octets 32) (now : Instant) :
    (issuer.refresh drawn now).cookieKey = issuer.cookieKey := by
  unfold CookieIssuer.refresh
  split_ifs <;> rfl

theorem serializeCookieReply_length (reply : CookieReply) :
    (serializeCookieReply reply).length = kCookieReplySize := by
  simp [serializeCookieReply, kCookieReplySize]

theorem parse_serializeCookieReply (reply : CookieReply) :
    parseCookieReply (serializeCookieReply reply) = .ok reply := by
  have first : (serializeCookieReply reply).take 4 = bigEndian 4 reply.receiverIndex.toNat := rfl
  have rest : (serializeCookieReply reply).drop 4 = reply.nonce.toList ++ reply.encryptedCookie.toList := rfl
  have last : (serializeCookieReply reply).drop (4 + kCookieNonceSize) = reply.encryptedCookie.toList := by
    rw [← List.drop_drop, rest]
    exact List.drop_left' (Octets.toList_length reply.nonce)
  unfold parseCookieReply
  rw [if_neg (serializeCookieReply_length reply).not_lt, first, rest, last, Octets.ofBytes_append,
    Octets.ofBytes_toList, ofBigEndian_bigEndian _ _ reply.receiverIndex.toNat_lt, UInt32.ofNat_toNat]

/-- What the cipher of the cookies is trusted for: decryption inverts encryption. -/
def Crypto.CookiesInvert (crypto : Crypto) : Prop :=
  ∀ key nonce associatedData plaintext, ∃ sealed,
    crypto.xaeadEncrypt key nonce associatedData plaintext = some sealed ∧
      sealed.length = plaintext.length + kAeadTagSize ∧
      crypto.xaeadDecrypt key nonce associatedData sealed = some plaintext

/-- A cookie that is sealed for the MAC of an initiation is accepted by whoever sent that MAC. -/
theorem acceptReply_buildReply {crypto : Crypto} (inverts : crypto.CookiesInvert) {issuer after : CookieIssuer}
    {source : Endpoint} {receiverIndex : UInt32} {mac1 : Mac} {drawn : Octets 32} {nonce : CookieNonce}
    {time now : Instant} {reply : CookieReply} {holder : CookieHolder}
    (key : holder.cookieKey = issuer.cookieKey)
    (built : issuer.buildReply crypto source receiverIndex mac1 drawn nonce time = (.ok reply, after)) :
    holder.acceptReply crypto reply mac1 now = .ok { holder with
      cookie := CookieIssuer.cookieFor crypto (issuer.refresh drawn time).secret source
      received := now
      hasCookie := true } := by
  obtain ⟨sealed, encrypted, sized, decrypted⟩ := inverts issuer.cookieKey nonce mac1.toList
    (CookieIssuer.cookieFor crypto (issuer.refresh drawn time).secret source).toList
  rw [Octets.toList_length] at sized
  simp only [CookieIssuer.buildReply, CookieIssuer.computeCookie, CookieIssuer.refresh_cookieKey,
    encrypted] at built
  cases built
  have whole : (Octets.ofBytes 32 sealed).toList = sealed := by
    have fits : sealed.toArray.size = 32 := sized
    have same := Octets.ofBytes_toList (⟨sealed.toArray, fits⟩ : Octets 32)
    rw [Vector.toList_mk] at same
    rw [same, Vector.toList_mk]
  simp only [CookieHolder.acceptReply, key, whole, decrypted, Octets.ofBytes_toList]

end Norr
