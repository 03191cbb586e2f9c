import Norr.Crypto.Noise

/-! Two unmodified messages bring both sides of the Noise handshake to the same keys. -/

namespace Norr

open Fallible Crypto Octets

variable {crypto : Crypto}

namespace SymmetricState

/-- A keyed state that encrypts and one that decrypts the result stay equal. -/
theorem decrypt_encrypted (correct : crypto.Correct) (symmetric : SymmetricState)
    (keyed : symmetric.cipher.hasKey = true) (plaintext : Bytes) {room : ℕ}
    (fits : plaintext.length + kAeadTagSize ≤ room) :
    ∃ sealed after, symmetric.encryptAndHash crypto plaintext room = .ok (sealed, after) ∧
      sealed.length = plaintext.length + kAeadTagSize ∧
      ∀ outRoom, plaintext.length ≤ outRoom →
        symmetric.decryptAndHash crypto sealed outRoom = .ok (plaintext, after) := by
  obtain ⟨sealed, encrypted, sized, opens⟩ :=
    correct.aead_inverts.seal_ok symmetric.cipher.key symmetric.cipher.nonce symmetric.hash.toList plaintext fits
  let stepped := { symmetric.cipher with nonce := symmetric.cipher.nonce + 1 }
  refine ⟨sealed, mixHash crypto { symmetric with cipher := stepped } sealed, ?_, sized, ?_⟩
  · simp only [encryptAndHash, CipherState.encryptWithAd, keyed, encrypted, Bool.true_eq_false,
      if_false, stepped]
  · intro outRoom outFits
    simp only [decryptAndHash, CipherState.decryptWithAd, keyed, opens outRoom outFits,
      Bool.true_eq_false, if_false, stepped]

end SymmetricState

namespace NoiseHandshake

def mixedEphemeral (crypto : Crypto) (symmetric : SymmetricState) (ephemeral : PublicKey) :
    SymmetricState :=
  (symmetric.mixHash crypto ephemeral.toList).mixKey crypto ephemeral

/-- The ephemeral key the next message will use was installed beforehand, or will be drawn. -/
def Ready (crypto : Crypto) (handshake : NoiseHandshake) (drawn : PrivateKey) (pair : KeyPair) : Prop :=
  (handshake.hasFixedEphemeral = true ∧ handshake.localEphemeral = pair) ∨
    (handshake.hasFixedEphemeral = false ∧ crypto.generateKeypair drawn = .ok pair)

variable {handshake initiator responder : NoiseHandshake} {drawn : PrivateKey} {room : ℕ} {after : SymmetricState}
  {ephemeral : KeyPair}

theorem exec_drawEphemeral {pair : KeyPair} (ready : Ready crypto handshake drawn pair) :
    exec (drawEphemeral crypto drawn) handshake =
      (.ok (), { handshake with localEphemeral := pair }) := by
  rcases ready with ⟨fixed, same⟩ | ⟨free, generated⟩
  · subst same
    rw [drawEphemeral, exec_bind_ok (exec_get handshake), if_neg (by simp [fixed])]
    rfl
  · rw [drawEphemeral, exec_bind_ok (exec_get handshake)]
    simp [free, generated]

@[simp]
theorem exec_mixEphemeral (handshake : NoiseHandshake) (ephemeral : PublicKey) :
    exec (mixEphemeral crypto ephemeral) handshake =
      (.ok (), { handshake with symmetric := mixedEphemeral crypto handshake.symmetric ephemeral }) :=
  rfl

theorem exec_mixShared {privateKey : PrivateKey} {peerPublic : PublicKey} {secret : SharedSecret}
    (agreed : crypto.x25519 privateKey peerPublic = .ok secret) (handshake : NoiseHandshake) :
    exec (mixShared crypto privateKey peerPublic) handshake =
      (.ok (), { handshake with symmetric := handshake.symmetric.mixKey crypto secret }) := by
  simp [mixShared, agreed]

theorem exec_encryptAndHash {plaintext sealed : Bytes}
    (encrypted : handshake.symmetric.encryptAndHash crypto plaintext room = .ok (sealed, after)) :
    exec (encryptAndHash crypto plaintext room) handshake =
      (.ok sealed, { handshake with symmetric := after }) := by
  rw [encryptAndHash, exec_bind_ok (exec_get handshake), encrypted]
  rfl

theorem exec_decryptAndHash {ciphertext opened : Bytes}
    (decrypted : handshake.symmetric.decryptAndHash crypto ciphertext room = .ok (opened, after)) :
    exec (decryptAndHash crypto ciphertext room) handshake =
      (.ok opened, { handshake with symmetric := after }) := by
  rw [decryptAndHash, exec_bind_ok (exec_get handshake), decrypted]
  rfl

theorem exec_decryptPayload {remaining opened : Bytes} (sized : remaining.length = opened.length + kAeadTagSize)
    (fits : opened.length ≤ room)
    (decrypted : handshake.symmetric.decryptAndHash crypto remaining room = .ok (opened, after)) :
    exec (decryptPayload crypto remaining room) handshake =
      (.ok opened, { handshake with symmetric := after }) := by
  rw [decryptPayload, exec_bind_ok (exec_refuseWhen (by omega) _ _),
    exec_bind_ok (exec_refuseWhen (by omega) _ _)]
  exact exec_decryptAndHash decrypted

def afterWrite1 (handshake : NoiseHandshake) (localEphemeral : KeyPair) (symmetric : SymmetricState) :
    NoiseHandshake :=
  { handshake with localEphemeral, symmetric, sentMessage1 := true }

def afterRead1 (handshake : NoiseHandshake) (remoteEphemeral remoteStatic : PublicKey)
    (symmetric : SymmetricState) : NoiseHandshake :=
  { handshake with
    remoteEphemeral, remoteStatic, symmetric, hasRemoteStatic := true, hasReadMessage1 := true }

def afterWrite2 (handshake : NoiseHandshake) (localEphemeral : KeyPair) (symmetric : SymmetricState) :
    NoiseHandshake :=
  { handshake with localEphemeral, symmetric, finished := true }

def afterRead2 (handshake : NoiseHandshake) (remoteEphemeral : PublicKey) (symmetric : SymmetricState) :
    NoiseHandshake :=
  { handshake with remoteEphemeral, symmetric, finished := true }

structure Opening (handshake : NoiseHandshake) : Prop where
  role : handshake.role = .initiator
  unsent : handshake.sentMessage1 = false
  unfinished : handshake.finished = false
  addressed : handshake.hasRemoteStatic = true

structure Listening (handshake : NoiseHandshake) : Prop where
  role : handshake.role = .responder
  unread : handshake.hasReadMessage1 = false
  unfinished : handshake.finished = false

/-- Two handshakes made for each other, before the first message. -/
structure Introduced (initiator responder : NoiseHandshake) : Prop where
  opening : Opening initiator
  listening : Listening responder
  addressed : initiator.remoteStatic = responder.localStatic.publicKey
  symmetric : initiator.symmetric = responder.symmetric
  preshared : initiator.preshared = responder.preshared

theorem message1_read (correct : crypto.Correct) (introduced : Introduced initiator responder)
    (ready : Ready crypto initiator drawn ephemeral) (ephemeralPaired : crypto.Paired ephemeral)
    (initiatorPaired : crypto.Paired initiator.localStatic) (responderPaired : crypto.Paired responder.localStatic)
    (payload : Bytes) {outRoom : ℕ} (fits : kNoiseMessage1Overhead + payload.length ≤ room)
    (outFits : payload.length ≤ outRoom) :
    ∃ message after,
      exec (writeMessage1 crypto drawn payload room) initiator =
        (.ok message, initiator.afterWrite1 ephemeral after) ∧
      exec (readMessage1 crypto message outRoom) responder =
        (.ok payload,
          responder.afterRead1 ephemeral.publicKey initiator.localStatic.publicKey after) := by
  obtain ⟨opening, listening, addressed, same, -⟩ := introduced
  obtain ⟨es, esWrite, esRead⟩ := correct.agree _ _ ephemeralPaired responderPaired
  obtain ⟨ss, ssWrite, ssRead⟩ := correct.agree _ _ initiatorPaired responderPaired
  have room1 : initiator.localStatic.publicKey.toList.length + kAeadTagSize ≤ room - kNoiseDhLength := by
    simp only [toList_length, kAeadTagSize, kNoiseDhLength, kNoiseMessage1Overhead] at fits ⊢
    omega
  obtain ⟨static, middle, staticSealed, staticSized, staticOpens⟩ :=
    SymmetricState.decrypt_encrypted correct
      ((mixedEphemeral crypto initiator.symmetric ephemeral.publicKey).mixKey crypto es) rfl
      initiator.localStatic.publicKey.toList room1
  rw [toList_length] at staticSized staticOpens
  have room2 : payload.length + kAeadTagSize ≤ room - kNoiseDhLength - static.length := by
    simp only [staticSized, kAeadTagSize, kNoiseDhLength, kNoiseMessage1Overhead] at fits ⊢
    omega
  obtain ⟨written, after, payloadSealed, payloadSized, payloadOpens⟩ :=
    SymmetricState.decrypt_encrypted correct (middle.mixKey crypto ss) rfl payload room2
  rw [← addressed] at esWrite ssWrite
  refine ⟨ephemeral.publicKey.toList ++ static ++ written, after, ?_, ?_⟩
  · rw [writeMessage1, exec_bind_ok (exec_get initiator),
      exec_bind_ok (exec_refuseWhen (by simp [opening.role, opening.unsent, opening.unfinished]) _ _),
      exec_bind_ok (exec_refuseWhen (by simp [opening.addressed]) _ _),
      exec_bind_ok (exec_refuseWhen (by omega) _ _), exec_bind_ok (exec_drawEphemeral ready),
      exec_bind_ok (exec_get _), exec_bind_ok (exec_mixEphemeral _ _),
      exec_bind_ok (exec_mixShared esWrite _), exec_bind_ok (exec_encryptAndHash staticSealed),
      exec_bind_ok (exec_mixShared ssWrite _), exec_bind_ok (exec_encryptAndHash payloadSealed)]
    rfl
  · have first : ofBytes 32 (ephemeral.publicKey.toList ++ static ++ written) =
        ephemeral.publicKey := by
      rw [List.append_assoc, ofBytes_append]
    have second : ByteOrder.slice (ephemeral.publicKey.toList ++ static ++ written) kNoiseDhLength 48 =
        static := ByteOrder.slice_append _ _ _ _ _ (toList_length _) staticSized
    have third : (ephemeral.publicKey.toList ++ static ++ written).drop (kNoiseDhLength + 48) =
        written := List.drop_left' (by simp [staticSized, kNoiseDhLength, kAeadTagSize])
    have long : ¬ (ephemeral.publicKey.toList ++ static ++ written).length < kNoiseMessage1Overhead := by
      simp only [List.length_append, toList_length, staticSized, payloadSized,
        kNoiseMessage1Overhead, kAeadTagSize]
      omega
    rw [same] at staticOpens
    rw [readMessage1, exec_bind_ok (exec_get responder),
      exec_bind_ok (exec_refuseWhen
        (by simp [listening.role, listening.unread, listening.unfinished]) _ _),
      exec_bind_ok (exec_refuseWhen long _ _), first, second, third, exec_bind_ok (exec_modify _ _),
      exec_bind_ok (exec_mixEphemeral _ _), exec_bind_ok (exec_mixShared esRead _),
      exec_bind_ok (exec_decryptAndHash (staticOpens 32 le_rfl)), ofBytes_toList,
      exec_bind_ok (exec_modify _ _), exec_bind_ok (exec_mixShared ssRead _),
      exec_bind_ok (exec_decryptPayload payloadSized outFits (payloadOpens outRoom outFits))]
    rfl

/-- The second message, after the first one with the ephemeral key `opened`. -/
theorem message2_read (correct : crypto.Correct) (introduced : Introduced initiator responder)
    (ready : Ready crypto responder drawn ephemeral) (ephemeralPaired : crypto.Paired ephemeral)
    (initiatorPaired : crypto.Paired initiator.localStatic) {opened : KeyPair} (openedPaired : crypto.Paired opened)
    (payload : Bytes) {outRoom : ℕ} (fits : kNoiseMessage2Overhead + payload.length ≤ room)
    (outFits : payload.length ≤ outRoom) (middle : SymmetricState) :
    let asked := initiator.afterWrite1 opened middle
    let heard := responder.afterRead1 opened.publicKey initiator.localStatic.publicKey middle
    ∃ message after,
      exec (writeMessage2 crypto drawn payload room) heard = (.ok message, heard.afterWrite2 ephemeral after) ∧
      exec (readMessage2 crypto message outRoom) asked =
        (.ok payload, asked.afterRead2 ephemeral.publicKey after) := by
  intro asked heard
  obtain ⟨opening, listening, -, -, preshared⟩ := introduced
  obtain ⟨ee, eeWrite, eeRead⟩ := correct.agree _ _ ephemeralPaired openedPaired
  obtain ⟨se, seWrite, seRead⟩ := correct.agree _ _ ephemeralPaired initiatorPaired
  have room1 : payload.length + kAeadTagSize ≤ room - kNoiseDhLength := by
    simp only [kAeadTagSize, kNoiseDhLength, kNoiseMessage2Overhead] at fits ⊢
    omega
  obtain ⟨written, after, payloadSealed, payloadSized, payloadOpens⟩ :=
    SymmetricState.decrypt_encrypted correct
      ((((mixedEphemeral crypto heard.symmetric ephemeral.publicKey).mixKey crypto ee).mixKey
        crypto se).mixKeyAndHash crypto heard.preshared) rfl payload room1
  have long : (ephemeral.publicKey.toList ++ written).length =
      kNoiseMessage2Overhead + payload.length := by
    simp only [List.length_append, toList_length, payloadSized, kNoiseMessage2Overhead,
      kAeadTagSize]
    omega
  refine ⟨ephemeral.publicKey.toList ++ written, after, ?_, ?_⟩
  · have allowed : ¬ (heard.role ≠ .responder ∨ heard.hasReadMessage1 = false ∨ heard.finished = true) := by
      simp [heard, afterRead1, listening.role, listening.unfinished]
    have ready : Ready crypto heard drawn ephemeral := ready
    change crypto.x25519 ephemeral.privateKey heard.remoteEphemeral = _ at eeWrite
    change crypto.x25519 ephemeral.privateKey heard.remoteStatic = _ at seWrite
    rw [writeMessage2, exec_bind_ok (exec_get heard), exec_bind_ok (exec_refuseWhen allowed _ _),
      exec_bind_ok (exec_refuseWhen (by omega) _ _), exec_bind_ok (exec_drawEphemeral ready),
      exec_bind_ok (exec_get _), exec_bind_ok (exec_mixEphemeral _ _),
      exec_bind_ok (exec_mixShared eeWrite _), exec_bind_ok (exec_mixShared seWrite _),
      exec_bind_ok (exec_modify _ _), exec_bind_ok (exec_encryptAndHash payloadSealed)]
    rfl
  · have rest : (ephemeral.publicKey.toList ++ written).drop kNoiseDhLength = written :=
      List.drop_left' (toList_length _)
    have unchecked : exec (readMessage2Unchecked crypto (ephemeral.publicKey.toList ++ written) outRoom)
        asked = (.ok payload, asked.afterRead2 ephemeral.publicKey after) := by
      change ∀ outRoom, _ → (((mixedEphemeral crypto asked.symmetric _).mixKey crypto ee).mixKey crypto se
        |>.mixKeyAndHash crypto responder.preshared).decryptAndHash crypto written outRoom = _ at payloadOpens
      rw [← preshared] at payloadOpens
      change crypto.x25519 asked.localEphemeral.privateKey _ = _ at eeRead
      change crypto.x25519 asked.localStatic.privateKey _ = _ at seRead
      rw [readMessage2Unchecked, exec_bind_ok (exec_get asked), ofBytes_append,
        rest, exec_bind_ok (exec_modify _ _),
        exec_bind_ok (exec_mixEphemeral _ _), exec_bind_ok (exec_mixShared eeRead _),
        exec_bind_ok (exec_mixShared seRead _), exec_bind_ok (exec_modify _ _),
        exec_bind_ok (exec_decryptPayload payloadSized outFits (payloadOpens outRoom outFits))]
      rfl
    rw [readMessage2, exec_bind_ok (exec_get asked),
      exec_bind_ok (exec_refuseWhen (by simp [asked, afterWrite1, opening.role, opening.unfinished]) _ _),
      exec_bind_ok (exec_refuseWhen (by omega) _ _)]
    exact exec_tryCatch_ok unchecked

structure Created (initiatorStatic responderStatic : KeyPair)
    (initiator responder : NoiseHandshake) : Prop extends Introduced initiator responder where
  initiatorStatic : initiator.localStatic = initiatorStatic
  responderStatic : responder.localStatic = responderStatic
  initiatorFree : initiator.hasFixedEphemeral = false
  responderFree : responder.hasFixedEphemeral = false

theorem create_introduces {initiatorStatic responderStatic : KeyPair} {unused : PublicKey}
    {preshared : PresharedKey} {prologue : Bytes}
    (createdInitiator : create crypto .initiator initiatorStatic responderStatic.publicKey preshared prologue =
      .ok initiator)
    (createdResponder : create crypto .responder responderStatic unused preshared prologue = .ok responder) :
    Created initiatorStatic responderStatic initiator responder := by
  simp only [create] at createdInitiator createdResponder
  split at createdInitiator
  · cases createdInitiator
  · cases createdInitiator
    cases createdResponder
    exact ⟨⟨⟨rfl, rfl, rfl, rfl⟩, ⟨rfl, rfl, rfl⟩, rfl, rfl, rfl⟩, rfl, rfl, rfl, rfl⟩

/-- `handshake` is `created` about to use `ephemeral`: installed by use_ephemeral, or drawn. -/
def Equipped (created handshake : NoiseHandshake) (ephemeral : KeyPair) (drawn : PrivateKey) : Prop :=
  handshake = created.useEphemeral ephemeral ∨
    (handshake = created ∧ drawn = ephemeral.privateKey)

theorem Equipped.ready {created : NoiseHandshake} (equipped : Equipped created handshake ephemeral drawn)
    (free : created.hasFixedEphemeral = false) (paired : crypto.Paired ephemeral) :
    Ready crypto handshake drawn ephemeral := by
  rcases equipped with fixed | ⟨same, draws⟩
  · subst fixed
    exact .inl ⟨rfl, rfl⟩
  · subst same draws
    refine .inr ⟨free, ?_⟩
    unfold Paired at paired
    simp [generateKeypair, paired]

theorem Introduced.equipped {initiatorReady responderReady : NoiseHandshake}
    {initiatorEphemeral responderEphemeral : KeyPair} {initiatorDrawn responderDrawn : PrivateKey}
    (introduced : Introduced initiator responder)
    (initiatorEquipped : Equipped initiator initiatorReady initiatorEphemeral initiatorDrawn)
    (responderEquipped : Equipped responder responderReady responderEphemeral responderDrawn) :
    Introduced initiatorReady responderReady := by
  obtain ⟨opening, listening, addressed, symmetric, preshared⟩ := introduced
  rcases initiatorEquipped with rfl | ⟨rfl, -⟩ <;> rcases responderEquipped with rfl | ⟨rfl, -⟩ <;>
    exact ⟨⟨opening.1, opening.2, opening.3, opening.4⟩, ⟨listening.1, listening.2, listening.3⟩,
      addressed, symmetric, preshared⟩

theorem Equipped.localStatic {created : NoiseHandshake} (equipped : Equipped created handshake ephemeral drawn) :
    handshake.localStatic = created.localStatic := by
  rcases equipped with rfl | ⟨rfl, -⟩ <;> rfl

theorem result_initiator (role : handshake.role = .initiator) (finished : handshake.finished = true) :
    handshake.result crypto = .ok ⟨(handshake.symmetric.split crypto).1,
      (handshake.symmetric.split crypto).2, handshake.symmetric.hash, handshake.remoteStatic⟩ := by
  simp [result, role, finished]

theorem result_responder (role : handshake.role = .responder) (finished : handshake.finished = true) :
    handshake.result crypto = .ok ⟨(handshake.symmetric.split crypto).2,
      (handshake.symmetric.split crypto).1, handshake.symmetric.hash, handshake.remoteStatic⟩ := by
  simp [result, role, finished]

/-- Noise IKpsk2 agreement. -/
theorem messages_agree (correct : crypto.Correct)
    (initiatorStatic responderStatic initiatorEphemeral responderEphemeral : KeyPair)
    (initiatorPaired : crypto.Paired initiatorStatic) (responderPaired : crypto.Paired responderStatic)
    (initiatorEphemeralPaired : crypto.Paired initiatorEphemeral)
    (responderEphemeralPaired : crypto.Paired responderEphemeral)
    (preshared : PresharedKey) (prologue payload1 payload2 : Bytes) (unused : PublicKey)
    (initiatorCreated responderCreated initiator responder : NoiseHandshake)
    (initiatorDrawn responderDrawn : PrivateKey)
    (createdInitiator : create crypto .initiator initiatorStatic responderStatic.publicKey preshared
      prologue = .ok initiatorCreated)
    (createdResponder : create crypto .responder responderStatic unused preshared prologue =
      .ok responderCreated)
    (initiatorEquipped : Equipped initiatorCreated initiator initiatorEphemeral initiatorDrawn)
    (responderEquipped : Equipped responderCreated responder responderEphemeral responderDrawn)
    (room1 outRoom1 room2 outRoom2 : ℕ)
    (fits1 : kNoiseMessage1Overhead + payload1.length ≤ room1) (outFits1 : payload1.length ≤ outRoom1)
    (fits2 : kNoiseMessage2Overhead + payload2.length ≤ room2)
    (outFits2 : payload2.length ≤ outRoom2) :
    ∃ message1 initiator1 responder1 message2 responder2 initiator2 initiatorResult responderResult,
      exec (writeMessage1 crypto initiatorDrawn payload1 room1) initiator = (.ok message1, initiator1) ∧
      exec (readMessage1 crypto message1 outRoom1) responder = (.ok payload1, responder1) ∧
      exec (writeMessage2 crypto responderDrawn payload2 room2) responder1 =
        (.ok message2, responder2) ∧
      exec (readMessage2 crypto message2 outRoom2) initiator1 = (.ok payload2, initiator2) ∧
      initiator2.result crypto = .ok initiatorResult ∧ responder2.result crypto = .ok responderResult ∧
      initiatorResult.send = responderResult.receive ∧
      initiatorResult.receive = responderResult.send ∧
      initiatorResult.handshakeHash = responderResult.handshakeHash ∧
      initiatorResult.remoteStatic = responderStatic.publicKey ∧
      responderResult.remoteStatic = initiatorStatic.publicKey := by
  have created := create_introduces createdInitiator createdResponder
  have introduced := created.toIntroduced.equipped initiatorEquipped responderEquipped
  have initiatorSame : initiator.localStatic = initiatorStatic :=
    initiatorEquipped.localStatic.trans created.initiatorStatic
  have responderSame : responder.localStatic = responderStatic :=
    responderEquipped.localStatic.trans created.responderStatic
  subst initiatorSame responderSame
  obtain ⟨message1, middle, wrote1, read1⟩ := message1_read correct introduced
    (initiatorEquipped.ready created.initiatorFree initiatorEphemeralPaired) initiatorEphemeralPaired initiatorPaired
    responderPaired payload1 fits1 outFits1
  obtain ⟨message2, last, wrote2, read2⟩ := message2_read correct introduced
    (responderEquipped.ready created.responderFree responderEphemeralPaired) responderEphemeralPaired initiatorPaired
    initiatorEphemeralPaired payload2 fits2 outFits2 middle
  exact ⟨message1, _, _, message2, _, _, _, _, wrote1, read1, wrote2, read2,
    result_initiator introduced.opening.role rfl, result_responder introduced.listening.role rfl,
    rfl, rfl, rfl, introduced.addressed, rfl⟩

/-- The initiator draws its ephemeral key, the responder is given one. -/
theorem messages_agree_plain :
    ∃ initiator responder : NoiseHandshake,
      create plain .initiator (plainPair 1) (plainPair 2).publicKey
        (zero 32) [7] = .ok initiator ∧
      create plain .responder (plainPair 2) (zero 32) (zero 32) [7] =
        .ok responder ∧
      ∃ message1 initiator1 responder1 message2 responder2 initiator2 initiatorResult responderResult,
        exec (writeMessage1 plain (plainPair 3).privateKey [1, 2] 98) initiator =
          (.ok message1, initiator1) ∧
        exec (readMessage1 plain message1 2) (responder.useEphemeral (plainPair 4)) =
          (.ok [1, 2], responder1) ∧
        exec (writeMessage2 plain (zero 32) [3] 49) responder1 =
          (.ok message2, responder2) ∧
        exec (readMessage2 plain message2 1) initiator1 = (.ok [3], initiator2) ∧
        initiator2.result plain = .ok initiatorResult ∧
        responder2.result plain = .ok responderResult ∧
        initiatorResult.send = responderResult.receive ∧
        initiatorResult.receive = responderResult.send ∧
        initiatorResult.handshakeHash = responderResult.handshakeHash ∧
        initiatorResult.remoteStatic = (plainPair 2).publicKey ∧
        responderResult.remoteStatic = (plainPair 1).publicKey := by
  have paired (octet : UInt8) : plain.Paired (plainPair octet) :=
    (plain_paired _).mpr rfl
  refine ⟨_, _, rfl, rfl, ?_⟩
  exact messages_agree plain_correct (plainPair 1) (plainPair 2)
    (plainPair 3) (plainPair 4) (paired 1) (paired 2) (paired 3) (paired 4)
    (zero 32) [7] [1, 2] [3] (zero 32) _ _ _ _ _ (zero 32) rfl rfl
    (.inr ⟨rfl, rfl⟩) (.inl rfl) 98 2 49 1 (by decide) (by decide) (by decide) (by decide)

end NoiseHandshake

end Norr
