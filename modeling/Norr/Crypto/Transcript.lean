import Norr.Crypto.Noise

/-! What the two readers of a handshake depend on, and what a failed one leaves behind. -/

namespace Norr

namespace NoiseHandshake

open Fallible

variable (crypto : Crypto)

/-- The second handshake is the first one under another preshared key. -/
def Rekeyed (preshared : PresharedKey) (first second : NoiseHandshake) : Prop :=
  second = { first with preshared }

section Reading

variable {crypto : Crypto} {preshared : PresharedKey} {left right : NoiseHandshake}

theorem rekeyed_mixEphemeral (related : Rekeyed preshared left right) (ephemeral : PublicKey) :
    AgreesAt (Rekeyed preshared) (mixEphemeral crypto ephemeral) (mixEphemeral crypto ephemeral) left
      right := by
  subst related
  exact .modify rfl

theorem rekeyed_mixShared (related : Rekeyed preshared left right) (privateKey : PrivateKey)
    (peerPublic : PublicKey) : AgreesAt (Rekeyed preshared) (mixShared crypto privateKey peerPublic)
      (mixShared crypto privateKey peerPublic) left right := by
  unfold mixShared
  split
  · exact .throw related _
  · subst related
    exact .modify rfl

theorem rekeyed_decryptAndHash (related : Rekeyed preshared left right) (ciphertext : Bytes) (room : ℕ) :
    AgreesAt (Rekeyed preshared) (decryptAndHash crypto ciphertext room)
      (decryptAndHash crypto ciphertext room) left right := by
  have start := related
  subst related
  refine .get ?_
  dsimp only
  split
  · exact .throw start _
  · exact .bind (.modify rfl) fun _ _ _ related => .pure related _

theorem rekeyed_decryptPayload (related : Rekeyed preshared left right) (remaining : Bytes) (room : ℕ) :
    AgreesAt (Rekeyed preshared) (decryptPayload crypto remaining room)
      (decryptPayload crypto remaining room) left right :=
  .bind (.refuseWhen related _) fun _ _ _ related => .bind (.refuseWhen related _)
    fun _ _ _ related => rekeyed_decryptAndHash related remaining room

/-- The first message does not involve the preshared key. -/
theorem rekeyed_readMessage1 (related : Rekeyed preshared left right) (message : Bytes) (room : ℕ) :
    AgreesAt (Rekeyed preshared) (readMessage1 crypto message room) (readMessage1 crypto message room) left
      right := by
  have start := related
  subst related
  refine .get ?_
  refine .bind (.refuseWhen start _) fun _ _ _ related => ?_
  refine .bind (.refuseWhen related _) fun _ _ _ related => ?_
  refine .bind (.modify (by subst related; rfl)) fun _ _ _ related => ?_
  refine .bind (rekeyed_mixEphemeral related _) fun _ _ _ related => ?_
  refine .bind (rekeyed_mixShared related _ _) fun _ _ _ related => ?_
  refine .bind (rekeyed_decryptAndHash related _ _) fun static _ _ related => ?_
  refine .bind (.modify (by subst related; rfl)) fun _ _ _ related => ?_
  refine .bind (rekeyed_mixShared related _ _) fun _ _ _ related => ?_
  refine .bind (rekeyed_decryptPayload related _ _) fun _ _ _ related => ?_
  exact .bind (.modify (by subst related; rfl)) fun _ _ _ related => .pure related _

theorem readMessage1_rekeyed {handshake after : NoiseHandshake} {message : Bytes} {room : ℕ}
    {outcome : Except NoiseError Bytes} (preshared : PresharedKey)
    (ran : exec (readMessage1 crypto message room) handshake = (outcome, after)) :
    exec (readMessage1 crypto message room) { handshake with preshared } =
      (outcome, { after with preshared }) := by
  have related : Rekeyed preshared handshake { handshake with preshared } := rfl
  obtain ⟨same, rekeyed⟩ : AgreesAt _ (readMessage1 crypto message room) _ _ _ :=
    rekeyed_readMessage1 related message room
  rw [ran] at same rekeyed
  exact Prod.ext same.symm rekeyed

end Reading

/-- What read_message_2 saves and restores is all that has changed so far. -/
def Restores (saved handshake : NoiseHandshake) : Prop :=
  { handshake with symmetric := saved.symmetric, remoteEphemeral := saved.remoteEphemeral } = saved

variable {crypto : Crypto} {saved : NoiseHandshake}

theorem Restores.change {handshake : NoiseHandshake} (restores : Restores saved handshake)
    (symmetric : SymmetricState) (remoteEphemeral : PublicKey) :
    Restores saved { handshake with symmetric, remoteEphemeral } := restores

theorem restores_mixShared (privateKey : PrivateKey) (peerPublic : PublicKey) :
    Within (Restores saved) (mixShared crypto privateKey peerPublic) := by
  unfold mixShared
  split
  · exact .throw _
  · exact .modify fun _ restores => restores.change _ _

theorem restores_decryptPayload (remaining : Bytes) (room : ℕ) :
    Within (Restores saved) (decryptPayload crypto remaining room) := by
  refine .bind (.refuseWhen _) fun _ => .bind (.refuseWhen _) fun _ => .get fun handshake restores => ?_
  split <;> exact restores

theorem restores_readMessage2Unchecked (message : Bytes) (room : ℕ) :
    FailsWithin (Restores saved) (readMessage2Unchecked crypto message room) := by
  intro handshake start
  have rest : FailsWithin (Restores saved) (do
      modify ({ · with remoteEphemeral := Octets.ofBytes 32 message })
      mixEphemeral crypto (Octets.ofBytes 32 message)
      mixShared crypto handshake.localEphemeral.privateKey (Octets.ofBytes 32 message)
      mixShared crypto handshake.localStatic.privateKey (Octets.ofBytes 32 message)
      modify fun handshake =>
        { handshake with symmetric := handshake.symmetric.mixKeyAndHash crypto handshake.preshared }
      let written ← decryptPayload crypto (message.drop kNoiseDhLength) room
      modify ({ · with finished := true })
      pure written) := by
    refine .bind (.modify fun _ restores => restores.change _ _) fun _ => ?_
    refine .bind (.modify fun _ restores => restores.change _ _) fun _ => ?_
    refine .bind (restores_mixShared _ _) fun _ => ?_
    refine .bind (restores_mixShared _ _) fun _ => ?_
    refine .bind (.modify fun _ restores => restores.change _ _) fun _ => ?_
    refine .bind (restores_decryptPayload _ _) fun written => ?_
    -- after the payload nothing fails any more
    intro reached _ error after ran
    cases ran
  exact rest handshake start

/-- A second message that fails leaves the handshake exactly as it was. -/
theorem readMessage2_error {handshake after : NoiseHandshake} {message : Bytes} {room : ℕ}
    {error : NoiseError}
    (ran : exec (readMessage2 crypto message room) handshake = (.error error, after)) :
    after = handshake := by
  have rest : FailsWithin (· = handshake) (do
      refuseWhen (handshake.role ≠ .initiator ∨ handshake.sentMessage1 = false ∨ handshake.finished)
        NoiseError.invalidState
      refuseWhen (message.length < kNoiseMessage2Overhead) NoiseError.messageTooShort
      tryCatch (readMessage2Unchecked crypto message room) fun error => do
        modify ({ · with
          symmetric := handshake.symmetric
          remoteEphemeral := handshake.remoteEphemeral })
        throw error) := by
    refine .bind (.refuseWhen _) fun _ => .bind (.refuseWhen _) fun _ => ?_
    intro state start error after ran
    rw [exec_tryCatch] at ran
    split at ran
    · cases ran
    · rename_i failed
      have restores := restores_readMessage2Unchecked message room state
        (show Restores handshake state by rw [start]; rfl) _ _ failed
      cases ran
      exact restores
  exact rest handshake rfl error after ran

end NoiseHandshake

end Norr
