import Norr.Control.KeyIds
import Norr.Worker.Ledger

/-! Every operation of the control plane is a sequence of ledger steps. -/

namespace Norr

variable {crypto : Crypto}

/-- The ledger of a Worker whose control plane has the account. -/
def Ledger.ofAccount (ledger : Ledger) (account : Account) : Ledger :=
  { ledger with
    sessions := account.sessions
    provisional := account.provisional
    completed := account.completed }

theorem Account.Steps.ledger {before after : Account} (steps : Account.Steps before after) (ledger : Ledger) :
    Ledger.Steps crypto (ledger.ofAccount before) (ledger.ofAccount after) := by
  refine steps.lift ledger.ofAccount fun account next step => ?_
  cases step with
  | complete result => exact .complete (ledger.ofAccount account) result
  | hold entry => exact .hold (ledger.ofAccount account) entry
  | release kept sublist => exact .release (ledger.ofAccount account) kept sublist
  | establish result session made blank => exact .establish (ledger.ofAccount account) result session made blank

namespace Node

variable {heap : HeapAlgorithms} {now : Instant}

theorem addPeer_account (node : Node) (config : PeerConfig) :
    (node.addPeer config).2.account = node.account := by
  unfold addPeer
  split_ifs <;> rfl

theorem remove_account (node : Node) (keyId : UInt16) :
    { node with table := node.table.remove keyId }.account = node.account := by
  simp only [account, SessionTable.remove]
  split <;> rfl

theorem forgetPeer_accounts (node : Node) (peer : PeerId) :
    Account.Steps node.account (node.forgetPeer heap peer).account := by
  rw [forgetPeer_frame]
  exact .single (.release node.account _ List.filter_sublist)

/-- A packet has turned the provisional entry of its key id into the session. -/
structure Promoted (crypto : Crypto) (before after : Node) (view : PacketView) (packet plaintext : Bytes)
    (room : ℕ) (entry : Provisional) (session : Session) : Prop where
  held : before.plane.provisional.lookup view.header.keyId = some entry
  released : after.plane.provisional = before.plane.provisional.erase view.header.keyId
  completed : after.completed = before.completed
  installed : after.table.heap = before.table.heap ++ [session]
  reachable : after.table.findByKeyId entry.localKeyId = some before.table.heap.length
  made : session.MadeOf entry.result
  peer : session.peer = entry.peer
  wired : before.table.Wired → after.table.Wired
  recorded : session.replay = (ReplayWindow.accept {} view.header.counter).2
  opened : crypto.open session.receiveKey view.header.counter (packet.take kPacketHeaderSize) view.payload
    room = .ok plaintext

theorem tryPromoteProvisional_wired {node after : Node} {view : PacketView} {packet : Bytes} {room : ℕ}
    {source : Endpoint} {outcome : Except ControlError Bytes}
    (ran : node.tryPromoteProvisional crypto heap view packet room source now = (outcome, after))
    (wired : node.table.Wired) : after.table.Wired := by
  have steps : Steps heap now False node after := tryPromoteProvisional_steps ran
  exact steps.wired wired

theorem tryPromoteProvisional_ok {node after : Node} {view : PacketView} {packet plaintext : Bytes}
    {room : ℕ} {source : Endpoint}
    (ran : node.tryPromoteProvisional crypto heap view packet room source now = (.ok plaintext, after)) :
    ∃ entry session, Promoted crypto node after view packet plaintext room entry session := by
  have wired := tryPromoteProvisional_wired ran
  rcases tryPromoteProvisional_cases ran with ⟨⟨_, failed⟩, -⟩ |
    ⟨entry, opens, session, ref, table, same, held, opened, installed, rfl⟩
  · cases failed
  · cases same
    obtain ⟨decrypted, committed⟩ := Session.open_ok opened
    obtain ⟨keys, peer, counter, sent, replay⟩ := Ledger.commit_alike committed
    obtain ⟨noted, released, completed⟩ :=
      promoted_frame heap node view.header.keyId entry.peer ref table source now
    have metered := (Session.metered_fresh rfl rfl rfl : (candidate entry now).Metered).commit committed
    refine ⟨entry, session.noteAuthenticatedEndpoint source, held, released, completed,
      ?_, ?_, ⟨keys, ?_, counter, sent, metered.1.of_meter rfl⟩, peer, wired, replay, ?_⟩
    · rw [noted]
      exact SessionTable.install_noted installed source
    · rw [noted]
      obtain ⟨-, place, -, found, -⟩ := SessionTable.install_ok installed
      exact found.trans (congrArg some place)
    · exact fun unknown => (SessionTable.install_ok installed).1 (peer.symm.trans unknown)
    · rw [show (session.noteAuthenticatedEndpoint source).receiveKey = (candidate entry now).receiveKey
        from congrArg Prod.snd keys]
      exact Session.decrypt_ok decrypted

theorem tryPromoteProvisional_error {node after : Node} {view : PacketView} {packet : Bytes} {room : ℕ}
    {source : Endpoint} {error : ControlError}
    (ran : node.tryPromoteProvisional crypto heap view packet room source now = (.error error, after)) :
    Account.Steps node.account after.account := by
  rcases tryPromoteProvisional_cases ran with ⟨-, rfl | rfl⟩ | ⟨_, _, _, _, _, failed, -⟩
  · exact .refl
  · exact .single (.release node.account _ (List.kerase_sublist _ _))
  · cases failed

end Node

end Norr
