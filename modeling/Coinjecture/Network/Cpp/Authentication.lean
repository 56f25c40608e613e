import Coinjecture.Lib.Trace
import Coinjecture.Network.Cpp.Handshake

/-! # Whose messages a connection brings

A node reads tokens, Hellos and frames from its connections. What it reads on an inbound connection may
come from the holder of a peer's key or from somebody else, who can replay what the holder once made;
signatures are ideal. The session keys of the handshake are not used: frames are read as they come.

* `authentic_iff` : whoever is registered as the peer took part in the handshake, and what is processed as
  the peer's is the holder's, exactly if nobody replays a token of the holder into a registration, answers
  in its name, or adds frames. -/

namespace Coinjecture.Network.Cpp.Authentication

open Lib.Bincode Lib.Trace
open Core.Types
open Network.Cpp.Connections (PeerId)
open Network.Cpp.Handshake

/-- Who sends what is read: the holder of the key, on this very connection, or somebody else. -/
inductive Sender where
  | holder | other
  deriving DecidableEq

/-- What the task of a connection does next. -/
inductive Stage where
  | unopened
  | token
  | hello (authenticatedPeerId : Option PeerId)
  | helloAck
  | admitted (peerId : PeerId)
  | looping (peerId : PeerId)
  | reading (peerId : PeerId)
  | closed
  deriving DecidableEq

/-- A connection. The program does not know the token any more, nor who sent it; on an outbound connection
`sender` sent the HelloAck. -/
structure Connection where
  isOutbound : Bool
  stage : Stage
  sender : Sender
  token : Option PeerAuthToken
  deriving DecidableEq

structure MessageEnvelope where
  msgType : UInt8
  payload : Bytes
  deriving DecidableEq

/-- What the node does in a peer's name. -/
inductive Record where
  | registered (id : ℕ) (peerId : PeerId) (sender : Sender)
  | processed (id : ℕ) (peerId : PeerId) (sender : Sender) (envelope : MessageEnvelope)
  deriving DecidableEq

namespace Record

def peerId : Record → PeerId
  | registered _ peerId _ => peerId
  | processed _ peerId _ _ => peerId

def sender : Record → Sender
  | registered _ _ sender => sender
  | processed _ _ sender _ => sender

end Record

/-- The node, what it has done, and the tokens that the holder has made anywhere. -/
structure Node where
  chainState : ChainState
  connections : ℕ → Connection
  peers : List PeerId
  records : List Record
  made : List PeerAuthToken

inductive Input where
  | make (ephemeralPub : Bytes32)
  | accept (id : ℕ)
  | connect (id : ℕ)
  | token (id : ℕ) (sender : Sender) (stream : Bytes) (ephemeralSecret : Bytes32)
  | hello (id : ℕ) (hello : HelloMessage) (timestamp nonce : UInt64)
  | helloAck (id : ℕ) (sender : Sender) (helloAck : HelloAckMessage)
  | register (id : ℕ)
  | turn (id : ℕ)
  | message (id : ℕ) (sender : Sender) (rateAllowed : Bool) (envelope : MessageEnvelope)
  | fail (id : ℕ)
  | removePeer (peerId : PeerId)
  | updateChainState (bestHeight : UInt64) (bestHash : Hash)
  deriving DecidableEq

namespace Node

def new (chainState : ChainState) : Node where
  chainState := chainState
  connections _ := ⟨false, .unopened, .other, none⟩
  peers := []
  records := []
  made := []

def setConnection (id : ℕ) (c : Connection) (n : Node) : Node :=
  { n with connections := Function.update n.connections id c }

/-- The task goes on with this stage. -/
def goOn (id : ℕ) (stage : Stage) (n : Node) : Node :=
  n.setConnection id { n.connections id with stage := stage }

section Tasks

variable (prims : Primitives) (config : NodeConfig)

/-- `handle_incoming_connection` begins. -/
def accept (id : ℕ) (n : Node) : Node :=
  match (n.connections id).stage with
  | .unopened => n.goOn id (match config.signingKey with
    | some _ => .token
    | none => if config.requireEncryption then .closed else .hello none)
  | _ => n

/-- `connect_bootnode` has sent its Hello. -/
def connect (id : ℕ) (n : Node) : Node :=
  match (n.connections id).stage with
  | .unopened => n.setConnection id ⟨true, .helloAck, .other, none⟩
  | _ => n

/-- The token is read. Of the result the peer id is kept. -/
def readToken (id : ℕ) (sender : Sender) (stream : Bytes) (ephemeralSecret : Bytes32) (n : Node) : Node :=
  match (n.connections id).stage, config.signingKey with
  | .token, some signingKey =>
    match performHandshakeResponder prims signingKey ephemeralSecret stream with
    | .ok (_, result) => n.setConnection id
        ⟨false, .hello (some result.authenticatedPeerId), sender, PeerAuthToken.fromBytes stream⟩
    | .error _ => n.goOn id .closed
  | _, _ => n

/-- The Hello is read, up to the check that its peer is not connected. -/
def readHello (id : ℕ) (hello : HelloMessage) (timestamp nonce : UInt64) (n : Node) : Node :=
  match (n.connections id).stage with
  | .hello authenticatedPeerId =>
    match handshake config n.chainState timestamp nonce hello with
    | .error _ => n.goOn id .closed
    | .ok (_, peerId, _) =>
      if authenticatedPeerId ≠ none ∧ authenticatedPeerId ≠ some peerId then n.goOn id .closed
      else if peerId ∈ n.peers then n.goOn id .closed
      else n.goOn id (.admitted peerId)
  | _ => n

/-- The HelloAck is read, up to the first check that its peer is not connected. -/
def readAck (id : ℕ) (sender : Sender) (helloAck : HelloAckMessage) (n : Node) : Node :=
  match (n.connections id).stage with
  | .helloAck =>
    match readHelloAck n.chainState helloAck with
    | .error _ => n.goOn id .closed
    | .ok (peerId, _) =>
      if peerId ∈ n.peers then n.goOn id .closed
      else n.setConnection id ⟨true, .admitted peerId, sender, none⟩
  | _ => n

/-- The peer comes onto the list. For an outbound connection the list is looked at once more. -/
def register (id : ℕ) (n : Node) : Node :=
  let c := n.connections id
  match c.stage with
  | .admitted peerId =>
    if c.isOutbound = true ∧ peerId ∈ n.peers then n.goOn id .closed
    else { n.goOn id (.looping peerId) with
      peers := peerId :: n.peers.filter (fun p => p ≠ peerId)
      records := .registered id peerId c.sender :: n.records }
  | _ => n

/-- The peer is taken off the list. -/
def removePeer (peerId : PeerId) (n : Node) : Node :=
  { n with peers := n.peers.filter fun p => p ≠ peerId }

/-- The message loop looks whether the peer is on the list. -/
def turn (id : ℕ) (n : Node) : Node :=
  match (n.connections id).stage with
  | .looping peerId => n.goOn id (if peerId ∈ n.peers then .reading peerId else .closed)
  | _ => n

/-- The message loop reads a frame and, if the rate limit allows it, processes it as the peer's. -/
def readMessage (id : ℕ) (sender : Sender) (rateAllowed : Bool) (envelope : MessageEnvelope) (n : Node) :
    Node :=
  match (n.connections id).stage with
  | .reading peerId => { n.goOn id (.looping peerId) with
      records := if rateAllowed then .processed id peerId sender envelope :: n.records else n.records }
  | _ => n

/-- A read fails or times out, or the peer is disconnected. -/
def fail (id : ℕ) (n : Node) : Node :=
  match (n.connections id).stage with
  | .token | .hello _ | .helloAck => n.goOn id .closed
  | .looping peerId | .reading peerId => (n.removePeer peerId).goOn id .closed
  | _ => n

/-- The machine of a node, and of the tokens of the holder. -/
def machine (holder : SigningKey) : Machine Input Node where
  next
    | .make ephemeralPub, n => { n with made := .new ephemeralPub holder :: n.made }
    | .accept id, n => n.accept config id
    | .connect id, n => n.connect id
    | .token id sender stream ephemeralSecret, n => n.readToken prims config id sender stream ephemeralSecret
    | .hello id hello timestamp nonce, n => n.readHello config id hello timestamp nonce
    | .helloAck id sender helloAck, n => n.readAck id sender helloAck
    | .register id, n => n.register id
    | .turn id, n => n.turn id
    | .message id sender rateAllowed envelope, n => n.readMessage id sender rateAllowed envelope
    | .fail id, n => n.fail id
    | .removePeer peerId, n => n.removePeer peerId
    | .updateChainState bestHeight bestHash, n => { n with
        chainState := ⟨bestHeight, bestHash, n.chainState.genesisHash⟩ }
  halts _ _ := false

end Tasks

end Node

/-- What is done in this peer's name rests on the holder. -/
def Authentic (peerId : PeerId) (n : Node) : Prop :=
  ∀ r ∈ n.records, r.peerId = peerId → r.sender = .holder

instance (peerId : PeerId) : DecidablePred (Authentic peerId) := fun n =>
  inferInstanceAs (Decidable (∀ r ∈ n.records, _ → _))

/-- The token of the connection is one that the holder has made, but somebody else sent it. -/
def Replayed (made : List PeerAuthToken) (c : Connection) : Prop :=
  c.sender = .other ∧ ∃ t ∈ c.token, t ∈ made

instance (made : List PeerAuthToken) : DecidablePred (Replayed made) := fun c =>
  inferInstanceAs (Decidable (_ ∧ ∃ t ∈ c.token, t ∈ made))

section Runs

variable (prims : Primitives) (config : NodeConfig) (holder : SigningKey)

/-- Signatures are ideal: somebody else has no token with the peer's key but those the holder has made. -/
def Ideal (p : Input × Node) : Prop :=
  match p with
  | (.token _ .other stream _, n) => ∀ t ∈ PeerAuthToken.fromBytes stream,
      peerIdOf prims t.ed25519Pubkey = peerIdOf prims holder.verifyingKey → t.verifies prims = true →
        t ∈ n.made
  | _ => True

/-- Nothing that somebody else sends comes to something in the peer's name here: no replayed token and no
HelloAck is registered, and no frame is processed. -/
def Harmless (peerId : PeerId) (p : Input × Node) : Prop :=
  match p with
  | (.register id, n) =>
    (n.connections id).stage = .admitted peerId →
      if (n.connections id).isOutbound = true then
        (n.connections id).sender = .other → peerId ∈ n.peers
      else ¬ Replayed n.made (n.connections id)
  | (.message id sender rateAllowed _, n) =>
    (n.connections id).stage = .reading peerId → rateAllowed = true → sender = .holder
  | _ => True

instance : DecidablePred (Ideal prims holder) := fun p =>
  match p with
  | (.token _ .other stream _, n) => inferInstanceAs (Decidable (∀ t ∈ PeerAuthToken.fromBytes stream,
      peerIdOf prims t.ed25519Pubkey = peerIdOf prims holder.verifyingKey → t.verifies prims = true →
        t ∈ n.made))
  | (.token _ .holder _ _, _) => isTrue trivial
  | (.make _, _) | (.accept _, _) | (.connect _, _) | (.hello _ _ _ _, _) | (.helloAck _ _ _, _)
  | (.register _, _) | (.turn _, _) | (.message _ _ _ _, _) | (.fail _, _) | (.removePeer _, _)
  | (.updateChainState _ _, _) => isTrue trivial

instance (peerId : PeerId) : DecidablePred (Harmless peerId) := fun p =>
  match p with
  | (.register id, n) => inferInstanceAs (Decidable ((n.connections id).stage = .admitted peerId →
      if (n.connections id).isOutbound = true then
        (n.connections id).sender = .other → peerId ∈ n.peers
      else ¬ Replayed n.made (n.connections id)))
  | (.message id sender rateAllowed _, n) => inferInstanceAs (Decidable
      ((n.connections id).stage = .reading peerId → rateAllowed = true → sender = .holder))
  | (.make _, _) | (.accept _, _) | (.connect _, _) | (.token _ _ _ _, _) | (.hello _ _ _ _, _)
  | (.helloAck _ _ _, _) | (.turn _, _) | (.fail _, _) | (.removePeer _, _)
  | (.updateChainState _ _, _) => isTrue trivial

end Runs

/-! ### What a registration rests on -/

/-- The holder sent the token, or at least has made it. -/
def Vouched (made : List PeerAuthToken) (c : Connection) : Prop :=
  c.sender = .holder ∨ ∃ t ∈ c.token, t ∈ made

/-- An inbound connection that is about to be the peer's has a token of the holder. -/
def Backed (peerId : PeerId) (made : List PeerAuthToken) (c : Connection) : Prop :=
  match c.stage with
  | .hello auth => ∃ id, auth = some id ∧ (id = peerId → Vouched made c)
  | .helloAck => c.isOutbound = true
  | .admitted id => c.isOutbound = false → id = peerId → Vouched made c
  | _ => True

def Inv (peerId : PeerId) (n : Node) : Prop := ∀ id, Backed peerId n.made (n.connections id)

theorem Vouched.cons {made : List PeerAuthToken} {c : Connection} (h : Vouched made c)
    (t : PeerAuthToken) : Vouched (t :: made) c :=
  h.imp_right fun ⟨t', ht', hmade⟩ => ⟨t', ht', List.mem_cons_of_mem _ hmade⟩

theorem Backed.cons {peerId : PeerId} {made : List PeerAuthToken} {c : Connection}
    (h : Backed peerId made c) (t : PeerAuthToken) : Backed peerId (t :: made) c := by
  unfold Backed at h ⊢
  revert h
  cases c.stage with
  | hello auth =>
    rintro ⟨id, hauth, hvouched⟩
    exact ⟨id, hauth, fun hid => (hvouched hid).cons t⟩
  | helloAck => exact id
  | admitted other => exact fun h hin hid => (h hin hid).cons t
  | unopened => exact id
  | token => exact id
  | looping other => exact id
  | reading other => exact id
  | closed => exact id

theorem vouched_iff {made : List PeerAuthToken} {c : Connection} (h : Vouched made c) :
    c.sender = .holder ↔ ¬ Replayed made c := by
  constructor
  · rintro hsender ⟨hother, -⟩
    rw [hsender] at hother
    cases hother
  · intro hnot
    rcases hsender : c.sender with _ | _
    · rfl
    · refine absurd ⟨hsender, h.resolve_left ?_⟩ hnot
      rw [hsender]
      nofun

section Steps

variable {prims : Primitives} {config : NodeConfig} {holder : SigningKey} {peerId : PeerId} {n : Node}
  (h : Inv peerId n)

include h

theorem Inv.setConnection (id : ℕ) {c : Connection} (hc : Backed peerId n.made c) :
    Inv peerId (n.setConnection id c) := by
  intro id'
  change Backed peerId n.made (Function.update n.connections id c id')
  by_cases heq : id' = id
  · rw [heq, Function.update_self]
    exact hc
  · rw [Function.update_of_ne heq]
    exact h id'

theorem Inv.accept (hrequire : config.requireEncryption = true) (id : ℕ) :
    Inv peerId (n.accept config id) := by
  unfold Node.accept
  split
  · refine h.setConnection id ?_
    rcases config.signingKey with _ | signingKey
    · rw [hrequire]
      trivial
    · trivial
  · exact h

theorem Inv.connect (id : ℕ) : Inv peerId (n.connect id) := by
  unfold Node.connect
  split
  · exact h.setConnection id rfl
  · exact h

theorem Inv.readToken {id : ℕ} {sender : Sender} {stream : Bytes} {ephemeralSecret : Bytes32}
    (hpeer : peerId = peerIdOf prims holder.verifyingKey)
    (hideal : Ideal prims holder (.token id sender stream ephemeralSecret, n)) :
    Inv peerId (n.readToken prims config id sender stream ephemeralSecret) := by
  unfold Node.readToken
  split
  · split
    next hresult =>
      obtain ⟨t, hread, hverifies, -, hid⟩ := performHandshakeResponder_eq_ok hresult
      refine h.setConnection id ⟨_, rfl, fun heq => ?_⟩
      cases sender with
      | holder => exact .inl rfl
      | other => exact .inr ⟨t, hread, hideal t hread (by rw [← hid, heq, hpeer]) hverifies⟩
    next => exact h.setConnection id trivial
  · exact h

theorem Inv.readHello {id : ℕ} {hello : HelloMessage} {timestamp nonce : UInt64} :
    Inv peerId (n.readHello config id hello timestamp nonce) := by
  unfold Node.readHello
  have hbacked := h id
  unfold Backed at hbacked
  split
  next auth hstage =>
    rw [hstage] at hbacked
    obtain ⟨named, rfl, hvouched⟩ := hbacked
    split
    · exact h.setConnection id trivial
    · split_ifs with hmismatch hconnected
      · exact h.setConnection id trivial
      · exact h.setConnection id trivial
      · refine h.setConnection id fun _ heq => hvouched ?_
        have hsame := not_and_not_right.mp hmismatch nofun
        rw [← heq]
        exact Option.some.inj hsame
  next => exact h

theorem Inv.readAck {id : ℕ} {sender : Sender} {helloAck : HelloAckMessage} :
    Inv peerId (n.readAck id sender helloAck) := by
  unfold Node.readAck
  split
  · split
    · exact h.setConnection id trivial
    · split_ifs
      · exact h.setConnection id trivial
      · exact h.setConnection id nofun
  · exact h

theorem Inv.register (id : ℕ) : Inv peerId (n.register id) := by
  unfold Node.register
  simp only
  split
  · split_ifs
    · exact h.setConnection id trivial
    · exact h.setConnection id trivial
  · exact h

theorem Inv.turn (id : ℕ) : Inv peerId (n.turn id) := by
  unfold Node.turn
  split
  · refine h.setConnection id ?_
    split_ifs
    · trivial
    · trivial
  · exact h

theorem Inv.readMessage {id : ℕ} {sender : Sender} {rateAllowed : Bool} {envelope : MessageEnvelope} :
    Inv peerId (n.readMessage id sender rateAllowed envelope) := by
  unfold Node.readMessage
  split
  · exact h.setConnection id trivial
  · exact h

theorem Inv.fail (id : ℕ) : Inv peerId (n.fail id) := by
  have hremoved : ∀ other, Inv peerId (n.removePeer other) := fun _ => h
  unfold Node.fail
  cases (n.connections id).stage with
  | token => exact h.setConnection id trivial
  | hello auth => exact h.setConnection id trivial
  | helloAck => exact h.setConnection id trivial
  | looping other => exact (hremoved other).setConnection id trivial
  | reading other => exact (hremoved other).setConnection id trivial
  | unopened => exact h
  | admitted other => exact h
  | closed => exact h

theorem Inv.next (hrequire : config.requireEncryption = true)
    (hpeer : peerId = peerIdOf prims holder.verifyingKey) {input : Input}
    (hideal : Ideal prims holder (input, n)) :
    Inv peerId ((Node.machine prims config holder).next input n) := by
  cases input with
  | make ephemeralPub => exact fun id => (h id).cons _
  | accept id => exact h.accept hrequire id
  | connect id => exact h.connect id
  | token id sender stream ephemeralSecret => exact h.readToken hpeer hideal
  | hello id hello timestamp nonce => exact h.readHello
  | helloAck id sender helloAck => exact h.readAck
  | register id => exact h.register id
  | turn id => exact h.turn id
  | message id sender rateAllowed envelope => exact h.readMessage
  | fail id => exact h.fail id
  | removePeer other => exact h
  | updateChainState bestHeight bestHash => exact h

end Steps

/-! ### One input -/

theorem authentic_cons {peerId : PeerId} {n n' : Node} {r : Record} (h : n'.records = r :: n.records)
    (hauthentic : Authentic peerId n) :
    Authentic peerId n' ↔ (r.peerId = peerId → r.sender = .holder) := by
  unfold Authentic
  rw [h, List.forall_mem_cons]
  exact and_iff_left hauthentic

section Steps

variable {prims : Primitives} {config : NodeConfig} {holder : SigningKey} {peerId : PeerId} {n : Node}

theorem authentic_register (hinv : Inv peerId n) (h : Authentic peerId n) (id : ℕ) :
    Authentic peerId (n.register id) ↔ Harmless peerId (.register id, n) := by
  have hbacked := hinv id
  unfold Backed at hbacked
  simp only [Node.register, Harmless]
  rcases hstage : (n.connections id).stage with _ | _ | _ | _ | other | _ | _ | _
  case admitted =>
    rw [hstage] at hbacked
    dsimp only at hbacked ⊢
    by_cases hrefused : (n.connections id).isOutbound = true ∧ other ∈ n.peers
    · rw [if_pos hrefused]
      refine iff_of_true h fun heq => ?_
      rw [if_pos hrefused.1, ← Stage.admitted.inj heq]
      exact fun _ => hrefused.2
    · rw [if_neg hrefused, authentic_cons rfl h]
      by_cases heq : other = peerId
      · subst heq
        refine (forall_prop_of_true rfl).trans (Iff.trans ?_ (forall_prop_of_true rfl).symm)
        change (n.connections id).sender = .holder ↔ _
        by_cases hout : (n.connections id).isOutbound = true
        · have hnot : other ∉ n.peers := fun hmem => hrefused ⟨hout, hmem⟩
          rw [if_pos hout, imp_iff_not hnot]
          cases (n.connections id).sender with
          | holder => exact iff_of_true rfl nofun
          | other => exact iff_of_false nofun (not_not.mpr rfl)
        · rw [if_neg hout]
          exact vouched_iff (hbacked (Bool.eq_false_iff.mpr hout) rfl)
      · exact iff_of_true (fun hsame => absurd hsame heq)
          fun hsame => absurd (Stage.admitted.inj hsame) heq
  all_goals exact iff_of_true h nofun

theorem authentic_readMessage (h : Authentic peerId n) (id : ℕ) (sender : Sender) (rateAllowed : Bool)
    (envelope : MessageEnvelope) :
    Authentic peerId (n.readMessage id sender rateAllowed envelope) ↔
      Harmless peerId (.message id sender rateAllowed envelope, n) := by
  simp only [Node.readMessage, Harmless]
  rcases hstage : (n.connections id).stage with _ | _ | _ | _ | _ | _ | other | _
  case reading =>
    dsimp only
    cases rateAllowed with
    | false => exact iff_of_true h nofun
    | true =>
      rw [authentic_cons rfl h]
      constructor
      · exact fun hall heq _ => hall (Stage.reading.inj heq)
      · exact fun hall heq => hall (congrArg Stage.reading heq) rfl
  all_goals exact iff_of_true h nofun

theorem records_accept (id : ℕ) : (n.accept config id).records = n.records := by
  unfold Node.accept
  split
  · rfl
  · rfl

theorem records_connect (id : ℕ) : (n.connect id).records = n.records := by
  unfold Node.connect
  split
  · rfl
  · rfl

theorem records_readToken (id : ℕ) (sender : Sender) (stream : Bytes) (ephemeralSecret : Bytes32) :
    (n.readToken prims config id sender stream ephemeralSecret).records = n.records := by
  unfold Node.readToken
  split
  · split
    · rfl
    · rfl
  · rfl

theorem records_readHello (id : ℕ) (hello : HelloMessage) (timestamp nonce : UInt64) :
    (n.readHello config id hello timestamp nonce).records = n.records := by
  unfold Node.readHello
  split
  · split
    · rfl
    · split_ifs
      · rfl
      · rfl
      · rfl
  · rfl

theorem records_readAck (id : ℕ) (sender : Sender) (helloAck : HelloAckMessage) :
    (n.readAck id sender helloAck).records = n.records := by
  unfold Node.readAck
  split
  · split
    · rfl
    · split_ifs
      · rfl
      · rfl
  · rfl

theorem records_turn (id : ℕ) : (n.turn id).records = n.records := by
  unfold Node.turn
  split
  · rfl
  · rfl

theorem records_fail (id : ℕ) : (n.fail id).records = n.records := by
  unfold Node.fail
  cases (n.connections id).stage with
  | token => rfl
  | hello auth => rfl
  | helloAck => rfl
  | looping other => rfl
  | reading other => rfl
  | unopened => rfl
  | admitted other => rfl
  | closed => rfl

/-- An input keeps what is done in the peer's name authentic exactly if it is harmless. -/
theorem authentic_next (hinv : Inv peerId n) (h : Authentic peerId n) (input : Input) :
    Authentic peerId ((Node.machine prims config holder).next input n) ↔ Harmless peerId (input, n) := by
  have hsame : ∀ n' : Node, n'.records = n.records → (Authentic peerId n' ↔ True) := by
    intro n' heq
    unfold Authentic
    rw [heq]
    exact iff_true_intro h
  cases input with
  | make ephemeralPub => exact hsame _ rfl
  | accept id => exact hsame _ (records_accept id)
  | connect id => exact hsame _ (records_connect id)
  | token id sender stream ephemeralSecret => exact hsame _ (records_readToken id sender stream ephemeralSecret)
  | hello id hello timestamp nonce => exact hsame _ (records_readHello id hello timestamp nonce)
  | helloAck id sender helloAck => exact hsame _ (records_readAck id sender helloAck)
  | register id => exact authentic_register hinv h id
  | turn id => exact hsame _ (records_turn id)
  | message id sender rateAllowed envelope => exact authentic_readMessage h id sender rateAllowed envelope
  | fail id => exact hsame _ (records_fail id)
  | removePeer other => exact hsame _ rfl
  | updateChainState bestHeight bestHash => exact hsame _ rfl

end Steps

/-! ### Runs -/

/-- In a run of a node that requires authentication, all that is done in the name of the holder's peer rests
on the holder exactly if every input is harmless. -/
theorem authentic_iff (prims : Primitives) (config : NodeConfig) (holder : SigningKey)
    (chainState : ChainState) (inputs : List Input) (hrequire : config.requireEncryption = true)
    (hideal : ∀ p ∈ (Node.machine prims config holder).trace inputs (.new chainState),
      Ideal prims holder p) :
    let run := (Node.machine prims config holder).trace inputs (.new chainState)
    let peerId := peerIdOf prims holder.verifyingKey
    ((∀ p ∈ run, Authentic peerId p.2) ∧
        Authentic peerId ((Node.machine prims config holder).final inputs (.new chainState))) ↔
      ∀ p ∈ run, Harmless peerId p := by
  refine Machine.safe_iff (Q := Inv (peerIdOf prims holder.verifyingKey))
    (fun p hp hinv => hinv.next hrequire rfl (hideal p hp))
    (fun p _ hinv h => authentic_next hinv h p.1) (fun _ => trivial) nofun

namespace Sample

def holderKey : PublicKey := ⟨0x6e7a1cdd29b0b78fd13af4c5598feff4ef2a97166e3ca6f2e4fbfccd80505bf1⟩

def holderId : PeerId := 0x90bdeef49d5d2664e6ef317c3fc4dec4975f13287af7ce3ff4dd9fdf19bb2d7e

def nodeKey : PublicKey := ⟨0x8a875fff1eb38451577acd5afee405456568dd7c89e090863a0557bc7af49f17⟩

def nodeId : PeerId := 0x529eb3098bf4c47a11adee0f63dbbaa72d91359d2d89b4fed36d0da93d199d35

/-- The ephemeral keys of the holder and of the node. -/
def holderEphemeral : Bytes32 := 0x4c2817a9d668ed844d2f95b93b69ecb8485095783a015a424164b0d09702894f

def nodeEphemeral : Bytes32 := 0x19d80204bf85f3e1118e1b23410c88f0d0eeced5156f4c5bdf347b14ed7ec63f

def nodeSecret : Bytes32 := 0xe2e2e2e2e2e2e2e2e2e2e2e2e2e2e2e2e2e2e2e2e2e2e2e2e2e2e2e2e2e2e2e2

def shared : Bytes32 := 0xc8856b5f4ab16ada321682f852d587eb263c7b3fb16c78a9e20c0023d4a02424

def genesisHash : Hash := ⟨0xdf840a304e772ef4cdfb23293d8adadde8d43567bde4b0190c3d954f696f0b0a⟩

def tokenSignature : Ed25519Signature :=
  ⟨0x072aea92c9b8517c5c8908576704aebc6f306ab0bb827a66bff472a415e182de9b3904bdfb92504592f956eb30dee98580532ab9870daa386eb137bd5dac2007⟩

def holder : SigningKey :=
  ⟨holderKey, fun m => if m = PeerAuthToken.message holderEphemeral holderKey then tokenSignature else ⟨0⟩⟩

/-- The node signs its token and its HelloAck. -/
def node : SigningKey where
  verifyingKey := nodeKey
  sign m :=
    if m = PeerAuthToken.message nodeEphemeral nodeKey then
      ⟨0xcc1e5385a9c700f0786c8312802e1d44987a8b31c89f40e08515ae9465f2899e35876dd74e49d37511374182825a4f33513e075badc591e4408116ebbbcda205⟩
    else if m = helloChallenge genesisHash 1767225600 7 nodeId then
      ⟨0x967fcea866ba3c82017dcfd66c3772aa845695f6388e527c1f86d7df91745114bedede50b82f49182ab56dea476815ab47adf5d58a3e3577780c4777ca58c107⟩
    else ⟨0⟩

def prims : Primitives where
  ext := .ofTables [(holderKey.asBytes, holderId), (nodeKey.asBytes, nodeId)]
    [(holderKey, PeerAuthToken.message holderEphemeral holderKey, tokenSignature)]
  verifyError _ _ _ := "Signature verification failed: signature error"
  x25519Public secret := if secret = nodeSecret then nodeEphemeral else 0
  diffieHellman secret pub := if secret = nodeSecret ∧ pub = holderEphemeral then shared else 0
  crypto :=
    { encrypt := fun _ _ _ => none
      decrypt := fun _ _ _ => none
      deriveKey := fun context secret =>
        if secret ≠ shared then 0
        else if context.take 13 = "CPP_INIT_SEND".toUTF8.toList then
          0x3bb7c036e6c3d5ac2a5be5bb97a6f2dda9cb9d1d1e104201a9f626f854c517ad
        else 0xf4dcfa67783ce71e744bf57b26a7b4ca05ae70069ac8c5bf3d8115918d0691d4 }

def config : NodeConfig := ⟨nodeId, some node, true⟩

def chainState : ChainState := ⟨0, genesisHash, genesisHash⟩

/-- A Hello that names the holder's peer, without a signature. -/
def hello : HelloMessage := ⟨2, holderId, 0, genesisHash, genesisHash, 1, 1767225600, 0, ⟨0⟩, ⟨0⟩⟩

/-- A block is announced. -/
def newBlock : MessageEnvelope := ⟨0x20, []⟩

/-- The holder makes a token. This sender presents it to the node and goes on in the holder's name. -/
def inputs (sender : Sender) : List Input :=
  [.make holderEphemeral, .accept 0, .token 0 sender (PeerAuthToken.new holderEphemeral holder).toBytes
    nodeSecret, .hello 0 hello 1767225600 7, .register 0, .turn 0, .message 0 sender true newBlock]

end Sample

/-- The holder comes itself. -/
theorem authentic_iff_holder_comes :
    Authentic Sample.holderId ((Node.machine Sample.prims Sample.config Sample.holder).final
        (Sample.inputs .holder) (.new Sample.chainState)) ∧
      ((Node.machine Sample.prims Sample.config Sample.holder).final
        (Sample.inputs .holder) (.new Sample.chainState)).records =
        [.processed 0 Sample.holderId .holder Sample.newBlock, .registered 0 Sample.holderId .holder] := by
  have hid : peerIdOf Sample.prims Sample.holder.verifyingKey = Sample.holderId := by decide +kernel
  have hiff := authentic_iff Sample.prims Sample.config Sample.holder Sample.chainState
    (Sample.inputs .holder) rfl (by decide +kernel)
  rw [hid] at hiff
  exact ⟨(hiff.mpr (by decide +kernel)).2, by decide +kernel⟩

/-- Somebody else presents a token of the holder that was recorded, and is registered as its peer. -/
theorem replayed_token_registered :
    (∀ p ∈ (Node.machine Sample.prims Sample.config Sample.holder).trace (Sample.inputs .other)
        (.new Sample.chainState), Ideal Sample.prims Sample.holder p) ∧
      peerIdOf Sample.prims Sample.holder.verifyingKey = Sample.holderId ∧
      ((Node.machine Sample.prims Sample.config Sample.holder).final
        (Sample.inputs .other) (.new Sample.chainState)).records =
        [.processed 0 Sample.holderId .other Sample.newBlock, .registered 0 Sample.holderId .other] ∧
      ¬ Authentic Sample.holderId ((Node.machine Sample.prims Sample.config Sample.holder).final
        (Sample.inputs .other) (.new Sample.chainState)) := by
  refine ⟨?_, ?_, ?_, ?_⟩
  · decide +kernel
  · decide +kernel
  · decide +kernel
  · decide +kernel

end Coinjecture.Network.Cpp.Authentication
