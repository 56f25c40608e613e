import Coinjecture.ApiServer.SignIn
import Coinjecture.Lib.Trace
import Mathlib.Data.List.Perm.Subperm

/-! # Runs of the sign-in server

Challenges, answers and clean-ups in any order, each taking effect at once; what a request found out before comes
with it. The server is taken with the challenges that it has given and the tokens that it has issued.

* `authenticate_ok` : what an answer was checked against.
* `sign_in_sound` : in every run each token is for a challenge of its own, given to the same wallet, whose text the
  wallet's key has signed in time; the store stays within its capacity; and an owner who answers in time is never
  refused. -/

namespace Coinjecture.ApiServer.SignInRuns

open Lib.Bincode Lib.Texts Lib.Trace
open ApiServer.SignIn

/-- A token that was issued, with the nonce and the entry that it used up. -/
structure Token where
  request : VerifyRequest
  response : VerifyResponse
  now : ℕ
  challenge : Text × NonceEntry

/-- The store, with the challenges that went into it and the tokens. -/
structure Server where
  nonceStore : NonceStore
  challenges : List (Text × NonceEntry)
  tokens : List Token

/-- A request that takes effect. What it found out before, and what the crates draw at random, come with it. -/
inductive Event where
  | challenge (now len : ℕ) (nonce : Text) (request : ChallengeRequest)
  | verify (now later : ℕ) (userId : Text) (request : VerifyRequest)
  | cleanup (now : ℕ) (shard : List Text)

namespace Server

def new (maxEntries : ℕ) : Server := ⟨.new maxEntries, [], []⟩

def takeChallenge (crates : Crates) (config : Config) (now len : ℕ) (nonce : Text) (request : ChallengeRequest)
    (s : Server) : Server :=
  match challenge crates config now len nonce request s.nonceStore with
  | (.ok _, store) => { s with
      nonceStore := store
      challenges := (nonce, pending crates config now nonce request.walletAddress) :: s.challenges }
  | (.error _, store) => { s with nonceStore := store }

def takeVerify (crates : Crates) (config : Config) (now later : ℕ) (userId : Text) (request : VerifyRequest)
    (s : Server) : Server :=
  let (response, store) := verify crates config now later userId request s.nonceStore
  { s with
    nonceStore := store
    tokens := match (authenticate crates now request s.nonceStore).1, response with
      | .ok challenge, .ok response => ⟨request, response, now, challenge⟩ :: s.tokens
      | _, _ => s.tokens }

end Server

def machine (crates : Crates) (config : Config) : Machine Event Server where
  next
    | .challenge now len nonce request, s => s.takeChallenge crates config now len nonce request
    | .verify now later userId request, s => s.takeVerify crates config now later userId request
    | .cleanup now shard, s => { s with nonceStore := s.nonceStore.cleanupExpired now shard }
  halts _ _ := false

/-- The token is for the challenge's wallet, whose key has signed the challenge's text, and came in time. -/
structure Token.Sound (crates : Crates) (config : Config) (signed : Bytes → Bytes → Prop) (token : Token) : Prop where
  wallet : ∃ claims, crates.encodeToken config.supabaseJwtSecret claims = .ok token.response.token ∧
    claims.walletAddress = some token.challenge.2.walletAddress
  message : token.request.message = token.challenge.2.message
  inTime : token.now ≤ token.challenge.2.expiresAt
  signed : ∃ key, crates.hexDecode token.challenge.2.walletAddress = .ok key ∧
    signed key (asBytes token.challenge.2.message)

/-- The tokens are for different challenges, all given before. -/
structure Sound (crates : Crates) (config : Config) (signed : Bytes → Bytes → Prop) (s : Server) : Prop where
  once : (s.tokens.map Token.challenge).Subperm s.challenges
  distinct : (s.challenges.map Prod.fst).Nodup → (s.tokens.map fun token => token.challenge.1).Nodup
  tokens : ∀ token ∈ s.tokens, token.Sound crates config signed

/-- No request has come between the look at the length and the insertion. -/
def OneAtATime : Event × Server → Prop
  | (.challenge _ len _ _, s) => len = s.nonceStore.entries.length
  | _ => True

/-- The owner who answers a pending challenge in time, with a signature that verifies, gets a token, if one can be
made at all. -/
structure Answers (crates : Crates) (config : Config) (now : ℕ) (nonce walletAddress : Text) : Prop where
  parses : ∃ siwb, SiwbMessage.fromMessageString crates
    (pending crates config now nonce walletAddress).message = .ok siwb ∧ siwb.nonce = nonce
  accepts : ∀ (store : NonceStore) (now' later : ℕ) (userId signature : Text),
    store.entries.lookup nonce = some (pending crates config now nonce walletAddress) → now' ≤ now + TTL →
    signature ≠ [] → checkSignature crates
      ⟨walletAddress, signature, (pending crates config now nonce walletAddress).message⟩ = .ok () →
    (verify crates config now' later userId
      ⟨walletAddress, signature, (pending crates config now nonce walletAddress).message⟩ store).1 =
    (issueToken crates later config.supabaseJwtSecret userId (some walletAddress) none config.network
      config.jwtExpirySeconds).map fun token => ⟨token, userId, walletAddress⟩

/-! ### What the handlers do -/

section
variable {crates : Crates} {config : Config} {signed : Bytes → Bytes → Prop} {store store' : NonceStore}
  {now later len : ℕ} {nonce userId : Text} {entry : NonceEntry} {request : VerifyRequest} {s : Server}

theorem insert_ok (h : store.insert len nonce entry = .ok store') :
    store' = { store with entries := (nonce, entry) :: (store.remove nonce).entries } ∧ len < store.maxEntries := by
  rw [NonceStore.insert] at h
  split_ifs at h with hfull
  exact ⟨(Except.ok.inj h).symm, not_le.mp hfull⟩

theorem validate_ok {e : NonceEntry} {walletAddress message : Text}
    (h : NonceStore.validate now walletAddress message entry = .ok e) :
    e = entry ∧ now ≤ entry.expiresAt ∧ entry.walletAddress = walletAddress ∧ entry.message = message := by
  rw [NonceStore.validate] at h
  split_ifs at h with hexpired hwallet hmessage
  exact ⟨(Except.ok.inj h).symm, not_lt.mp hexpired, not_not.mp hwallet, not_not.mp hmessage⟩

theorem mapError_ok {ε ε' α : Type} {f : ε → ε'} {x : Except ε α} {a : α} (h : x.mapError f = .ok a) :
    x = .ok a := by
  cases x with
  | error e => cases h
  | ok b => exact congrArg Except.ok (Except.ok.inj h)

theorem bind_ok {ε α β : Type} {x : Except ε α} {f : α → Except ε β} {b : β} (h : x >>= f = .ok b) :
    ∃ a, x = .ok a ∧ f a = .ok b := by
  cases x with
  | error e => cases h
  | ok a => exact ⟨a, rfl, h⟩

theorem verifyEd25519Signature_true {key message signature : Bytes}
    (h : verifyEd25519Signature crates key message signature = .ok true) :
    crates.ed25519Verify key message signature = true := by
  rw [verifyEd25519Signature] at h
  by_cases hkey : key.length ≠ 32
  · rw [if_pos hkey] at h
    cases h
  · rw [if_neg hkey] at h
    obtain ⟨_, -, h⟩ := bind_ok h
    by_cases hsignature : signature.length ≠ 64
    · rw [if_pos hsignature] at h
      cases h
    · rw [if_neg hsignature] at h
      exact Except.ok.inj h

theorem checkSignature_ok (h : checkSignature crates request = .ok ()) :
    ∃ key signature, crates.hexDecode request.walletAddress = .ok key ∧
      crates.ed25519Verify key (asBytes request.message) signature = true := by
  obtain ⟨key, hkey, h⟩ := bind_ok h
  obtain ⟨signature, -, h⟩ := bind_ok h
  obtain ⟨valid, hvalid, h⟩ := bind_ok h
  refine ⟨key, signature, mapError_ok hkey, verifyEd25519Signature_true ?_⟩
  cases valid with
  | true => exact mapError_ok hvalid
  | false => cases h

/-- What a signature was checked against: the entry under the nonce that the message names. -/
structure Authenticated (crates : Crates) (now : ℕ) (request : VerifyRequest) (store store' : NonceStore)
    (nonce : Text) (entry : NonceEntry) : Prop where
  found : store.entries.lookup nonce = some entry
  removed : store' = store.remove nonce
  inTime : now ≤ entry.expiresAt
  wallet : entry.walletAddress = request.walletAddress
  message : entry.message = request.message
  verified : ∃ key signature, crates.hexDecode request.walletAddress = .ok key ∧
    crates.ed25519Verify key (asBytes request.message) signature = true

/-- A nonce that is looked up is gone, whatever comes of it. -/
theorem validateAndRemove_store (walletAddress message : Text) :
    (store.validateAndRemove now nonce walletAddress message).2.entries.Sublist store.entries ∧
      (store.validateAndRemove now nonce walletAddress message).2.maxEntries = store.maxEntries := by
  rw [NonceStore.validateAndRemove]
  cases store.entries.lookup nonce with
  | none => exact ⟨List.Sublist.refl _, rfl⟩
  | some entry => exact ⟨List.filter_sublist, rfl⟩

theorem authenticate_store (crates : Crates) (now : ℕ) (request : VerifyRequest) (store : NonceStore) :
    (authenticate crates now request store).2.entries.Sublist store.entries ∧
      (authenticate crates now request store).2.maxEntries = store.maxEntries := by
  rw [authenticate]
  by_cases hempty : request.walletAddress = [] ∨ request.signature = [] ∨ request.message = []
  · rw [if_pos hempty]
    exact ⟨List.Sublist.refl _, rfl⟩
  · rw [if_neg hempty]
    cases SiwbMessage.fromMessageString crates request.message with
    | error e => exact ⟨List.Sublist.refl _, rfl⟩
    | ok siwb => exact validateAndRemove_store _ _

theorem authenticate_ok (h : (authenticate crates now request store).1 = .ok (nonce, entry)) :
    Authenticated crates now request store (authenticate crates now request store).2 nonce entry := by
  rw [authenticate] at h ⊢
  by_cases hempty : request.walletAddress = [] ∨ request.signature = [] ∨ request.message = []
  · rw [if_pos hempty] at h
    cases h
  · rw [if_neg hempty] at h ⊢
    cases hparse : SiwbMessage.fromMessageString crates request.message with
    | error e =>
      rw [hparse] at h
      cases h
    | ok siwb =>
      rw [hparse] at h
      dsimp only at h ⊢
      obtain ⟨e, he, h⟩ := bind_ok h
      obtain ⟨⟨⟩, hcheck, h⟩ := bind_ok h
      obtain ⟨rfl, rfl⟩ := Prod.mk.inj (Except.ok.inj h)
      have hvalid := mapError_ok he
      rw [NonceStore.validateAndRemove] at hvalid ⊢
      cases hfound : store.entries.lookup siwb.nonce with
      | none =>
        rw [hfound] at hvalid
        cases hvalid
      | some found =>
        rw [hfound] at hvalid
        obtain ⟨rfl, hinTime, hwallet, hmessage⟩ := validate_ok hvalid
        exact ⟨hfound, rfl, hinTime, hwallet, hmessage, checkSignature_ok hcheck⟩

theorem verify_store (crates : Crates) (config : Config) (now later : ℕ) (userId : Text) (request : VerifyRequest)
    (store : NonceStore) : (verify crates config now later userId request store).2 =
      (authenticate crates now request store).2 := rfl

theorem verify_ok {response : VerifyResponse}
    (h : (verify crates config now later userId request store).1 = .ok response) :
    ∃ claims, crates.encodeToken config.supabaseJwtSecret claims = .ok response.token ∧
      claims.walletAddress = some request.walletAddress := by
  obtain ⟨_, -, h⟩ := bind_ok h
  obtain ⟨token, htoken, h⟩ := bind_ok h
  obtain rfl := Except.ok.inj h
  exact ⟨_, mapError_ok htoken, rfl⟩

/-! ### What holds between two requests -/

/-- A challenge is pending, used up or lost, and only one of these. -/
structure Inv (crates : Crates) (config : Config) (signed : Bytes → Bytes → Prop) (s : Server) : Prop where
  used : (s.tokens.map Token.challenge ++ s.nonceStore.entries).Subperm s.challenges
  tokens : ∀ token ∈ s.tokens, token.Sound crates config signed

theorem Inv.sound (h : Inv crates config signed s) : Sound crates config signed s := by
  have honce := ((List.sublist_append_left _ s.nonceStore.entries).subperm).trans h.used
  refine ⟨honce, fun hnodup => ?_, h.tokens⟩
  obtain ⟨used, hperm, hsub⟩ := honce
  have hused := hnodup.sublist (hsub.map Prod.fst)
  rw [(hperm.map Prod.fst).nodup_iff, List.map_map] at hused
  exact hused

theorem inv_new (maxEntries : ℕ) : Inv crates config signed (Server.new maxEntries) :=
  ⟨List.Subperm.refl _, fun _ h => absurd h List.not_mem_nil⟩

/-- A store that loses entries. -/
theorem Inv.shrink (h : Inv crates config signed s) (hsub : store.entries.Sublist s.nonceStore.entries) :
    Inv crates config signed { s with nonceStore := store } :=
  ⟨((hsub.append_left _).subperm).trans h.used, h.tokens⟩

/-- A challenge that is refused changes nothing. -/
theorem takeChallenge_cases (crates : Crates) (config : Config) (now len : ℕ) (nonce : Text)
    (request : ChallengeRequest) (s : Server) :
    s.takeChallenge crates config now len nonce request = s ∨
    len < s.nonceStore.maxEntries ∧ s.takeChallenge crates config now len nonce request = { s with
      nonceStore := { s.nonceStore with
        entries := (nonce, pending crates config now nonce request.walletAddress) ::
          (s.nonceStore.remove nonce).entries }
      challenges := (nonce, pending crates config now nonce request.walletAddress) :: s.challenges } := by
  unfold Server.takeChallenge challenge
  by_cases hlength : (asBytes request.walletAddress).length ≠ 64
  · rw [if_pos hlength]
    exact .inl rfl
  · rw [if_neg hlength]
    cases crates.hexDecode request.walletAddress with
    | error e => exact .inl rfl
    | ok key =>
      dsimp only
      cases hinsert : s.nonceStore.insert len nonce (pending crates config now nonce request.walletAddress) with
      | error e => exact .inl rfl
      | ok store =>
        obtain ⟨rfl, hroom⟩ := insert_ok hinsert
        exact .inr ⟨hroom, rfl⟩

theorem takeChallenge_inv (request : ChallengeRequest) (h : Inv crates config signed s) :
    Inv crates config signed (s.takeChallenge crates config now len nonce request) := by
  rcases takeChallenge_cases crates config now len nonce request s with hsame | ⟨-, hnew⟩
  · rw [hsame]
    exact h
  · rw [hnew]
    -- an entry that was there under the same nonce is lost
    have hused := (@Inv.shrink crates config signed (s.nonceStore.remove nonce) s h List.filter_sublist).used
    exact ⟨List.perm_middle.subperm.trans ((List.subperm_cons _).mpr hused), h.tokens⟩

/-- The entry that was found, and what is left without it. -/
theorem subperm_of_lookup {l : List (Text × NonceEntry)} (h : l.lookup nonce = some entry) :
    ((nonce, entry) :: l.filter fun e => e.1 ≠ nonce).Subperm l := by
  obtain ⟨front, back, rfl, -⟩ := List.lookup_eq_some_iff.mp h
  rw [List.filter_append, List.filter_cons_of_neg (by simp)]
  refine List.Subperm.trans ?_ List.perm_middle.symm.subperm
  exact (List.subperm_cons _).mpr (List.filter_sublist.append List.filter_sublist).subperm

/-- An answer that is refused takes at most its entry from the store. -/
theorem takeVerify_cases (crates : Crates) (config : Config) (now later : ℕ) (userId : Text)
    (request : VerifyRequest) (s : Server) :
    s.takeVerify crates config now later userId request =
      { s with nonceStore := (authenticate crates now request s.nonceStore).2 } ∨
    ∃ nonce entry response, (authenticate crates now request s.nonceStore).1 = .ok (nonce, entry) ∧
      (verify crates config now later userId request s.nonceStore).1 = .ok response ∧
      s.takeVerify crates config now later userId request = { s with
        nonceStore := s.nonceStore.remove nonce
        tokens := ⟨request, response, now, nonce, entry⟩ :: s.tokens } := by
  unfold Server.takeVerify
  dsimp only
  rw [verify_store]
  cases hresult : (authenticate crates now request s.nonceStore).1 with
  | error e => exact .inl rfl
  | ok challenge =>
    cases hresponse : (verify crates config now later userId request s.nonceStore).1 with
    | error e => exact .inl rfl
    | ok response =>
      refine .inr ⟨challenge.1, challenge.2, response, rfl, rfl, ?_⟩
      rw [(authenticate_ok hresult).removed]

/-- The token that is issued is for the wallet of the entry, whose key has signed the entry's message. -/
theorem Authenticated.token_sound {response : VerifyResponse} (hlawful : crates.Lawful signed)
    (h : Authenticated crates now request store store' nonce entry)
    (hresponse : (verify crates config now later userId request store).1 = .ok response) :
    Token.Sound crates config signed ⟨request, response, now, nonce, entry⟩ := by
  obtain ⟨key, signature, hkey, hverified⟩ := h.verified
  refine ⟨?_, h.message.symm, h.inTime, key, ?_, ?_⟩
  · dsimp only
    rw [h.wallet]
    exact verify_ok hresponse
  · dsimp only
    rw [h.wallet]
    exact hkey
  · dsimp only
    rw [h.message]
    exact hlawful.unforgeable _ _ _ hverified

theorem takeVerify_inv (hlawful : crates.Lawful signed) (h : Inv crates config signed s) :
    Inv crates config signed (s.takeVerify crates config now later userId request) := by
  rcases takeVerify_cases crates config now later userId request s with
    hrefused | ⟨nonce, entry, response, hresult, hresponse, hissued⟩
  · rw [hrefused]
    exact h.shrink (authenticate_store crates now request s.nonceStore).1
  · have hauth := authenticate_ok hresult
    rw [hissued]
    refine ⟨?_, List.forall_mem_cons.mpr ⟨hauth.token_sound hlawful hresponse, h.tokens⟩⟩
    refine List.Subperm.trans ?_ h.used
    refine List.perm_middle.symm.subperm.trans ?_
    exact (List.Subperm.refl _).append (subperm_of_lookup hauth.found)

theorem next_inv (hlawful : crates.Lawful signed) (event : Event) (h : Inv crates config signed s) :
    Inv crates config signed ((machine crates config).next event s) := by
  cases event with
  | challenge now len nonce request => exact takeChallenge_inv request h
  | verify now later userId request => exact takeVerify_inv hlawful h
  | cleanup now shard => exact h.shrink List.filter_sublist

/-! ### The capacity -/

structure WithinCapacity (maxEntries : ℕ) (s : Server) : Prop where
  capacity : s.nonceStore.maxEntries = maxEntries
  length : s.nonceStore.entries.length ≤ maxEntries

theorem takeChallenge_withinCapacity {maxEntries : ℕ} (request : ChallengeRequest)
    (h : WithinCapacity maxEntries s) (hlen : len = s.nonceStore.entries.length) :
    WithinCapacity maxEntries (s.takeChallenge crates config now len nonce request) := by
  rcases takeChallenge_cases crates config now len nonce request s with hsame | ⟨hroom, hnew⟩
  · rw [hsame]
    exact h
  · rw [hnew]
    rw [hlen, h.capacity] at hroom
    exact ⟨h.capacity, (Nat.succ_le_succ (List.length_filter_le _ _)).trans hroom⟩

theorem next_withinCapacity {maxEntries : ℕ} (event : Event) (h : WithinCapacity maxEntries s)
    (hone : OneAtATime (event, s)) : WithinCapacity maxEntries ((machine crates config).next event s) := by
  cases event with
  | challenge now len nonce request => exact takeChallenge_withinCapacity request h hone
  | verify now later userId request =>
    obtain ⟨hsub, hcapacity⟩ := authenticate_store crates now request s.nonceStore
    exact ⟨hcapacity.trans h.capacity, hsub.length_le.trans h.length⟩
  | cleanup now shard => exact ⟨h.capacity, (List.length_filter_le _ _).trans h.length⟩

/-! ### The owner's answer -/

theorem authenticate_of_found {siwb : SiwbMessage}
    (hfields : ¬ (request.walletAddress = [] ∨ request.signature = [] ∨ request.message = []))
    (hparse : SiwbMessage.fromMessageString crates request.message = .ok siwb)
    (hfound : store.entries.lookup siwb.nonce = some entry)
    (hvalid : NonceStore.validate now request.walletAddress request.message entry = .ok entry)
    (hcheck : checkSignature crates request = .ok ()) :
    (authenticate crates now request store).1 = .ok (siwb.nonce, entry) := by
  rw [authenticate, if_neg hfields, hparse]
  dsimp only
  rw [NonceStore.validateAndRemove, hfound]
  dsimp only
  rw [hvalid, hcheck]
  rfl

theorem validate_pending {walletAddress : Text} {now' : ℕ} (h : now' ≤ now + TTL) :
    NonceStore.validate now' walletAddress (pending crates config now nonce walletAddress).message
      (pending crates config now nonce walletAddress) = .ok (pending crates config now nonce walletAddress) := by
  have hexpires : ¬ (pending crates config now nonce walletAddress).expiresAt < now' := not_lt.mpr h
  have hwallet : ¬ (pending crates config now nonce walletAddress).walletAddress ≠ walletAddress := not_not.mpr rfl
  rw [NonceStore.validate, if_neg hexpires, if_neg hwallet, if_neg (not_not.mpr rfl)]

/-- No message without text is read. -/
theorem message_ne_nil {message : Text} {siwb : SiwbMessage}
    (h : SiwbMessage.fromMessageString crates message = .ok siwb) : message ≠ [] := by
  rintro rfl
  cases h

theorem answers {walletAddress : Text} (h : crates.Lawful signed) (hwallet : IsAddress walletAddress)
    (hnetwork : '\n' ∉ config.network) (hnonce : IsUuid nonce) (ht : FourDigitYear (now + TTL)) :
    Answers crates config now nonce walletAddress := by
  have hparses := message_parses h hwallet hnetwork hnonce ht
  refine ⟨hparses, fun store now' later userId signature hfound hinTime hsignature hcheck => ?_⟩
  obtain ⟨siwb, hparse, rfl⟩ := hparses
  have haddress : walletAddress ≠ [] := by
    rintro rfl
    exact absurd hwallet.1 (by decide)
  have hauth := @authenticate_of_found crates store now' _
    ⟨walletAddress, signature, (pending crates config now siwb.nonce walletAddress).message⟩ siwb
    (not_or.mpr ⟨haddress, not_or.mpr ⟨hsignature, message_ne_nil hparse⟩⟩) hparse hfound
    (validate_pending hinTime) hcheck
  rw [verify]
  dsimp only
  rw [hauth]
  cases issueToken crates later config.supabaseJwtSecret userId (some walletAddress) none config.network
    config.jwtExpirySeconds with
  | error e => rfl
  | ok token => rfl

end

/-- In every run, and so in every state of it, the tokens are for different challenges, each given before to the
token's wallet, with the text that the wallet's key has signed, and not expired; if the requests come one at a time,
no more challenges are pending than the store takes; and the owner who answers a challenge in time is let in. -/
theorem sign_in_sound {crates : Crates} {signed : Bytes → Bytes → Prop} (hlawful : crates.Lawful signed)
    (config : Config) (maxEntries : ℕ) (events : List Event) :
    Sound crates config signed ((machine crates config).final events (Server.new maxEntries)) ∧
    ((∀ p ∈ (machine crates config).trace events (Server.new maxEntries), OneAtATime p) →
      ((machine crates config).final events (Server.new maxEntries)).nonceStore.entries.length ≤ maxEntries) ∧
    ∀ now nonce walletAddress, IsAddress walletAddress → '\n' ∉ config.network → IsUuid nonce →
      FourDigitYear (now + TTL) → Answers crates config now nonce walletAddress := by
  refine ⟨Inv.sound ?_, fun hone => ?_, fun now nonce walletAddress => answers hlawful⟩
  · exact Machine.invariant (fun p _ h => next_inv hlawful p.1 h) (inv_new maxEntries)
  · have hcapacity : WithinCapacity maxEntries ((machine crates config).final events (Server.new maxEntries)) :=
      Machine.invariant (fun p hp h => next_withinCapacity p.1 h (hone p hp)) ⟨rfl, Nat.zero_le _⟩
    exact hcapacity.length

/-! ### Alice signs in -/

namespace Sample

def start : Text := "1970-01-01T00:00:00+00:00".toList

def fiveMinutes : Text := "1970-01-01T00:05:00+00:00".toList

/-- The two instants of the run as `chrono` writes them, and other texts for the others. -/
def written (t : ℕ) : Text := if t = 0 then start else if t = TTL then fiveMinutes else List.replicate t '1'

def readBack (s : Text) : Except String ℕ :=
  if s = start then .ok 0 else if s = fiveMinutes then .ok TTL else .ok s.length

def digit (c : Char) : Except String UInt8 :=
  if '0' ≤ c ∧ c ≤ '9' then .ok (UInt8.ofNat (c.toNat - 48))
  else if 'a' ≤ c ∧ c ≤ 'f' then .ok (UInt8.ofNat (c.toNat - 87))
  else if 'A' ≤ c ∧ c ≤ 'F' then .ok (UInt8.ofNat (c.toNat - 55))
  else .error "Invalid character"

def unhex : Text → Except String Bytes
  | [] => .ok []
  | [_] => .error "Odd number of digits"
  | c :: d :: s => do
    let high ← digit c
    let low ← digit d
    let rest ← unhex s
    return (high * 16 + low) :: rest

def unsigned : Crates where
  toRfc3339 := written
  parseFromRfc3339 := readBack
  hexDecode := unhex
  keyFromBytes _ := .ok ()
  ed25519Verify _ _ _ := false
  encodeToken secret claims := .ok (secret ++ claims.sub)

def config : Config where
  network := "testnet".toList
  supabaseJwtSecret := "secret".toList
  jwtExpirySeconds := 86400

def aliceAddress : Text := List.replicate 64 'a'

def aliceNonce : Text := "00000000-0000-4000-8000-000000000000".toList

def aliceSignature : Text := (List.replicate 64 ['0', '1']).flatten

def aliceText : Text := (pending unsigned config 0 aliceNonce aliceAddress).message

/-- Alice has signed the text of her challenge, and nobody anything else. -/
def crates : Crates := { unsigned with
  ed25519Verify := fun key message signature =>
    key = List.replicate 32 0xaa ∧ message = asBytes aliceText ∧ signature = List.replicate 64 1 }

def signed (key message : Bytes) : Prop := key = List.replicate 32 0xaa ∧ message = asBytes aliceText

def events : List Event := [
  .challenge 0 0 aliceNonce ⟨aliceAddress⟩,
  .verify 1 2 aliceAddress ⟨aliceAddress, aliceSignature, aliceText⟩]

theorem not_mem_replicate {t : ℕ} {c : Char} (h : c ≠ '1') : c ∉ List.replicate t '1' :=
  fun hmem => h (List.eq_of_mem_replicate hmem)

theorem readBack_written (t : ℕ) : readBack (written t) = .ok t := by
  rw [written]
  by_cases h0 : t = 0
  · rw [if_pos h0, readBack, if_pos rfl, h0]
  · rw [if_neg h0]
    by_cases h1 : t = TTL
    · rw [if_pos h1, readBack, if_neg (by decide), if_pos rfl, h1]
    · have hhyphen : '-' ∉ List.replicate t '1' := not_mem_replicate (by decide)
      have hstart : List.replicate t '1' ≠ start := fun h => hhyphen (h ▸ by decide)
      have hfive : List.replicate t '1' ≠ fiveMinutes := fun h => hhyphen (h ▸ by decide)
      rw [if_neg h1, readBack, if_neg hstart, if_neg hfive, List.length_replicate]

theorem written_plain (t : ℕ) : written t ≠ [] ∧ ∀ c ∈ written t, isWhitespace c = false := by
  rw [written]
  by_cases h0 : t = 0
  · rw [if_pos h0]
    exact ⟨by decide, plain_of_all (by decide)⟩
  · rw [if_neg h0]
    by_cases h1 : t = TTL
    · rw [if_pos h1]
      exact ⟨by decide, plain_of_all (by decide)⟩
    · rw [if_neg h1]
      refine ⟨fun h => h0 (List.length_replicate.symm.trans (congrArg List.length h)), fun c hc => ?_⟩
      rw [List.eq_of_mem_replicate hc]
      rfl

theorem lawful : crates.Lawful signed where
  parse_toRfc3339 t _ := readBack_written t
  toRfc3339_ne_nil t _ := (written_plain t).1
  toRfc3339_plain t _ := (written_plain t).2
  unforgeable _ _ _ h := ⟨(of_decide_eq_true h).1, (of_decide_eq_true h).2.1⟩

/-- A challenge and its answer, one nanosecond later. -/
theorem alice_signs_in :
    ((machine crates config).final events (Server.new 1)).tokens.length = 1 ∧
    Sound crates config signed ((machine crates config).final events (Server.new 1)) ∧
    ((machine crates config).final events (Server.new 1)).nonceStore.entries.length ≤ 1 ∧
    Answers crates config 0 aliceNonce aliceAddress := by
  obtain ⟨hsound, hcapacity, hanswers⟩ := sign_in_sound lawful config 1 events
  refine ⟨by decide +kernel, hsound, hcapacity ?_, hanswers 0 aliceNonce aliceAddress ?_ ?_ ?_ ?_⟩
  · exact List.forall_mem_cons.mpr ⟨rfl, List.forall_mem_singleton.mpr trivial⟩
  · exact ⟨List.length_replicate, subset_of_all (by decide +kernel)⟩
  · decide +kernel
  · exact subset_of_all (by decide +kernel)
  · exact (by decide : 0 + TTL < 253402300800 * 10 ^ 9)

end Sample

end Coinjecture.ApiServer.SignInRuns
