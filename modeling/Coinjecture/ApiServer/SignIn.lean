import Coinjecture.Lib.Bincode
import Coinjecture.Lib.Texts

/-! # Signing in with a wallet

The server gives out a challenge with a nonce, the owner of the wallet signs its text and sends it back, and the
server, which reads the nonce out of the text that it is sent, issues a token.

* `message_parses` : the text of a challenge is read back with its nonce. -/

namespace Coinjecture.ApiServer.SignIn

open Lib.Bincode Lib.Texts

/-! ### Other crates -/

structure Claims where
  sub : Text
  walletAddress : Option Text
  email : Option Text
  network : Text
  iat : ℕ
  exp : ℕ
  iss : Text
  aud : Text

/-- What the server takes from other crates: `chrono`'s texts of an instant, `hex`, `ed25519_dalek` and
`jsonwebtoken`. Instants are in nanoseconds since the epoch. -/
structure Crates where
  toRfc3339 : ℕ → Text
  parseFromRfc3339 : Text → Except String ℕ
  hexDecode : Text → Except String Bytes
  keyFromBytes : Bytes → Except String Unit
  ed25519Verify : Bytes → Bytes → Bytes → Bool
  encodeToken : Text → Claims → Except String Text

/-- The instant is before the year 10000, which RFC 3339 cannot write. -/
def FourDigitYear (t : ℕ) : Prop := t < 253402300800 * 10 ^ 9

/-- Instants are read back as they were written, and their texts have no white space. A signature verifies only for
a text that the owner of the key has signed. -/
structure Crates.Lawful (crates : Crates) (signed : Bytes → Bytes → Prop) : Prop where
  parse_toRfc3339 : ∀ t, FourDigitYear t → crates.parseFromRfc3339 (crates.toRfc3339 t) = .ok t
  toRfc3339_ne_nil : ∀ t, FourDigitYear t → crates.toRfc3339 t ≠ []
  toRfc3339_plain : ∀ t, FourDigitYear t → ∀ c ∈ crates.toRfc3339 t, isWhitespace c = false
  unforgeable : ∀ key message signature, crates.ed25519Verify key message signature = true → signed key message

/-! ### The message -/

structure SiwbMessage where
  domain : Text
  walletAddress : Text
  statement : Text
  uri : Text
  version : Text
  chainId : Text
  nonce : Text
  issuedAt : ℕ
  expirationTime : ℕ

inductive SiwbError where
  | ParseError (message : String)
  | Expired
  | InvalidFormat (message : String)

/-- 300 seconds. -/
def TTL : ℕ := 300 * 10 ^ 9

namespace SiwbMessage

def new (now : ℕ) (walletAddress nonce network : Text) : SiwbMessage where
  domain := "coinjecture.com".toList
  walletAddress := walletAddress
  statement := "Sign in to COINjecture ".toList ++ network
  uri := "https://coinjecture.com".toList
  version := "1".toList
  chainId := "coinjecture:".toList ++ network
  nonce := nonce
  issuedAt := now
  expirationTime := now + TTL

/-- The lines of the format but the last. -/
def frontLines (crates : Crates) (m : SiwbMessage) : List Text := [
  m.domain ++ " wants you to sign in with your COINjecture account:".toList,
  m.walletAddress,
  [],
  m.statement,
  [],
  "URI: ".toList ++ m.uri,
  "Version: ".toList ++ m.version,
  "Chain ID: ".toList ++ m.chainId,
  "Nonce: ".toList ++ m.nonce,
  "Issued At: ".toList ++ crates.toRfc3339 m.issuedAt]

def toMessageString (crates : Crates) (m : SiwbMessage) : Text :=
  ['\n'].intercalate (m.frontLines crates ++ ["Expiration Time: ".toList ++ crates.toRfc3339 m.expirationTime])

/-- `ok_or_else`, with the text of the error. -/
def orMissing {α : Type} (what : String) : Option α → Except SiwbError α
  | some a => .ok a
  | none => .error (.ParseError ("Missing " ++ what))

/-- What is made of the lines. -/
def fromLines (crates : Crates) (lines : List Text) : Except SiwbError SiwbMessage := do
  let domain ← orMissing "domain line" (lines[0]?.map (before " wants you to sign in".toList))
  let walletAddress ← orMissing "wallet address" lines[1]?
  let statement ← orMissing "statement" lines[3]?
  let uri ← orMissing "URI" (extractField lines "URI: ".toList)
  let version ← orMissing "Version" (extractField lines "Version: ".toList)
  let chainId ← orMissing "Chain ID" (extractField lines "Chain ID: ".toList)
  let nonce ← orMissing "Nonce" (extractField lines "Nonce: ".toList)
  let issuedAtStr ← orMissing "Issued At" (extractField lines "Issued At: ".toList)
  let expirationStr ← orMissing "Expiration Time" (extractField lines "Expiration Time: ".toList)
  let issuedAt ← (crates.parseFromRfc3339 issuedAtStr).mapError fun e => .ParseError ("Invalid Issued At: " ++ e)
  let expirationTime ← (crates.parseFromRfc3339 expirationStr).mapError fun e =>
    .ParseError ("Invalid Expiration Time: " ++ e)
  return { domain, walletAddress, statement, uri, version, chainId, nonce, issuedAt, expirationTime }

def fromMessageString (crates : Crates) (message : Text) : Except SiwbError SiwbMessage :=
  fromLines crates (lines message)

end SiwbMessage

/-! ### The nonces -/

structure NonceEntry where
  walletAddress : Text
  message : Text
  createdAt : ℕ
  expiresAt : ℕ

inductive NonceError where
  | NotFound
  | Expired
  | StoreFull
  | WalletMismatch
  | MessageMismatch

def NonceError.display : NonceError → String
  | .NotFound => "Nonce not found or already used"
  | .Expired => "Nonce expired"
  | .StoreFull => "Too many pending challenges"
  | .WalletMismatch => "Wallet address mismatch"
  | .MessageMismatch => "Message mismatch"

structure NonceStore where
  entries : List (Text × NonceEntry)
  maxEntries : ℕ

namespace NonceStore

def new (maxEntries : ℕ) : NonceStore := ⟨[], maxEntries⟩

/-- `entries.remove`. -/
def remove (nonce : Text) (store : NonceStore) : NonceStore :=
  { store with entries := store.entries.filter fun e => e.1 ≠ nonce }

/-- `len` is what `entries.len()` has said; other requests may come between it and the insertion. -/
def insert (len : ℕ) (nonce : Text) (entry : NonceEntry) (store : NonceStore) : Except NonceError NonceStore :=
  if store.maxEntries ≤ len then .error .StoreFull
  else .ok { store with entries := (nonce, entry) :: (store.remove nonce).entries }

def validate (now : ℕ) (walletAddress message : Text) (entry : NonceEntry) : Except NonceError NonceEntry :=
  if entry.expiresAt < now then .error .Expired
  else if entry.walletAddress ≠ walletAddress then .error .WalletMismatch
  else if entry.message ≠ message then .error .MessageMismatch
  else .ok entry

def validateAndRemove (now : ℕ) (nonce walletAddress message : Text) (store : NonceStore) :
    Except NonceError NonceEntry × NonceStore :=
  match store.entries.lookup nonce with
  | none => (.error .NotFound, store)
  | some entry => (validate now walletAddress message entry, store.remove nonce)

/-- A shard of the map at a time: the nonces of the shard are listed. -/
def cleanupExpired (now : ℕ) (shard : List Text) (store : NonceStore) : NonceStore :=
  { store with entries := store.entries.filter fun e => e.1 ∉ shard ∨ now < e.2.expiresAt }

end NonceStore

/-! ### The handlers -/

structure Config where
  network : Text
  supabaseJwtSecret : Text
  jwtExpirySeconds : ℕ

inductive ApiError where
  | BadRequest (message : String)
  | Unauthorized (message : String)
  | Internal (message : String)

structure ChallengeRequest where
  walletAddress : Text

structure ChallengeResponse where
  message : Text
  nonce : Text

structure VerifyRequest where
  walletAddress : Text
  signature : Text
  message : Text

structure VerifyResponse where
  token : Text
  userId : Text
  walletAddress : Text

/-- What is stored for a challenge. -/
def pending (crates : Crates) (config : Config) (now : ℕ) (nonce walletAddress : Text) : NonceEntry :=
  let siwb := SiwbMessage.new now walletAddress nonce config.network
  ⟨walletAddress, siwb.toMessageString crates, siwb.issuedAt, siwb.expirationTime⟩

def challenge (crates : Crates) (config : Config) (now len : ℕ) (nonce : Text) (request : ChallengeRequest)
    (store : NonceStore) : Except ApiError ChallengeResponse × NonceStore :=
  if (asBytes request.walletAddress).length ≠ 64 then
    (.error (.BadRequest "wallet_address must be 64 hex characters (32 bytes)"), store)
  else match crates.hexDecode request.walletAddress with
    | .error _ => (.error (.BadRequest "wallet_address must be valid hex"), store)
    | .ok _ =>
      let entry := pending crates config now nonce request.walletAddress
      match store.insert len nonce entry with
      | .error e => (.error (.Internal ("Nonce store error: " ++ e.display)), store)
      | .ok store => (.ok ⟨entry.message, nonce⟩, store)

def verifyEd25519Signature (crates : Crates) (publicKeyBytes message signatureBytes : Bytes) :
    Except String Bool :=
  if publicKeyBytes.length ≠ 32 then .error "Invalid public key length (expected 32 bytes)"
  else do
    (crates.keyFromBytes publicKeyBytes).mapError fun e => "Invalid public key: " ++ e
    if signatureBytes.length ≠ 64 then .error "Invalid signature length (expected 64 bytes)"
    else return crates.ed25519Verify publicKeyBytes message signatureBytes

def authErr : ApiError := .Unauthorized "Invalid signature or expired challenge"

/-- Steps 3 and 4 of `verify`. -/
def checkSignature (crates : Crates) (request : VerifyRequest) : Except ApiError Unit := do
  let pubkeyBytes ← (crates.hexDecode request.walletAddress).mapError fun _ => authErr
  let sigBytes ← (crates.hexDecode request.signature).mapError fun _ => authErr
  let valid ← (verifyEd25519Signature crates pubkeyBytes (asBytes request.message) sigBytes).mapError fun _ => authErr
  if !valid then throw authErr

/-- `verify` up to the signature, with the nonce and the entry that it uses up. -/
def authenticate (crates : Crates) (now : ℕ) (request : VerifyRequest) (store : NonceStore) :
    Except ApiError (Text × NonceEntry) × NonceStore :=
  if request.walletAddress = [] ∨ request.signature = [] ∨ request.message = [] then
    (.error (.BadRequest "All fields are required"), store)
  else match SiwbMessage.fromMessageString crates request.message with
    | .error _ => (.error authErr, store)
    | .ok siwb =>
      let (result, store) := store.validateAndRemove now siwb.nonce request.walletAddress request.message
      (do
        let entry ← result.mapError fun _ => authErr
        checkSignature crates request
        return (siwb.nonce, entry), store)

def issueToken (crates : Crates) (now : ℕ) (secret sub : Text) (walletAddress email : Option Text) (network : Text)
    (expirySeconds : ℕ) : Except ApiError Text :=
  let claims : Claims := {
    sub := sub
    walletAddress := walletAddress
    email := email
    network := network
    iat := now / 10 ^ 9
    exp := now / 10 ^ 9 + expirySeconds
    iss := "coinjecture-api".toList
    aud := "coinjecture-app".toList }
  (crates.encodeToken secret claims).mapError fun e => .Internal ("JWT encoding failed: " ++ e)

/-- `userId` is what the look-up of the user comes to, and `later` the time after it. -/
def verify (crates : Crates) (config : Config) (now later : ℕ) (userId : Text) (request : VerifyRequest)
    (store : NonceStore) : Except ApiError VerifyResponse × NonceStore :=
  let (result, store) := authenticate crates now request store
  (do
    let _ ← result
    let token ← issueToken crates later config.supabaseJwtSecret userId (some request.walletAddress) none
      config.network config.jwtExpirySeconds
    return ⟨token, userId, request.walletAddress⟩, store)

/-! ### Reading a challenge back -/

def hexDigits : Text := "0123456789abcdefABCDEF".toList

def IsAddress (walletAddress : Text) : Prop := walletAddress.length = 64 ∧ ∀ c ∈ walletAddress, c ∈ hexDigits

/-- `Uuid::to_string` writes hexadecimal digits and hyphens. -/
def IsUuid (nonce : Text) : Prop := ∀ c ∈ nonce, c ∈ '-' :: hexDigits

section
variable {crates : Crates} {signed : Bytes → Bytes → Prop} {walletAddress nonce network : Text} {now t : ℕ}

theorem IsAddress.not_mem {c : Char} (h : IsAddress walletAddress) (hc : c ∉ hexDigits) : c ∉ walletAddress :=
  fun hmem => hc (h.2 c hmem)

/-- No name of a field is made of hexadecimal digits only. -/
theorem IsAddress.stripPrefix (h : IsAddress walletAddress) {p : Text} (hp : ' ' ∈ p) :
    Lib.Texts.stripPrefix p walletAddress = none :=
  stripPrefix_eq_none hp (h.not_mem (by decide))

theorem IsUuid.not_mem {c : Char} (h : IsUuid nonce) (hc : c ∉ '-' :: hexDigits) : c ∉ nonce :=
  fun hmem => hc (h c hmem)

theorem IsUuid.trim_eq (h : IsUuid nonce) : trim nonce = nonce := by
  have hplain : ∀ c ∈ '-' :: hexDigits, isWhitespace c = false := plain_of_all (by decide)
  exact trim_eq_self fun c hc => hplain c (h c hc)

theorem Crates.Lawful.not_mem (h : crates.Lawful signed) (ht : FourDigitYear t) {c : Char}
    (hc : isWhitespace c = true) : c ∉ crates.toRfc3339 t := by
  intro hmem
  rw [h.toRfc3339_plain t ht c hmem] at hc
  cases hc

theorem not_mem_append {c : Char} {p s : Text} (hp : c ∉ p) (hs : c ∉ s) : c ∉ p ++ s :=
  fun h => (List.mem_append.mp h).elim hp hs

section
variable (h : crates.Lawful signed) (hwallet : IsAddress walletAddress) (hnonce : IsUuid nonce)
  (ht : FourDigitYear (now + TTL))
include h hwallet hnonce ht

theorem newline_not_mem_message (hnetwork : '\n' ∉ network) :
    ∀ l ∈ (SiwbMessage.new now walletAddress nonce network).frontLines crates ++
      ["Expiration Time: ".toList ++ crates.toRfc3339 (now + TTL)], '\n' ∉ l := by
  have hnow : FourDigitYear now := (Nat.le_add_right now TTL).trans_lt ht
  have hdomain : '\n' ∉ "coinjecture.com".toList ++
      " wants you to sign in with your COINjecture account:".toList := by decide +kernel
  have huri : '\n' ∉ "URI: ".toList ++ "https://coinjecture.com".toList := by decide +kernel
  have hversion : '\n' ∉ "Version: ".toList ++ "1".toList := by decide +kernel
  refine List.forall_mem_append.mpr ⟨?_, List.forall_mem_singleton.mpr ?_⟩
  · refine List.forall_mem_cons.mpr ⟨hdomain, List.forall_mem_cons.mpr ⟨hwallet.not_mem (by decide),
      List.forall_mem_cons.mpr ⟨List.not_mem_nil, List.forall_mem_cons.mpr ⟨?_,
      List.forall_mem_cons.mpr ⟨List.not_mem_nil, List.forall_mem_cons.mpr ⟨huri,
      List.forall_mem_cons.mpr ⟨hversion, List.forall_mem_cons.mpr ⟨?_, List.forall_mem_cons.mpr ⟨?_,
      List.forall_mem_singleton.mpr ?_⟩⟩⟩⟩⟩⟩⟩⟩⟩
    · exact not_mem_append (by decide +kernel) hnetwork
    · exact not_mem_append (by decide +kernel) (not_mem_append (by decide +kernel) hnetwork)
    · exact not_mem_append (by decide +kernel) (hnonce.not_mem (by decide))
    · exact not_mem_append (by decide +kernel) (h.not_mem hnow (by decide))
  · exact not_mem_append (by decide +kernel) (h.not_mem ht (by decide))

/-- The lines that are read, in the order in which they are written. A carriage return at the end of the network's
name is lost. -/
theorem lines_message (hnetwork : '\n' ∉ network) :
    lines ((SiwbMessage.new now walletAddress nonce network).toMessageString crates) = [
      "coinjecture.com".toList ++ " wants you to sign in with your COINjecture account:".toList,
      walletAddress,
      [],
      "Sign in to COINjecture ".toList ++ stripCr network,
      [],
      "URI: ".toList ++ "https://coinjecture.com".toList,
      "Version: ".toList ++ "1".toList,
      "Chain ID: ".toList ++ ("coinjecture:".toList ++ stripCr network),
      "Nonce: ".toList ++ nonce,
      "Issued At: ".toList ++ crates.toRfc3339 now,
      "Expiration Time: ".toList ++ crates.toRfc3339 (now + TTL)] := by
  have hnow : FourDigitYear now := (Nat.le_add_right now TTL).trans_lt ht
  have hname : "Expiration Time: ".toList ≠ [] := by decide +kernel
  refine (lines_intercalate (newline_not_mem_message h hwallet hnonce ht hnetwork)
    (List.append_ne_nil_of_left_ne_nil hname _)).trans ?_
  have hplain : '\r' ∉ "coinjecture.com".toList ++ " wants you to sign in with your COINjecture account:".toList ∧
      '\r' ∉ "URI: ".toList ++ "https://coinjecture.com".toList ∧ '\r' ∉ "Version: ".toList ++ "1".toList := by
    decide +kernel
  have hdomain : stripCr ((SiwbMessage.new now walletAddress nonce network).domain ++
      " wants you to sign in with your COINjecture account:".toList) =
      "coinjecture.com".toList ++ " wants you to sign in with your COINjecture account:".toList :=
    stripCr_eq_self hplain.1
  have hwallet' : stripCr (SiwbMessage.new now walletAddress nonce network).walletAddress = walletAddress :=
    stripCr_eq_self (hwallet.not_mem (by decide))
  have hstatement : stripCr (SiwbMessage.new now walletAddress nonce network).statement =
      "Sign in to COINjecture ".toList ++ stripCr network := stripCr_append network (by decide +kernel)
  have huri : stripCr ("URI: ".toList ++ (SiwbMessage.new now walletAddress nonce network).uri) =
      "URI: ".toList ++ "https://coinjecture.com".toList := stripCr_eq_self hplain.2.1
  have hversion : stripCr ("Version: ".toList ++ (SiwbMessage.new now walletAddress nonce network).version) =
      "Version: ".toList ++ "1".toList := stripCr_eq_self hplain.2.2
  have hchain : stripCr ("Chain ID: ".toList ++ (SiwbMessage.new now walletAddress nonce network).chainId) =
      "Chain ID: ".toList ++ ("coinjecture:".toList ++ stripCr network) := by
    refine (stripCr_append _ (by decide +kernel)).trans (congrArg _ ?_)
    exact stripCr_append network (by decide +kernel)
  have hnonce' : stripCr ("Nonce: ".toList ++ (SiwbMessage.new now walletAddress nonce network).nonce) =
      "Nonce: ".toList ++ nonce :=
    stripCr_eq_self (not_mem_append (by decide +kernel) (hnonce.not_mem (by decide)))
  have hissued : stripCr ("Issued At: ".toList ++
      crates.toRfc3339 (SiwbMessage.new now walletAddress nonce network).issuedAt) =
      "Issued At: ".toList ++ crates.toRfc3339 now :=
    stripCr_eq_self (not_mem_append (by decide +kernel) (h.not_mem hnow (by decide)))
  have hnil : stripCr [] = [] := rfl
  rw [SiwbMessage.frontLines]
  iterate 10 rw [List.map_cons]
  rw [List.map_nil, hdomain, hwallet', hnil, hstatement, huri, hversion, hchain, hnonce', hissued]
  rfl

end

/-- No field is found on the first five lines. -/
theorem extractField_heading (d n : Text) (rest : List Text) {p : Text} (hspace : ' ' ∈ p)
    (hdomain : headsDiffer p "coinjecture.com".toList = true)
    (hstatement : headsDiffer p "Sign in to COINjecture ".toList = true) (hwallet : IsAddress walletAddress) :
    extractField (("coinjecture.com".toList ++ d) :: walletAddress :: [] ::
      ("Sign in to COINjecture ".toList ++ n) :: [] :: rest) p = extractField rest p := by
  have hnil : stripPrefix p [] = none := stripPrefix_eq_none hspace List.not_mem_nil
  rw [extractField_skip d _ hdomain, extractField_cons_of_none _ (hwallet.stripPrefix hspace),
    extractField_cons_of_none _ hnil, extractField_skip n _ hstatement, extractField_cons_of_none _ hnil]

theorem SiwbMessage.fromLines_eq {ls : List Text} {m : SiwbMessage} {issuedAtStr expirationStr : Text}
    (hdomain : ls[0]?.map (before " wants you to sign in".toList) = some m.domain)
    (hwallet : ls[1]? = some m.walletAddress) (hstatement : ls[3]? = some m.statement)
    (huri : extractField ls "URI: ".toList = some m.uri)
    (hversion : extractField ls "Version: ".toList = some m.version)
    (hchain : extractField ls "Chain ID: ".toList = some m.chainId)
    (hnonce : extractField ls "Nonce: ".toList = some m.nonce)
    (hissued : extractField ls "Issued At: ".toList = some issuedAtStr)
    (hexpiration : extractField ls "Expiration Time: ".toList = some expirationStr)
    (hissuedAt : crates.parseFromRfc3339 issuedAtStr = .ok m.issuedAt)
    (hexpirationTime : crates.parseFromRfc3339 expirationStr = .ok m.expirationTime) :
    fromLines crates ls = .ok m := by
  rw [fromLines, hdomain, hwallet, hstatement, huri, hversion, hchain, hnonce, hissued, hexpiration]
  dsimp only [orMissing, bind, Except.bind]
  rw [hissuedAt, hexpirationTime]
  rfl

/-- The text of a challenge is read back, with the nonce as it was. -/
theorem message_parses (h : crates.Lawful signed) (hwallet : IsAddress walletAddress) (hnetwork : '\n' ∉ network)
    (hnonce : IsUuid nonce) (ht : FourDigitYear (now + TTL)) :
    ∃ siwb, SiwbMessage.fromMessageString crates
      ((SiwbMessage.new now walletAddress nonce network).toMessageString crates) = .ok siwb ∧ siwb.nonce = nonce := by
  have hnow : FourDigitYear now := (Nat.le_add_right now TTL).trans_lt ht
  have hissued := trim_eq_self (h.toRfc3339_plain now hnow)
  have hexpiration := trim_eq_self (h.toRfc3339_plain (now + TTL) ht)
  have hdomain : before " wants you to sign in".toList ("coinjecture.com".toList ++
      " wants you to sign in with your COINjecture account:".toList) = "coinjecture.com".toList := by decide +kernel
  have huri : trim "https://coinjecture.com".toList = "https://coinjecture.com".toList := by decide +kernel
  have hversion : trim "1".toList = "1".toList := by decide +kernel
  refine ⟨{ domain := "coinjecture.com".toList
            walletAddress := walletAddress
            statement := "Sign in to COINjecture ".toList ++ stripCr network
            uri := "https://coinjecture.com".toList
            version := "1".toList
            chainId := trim ("coinjecture:".toList ++ stripCr network)
            nonce := nonce
            issuedAt := now
            expirationTime := now + TTL }, ?_, rfl⟩
  rw [SiwbMessage.fromMessageString, lines_message h hwallet hnonce ht hnetwork]
  refine SiwbMessage.fromLines_eq ?_ rfl rfl ?_ ?_ ?_ ?_ ?_ ?_ (h.parse_toRfc3339 now hnow)
    (h.parse_toRfc3339 (now + TTL) ht)
  · exact congrArg some hdomain
  · rw [extractField_heading _ _ _ (by decide) (by decide) (by decide) hwallet, extractField_cons_append]
    exact congrArg some huri
  · rw [extractField_heading _ _ _ (by decide) (by decide) (by decide) hwallet, extractField_skip _ _ (by decide),
      extractField_cons_append]
    exact congrArg some hversion
  · rw [extractField_heading _ _ _ (by decide) (by decide) (by decide) hwallet, extractField_skip _ _ (by decide),
      extractField_skip _ _ (by decide), extractField_cons_append]
  · rw [extractField_heading _ _ _ (by decide) (by decide) (by decide) hwallet, extractField_skip _ _ (by decide),
      extractField_skip _ _ (by decide), extractField_skip _ _ (by decide), extractField_cons_append, hnonce.trim_eq]
  · rw [extractField_heading _ _ _ (by decide) (by decide) (by decide) hwallet, extractField_skip _ _ (by decide),
      extractField_skip _ _ (by decide), extractField_skip _ _ (by decide), extractField_skip _ _ (by decide),
      extractField_cons_append, hissued]
  · rw [extractField_heading _ _ _ (by decide) (by decide) (by decide) hwallet, extractField_skip _ _ (by decide),
      extractField_skip _ _ (by decide), extractField_skip _ _ (by decide), extractField_skip _ _ (by decide),
      extractField_skip _ _ (by decide), extractField_cons_append, hexpiration]

end

end Coinjecture.ApiServer.SignIn
