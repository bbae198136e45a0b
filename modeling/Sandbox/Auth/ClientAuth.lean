import Sandbox.Auth.Domain
import Sandbox.Encoding.Percent
import Sandbox.Shared.SecretHash
import Sandbox.Tables.Unique

/-!
# Client Authentication

A service sends its client id and its secret in an `Authorization` header: each
of them percent-encoded, a colon between them, and all of it in base64. Percent
encoding leaves no colon, so the first colon is the one between them, and the
server undoes the three steps one by one.

Anything can stand in the header. Base64 and UTF-8 are read without errors, and
the exceptions of percent escapes are caught. What remains is the lookup of the
client: PostgreSQL has no text with the character zero, and refuses a query for
one with an exception that is not caught. An id with that character is the only
way in which a header leads to an exception, see `clientAuth_wire`.

## Main definitions

* `formHeaders`, `adminHeaders`: The headers that the services send.
* `credentials`, `authenticateClient`: The use case of the server.
* `ClientTables`: The tables of clients and secrets, with the lookup.
* `Authentic`: A registered, active client with a secret.

## Theorems

* `credentials_basic`: The id and the secret arrive as they were sent.
* `authenticateClient_thrown`: An exception is one of the lookup.
* `clientAuth_wire`: When a client is accepted, and when nothing is thrown.
-/

namespace Sandbox.Auth.ClientAuth

open Radix Encoding Tables

section Source

def encodeURIComponent (text : String) : String :=
  String.ofList (Percent.encodeURIComponent text.toList)

/-- The exception is `none`. -/
def decodeURIComponent (text : List Char) : Option String :=
  (Percent.decodeURIComponent text).map String.ofList

structure OidcClientConfig where
  clientId : String
  clientSecret : String

abbrev Headers := List (String × String)

/-- `OidcProvider.formHeaders` -/
def formHeaders (client : OidcClientConfig) : Headers :=
  let credentials := encodeURIComponent client.clientId ++ ":" ++
    encodeURIComponent client.clientSecret
  [("Content-Type", "application/x-www-form-urlencoded"),
    ("Authorization", "Basic " ++ toBase64 (fromUtf8 credentials))]

/-- `HttpAuthAdminClient.headers` -/
def adminHeaders (options : OidcClientConfig) : Headers :=
  let credentials := encodeURIComponent options.clientId ++ ":" ++
    encodeURIComponent options.clientSecret
  [("Content-Type", "application/json"),
    ("Authorization", "Basic " ++ toBase64 (fromUtf8 credentials))]

inductive ClientError
  | invalidClient
  deriving DecidableEq, Repr

/-- Exceptions of the database. -/
inductive Thrown
  | invalidByteSequence
  deriving DecidableEq, Repr

/-- The two sides of the first colon, unless it is in front or missing. -/
def readCredentials (decoded : List Char) : Option (String × String) :=
  let id := decoded.takeWhile (· != ':')
  match decoded.dropWhile (· != ':') with
  | [] => none
  | _ :: secret =>
      -- An index of zero is refused like a missing colon.
      if id = [] then none
      else
        match decodeURIComponent id, decodeURIComponent secret with
        | some clientId, some clientSecret => some (clientId, clientSecret)
        | _, _ => none

/-- The part of `authenticateClient` that reads the header. -/
def credentials (authorizationHeader : Option String) : Option (String × String) :=
  match authorizationHeader with
  | none => none
  | some header =>
      if "Basic ".toList.isPrefixOf header.toList then
        readCredentials
          (toUtf8 (fromBase64 (String.ofList (header.toList.drop "Basic ".length)))).toList
      else none

variable (H : Sha256)

/-- The outer error is an exception. -/
def authenticateClient (findClient : String → Except Thrown (Option OidcClient))
    (authorizationHeader : Option String) : Except Thrown (Except ClientError OidcClient) :=
  match credentials authorizationHeader with
  | none => .ok (.error .invalidClient)
  | some (clientId, clientSecret) =>
      match findClient clientId with
      | .error e => .error e
      | .ok none => .ok (.error .invalidClient)
      | .ok (some client) =>
          if client.status ≠ .active then .ok (.error .invalidClient)
          -- During a rotation there are two hashes, and either will do.
          else if !verifySecretAgainstAny H clientSecret client.secretHashes then
            .ok (.error .invalidClient)
          else .ok (.ok client)

inductive SecretStatus
  | active
  | revoked
  deriving DecidableEq, Repr

structure ClientSecret where
  oidcClientId : String
  secretHash : String
  status : SecretStatus
  deriving DecidableEq, Repr

/-- The two tables. The hashes of a client are not among its columns, but are
    collected by the query. -/
structure ClientTables where
  clients : List OidcClient
  secrets : List ClientSecret
  clientId : Unique (fun c => some c.clientId) clients
  slug : ∀ c ∈ clients, isSlug c.clientId.toList = true

/-- `CLIENT_SELECT` -/
def ClientTables.select (db : ClientTables) (client : OidcClient) : OidcClient :=
  { client with
    secretHashes := (db.secrets.filter fun s =>
      s.oidcClientId == client.id && s.status == .active).map (·.secretHash) }

/-- The character that is in no text of the database. -/
def zero : Char := Char.ofNat 0

/-- `PgIdentityRepository.findClient` -/
def ClientTables.findClient (db : ClientTables) (clientId : String) :
    Except Thrown (Option OidcClient) :=
  if zero ∈ clientId.toList then .error .invalidByteSequence
  else .ok ((db.clients.find? (·.clientId == clientId)).map db.select)

end Source

section Reading

theorem takeWhile_colon {front : List Char} (h : ':' ∉ front) (rear : List Char) :
    (front ++ ':' :: rear).takeWhile (· != ':') = front ∧
      (front ++ ':' :: rear).dropWhile (· != ':') = ':' :: rear := by
  have hfront : ∀ c ∈ front, (c != ':') = true := by
    intro c hc
    refine bne_iff_ne.mpr ?_
    rintro rfl
    exact h hc
  rw [List.takeWhile_append_of_pos hfront, List.dropWhile_append_of_pos hfront,
    List.takeWhile_cons_of_neg (by decide), List.dropWhile_cons_of_neg (by decide)]
  exact ⟨List.append_nil _, rfl⟩

theorem decodeURIComponent_encode (text : String) :
    decodeURIComponent (Percent.encodeURIComponent text.toList) = some text := by
  unfold decodeURIComponent
  rw [Percent.decode_encode, Option.map_some, String.ofList_toList]

/-- The header that both kinds of services send. -/
def basic (id secret : String) : String :=
  "Basic " ++ toBase64 (fromUtf8 (encodeURIComponent id ++ ":" ++ encodeURIComponent secret))

theorem formHeaders_basic (id secret : String) :
    (formHeaders ⟨id, secret⟩).lookup "Authorization" = some (basic id secret) := rfl

example : (formHeaders ⟨"crm", "p:w %é"⟩).lookup "Authorization" =
    some "Basic Y3JtOnAlM0F3JTIwJTI1JUMzJUE5" := by decide +kernel

theorem adminHeaders_basic (id secret : String) :
    (adminHeaders ⟨id, secret⟩).lookup "Authorization" = some (basic id secret) := rfl

/-- The id and the secret arrive as they were sent. -/
theorem credentials_basic {id : String} (hid : id ≠ "") (secret : String) :
    credentials (some (basic id secret)) = some (id, secret) := by
  have htext : (encodeURIComponent id ++ ":" ++ encodeURIComponent secret).toList =
      Percent.encodeURIComponent id.toList ++ ':' :: Percent.encodeURIComponent secret.toList := by
    unfold encodeURIComponent
    rw [String.toList_append, String.toList_append, String.toList_ofList, String.toList_ofList,
      List.append_assoc, List.singleton_append, String.toList_ofList]
  have hcolon : ':' ∉ Percent.encodeURIComponent id.toList :=
    fun hmem => (Percent.encode_ascii hmem).2 rfl
  have hne : Percent.encodeURIComponent id.toList ≠ [] := by
    refine Percent.encode_ne_nil fun hnil => hid ?_
    rw [← String.ofList_toList (s := id), hnil, String.ofList_nil]
  obtain ⟨htake, hdrop⟩ := takeWhile_colon hcolon (Percent.encodeURIComponent secret.toList)
  have hbytes := below_fromUtf8 (encodeURIComponent id ++ ":" ++ encodeURIComponent secret)
  unfold credentials basic
  dsimp only
  rw [String.toList_append, if_pos (List.isPrefixOf_iff_prefix.mpr (List.prefix_append _ _))]
  have hrest : ∀ text : List Char,
      ("Basic ".toList ++ text).drop "Basic ".length = text := fun _ => rfl
  rw [hrest, String.ofList_toList, fromBase64_toBase64 hbytes, toUtf8_fromUtf8, htext]
  unfold readCredentials
  rw [htake, hdrop]
  dsimp only
  rw [if_neg hne, decodeURIComponent_encode, decodeURIComponent_encode]

end Reading

section Lookup

variable {H : Sha256} {findClient : String → Except Thrown (Option OidcClient)}
  {header : Option String}

/-- An exception is one of the lookup, for the id in the header. -/
theorem authenticateClient_thrown {e : Thrown} :
    authenticateClient H findClient header = .error e ↔
      ∃ id secret, credentials header = some (id, secret) ∧ findClient id = .error e := by
  unfold authenticateClient
  constructor
  · intro h
    split at h
    · cases h
    · next id secret hread =>
        split at h
        -- Of all the ways out only the failed query throws.
        · next e' hfind =>
            obtain rfl := Except.error.inj h
            exact ⟨id, secret, hread, hfind⟩
        · cases h
        · split at h
          · cases h
          · split at h <;> cases h
  · rintro ⟨id, secret, hread, hfind⟩
    rw [hread]
    dsimp only
    rw [hfind]

/-- A client is accepted if it is found and active, and one of its hashes is
    that of the secret. -/
theorem authenticateClient_ok {client : OidcClient} :
    authenticateClient H findClient header = .ok (.ok client) ↔
      ∃ id secret, credentials header = some (id, secret) ∧ findClient id = .ok (some client) ∧
        client.status = .active ∧ ∃ hash ∈ client.secretHashes, IsHashOf H secret hash := by
  unfold authenticateClient
  constructor
  -- Each branch that refuses is excluded, and the last one gives the conditions.
  · intro h
    split at h
    · cases h
    · next id secret hread =>
        split at h
        · cases h
        · cases h
        · next found hfind =>
            split at h
            · cases h
            · next hactive =>
                split at h
                · cases h
                · next hverify =>
                    obtain rfl := Except.ok.inj (Except.ok.inj h)
                    rw [Bool.not_eq_true, Bool.not_eq_false'] at hverify
                    exact ⟨id, secret, hread, hfind, not_not.mp hactive,
                      verifySecretAgainstAny_iff.mp hverify⟩
  · rintro ⟨id, secret, hread, hfind, hactive, hhash⟩
    rw [hread]
    dsimp only
    rw [hfind]
    dsimp only
    rw [if_neg (not_not.mpr hactive), verifySecretAgainstAny_iff.mpr hhash]
    rfl

/-- A registered, active client with the secret among its active ones. -/
def Authentic (H : Sha256) (db : ClientTables) (id secret : String) (client : OidcClient) : Prop :=
  client ∈ db.clients ∧ client.clientId = id ∧ client.status = .active ∧
    ∃ s ∈ db.secrets, s.oidcClientId = client.id ∧ s.status = .active ∧
      IsHashOf H secret s.secretHash

theorem findClient_thrown {db : ClientTables} {id : String} :
    (∃ e, db.findClient id = .error e) ↔ zero ∈ id.toList := by
  unfold ClientTables.findClient
  constructor
  · rintro ⟨e, he⟩
    split at he
    · assumption
    · cases he
  · intro hzero
    exact ⟨_, if_pos hzero⟩

/-- The lookup finds the row with the id. -/
theorem findClient_ok {db : ClientTables} {id : String} {client : OidcClient} :
    db.findClient id = .ok (some client) ↔
      ∃ row ∈ db.clients, row.clientId = id ∧ client = db.select row := by
  unfold ClientTables.findClient
  constructor
  · intro h
    split at h
    · cases h
    · obtain ⟨row, hfind, rfl⟩ := Option.map_eq_some_iff.mp (Except.ok.inj h)
      have hid : (row.clientId == id) = true :=
        List.find?_some (p := fun c : OidcClient => c.clientId == id) hfind
      exact ⟨row, List.mem_of_find?_eq_some hfind, beq_iff_eq.mp hid, rfl⟩
  · rintro ⟨row, hrow, rfl, rfl⟩
    have hzero : zero ∉ row.clientId.toList := notMem_of_isSlug (db.slug row hrow) (by decide)
    rw [if_neg hzero, find_unique db.clientId hrow]
    rfl

theorem mem_select {db : ClientTables} {client : OidcClient} {hash : String} :
    hash ∈ (db.select client).secretHashes ↔
      ∃ s ∈ db.secrets, s.oidcClientId = client.id ∧ s.status = .active ∧ s.secretHash = hash := by
  simp only [ClientTables.select, List.mem_map, List.mem_filter, Bool.and_eq_true, beq_iff_eq,
    and_assoc]

end Lookup

section Wire

variable {H : Sha256}

/-- Whom a header lets in. -/
theorem authenticateClient_tables {db : ClientTables} {header : Option String} {id secret : String}
    (hread : credentials header = some (id, secret)) (client : OidcClient) :
    authenticateClient H db.findClient header = .ok (.ok client) ↔
      ∃ row, Authentic H db id secret row ∧ client = db.select row := by
  rw [authenticateClient_ok]
  constructor
  · rintro ⟨id', secret', hread', hfind, hactive, hash, hmem, hhash⟩
    obtain ⟨rfl, rfl⟩ := Prod.mk.inj (Option.some.inj (hread'.symm.trans hread))
    obtain ⟨row, hrow, hid, rfl⟩ := findClient_ok.mp hfind
    obtain ⟨s, hs, howner, hstatus, rfl⟩ := mem_select.mp hmem
    exact ⟨row, ⟨hrow, hid, hactive, s, hs, howner, hstatus, hhash⟩, rfl⟩
  · rintro ⟨row, ⟨hrow, hid, hactive, s, hs, howner, hstatus, hhash⟩, rfl⟩
    exact ⟨id, secret, hread, findClient_ok.mpr ⟨row, hrow, hid, rfl⟩, hactive, s.secretHash,
      mem_select.mpr ⟨s, hs, howner, hstatus, rfl⟩, hhash⟩

/-- Nothing is thrown unless the id in the header has the character zero. -/
theorem authenticateClient_returns {db : ClientTables} {header : Option String} :
    (∃ r, authenticateClient H db.findClient header = .ok r) ↔
      ∀ id secret, credentials header = some (id, secret) → zero ∉ id.toList := by
  constructor
  · rintro ⟨r, hr⟩ id secret hread hzero
    obtain ⟨e, he⟩ := findClient_thrown.mpr hzero
    rw [authenticateClient_thrown.mpr ⟨id, secret, hread, he⟩] at hr
    cases hr
  · intro h
    cases hresult : authenticateClient H db.findClient header with
    | ok r => exact ⟨r, rfl⟩
    | error e =>
        obtain ⟨id, secret, hread, he⟩ := authenticateClient_thrown.mp hresult
        exact absurd (findClient_thrown.mp ⟨e, he⟩) (h id secret hread)

/-- The headers of the services let in whom they should, and a header leads to a
    result exactly if the id in it does not have the character zero. -/
theorem clientAuth_wire (H : Sha256) (db : ClientTables) {id : String} (hid : id ≠ "")
    (secret : String) (header : Option String) :
    (∀ sent ∈ [(formHeaders ⟨id, secret⟩).lookup "Authorization",
        (adminHeaders ⟨id, secret⟩).lookup "Authorization"],
      credentials sent = some (id, secret) ∧
        ∀ client, authenticateClient H db.findClient sent = .ok (.ok client) ↔
          ∃ row, Authentic H db id secret row ∧ client = db.select row) ∧
      (∀ other, IsHashOf H secret (hashSecret H other) ↔
        hashSecret H other = hashSecret H secret) ∧
      ((∃ r, authenticateClient H db.findClient header = .ok r) ↔
        ∀ id secret, credentials header = some (id, secret) → zero ∉ id.toList) := by
  refine ⟨?_, fun _ => isHashOf_hashSecret_iff, authenticateClient_returns⟩
  intro sent hsent
  have hbasic : sent = some (basic id secret) := by
    rcases List.mem_pair.mp hsent with rfl | rfl
    · exact formHeaders_basic id secret
    · exact adminHeaders_basic id secret
  have hread : credentials sent = some (id, secret) := by
    rw [hbasic]
    exact credentials_basic hid secret
  exact ⟨hread, authenticateClient_tables hread⟩

/-- A digest that agrees with SHA-256 on the secret of the example. -/
def exampleSha256 : Sha256 where
  digest data :=
    if data = fromUtf8 "p:w %é" then
      [129, 56, 71, 17, 112, 108, 147, 41, 93, 43, 123, 28, 28, 235, 64, 156, 48, 5, 238, 43, 57,
        60, 217, 44, 10, 191, 254, 90, 9, 9, 76, 237]
    else List.replicate 32 0
  below data := by
    unfold Below
    split <;> decide
  length data := by
    split <;> rfl

def exampleClient : OidcClient :=
  ⟨"01CRM", "crm", "http://api.crm.test", "http://{tenant}.crm.test/auth/callback", [],
    ["openid"], .active, none⟩

def exampleTables : ClientTables where
  clients := [exampleClient]
  secrets := [⟨"01CRM", hashSecret exampleSha256 "p:w %é", .active⟩]
  clientId := by decide
  slug := by decide

/-- A secret with a colon, a space, a percent sign and a letter outside ASCII. -/
theorem clientAuth_wire_crm :
    authenticateClient exampleSha256 exampleTables.findClient
        ((formHeaders ⟨"crm", "p:w %é"⟩).lookup "Authorization") =
      .ok (.ok (exampleTables.select exampleClient)) := by
  have h := clientAuth_wire exampleSha256 exampleTables (show "crm" ≠ "" by decide) "p:w %é" none
  refine ((h.1 _ List.mem_cons_self).2 _).mpr ⟨exampleClient, ?_, rfl⟩
  exact ⟨List.mem_singleton_self _, rfl, rfl, _, List.mem_singleton_self _, rfl, rfl,
    isHashOf_hashSecret _ _⟩

/-- An escaped zero in the id is not an error of the header. -/
theorem clientAuth_wire_zero :
    authenticateClient exampleSha256 exampleTables.findClient (some "Basic JTAwOng=") =
      .error .invalidByteSequence := by
  decide +kernel

end Wire

end Sandbox.Auth.ClientAuth
