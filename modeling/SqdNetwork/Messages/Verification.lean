import SqdNetwork.Messages.Signatures

/-!
# Signing and verifying messages

A portal signs a query for one worker, a worker signs its result, and the collector
of logs verifies both from what portals and workers forward. The portal forwards a
summary of the result in which a hash stands for the data; verifying the summary and
verifying the result come out the same. The request id of a query is declared above
its signature but is not part of what is signed.
-/

namespace SqdNetwork.Messages

open SqdNetwork.Core

/-- What signing uses of the libraries for peer ids, keys and hashes. -/
structure Identities (P Key Keypair : Type) where
  toBytes : P → List UInt8
  /-- The text of a peer id. -/
  peerToString : P → String
  parsePeer : String → Option P
  tryDecodeProtobuf : List UInt8 → Option Key
  verify : Key → List UInt8 → List UInt8 → Bool
  sign : Keypair → List UInt8 → Option (List UInt8)
  sha3_256 : List UInt8 → { digest : List UInt8 // digest.length = sha3_256Size }

/-- A successful answer. -/
structure QueryOk where
  data : List UInt8
  lastBlock : UInt64
  uncompressedDataSize : Option UInt64 := none

/-- A failed answer, whose kind may be missing. -/
structure QueryError where
  err : Option QueryErr

/-- The answer of a worker, which may be missing. -/
structure QueryResult where
  queryId : String
  result : Option (Except QueryError QueryOk)
  retryAfterMs : Option UInt32 := none
  signature : List UInt8 := []

/-- A successful answer with a hash in place of its data. -/
structure QueryOkSummary where
  uncompressedDataSize : UInt64
  dataHash : List UInt8
  lastBlock : UInt64

/-- What a portal reports of a query to the collector of logs. -/
structure QueryFinished where
  workerId : String
  queryId : String
  totalTimeMicros : UInt32
  result : Option (Except QueryError QueryOkSummary)
  workerSignature : List UInt8

/-- What a worker reports of a query, without its own measurements and answer. -/
structure QueryExecuted where
  clientId : String
  query : Option Query

variable {P Key Keypair : Type} (lib : Identities P Key Keypair)

/-- Sign with an Ed25519 key. -/
def sign (msg : List UInt8) (keypair : Keypair) : Exec (List UInt8) :=
  Exec.expect "signing should succeed for Ed25519" (lib.sign keypair msg)

/-- Check a signature against the key that the peer id spells after its first two bytes. -/
def verifySignature (peerId : P) (msg signature : List UInt8) : Exec Bool := do
  let encoded ← Exec.sliceFrom (lib.toBytes peerId) 2
  match lib.tryDecodeProtobuf encoded with
  | some pubkey => .ok (lib.verify pubkey msg signature)
  | none => .ok false

namespace Query

/-- Sign a query for a worker. -/
protected def sign (q : Query) (keypair : Keypair) (workerId : P) : Exec (Except String Query) := do
  match ← q.msgToSign lib.toBytes workerId with
  | none => .ok (.error "couldn't sign invalid Query")
  | some msg => do
    let signature ← Messages.sign lib msg keypair
    .ok (.ok { q with signature := signature })

protected def verifySignature (q : Query) (signerId workerId : P) : Exec Bool := do
  match ← q.msgToSign lib.toBytes workerId with
  | some msg => Messages.verifySignature lib signerId msg q.signature
  | none => .ok false

end Query

namespace QueryResult

def msgToSign (r : QueryResult) : Option (List UInt8) :=
  match r.result with
  | some (.ok result) => msgToSignQueryOk r.queryId (lib.sha3_256 result.data) result.lastBlock
  | some (.error ⟨some err⟩) => msgToSignQueryErr r.queryId err
  | _ => none

/-- Sign a result. -/
protected def sign (r : QueryResult) (keypair : Keypair) : Exec (Except String QueryResult) :=
  match r.msgToSign lib with
  | none => .ok (.error "couldn't sign invalid QueryResult")
  | some msg => do
    let signature ← Messages.sign lib msg keypair
    .ok (.ok { r with signature := signature })

protected def verifySignature (r : QueryResult) (signerId : P) : Exec Bool :=
  match r.msgToSign lib with
  | some msg => Messages.verifySignature lib signerId msg r.signature
  | none => .ok false

/-- The result with another uncompressed size, retry delay and error text. -/
def withUnsigned (r : QueryResult) (size : Option UInt64) (retry : Option UInt32)
    (text : String) : QueryResult :=
  { r with
    retryAfterMs := retry
    result := match r.result with
      | some (.ok result) => some (.ok { result with uncompressedDataSize := size })
      | some (.error ⟨some (.badRequest _)⟩) => some (.error ⟨some (.badRequest text)⟩)
      | some (.error ⟨some (.notFound _)⟩) => some (.error ⟨some (.notFound text)⟩)
      | some (.error ⟨some (.serverError _)⟩) => some (.error ⟨some (.serverError text)⟩)
      | result => result }

end QueryResult

namespace QueryFinished

/-- The payload that the collector rebuilds from a summary. -/
def signedPayload (f : QueryFinished) : Option (List UInt8) :=
  match f.result with
  | some (.ok result) => msgToSignQueryOk f.queryId result.dataHash result.lastBlock
  | some (.error ⟨some err⟩) => msgToSignQueryErr f.queryId err
  | _ => none

protected def verifySignature (f : QueryFinished) : Exec Bool :=
  match f.signedPayload with
  | none => .ok false
  | some msg =>
    match lib.parsePeer f.workerId with
    | none => .ok false
    | some workerId => Messages.verifySignature lib workerId msg f.workerSignature

/-- The summary of a result. -/
def new (r : QueryResult) (workerId : String) (totalTimeMicros : UInt32) : QueryFinished where
  workerId := workerId
  queryId := r.queryId
  totalTimeMicros := totalTimeMicros
  workerSignature := r.signature
  result := match r.result with
    | some (.ok result) => some (.ok
        { uncompressedDataSize := UInt64.ofNat result.data.length
          dataHash := lib.sha3_256 result.data
          lastBlock := result.lastBlock })
    | some (.error err) => some (.error err)
    | none => none

end QueryFinished

/-- Verify the signature of the client behind an executed query. -/
def QueryExecuted.verifyClientSignature (e : QueryExecuted) (workerId : P) : Exec Bool :=
  match e.query with
  | none => .ok false
  | some query =>
    match lib.parsePeer e.clientId with
    | none => .ok false
    | some clientId => query.verifySignature lib clientId workerId

section Queries

/-- Two queries agree on every field declared above the signature. -/
structure Query.AgreeAboveSignature (q q' : Query) : Prop where
  queryId : q.queryId = q'.queryId
  dataset : q.dataset = q'.dataset
  requestId : q.requestId = q'.requestId
  query : q.query = q'.query
  blockRange : q.blockRange = q'.blockRange
  chunkId : q.chunkId = q'.chunkId
  timestampMs : q.timestampMs = q'.timestampMs

/-- What a key pair signs, the key in its peer id verifies. -/
def Identities.SignsAs (keypair : Keypair) (peerId : P) : Prop :=
  ∃ encoded pubkey, Exec.sliceFrom (lib.toBytes peerId) 2 = .ok encoded ∧
    lib.tryDecodeProtobuf encoded = some pubkey ∧
    ∀ msg signature, lib.sign keypair msg = some signature →
      lib.verify pubkey msg signature = true

theorem verifySignature_sign {keypair : Keypair} {peerId : P} (hkeys : lib.SignsAs keypair peerId)
    {msg signature : List UInt8} (h : sign lib msg keypair = .ok signature) :
    verifySignature lib peerId msg signature = .ok true := by
  obtain ⟨encoded, pubkey, hencoded, hpubkey, hverify⟩ := hkeys
  simp only [verifySignature, hencoded, Exec.ok_bind, hpubkey]
  rw [hverify msg signature (Exec.expect_eq_ok h)]

/-- A signed query verifies for its signer and its worker, and goes on doing so whatever its
request id is changed to. -/
theorem Query.verifySignature_sign {keypair : Keypair} {signerId workerId : P}
    (hkeys : lib.SignsAs keypair signerId) {q signed : Query}
    (h : q.sign lib keypair workerId = .ok (.ok signed)) (requestId : String) :
    { signed with requestId := requestId }.verifySignature lib signerId workerId = .ok true := by
  obtain ⟨payload, hpayload, h⟩ := Exec.bind_eq_ok.mp h
  cases payload with
  | none => cases h
  | some msg =>
    obtain ⟨signature, hsignature, h⟩ := Exec.bind_eq_ok.mp h
    cases h
    have hsame : { q with requestId := requestId, signature := signature }.msgToSign
        lib.toBytes workerId = .ok (some msg) := hpayload
    simp only [Query.verifySignature, hsame, Exec.ok_bind]
    exact Messages.verifySignature_sign lib hkeys hsignature

end Queries

/-- When peer ids mark their own end, queries with the same payload are for the same worker and
agree on all that is declared above the signature if and only if their request ids agree. -/
theorem query_payload_covers_iff {P : Type} (toBytes : P → List UInt8)
    (hpeer : SelfDelimiting (fun _ => True) toBytes) {q q' : Query} {w w' : P} {msg : List UInt8}
    (h : q.msgToSign toBytes w = .ok (some msg)) (h' : q'.msgToSign toBytes w' = .ok (some msg)) :
    q.AgreeAboveSignature q' ∧ w = w' ↔ q.requestId = q'.requestId := by
  obtain ⟨hworker, hsigned⟩ :=
    (Query.signs_of_msgToSign h).agree hpeer (Query.signs_of_msgToSign h')
  constructor
  · exact fun hall => hall.1.requestId
  · intro hrequest
    exact ⟨⟨hsigned.queryId, hsigned.dataset, hrequest, hsigned.query, hsigned.blockRange,
      hsigned.chunkId, hsigned.timestampMs⟩, hworker⟩

/-- An Ed25519 peer id. -/
def samplePeer : { key : List UInt8 // key.length = 36 } := ⟨List.replicate 36 7, rfl⟩

/-- The sample query has a payload, and keeps it under every request id. -/
theorem sampleQuery_payload (requestId : String) : ∃ msg,
    { sampleQuery with requestId := requestId }.msgToSign ed25519Bytes samplePeer =
      .ok (some msg) := by
  have hrun : (sampleQuery.msgToSign ed25519Bytes samplePeer).passes
      (fun msg => msg.isSome) = true := by decide
  obtain ⟨o, hsample, hsome⟩ := Exec.exists_of_passes hrun
  obtain ⟨msg, rfl⟩ := Option.isSome_iff_exists.mp hsome
  exact ⟨msg, hsample⟩

/-- Two queries that differ in nothing but the signature. -/
theorem query_payload_covers_sample : ∃ msg,
    sampleQuery.msgToSign ed25519Bytes samplePeer = .ok (some msg) ∧
      { sampleQuery with signature := [1] }.msgToSign ed25519Bytes samplePeer =
        .ok (some msg) ∧
      sampleQuery.AgreeAboveSignature { sampleQuery with signature := [1] } := by
  obtain ⟨msg, h⟩ := sampleQuery_payload ""
  have h' : { sampleQuery with signature := [1] }.msgToSign ed25519Bytes samplePeer =
      .ok (some msg) := h
  have hcovers := query_payload_covers_iff ed25519Bytes selfDelimiting_ed25519Bytes h h'
  exact ⟨msg, h, h', (hcovers.mpr rfl).1⟩

/-- Two queries that differ in nothing but the request id have one payload. -/
theorem request_id_outside_payload : ∃ msg,
    sampleQuery.msgToSign ed25519Bytes samplePeer = .ok (some msg) ∧
      { sampleQuery with requestId := "1" }.msgToSign ed25519Bytes samplePeer =
        .ok (some msg) ∧
      ¬ sampleQuery.AgreeAboveSignature { sampleQuery with requestId := "1" } := by
  obtain ⟨msg, h⟩ := sampleQuery_payload ""
  exact ⟨msg, h, h, fun hagree => absurd hagree.requestId (by decide)⟩

section Results

variable (r : QueryResult) (w : P) (t : UInt32)

/-- The collector rebuilds the payload that the worker signed. -/
theorem signedPayload_new (workerId : String) :
    (QueryFinished.new lib r workerId t).signedPayload = r.msgToSign lib := by
  obtain ⟨queryId, result, retry, signature⟩ := r
  cases result with
  | none => rfl
  | some result =>
    cases result with
    | ok ok => rfl
    | error err => obtain ⟨_ | err⟩ := err <;> rfl

/-- The payload of a result leaves out the uncompressed size, the retry delay and the error
text. -/
theorem msgToSign_withUnsigned (size : Option UInt64) (retry : Option UInt32) (text : String) :
    (r.withUnsigned size retry text).msgToSign lib = r.msgToSign lib := by
  obtain ⟨queryId, result, retryAfterMs, signature⟩ := r
  cases result with
  | none => rfl
  | some result =>
    cases result with
    | ok ok => rfl
    | error err =>
      obtain ⟨_ | err⟩ := err
      · rfl
      · cases err <;> rfl

end Results

/-- When the worker's id is read back from its text, the summary that a portal makes of a result
verifies exactly if the result does; and neither depends on the uncompressed size, the retry delay
or the text of an error. -/
theorem finished_verifies_as_result {P Key Keypair : Type} (lib : Identities P Key Keypair)
    (w : P) (hparse : lib.parsePeer (lib.peerToString w) = some w) (r : QueryResult) (t : UInt32) :
    (QueryFinished.new lib r (lib.peerToString w) t).verifySignature lib =
      r.verifySignature lib w ∧
    ∀ size retry text,
      (r.withUnsigned size retry text).verifySignature lib w = r.verifySignature lib w := by
  constructor
  · have hpayload := signedPayload_new lib r t (lib.peerToString w)
    have hworker : (QueryFinished.new lib r (lib.peerToString w) t).workerId =
        lib.peerToString w := rfl
    rw [QueryFinished.verifySignature, QueryResult.verifySignature, hpayload, hworker, hparse]
    cases r.msgToSign lib with
    | none => rfl
    | some msg => rfl
  · intro size retry text
    rw [QueryResult.verifySignature, QueryResult.verifySignature, msgToSign_withUnsigned]
    rfl

/-- Peer ids that are their own texts and keys that sign with the message itself. -/
def plainIdentities : Identities String Unit Unit where
  toBytes := asBytes
  peerToString := id
  parsePeer := some
  tryDecodeProtobuf := fun _ => some ()
  verify := fun _ msg signature => msg == signature
  sign := fun _ msg => some msg
  sha3_256 := fun _ => ⟨List.replicate 32 0, rfl⟩

/-- A failed answer, signed in that way. -/
def sampleResult : QueryResult where
  queryId := sampleQuery.queryId
  result := some (.error ⟨some (.notFound "no such dataset")⟩)
  signature := asBytes sampleQuery.queryId ++ [2]

theorem finished_verifies_as_sample_result :
    plainIdentities.parsePeer (plainIdentities.peerToString "worker") = some "worker" ∧
    (QueryFinished.new plainIdentities sampleResult (plainIdentities.peerToString "worker")
        7).verifySignature plainIdentities =
      sampleResult.verifySignature plainIdentities "worker" :=
  ⟨rfl, (finished_verifies_as_result plainIdentities "worker" rfl sampleResult 7).1⟩

end SqdNetwork.Messages
