import SqdNetwork.Core.Parse
import SqdNetwork.Core.TextEncodings
import SqdNetwork.Assignments.Holdings

/-!
# The headers sealed for a worker

A builder signs each worker's id for a time and seals the signature for the worker's
key. The worker opens what it finds in the assignment and reads a small JSON object.
The texts in that object are written without escapes.
-/

namespace SqdNetwork.Assignments

open SqdNetwork.Core

/-! ## Timed signatures -/

/-- The digest that a timed signature carries. -/
def timedDigest (hmac : List UInt8 → List UInt8 → List UInt8) (message secret : String)
    (timestamp : Nat) : List UInt8 :=
  hmac (asBytes secret) (asBytes (message ++ timestamp.repr))

/-- A digest as the text of a form field. -/
def digestToken (digest : List UInt8) : String :=
  String.ofList (byteSerialize (asBytes (String.ofList (base64 digest))))

/-- The time and the digest under a secret, as a text for a form. -/
def timedHmac (hmac : List UInt8 → List UInt8 → List UInt8) (message secret : String)
    (timestamp : Nat) : String :=
  timestamp.repr ++ "-" ++ digestToken (timedDigest hmac message secret timestamp)

/-- A text that stands in JSON as it is. -/
def JsonPlain (text : String) : Prop := text.toList.all quotable = true

theorem JsonPlain.append {s t : String} (hs : JsonPlain s) (ht : JsonPlain t) :
    JsonPlain (s ++ t) := by
  unfold JsonPlain at *
  rw [String.toList_append, List.all_append, hs, ht]
  rfl

theorem isDigit_of_mem_repr {n : Nat} {c : Char} (h : c ∈ n.repr.toList) : c.isDigit = true := by
  rw [Nat.repr_eq_ofList_toDigits, String.toList_ofList] at h
  exact Nat.isDigit_of_mem_toDigits (by decide) (by decide) h

theorem digestToken_injective : Function.Injective digestToken := by
  intro d e h
  have hbytes := congrArg byteParse (String.ofList_injective h)
  rw [byteParse_byteSerialize, byteParse_byteSerialize] at hbytes
  have hchars := congrArg unbase64 (String.ofList_injective (asBytes_injective hbytes))
  rwa [unbase64_base64, unbase64_base64] at hchars

/-- The digits of a number end at the first other character. -/
theorem repr_separated {m n : Nat} {s t : List Char}
    (h : m.repr.toList ++ '-' :: s = n.repr.toList ++ '-' :: t) : m = n ∧ s = t := by
  have hdigits : ∀ (k : Nat) (u : List Char),
      (k.repr.toList ++ '-' :: u).takeWhile Char.isDigit = k.repr.toList ∧
      (k.repr.toList ++ '-' :: u).dropWhile Char.isDigit = '-' :: u := by
    intro k u
    have hall : ∀ c ∈ k.repr.toList, c.isDigit = true := fun _ hc => isDigit_of_mem_repr hc
    rw [List.takeWhile_append_of_pos hall, List.dropWhile_append_of_pos hall]
    exact ⟨by simp [Char.isDigit], by simp [Char.isDigit]⟩
  have htake := (hdigits m s).1
  have hdrop := (hdigits m s).2
  rw [h, (hdigits n t).1] at htake
  rw [h, (hdigits n t).2] at hdrop
  refine ⟨?_, (List.cons.inj hdrop).2.symm⟩
  rw [Nat.repr_eq_ofList_toDigits, Nat.repr_eq_ofList_toDigits, String.toList_ofList,
    String.toList_ofList] at htake
  rw [← decimalFrom_toDigits m, ← htake, decimalFrom_toDigits]

/-- A timed signature carries its time and its digest: equal texts have the same of both. -/
theorem timed_hmac_determines_digest (hmac : List UInt8 → List UInt8 → List UInt8)
    (message message' secret secret' : String) (timestamp timestamp' : Nat) :
    timedHmac hmac message secret timestamp = timedHmac hmac message' secret' timestamp' ↔
      timestamp = timestamp' ∧
        timedDigest hmac message secret timestamp =
          timedDigest hmac message' secret' timestamp' := by
  constructor
  · intro h
    have hchars := congrArg String.toList h
    simp only [timedHmac, String.toList_append, List.append_assoc] at hchars
    obtain ⟨htime, htoken⟩ := repr_separated hchars
    exact ⟨htime, digestToken_injective (String.toList_injective htoken)⟩
  · rintro ⟨rfl, hdigest⟩
    rw [timedHmac, timedHmac, hdigest]

example : digestToken [19, 230, 150, 213, 142, 97, 75, 159, 59, 96, 103, 137, 20, 161, 147, 158,
    159, 225, 159, 202, 196, 50, 100, 145, 148, 75, 37, 62, 35, 144, 178, 225] =
    "E%2BaW1Y5hS587YGeJFKGTnp%2Fhn8rEMmSRlEslPiOQsuE%3D" := by
  decide +kernel

/-! ## Sealing and opening -/

/-- The object that is sealed. -/
def headersText (id signature : String) : String :=
  "\x7b\"worker-id\":\"" ++ id ++ "\",\"worker-signature\":\"" ++ signature ++ "\"\x7d"

/-- What the worker reads from it. -/
def headersMap (id signature : String) : SortedMap String String :=
  (SortedMap.empty.insert "worker-id" id).insert "worker-signature" signature

/-- Where the headers of a worker come from. -/
inductive HeaderSource where
  | signed (timestamp : Nat)
  | sealed (headers : EncryptedHeaders)
  deriving DecidableEq

section

variable {P Key Rng Keypair Box Json : Type}

/-- What is taken of the libraries: a box opens what was sealed for its key, and the JSON reader
reads texts that need no escapes. -/
structure Opens (env : Sealing P Key Rng) (crypto : HeaderCrypto Keypair Box Json)
    (keypair : P → Keypair) (hmac : List UInt8 → List UInt8 → List UInt8) : Prop where
  publicKey : ∀ key, (env.publicKey key).length = 32
  box : ∀ id key plaintext rng ciphertext nonce,
    (env.encryptWithRng id key plaintext rng).1 = some (ciphertext, nonce) →
      nonce.length = 24 ∧ ∃ secret, crypto.tryIntoEd25519 (keypair id) = some secret ∧
        crypto.decrypt (crypto.salsaBox (env.publicKey key) secret) nonce ciphertext =
          some plaintext
  utf8 : ∀ text, crypto.fromUtf8 (asBytes text) = some text
  json : ∀ id signature, JsonPlain id → JsonPlain signature →
    ∃ json first second, crypto.parseJson (headersText id signature) = some json ∧
      crypto.asObject json = some [("worker-id", first), ("worker-signature", second)] ∧
      crypto.asStr first = some id ∧ crypto.asStr second = some signature
  toText : ∀ id, JsonPlain (env.toText id)
  timedHmac : env.timedHmac = Assignments.timedHmac hmac

/-- The workers added in a run, with the sources of their headers. -/
def addedHeaders (log : List (WorkerOp P × WorkerResult)) : List (P × HeaderSource) :=
  log.filterMap fun entry =>
    match entry.1 with
    | .addWorker id _ timestamp => some (id, .signed timestamp)
    | .addWorkerWithSealedHeaders id _ identity nonce ciphertext =>
      some (id, .sealed ⟨identity, nonce, ciphertext⟩)
    | _ => none

/-- The headers an entry has for its source: sealed elsewhere, or sealed here if the worker's id
holds a usable key. -/
def HeadersFrom (env : Sealing P Key Rng) (secret : String) (key : Key)
    (added : P × HeaderSource) (entry : WorkerEntry) : Prop :=
  match added.2 with
  | .sealed headers => entry.encryptedHeaders = some headers
  | .signed timestamp =>
    ∃ rng, entry.encryptedHeaders = ((env.encryptWithRng added.1 key (asBytes (headersText
      (env.toText added.1) (env.timedHmac (env.toText added.1) secret timestamp))) rng).1.map
        fun out => ⟨env.publicKey key, out.2, out.1⟩)

/-- The builder seals under one secret and one key, and the entries have their headers. -/
structure HeadersAdded (env : Sealing P Key Rng) (secret : String) (key : Key)
    (b : WorkerAssignmentBuilder P Key Rng) (log : List (WorkerOp P × WorkerResult)) : Prop where
  sameSecret : b.cloudflareStorageSecret = secret
  sameKey : b.commonSecretKey = key
  identity : b.commonIdentity.getD (env.publicKey key) = env.publicKey key
  entries : List.Forall₂ (HeadersFrom env secret key) (addedHeaders log) b.workerEntries

open WorkerAssignmentBuilder

variable {profile : Profile} {check : Bool} {env : Sealing P Key Rng} {secret : String} {key : Key}
  {b b' : WorkerAssignmentBuilder P Key Rng} {log : List (WorkerOp P × WorkerResult)}

/-- What sealing depends on, with the entries. -/
def sealing (b : WorkerAssignmentBuilder P Key Rng) :=
  (b.cloudflareStorageSecret, b.commonSecretKey, b.commonIdentity, b.workerEntries)

/-- An operation that adds no worker keeps the headers. -/
theorem HeadersAdded.unchanged (h : HeadersAdded env secret key b log)
    (hsame : sealing b' = sealing b) {op : WorkerOp P} {r : WorkerResult}
    (hlog : addedHeaders (log ++ [(op, r)]) = addedHeaders log) :
    HeadersAdded env secret key b' (log ++ [(op, r)]) := by
  simp only [sealing, Prod.mk.injEq] at hsame
  obtain ⟨hsecret, hkey, hidentity, hentries⟩ := hsame
  exact ⟨hsecret.trans h.sameSecret, hkey.trans h.sameKey, by rw [hidentity]; exact h.identity,
    by rw [hlog, hentries]; exact h.entries⟩

/-- A dataset handle's life leaves the headers alone. -/
theorem sealing_runDataset (hbetween : Between check b log) {id baseUrl : String}
    {ops : List WorkerDatasetOp} {finish : Bool} {r : WorkerResult}
    (hrun : b.runDataset profile id baseUrl ops finish = .ok (b', r)) : sealing b' = sealing b := by
  obtain ⟨mid, dlog, e, hscript, -, hcases⟩ := runDataset_cases hrun log
  have hframe := (staging_of_runScript hbetween.columns hbetween.lastBlock hscript).frame
  have houtside : sealing mid.outside = sealing b.outside := congrArg sealing hframe
  have hmid : sealing mid = sealing b := houtside
  rcases hcases with ⟨-, lastBlock, -, -, rfl, -⟩ | ⟨-, rfl, -⟩
  · exact hmid
  · exact hmid

/-- What sealing a worker's headers gives, and leaves behind. -/
theorem HeadersAdded.generate (h : HeadersAdded env secret key b log) (id : P) (timestamp : Nat)
    (workerId : WorkerId) (status : WorkerStatus) :
    (b.generateEncryptedHeaders env id timestamp).1.cloudflareStorageSecret = secret ∧
    (b.generateEncryptedHeaders env id timestamp).1.commonSecretKey = key ∧
    (b.generateEncryptedHeaders env id timestamp).1.commonIdentity.getD (env.publicKey key) =
      env.publicKey key ∧
    (b.generateEncryptedHeaders env id timestamp).1.workerEntries = b.workerEntries ∧
    HeadersFrom env secret key (id, .signed timestamp)
      ⟨workerId, statusToFb status, (b.generateEncryptedHeaders env id timestamp).2⟩ := by
  obtain ⟨hsecret, hkey, hidentity, -⟩ := h
  subst hsecret hkey
  have hseal : ∀ out rng, env.encryptWithRng id b.commonSecretKey (asBytes (headersText
      (env.toText id) (env.timedHmac (env.toText id) b.cloudflareStorageSecret timestamp))) b.rng =
        (out, rng) →
      HeadersFrom env b.cloudflareStorageSecret b.commonSecretKey (id, .signed timestamp)
        ⟨workerId, statusToFb status, out.map fun out =>
          ⟨env.publicKey b.commonSecretKey, out.2, out.1⟩⟩ := by
    intro out rng he
    refine ⟨b.rng, ?_⟩
    rw [he]
  unfold generateEncryptedHeaders
  dsimp only
  split
  · next rng he => exact ⟨rfl, rfl, hidentity, rfl, hseal none rng he⟩
  · next ciphertext nonce rng he =>
    rw [hidentity]
    exact ⟨rfl, rfl, rfl, rfl, hseal (some (ciphertext, nonce)) rng he⟩

variable [LT P] [DecidableLT P]

/-- One operation keeps the headers those of the added workers. -/
theorem HeadersAdded.step (h : HeadersAdded env secret key b log) (hbetween : Between check b log)
    {op : WorkerOp P} {r : WorkerResult} (hstep : b.step profile env op = .ok (b', r)) :
    HeadersAdded env secret key b' (log ++ [(op, r)]) := by
  cases op with
  | registerWriteSchema writeSchemaId tables =>
    have hb : (b.registerWriteSchema writeSchemaId tables).1 = b' :=
      congrArg Prod.fst (Except.ok.inj hstep)
    refine h.unchanged ?_ (by simp [addedHeaders])
    rw [← hb]
    rcases registerWriteSchema_spec b writeSchemaId tables with
      ⟨e, he⟩ | ⟨-, he⟩ | ⟨-, -, he⟩ <;>
    · exact congrArg (fun out => sealing out.1) he
  | dataset id baseUrl ops finish =>
    exact h.unchanged (sealing_runDataset hbetween hstep) (by simp [addedHeaders])
  | addWorker peer status timestamp =>
    obtain ⟨mid, hadd, hout⟩ := Exec.bind_eq_ok.mp hstep
    cases hout
    obtain ⟨⟨⟩, -, hadd⟩ := Exec.bind_eq_ok.mp hadd
    obtain ⟨slot, -, hadd⟩ := Exec.bind_eq_ok.mp hadd
    have hlast : HeadersAdded env secret key { b with lastPeerId := some peer } log :=
      ⟨h.sameSecret, h.sameKey, h.identity, h.entries⟩
    obtain ⟨hsecret, hkey, hidentity, hentries, hnew⟩ := hlast.generate peer timestamp slot status
    rw [← Except.ok.inj hadd]
    refine ⟨hsecret, hkey, hidentity, ?_⟩
    have hlog : addedHeaders (log ++ [(.addWorker peer status timestamp, WorkerResult.added)]) =
        addedHeaders log ++ [(peer, .signed timestamp)] := by simp [addedHeaders]
    rw [hlog]
    change List.Forall₂ _ _ ((generateEncryptedHeaders env { b with lastPeerId := some peer } peer
      timestamp).1.workerEntries ++ _)
    rw [hentries]
    exact List.rel_append h.entries (List.Forall₂.cons hnew List.Forall₂.nil)
  | addWorkerWithSealedHeaders peer status identity nonce ciphertext =>
    obtain ⟨mid, hadd, hout⟩ := Exec.bind_eq_ok.mp hstep
    cases hout
    obtain ⟨⟨⟩, -, hadd⟩ := Exec.bind_eq_ok.mp hadd
    obtain ⟨slot, -, hadd⟩ := Exec.bind_eq_ok.mp hadd
    cases hadd
    refine ⟨h.sameSecret, h.sameKey, h.identity, ?_⟩
    have hlog : addedHeaders (log ++ [(.addWorkerWithSealedHeaders peer status identity nonce
        ciphertext, WorkerResult.added)]) =
        addedHeaders log ++ [(peer, .sealed ⟨identity, nonce, ciphertext⟩)] := by
      simp [addedHeaders]
    rw [hlog]
    exact List.rel_append h.entries (List.Forall₂.cons rfl List.Forall₂.nil)

end

section Reading

variable {P Key Rng Keypair Box Json : Type} {env : Sealing P Key Rng}
  {crypto : HeaderCrypto Keypair Box Json} {keypair : P → Keypair}
  {hmac : List UInt8 → List UInt8 → List UInt8}

/-- The object that is sealed is read back. -/
theorem Opens.headerMap (h : Opens env crypto keypair hmac) {id signature : String}
    (hid : JsonPlain id) (hsignature : JsonPlain signature) :
    headerMap crypto (asBytes (headersText id signature)) = .ok (headersMap id signature) := by
  obtain ⟨json, first, second, hjson, hobject, hfirst, hsecond⟩ :=
    h.json id signature hid hsignature
  simp only [Assignments.headerMap, h.utf8, Option.elim_some, bind, Except.bind, hjson, hobject,
    List.foldl_cons, List.foldl_nil, hfirst, hsecond, headersMap]

/-- Headers that were sealed for a worker open with its key. -/
theorem Opens.decryptHeaders (h : Opens env crypto keypair hmac) {id : P} {key : Key} {rng : Rng}
    {signature : String} (hsignature : JsonPlain signature) {out : List UInt8 × List UInt8}
    (hseal : (env.encryptWithRng id key (asBytes (headersText (env.toText id) signature)) rng).1 =
      some out) :
    decryptHeaders crypto (some ⟨env.publicKey key, out.2, out.1⟩) (keypair id) =
      .ok (.ok (headersMap (env.toText id) signature)) := by
  obtain ⟨hnonce, secret, hsecret, hopen⟩ := h.box _ _ _ _ _ _ hseal
  unfold Assignments.decryptHeaders
  rw [hsecret]
  dsimp only
  rw [if_neg (not_not.mpr (h.publicKey key)), hnonce, hopen, ← h.headerMap (h.toText id) hsignature]
  rfl

variable [LinearOrder P] {fromBytes : List UInt8 → Option P} {a : WorkerAssignment}

end Reading

end SqdNetwork.Assignments
