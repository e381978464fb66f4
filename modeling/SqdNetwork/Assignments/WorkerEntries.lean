import Mathlib.Data.List.Lex
import Mathlib.Order.Lattice
import SqdNetwork.Core.SortedMap
import SqdNetwork.Assignments.Lookup

/-!
# Worker entries

Worker entries are searched by the peer id their stored bytes parse to, and carry
headers sealed for the worker's key. Parsing, decryption and the JSON reader are
parameters; the fixed-size conversions around them are the reader's own. Accepted
buffers are checked for neither, so exactly the entries a search comes to must
parse, and exactly the nonces that are reached must have their size.
-/

namespace SqdNetwork.Assignments

open SqdNetwork.Core

section Peers

variable {P : Type}

/-- The peer id a stored slot parses to. -/
def WorkerId.tryInto (fromBytes : List UInt8 → Option P) (w : WorkerId) : Option P :=
  fromBytes w.bytes

/-- The order of an entry's parsed id against a sought one; an id that does not parse panics. -/
def WorkerEntry.compareId [Ord P] (fromBytes : List UInt8 → Option P) (id : P) (x : WorkerEntry) :
    Exec Ordering := do
  let parsed ← Exec.expect "Couldn't parse peer id" (x.workerId.tryInto fromBytes)
  .ok (compare parsed id)

/-- The worker with the given peer id. -/
def WorkerAssignment.getWorker [Ord P] (fromBytes : List UInt8 → Option P) (a : WorkerAssignment)
    (id : P) : Exec (Option AssignedWorker) := do
  match ← lookupIndexByKey a.workers (WorkerEntry.compareId fromBytes id) with
  | none => .ok none
  | some index => do
    let worker ← Exec.index a.workers index
    .ok (some ⟨a.reader, worker, UInt16.ofNat index⟩)

def AssignedWorker.peerId (fromBytes : List UInt8 → Option P) (w : AssignedWorker) : Option P :=
  w.reader.workerId.tryInto fromBytes

def AssignedWorker.status (w : AssignedWorker) : WorkerStatus := statusFromFb w.reader.status

/-- The peer id of the worker at a position. -/
def PortalAssignment.getWorkerId (fromBytes : List UInt8 → Option P) (a : PortalAssignment)
    (index : UInt16) : Exec (Option P) := do
  let worker ← Exec.index a.reader.workers index.toNat
  .ok (worker.workerId.tryInto fromBytes)

end Peers

section Search

variable {P : Type} [Ord P] {fromBytes : List UInt8 → Option P} {a : WorkerAssignment} {id : P}

/-- The search for an id comes to the entry at a position. -/
def WorkerAssignment.ComesTo (fromBytes : List UInt8 → Option P) (a : WorkerAssignment) (id : P)
    (i : Nat) : Prop :=
  a.workers ≠ [] ∧
    Probed (fun i => do WorkerEntry.compareId fromBytes id (← Exec.index a.workers i)) 0
      (a.workers.length - 1) i

/-- A comparison returns exactly when the entry is there and its id parses. -/
theorem compareId_returns_iff {i : Nat} (hi : i < a.workers.length) :
    (do WorkerEntry.compareId fromBytes id (← Exec.index a.workers i) : Exec Ordering).Returns ↔
      (a.workers[i].workerId.tryInto fromBytes).isSome = true := by
  rw [Exec.index_of_lt hi, Exec.ok_bind, WorkerEntry.compareId]
  cases a.workers[i].workerId.tryInto fromBytes with
  | none => exact iff_of_false (fun ⟨_, h⟩ => by cases h) (by simp)
  | some parsed => exact iff_of_true ⟨_, rfl⟩ rfl

/-- The lookup of an id returns exactly when every entry the search comes to parses. -/
theorem getWorker_returns_iff :
    (a.getWorker fromBytes id).Returns ↔
      ∀ i worker, a.ComesTo fromBytes id i → a.workers[i]? = some worker →
        (worker.workerId.tryInto fromBytes).isSome = true := by
  have hlookup : (lookupIndexByKey a.workers (WorkerEntry.compareId fromBytes id)).Returns ↔
      ∀ i worker, a.ComesTo fromBytes id i → a.workers[i]? = some worker →
        (worker.workerId.tryInto fromBytes).isSome = true := by
    unfold lookupIndexByKey
    split
    · next hempty =>
      exact iff_of_true ⟨_, rfl⟩ fun i worker hcomes => absurd (by simpa using hempty) hcomes.1
    · next hne =>
      have hne : a.workers ≠ [] := by simpa using hne
      have hpos := List.length_pos_iff.mpr hne
      rw [keySearch_returns_iff]
      refine ⟨fun h i worker hcomes hworker => ?_, fun h i hprobed => ?_⟩
      · obtain ⟨hi, rfl⟩ := List.getElem?_eq_some_iff.mp hworker
        exact (compareId_returns_iff hi).mp (h i hcomes.2)
      · have hi : i < a.workers.length := by have := hprobed.bounds; omega
        exact (compareId_returns_iff hi).mpr
          (h i _ ⟨hne, hprobed⟩ (List.getElem?_eq_getElem hi))
  rw [← hlookup]
  refine ⟨fun ⟨r, hr⟩ => ?_, fun ⟨r, hr⟩ => ?_⟩
  · obtain ⟨index, hindex, -⟩ := Exec.bind_eq_ok.mp hr
    exact ⟨index, hindex⟩
  · rw [WorkerAssignment.getWorker, hr, Exec.ok_bind]
    cases r with
    | none => exact ⟨_, rfl⟩
    | some index =>
      obtain ⟨worker, hworker⟩ := index_of_lookupIndexByKey hr
      dsimp only
      rw [hworker]
      exact ⟨_, rfl⟩

end Search

/-- The key conversions, the box and the JSON reader behind sealed headers. -/
structure HeaderCrypto (Keypair Box Json : Type) where
  /-- The secret bytes of an Ed25519 keypair, nothing for another kind. -/
  tryIntoEd25519 : Keypair → Option (List UInt8)
  /-- The box shared by a public key and the hashed secret. -/
  salsaBox : List UInt8 → List UInt8 → Box
  /-- Open a ciphertext under a nonce. -/
  decrypt : Box → List UInt8 → List UInt8 → Option (List UInt8)
  /-- The text of the bytes, when they are UTF-8. -/
  fromUtf8 : List UInt8 → Option String
  parseJson : String → Option Json
  /-- The members of an object. -/
  asObject : Json → Option (List (String × Json))
  asStr : Json → Option String

/-- Why sealed headers cannot be read. -/
inductive HeaderError where
  | notEd25519
  | missing
  | identityLength
  | decryption
  | notUtf8
  | notJson
  | notAnObject
  deriving DecidableEq, Repr

section Headers

variable {Keypair Box Json : Type}

/-- The text members of a decrypted JSON object. -/
def headerMap (crypto : HeaderCrypto Keypair Box Json) (plaintext : List UInt8) :
    Except HeaderError (SortedMap String String) := do
  let text ← (crypto.fromUtf8 plaintext).elim (.error .notUtf8) .ok
  let json ← (crypto.parseJson text).elim (.error .notJson) .ok
  let members ← (crypto.asObject json).elim (.error .notAnObject) .ok
  .ok (members.foldl
    (fun map member => (crypto.asStr member.2).elim map (map.insert member.1)) .empty)

/-- Open sealed headers with a key. The public key is checked for its size; the nonce is
converted without a check, which panics on any other size. -/
def decryptHeaders (crypto : HeaderCrypto Keypair Box Json) (headers : Option EncryptedHeaders)
    (key : Keypair) : Exec (Except HeaderError (SortedMap String String)) :=
  match crypto.tryIntoEd25519 key, headers with
  | none, _ => .ok (.error .notEd25519)
  | some _, none => .ok (.error .missing)
  | some secret, some headers =>
    if headers.identity.length ≠ 32 then .ok (.error .identityLength)
    else do
      let sharedBox := crypto.salsaBox headers.identity secret
      Exec.assert "slice length of the nonce" (headers.nonce.length = 24)
      .ok <| match crypto.decrypt sharedBox headers.nonce headers.ciphertext with
        | none => .error .decryption
        | some plaintext => headerMap crypto plaintext

def AssignedWorker.decryptHeaders (crypto : HeaderCrypto Keypair Box Json) (w : AssignedWorker)
    (key : Keypair) : Exec (Except HeaderError (SortedMap String String)) :=
  Assignments.decryptHeaders crypto w.reader.encryptedHeaders key

/-- With an Ed25519 key the headers are read without a panic exactly when the nonce behind a
public key of the right size has its size, too. -/
theorem decryptHeaders_returns_iff {crypto : HeaderCrypto Keypair Box Json} {w : AssignedWorker}
    {key : Keypair} (hkey : (crypto.tryIntoEd25519 key).isSome = true) :
    (w.decryptHeaders crypto key).Returns ↔
      ∀ headers, w.reader.encryptedHeaders = some headers → headers.identity.length = 32 →
        headers.nonce.length = 24 := by
  obtain ⟨secret, hsecret⟩ := Option.isSome_iff_exists.mp hkey
  unfold AssignedWorker.decryptHeaders decryptHeaders
  rw [hsecret]
  cases w.reader.encryptedHeaders with
  | none => exact iff_of_true ⟨_, rfl⟩ (by simp)
  | some headers =>
    dsimp only
    by_cases hid : headers.identity.length = 32
    · rw [if_neg (not_not.mpr hid)]
      by_cases hnonce : headers.nonce.length = 24
      · refine iff_of_true ?_ ?_
        · simp only [hnonce, decide_true, Exec.assert, if_true, Exec.ok_bind]
          exact ⟨_, rfl⟩
        · rintro _ ⟨⟩ -
          exact hnonce
      · refine iff_of_false ?_ fun h => hnonce (h headers rfl hid)
        simp only [hnonce, decide_false, Exec.assert, Bool.false_eq_true, if_false,
          Exec.error_bind]
        rintro ⟨_, ⟨⟩⟩
    · rw [if_pos hid]
      refine iff_of_true ⟨_, rfl⟩ ?_
      rintro _ ⟨⟩ h
      exact absurd h hid

end Headers

/-- A dataset's first block is read without a panic exactly when it has a chunk. -/
theorem firstBlock_returns_iff (d : PortalAssignmentDataset) :
    d.firstBlock.Returns ↔ d.firstBlocks ≠ [] := by
  unfold PortalAssignmentDataset.firstBlock
  cases d.firstBlocks with
  | nil => exact iff_of_false (by rintro ⟨_, ⟨⟩⟩) (by simp)
  | cons first rest => exact iff_of_true ⟨first, rfl⟩ (by simp)

/-- On every accepted buffer: the lookup of a peer id returns exactly when the entries its search
comes to parse, sealed headers are read exactly when the nonce that is reached has 24 bytes, and
a portal dataset's first block is read exactly when it has a chunk. -/
theorem accepted_entry_reads_return_iff {P : Type} [Ord P] (fromBytes : List UInt8 → Option P)
    (workerFb : FlatBuffers WorkerAssignmentRoot) (portalFb : FlatBuffers PortalAssignmentRoot) :
    (∀ (buf : workerFb.Buf) (a : WorkerAssignment),
      WorkerAssignment.fromOwned workerFb buf = .ok a →
      (∀ id : P, (a.getWorker fromBytes id).Returns ↔
        ∀ i worker, a.ComesTo fromBytes id i → a.workers[i]? = some worker →
          (worker.workerId.tryInto fromBytes).isSome = true) ∧
      ∀ (Keypair Box Json : Type) (crypto : HeaderCrypto Keypair Box Json) (key : Keypair)
        (w : AssignedWorker), (crypto.tryIntoEd25519 key).isSome = true →
        ((∃ index, a.getWorkerByIndex index = .ok w) ∨
          ∃ id : P, a.getWorker fromBytes id = .ok (some w)) →
        ((w.decryptHeaders crypto key).Returns ↔
          ∀ headers, w.reader.encryptedHeaders = some headers → headers.identity.length = 32 →
            headers.nonce.length = 24)) ∧
    ∀ (buf : portalFb.Buf) (a : PortalAssignment),
      PortalAssignment.fromOwned portalFb buf = .ok a →
      ∀ d ∈ a.datasets, (d.firstBlock.Returns ↔ d.firstBlocks ≠ []) := by
  refine ⟨fun buf a haccept => ⟨fun id => getWorker_returns_iff, ?_⟩, ?_⟩
  · intro Keypair Box Json crypto key w hkey hfound
    exact decryptHeaders_returns_iff hkey
  · intro buf a haccept d hd
    exact firstBlock_returns_iff d

/-- A peer id that is an identity multihash: code zero, the digest's length, the digest. -/
structure IdentityPeer where
  digest : List UInt8
  /-- Longer keys are hashed instead. -/
  bound : digest.length ≤ 42
  deriving DecidableEq

namespace IdentityPeer

def toBytes (p : IdentityPeer) : List UInt8 := 0 :: UInt8.ofNat p.digest.length :: p.digest

/-- Trailing or missing digest bytes are refused. -/
def fromBytes : List UInt8 → Option IdentityPeer
  | 0 :: size :: digest =>
    if h : digest.length = size.toNat ∧ digest.length ≤ 42 then some ⟨digest, h.2⟩ else none
  | _ => none

theorem toBytes_injective : Function.Injective toBytes := by
  rintro ⟨digest, hd⟩ ⟨digest', hd'⟩ h
  simp only [toBytes, List.cons.injEq, true_and] at h
  obtain rfl := h.2
  rfl

/-- The order of ids: by length, then by digest. -/
instance : LinearOrder IdentityPeer :=
  LinearOrder.lift' (fun p => p.toBytes.map UInt8.toNat)
    ((List.map_injective_iff.mpr fun _ _ h => UInt8.toNat_inj.mp h).comp toBytes_injective)

/-- Every id is read back from its bytes. -/
theorem fromBytes_toBytes (p : IdentityPeer) : fromBytes p.toBytes = some p := by
  have hsize : (UInt8.ofNat p.digest.length).toNat = p.digest.length :=
    Nat.mod_eq_of_lt (Nat.lt_of_le_of_lt p.bound (by decide))
  have hfits : p.digest.length = (UInt8.ofNat p.digest.length).toNat ∧ p.digest.length ≤ 42 :=
    ⟨hsize.symm, p.bound⟩
  simp only [toBytes, fromBytes]
  rw [dif_pos hfits]

/-- Only an id's own bytes are read as it. -/
theorem toBytes_of_fromBytes {bytes : List UInt8} {p : IdentityPeer}
    (h : fromBytes bytes = some p) : p.toBytes = bytes := by
  unfold fromBytes at h
  split at h
  · next size digest =>
    split at h
    · next hfits =>
      cases h
      simp [toBytes, hfits.1]
    · cases h
  · cases h

end IdentityPeer

/-- A worker assignment with one entry: its stored id and the size of its nonce. -/
def sampleEntryRoot (workerId : WorkerId) (nonce : Nat) : WorkerAssignmentRoot where
  datasets := []
  workers := [⟨workerId, statusToFb .ok, some ⟨List.replicate 32 1, List.replicate nonce 2, [3]⟩⟩]
  schemas := []

/-- A portal assignment with one dataset, whose chunks start at the given blocks. -/
def sampleFirstBlocksRoot (firstBlocks : List UInt64) : PortalAssignmentRoot where
  datasets := [{
    id := "a"
    lastBlock := 0
    lastBlockHash := none
    readSchemaId := 0
    firstBlocks := firstBlocks
    blockDeltas := firstBlocks.map fun _ => 0
    hashes := firstBlocks.map fun _ => ⟨List.replicate 8 48, rfl⟩
    tops := [⟨0, 0⟩]
    timestamps := firstBlocks
    versions := none
    workerOffsets := 0 :: firstBlocks.map fun _ => 0
    workerIndexes := [] }]
  workers := []

/-- A box that opens nothing, for keys that are all Ed25519. -/
def sampleCrypto : HeaderCrypto Unit Unit Unit where
  tryIntoEd25519 _ := some []
  salsaBox _ _ := ()
  decrypt _ _ _ := none
  fromUtf8 _ := none
  parseJson _ := none
  asObject _ := none
  asStr _ := none

/-- A slot whose digest has the announced 36 bytes. -/
def sampleParsedId : WorkerId := ⟨0 :: 36 :: List.replicate 36 7, rfl⟩

/-- A slot that announces an empty digest and goes on. -/
def sampleUnparsedId : WorkerId := ⟨List.replicate 38 0, rfl⟩

theorem accepted_entry_reads_return_sample :
    (∃ a w, WorkerAssignment.fromOwned (.plain _) (sampleEntryRoot sampleParsedId 24) = .ok a ∧
      (∀ id : IdentityPeer, (a.getWorker IdentityPeer.fromBytes id).Returns) ∧
      a.getWorkerByIndex 0 = .ok w ∧ (w.decryptHeaders sampleCrypto ()).Returns) ∧
    ∃ a, PortalAssignment.fromOwned (.plain _) (sampleFirstBlocksRoot [5]) = .ok a ∧
      ∀ d ∈ a.datasets, d.firstBlock.Returns := by
  have h := accepted_entry_reads_return_iff IdentityPeer.fromBytes (.plain _) (.plain _)
  obtain ⟨hget, hheaders⟩ := h.1 (sampleEntryRoot sampleParsedId 24)
    ⟨sampleEntryRoot sampleParsedId 24⟩ rfl
  refine ⟨⟨_, _, rfl, fun id => (hget id).mpr fun i worker _ hworker => ?_, rfl,
    (hheaders Unit Unit Unit sampleCrypto () _ rfl (Or.inl ⟨0, rfl⟩)).mpr ?_⟩,
    ⟨⟨sampleFirstBlocksRoot [5]⟩, rfl, fun d hd =>
      (h.2 (sampleFirstBlocksRoot [5]) _ rfl d hd).mpr ?_⟩⟩
  · obtain rfl := List.mem_singleton.mp (List.mem_of_getElem? hworker)
    decide
  · rintro headers ⟨⟩ -
    rfl
  · obtain rfl := List.mem_singleton.mp hd
    simp

/-- Accepted buffers on which a lookup meets an unparsable id, a nonce lacks a byte and a dataset
has no chunk: all three reads panic. -/
theorem accepted_entry_reads_panic :
    (∃ (a : WorkerAssignment) (id : IdentityPeer) (w : AssignedWorker),
      WorkerAssignment.fromOwned (.plain _) (sampleEntryRoot sampleUnparsedId 23) = .ok a ∧
      ¬(a.getWorker IdentityPeer.fromBytes id).Returns ∧ a.getWorkerByIndex 0 = .ok w ∧
      ¬(w.decryptHeaders sampleCrypto ()).Returns) ∧
    ∃ (a : PortalAssignment) (d : PortalAssignmentDataset),
      PortalAssignment.fromOwned (.plain _) (sampleFirstBlocksRoot []) = .ok a ∧
      d ∈ a.datasets ∧ ¬d.firstBlock.Returns := by
  refine ⟨⟨⟨sampleEntryRoot sampleUnparsedId 23⟩, ⟨[], Nat.zero_le _⟩, _, rfl, fun h => ?_, rfl,
    fun h => ?_⟩, ⟨⟨sampleFirstBlocksRoot []⟩, _, rfl, List.mem_singleton_self _, fun h => ?_⟩⟩
  · have hparse := getWorker_returns_iff.mp h 0 _
      ⟨by simp [WorkerAssignment.workers, sampleEntryRoot], .middle (Nat.le_refl 0)⟩ rfl
    exact absurd hparse (by decide)
  · have hnonce := (decryptHeaders_returns_iff rfl).mp h _ rfl rfl
    exact absurd hnonce (by decide)
  · exact (firstBlock_returns_iff _).mp h rfl

end SqdNetwork.Assignments
