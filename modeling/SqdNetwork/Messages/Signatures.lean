import SqdNetwork.Core.Outcome
import SqdNetwork.Core.Text
import SqdNetwork.Core.Wire

/-!
# The bytes that queries and results sign

Portals sign queries for one worker and workers sign results. A signature covers
a byte string built from some fields of the message. These strings are told apart
by their fields, and the strings of the three kinds of message never coincide.
-/

namespace SqdNetwork.Messages

open SqdNetwork.Core

/-- An inclusive range of blocks. -/
structure Range where
  start : UInt64
  stop : UInt64
  deriving DecidableEq

/-- A query as a portal sends it, but for its compression and chunk version. -/
structure Query where
  queryId : String
  dataset : String
  requestId : String := ""
  query : String
  blockRange : Option Range := none
  chunkId : String
  timestampMs : UInt64
  signature : List UInt8 := []
  /-- Zero for the default engine. -/
  queryEngine : Int32 := 0
  /-- Zero for the default format. -/
  outputFormat : Int32 := 0

/-- Why a worker could not answer. -/
inductive QueryErr where
  | badRequest (message : String)
  | notFound (message : String)
  | serverError (message : String)
  | tooManyRequests
  | serverOverloaded

/-- The kinds of query error. -/
inductive QueryErrKind where
  | badRequest
  | notFound
  | serverError
  | tooManyRequests
  | serverOverloaded
  deriving DecidableEq

/-- The kind of an error, without its text. -/
def QueryErr.kind : QueryErr → QueryErrKind
  | .badRequest _ => .badRequest
  | .notFound _ => .notFound
  | .serverError _ => .serverError
  | .tooManyRequests => .tooManyRequests
  | .serverOverloaded => .serverOverloaded

/-- Bytes in a SHA3-256 digest. -/
def sha3_256Size : Nat := 32

/-- Bytes in the text of a version 4 UUID. -/
def uuidV4Size : Nat := 36

/-- The bytes of a 32-bit number, least significant first. -/
def u32LeBytes (x : UInt32) : List UInt8 := leBytes 4 x.toNat

/-- The bytes of a 64-bit number, least significant first. -/
def u64LeBytes (x : UInt64) : List UInt8 := leBytes 8 x.toNat

/-- The byte of a signed number that fits in one. -/
def tryIntoU8 (x : Int32) : Option UInt8 :=
  if 0 ≤ x.toInt ∧ x.toInt < 256 then some (UInt8.ofNat x.toInt.toNat) else none

/-- The payload of a query for one worker. Texts that outgrow a 32-bit length panic; the engine
and format are written only when one is not the default, after a zero byte that stands for a
missing range. -/
def Query.msgToSign {P : Type} (toBytes : P → List UInt8) (q : Query) (workerId : P) :
    Exec (Option (List UInt8)) :=
  if (asBytes q.queryId).length ≠ uuidV4Size then .ok none
  else do
    let datasetLen ← Exec.expect "dataset length fits in u32"
      (Exec.tryIntoU32 (asBytes q.dataset).length)
    let queryLen ← Exec.expect "query length fits in u32"
      (Exec.tryIntoU32 (asBytes q.query).length)
    let chunkIdLen ← Exec.expect "chunk_id length fits in u32"
      (Exec.tryIntoU32 (asBytes q.chunkId).length)
    let msg := asBytes q.queryId ++ toBytes workerId ++ u64LeBytes q.timestampMs ++
      u32LeBytes datasetLen ++ asBytes q.dataset ++ u32LeBytes queryLen ++ asBytes q.query ++
      u32LeBytes chunkIdLen ++ asBytes q.chunkId
    let msg := match q.blockRange with
      | some range => msg ++ u64LeBytes range.start ++ u64LeBytes range.stop
      | none => msg
    if q.queryEngine ≠ 0 ∨ q.outputFormat ≠ 0 then
      let msg := if q.blockRange.isNone then msg ++ [0] else msg
      .ok (do
        let engine ← tryIntoU8 q.queryEngine
        let format ← tryIntoU8 q.outputFormat
        some (msg ++ [engine] ++ [format]))
    else .ok (some msg)

/-- The payload of a successful result. -/
def msgToSignQueryOk (queryId : String) (dataHash : List UInt8) (lastBlock : UInt64) :
    Option (List UInt8) :=
  if dataHash.length ≠ sha3_256Size then none
  else if (asBytes queryId).length ≠ uuidV4Size then none
  else some (asBytes queryId ++ dataHash ++ u64LeBytes lastBlock)

/-- The payload of a failed result; the text of the error is not covered. -/
def msgToSignQueryErr (queryId : String) (err : QueryErr) : Option (List UInt8) :=
  if (asBytes queryId).length ≠ uuidV4Size then none
  else
    let code : UInt8 := match err with
      | .badRequest _ => 1
      | .notFound _ => 2
      | .serverError _ => 3
      | .tooManyRequests => 4
      | .serverOverloaded => 5
    some (asBytes queryId ++ [code])

section Fields

theorem selfDelimiting_u64LeBytes : SelfDelimiting (fun _ : UInt64 => True) u64LeBytes := by
  intro a b _ _ xs ys h
  obtain ⟨hab, hrest⟩ := selfDelimiting_leBytes 8 a.toNat_lt b.toNat_lt h
  exact ⟨UInt64.toNat_inj.mp hab, hrest⟩

/-- The text of a query id of the right size marks its own end. -/
theorem selfDelimiting_queryId :
    SelfDelimiting (fun s : String => (asBytes s).length = uuidV4Size) asBytes :=
  .of_length (fun _ h => h) fun _ _ _ _ h => asBytes_injective h

/-- A text preceded by its length marks its own end. -/
theorem selfDelimiting_text :
    SelfDelimiting (fun s : String => (asBytes s).length < 256 ^ 4)
      fun s => leBytes 4 (asBytes s).length ++ asBytes s :=
  (selfDelimiting_leBytes 4).lengthPrefixed.comp asBytes_injective

theorem tryIntoU8_inj {x y : Int32} {byte : UInt8} (hx : tryIntoU8 x = some byte)
    (hy : tryIntoU8 y = some byte) : x = y := by
  unfold tryIntoU8 at hx hy
  split at hx
  · next hxb =>
    split at hy
    · next hyb =>
      have he := (Option.some.inj hx).trans (Option.some.inj hy).symm
      have hnat := congrArg UInt8.toNat he
      rw [UInt8.toNat_ofNat_of_lt' (by change _ < 256; omega),
        UInt8.toNat_ofNat_of_lt' (by change _ < 256; omega)] at hnat
      exact Int32.toInt_inj.mp (by omega)
    · exact absurd hy (by simp)
  · exact absurd hx (by simp)

end Fields

section Tail

/-- The bytes of the range, none when it is missing. -/
def rangeBytes : Option Range → List UInt8
  | some range => u64LeBytes range.start ++ u64LeBytes range.stop
  | none => []

/-- The bytes of the engine and the format, none when both are the default. -/
def choiceBytes (rangeMissing : Bool) (engine format : Int32) : Option (List UInt8) :=
  if engine ≠ 0 ∨ format ≠ 0 then do
    let e ← tryIntoU8 engine
    let f ← tryIntoU8 format
    some ((if rangeMissing then [0] else []) ++ [e, f])
  else some []

variable {missing : Bool} {range range' : Option Range} {engine engine' format format' : Int32}
  {choice choice' : List UInt8}

theorem choiceBytes_cases (h : choiceBytes missing engine format = some choice) :
    (engine = 0 ∧ format = 0 ∧ choice = []) ∨
    ∃ e f, tryIntoU8 engine = some e ∧ tryIntoU8 format = some f ∧
      choice = (if missing then [0] else []) ++ [e, f] := by
  unfold choiceBytes at h
  split at h
  · obtain ⟨e, he, h⟩ := Option.bind_eq_some_iff.mp h
    obtain ⟨f, hf, h⟩ := Option.bind_eq_some_iff.mp h
    exact Or.inr ⟨e, f, he, hf, (Option.some.inj h).symm⟩
  · next hdefault =>
    rw [not_or, not_not, not_not] at hdefault
    exact Or.inl ⟨hdefault.1, hdefault.2, (Option.some.inj h).symm⟩

theorem length_choiceBytes_le (h : choiceBytes missing engine format = some choice) :
    choice.length ≤ 3 := by
  rcases choiceBytes_cases h with ⟨-, -, rfl⟩ | ⟨e, f, -, -, rfl⟩
  · exact Nat.zero_le 3
  · cases missing <;> simp

/-- The bytes determine the engine and the format. -/
theorem choiceBytes_inj (h : choiceBytes missing engine format = some choice)
    (h' : choiceBytes missing engine' format' = some choice) :
    engine = engine' ∧ format = format' := by
  rcases choiceBytes_cases h with ⟨rfl, rfl, rfl⟩ | ⟨e, f, he, hf, rfl⟩
  · rcases choiceBytes_cases h' with ⟨rfl, rfl, -⟩ | ⟨e', f', -, -, hnil⟩
    · exact ⟨rfl, rfl⟩
    · exact absurd hnil (by simp)
  · rcases choiceBytes_cases h' with ⟨-, -, hnil⟩ | ⟨e', f', he', hf', heq⟩
    · exact absurd hnil (by simp)
    · obtain ⟨rfl, rfl⟩ : e = e' ∧ f = f' := by simpa using heq
      exact ⟨tryIntoU8_inj he he', tryIntoU8_inj hf hf'⟩

/-- The end of a payload, of 0, 3, 16 or 18 bytes, determines the range, the engine and the
format. -/
theorem tail_inj (h : choiceBytes range.isNone engine format = some choice)
    (h' : choiceBytes range'.isNone engine' format' = some choice')
    (heq : rangeBytes range ++ choice = rangeBytes range' ++ choice') :
    range = range' ∧ engine = engine' ∧ format = format' := by
  have hlen := congrArg List.length heq
  have hshort := length_choiceBytes_le h
  have hshort' := length_choiceBytes_le h'
  cases range with
  | none =>
    cases range' with
    | none =>
      rw [rangeBytes, List.nil_append, List.nil_append] at heq
      subst heq
      exact ⟨rfl, choiceBytes_inj h h'⟩
    | some r' =>
      simp only [rangeBytes, u64LeBytes, List.length_append, length_leBytes, List.length_nil]
        at hlen
      omega
  | some r =>
    cases range' with
    | none =>
      simp only [rangeBytes, u64LeBytes, List.length_append, length_leBytes, List.length_nil]
        at hlen
      omega
    | some r' =>
      rw [rangeBytes, rangeBytes, List.append_assoc, List.append_assoc] at heq
      obtain ⟨hstart, heq⟩ := selfDelimiting_u64LeBytes trivial trivial heq
      obtain ⟨hstop, rfl⟩ := selfDelimiting_u64LeBytes trivial trivial heq
      refine ⟨?_, choiceBytes_inj h h'⟩
      cases r
      cases r'
      simp_all

end Tail

section Payloads

variable {P : Type} {toBytes : P → List UInt8} {q : Query} {workerId : P} {msg : List UInt8}

/-- The part of a query payload that every query has. -/
def Query.head (toBytes : P → List UInt8) (q : Query) (workerId : P) : List UInt8 :=
  asBytes q.queryId ++ (toBytes workerId ++ (u64LeBytes q.timestampMs ++
    ((leBytes 4 (asBytes q.dataset).length ++ asBytes q.dataset) ++
      ((leBytes 4 (asBytes q.query).length ++ asBytes q.query) ++
        (leBytes 4 (asBytes q.chunkId).length ++ asBytes q.chunkId)))))

/-- What it takes for a query to have a payload, and what the payload then is. -/
structure Query.Signs (toBytes : P → List UInt8) (q : Query) (workerId : P) (msg : List UInt8) :
    Prop where
  queryId : (asBytes q.queryId).length = uuidV4Size
  dataset : (asBytes q.dataset).length < 256 ^ 4
  query : (asBytes q.query).length < 256 ^ 4
  chunkId : (asBytes q.chunkId).length < 256 ^ 4
  tail : ∃ choice, choiceBytes q.blockRange.isNone q.queryEngine q.outputFormat = some choice ∧
    msg = q.head toBytes workerId ++ (rangeBytes q.blockRange ++ choice)

/-- A text length read as 32 bits is the length, which then fits. -/
theorem lenBytes_of_expect {message s : String} {x : UInt32}
    (h : Exec.expect message (Exec.tryIntoU32 (asBytes s).length) = .ok x) :
    (asBytes s).length < 256 ^ 4 ∧ u32LeBytes x = leBytes 4 (asBytes s).length := by
  have hx := Exec.tryIntoU32_eq_some (Exec.expect_eq_ok h)
  exact ⟨hx ▸ x.toNat_lt, by rw [u32LeBytes, hx]⟩

theorem Query.signs_of_msgToSign (h : q.msgToSign toBytes workerId = .ok (some msg)) :
    q.Signs toBytes workerId msg := by
  unfold Query.msgToSign at h
  split at h
  · exact absurd (Except.ok.inj h) (by simp)
  · next hid =>
    obtain ⟨datasetLen, hdataset, h⟩ := Exec.bind_eq_ok.mp h
    obtain ⟨queryLen, hquery, h⟩ := Exec.bind_eq_ok.mp h
    obtain ⟨chunkIdLen, hchunkId, h⟩ := Exec.bind_eq_ok.mp h
    obtain ⟨hdataset, hd⟩ := lenBytes_of_expect hdataset
    obtain ⟨hquery, hq⟩ := lenBytes_of_expect hquery
    obtain ⟨hchunkId, hc⟩ := lenBytes_of_expect hchunkId
    refine ⟨not_not.mp hid, hdataset, hquery, hchunkId, ?_⟩
    dsimp only at h
    rw [hd, hq, hc] at h
    split at h
    · next hset =>
      obtain ⟨e, he, h⟩ := Option.bind_eq_some_iff.mp (Except.ok.inj h)
      obtain ⟨f, hf, h⟩ := Option.bind_eq_some_iff.mp h
      refine ⟨_, by rw [choiceBytes, if_pos hset, he, hf]; rfl, ?_⟩
      rw [← Option.some.inj h]
      cases q.blockRange <;> simp [Query.head, rangeBytes]
    · next hset =>
      refine ⟨[], by rw [choiceBytes, if_neg hset], ?_⟩
      rw [← Option.some.inj (Except.ok.inj h)]
      cases q.blockRange <;> simp [Query.head, rangeBytes]

/-- A query payload is longer than that of any result when worker ids have 38 bytes. -/
theorem Query.Signs.length_ge (h : q.Signs toBytes workerId msg)
    (hworker : (toBytes workerId).length = 38) : 94 ≤ msg.length := by
  obtain ⟨choice, -, rfl⟩ := h.tail
  have hid := h.queryId
  simp only [Query.head, u64LeBytes, List.length_append, length_leBytes, uuidV4Size] at hid ⊢
  omega

theorem msgToSignQueryOk_eq_some {queryId : String} {dataHash : List UInt8} {lastBlock : UInt64}
    (h : msgToSignQueryOk queryId dataHash lastBlock = some msg) :
    dataHash.length = sha3_256Size ∧ (asBytes queryId).length = uuidV4Size ∧
      msg = asBytes queryId ++ (dataHash ++ u64LeBytes lastBlock) := by
  unfold msgToSignQueryOk at h
  split at h
  · exact absurd h (by simp)
  · next hhash =>
    split at h
    · exact absurd h (by simp)
    · next hid =>
      refine ⟨not_not.mp hhash, not_not.mp hid, ?_⟩
      rw [← Option.some.inj h, List.append_assoc]

/-- The code an error kind is signed as. -/
def QueryErrKind.code : QueryErrKind → UInt8
  | .badRequest => 1
  | .notFound => 2
  | .serverError => 3
  | .tooManyRequests => 4
  | .serverOverloaded => 5

theorem QueryErrKind.code_injective : Function.Injective QueryErrKind.code := by
  intro a b h
  cases a <;> cases b <;> first | rfl | exact absurd h (by decide)

theorem msgToSignQueryErr_eq_some {queryId : String} {err : QueryErr}
    (h : msgToSignQueryErr queryId err = some msg) :
    (asBytes queryId).length = uuidV4Size ∧ msg = asBytes queryId ++ [err.kind.code] := by
  unfold msgToSignQueryErr at h
  split at h
  · exact absurd h (by simp)
  · next hid =>
    refine ⟨not_not.mp hid, ?_⟩
    rw [← Option.some.inj h]
    cases err <;> rfl

theorem length_msgToSignQueryOk {queryId : String} {dataHash : List UInt8} {lastBlock : UInt64}
    (h : msgToSignQueryOk queryId dataHash lastBlock = some msg) : msg.length = 76 := by
  obtain ⟨hhash, hid, rfl⟩ := msgToSignQueryOk_eq_some h
  simp [u64LeBytes, hhash, hid, sha3_256Size, uuidV4Size]

theorem length_msgToSignQueryErr {queryId : String} {err : QueryErr}
    (h : msgToSignQueryErr queryId err = some msg) : msg.length = 37 := by
  obtain ⟨hid, rfl⟩ := msgToSignQueryErr_eq_some h
  simp [hid, uuidV4Size]

/-- A success payload determines the query id, the hash and the last block. -/
theorem msgToSignQueryOk_inj {queryId queryId' : String} {dataHash dataHash' : List UInt8}
    {lastBlock lastBlock' : UInt64} (h : msgToSignQueryOk queryId dataHash lastBlock = some msg)
    (h' : msgToSignQueryOk queryId' dataHash' lastBlock' = some msg) :
    queryId = queryId' ∧ dataHash = dataHash' ∧ lastBlock = lastBlock' := by
  obtain ⟨hhash, hid, hmsg⟩ := msgToSignQueryOk_eq_some h
  obtain ⟨hhash', hid', hmsg'⟩ := msgToSignQueryOk_eq_some h'
  obtain ⟨hsame, hrest⟩ := selfDelimiting_queryId hid hid' (hmsg.symm.trans hmsg')
  obtain ⟨hdata, hlast⟩ := List.append_inj hrest (hhash.trans hhash'.symm)
  exact ⟨hsame, hdata,
    (selfDelimiting_u64LeBytes trivial trivial (congrArg (· ++ []) hlast)).1⟩

/-- A failure payload determines the query id and the kind of the error. -/
theorem msgToSignQueryErr_inj {queryId queryId' : String} {err err' : QueryErr}
    (h : msgToSignQueryErr queryId err = some msg)
    (h' : msgToSignQueryErr queryId' err' = some msg) :
    queryId = queryId' ∧ err.kind = err'.kind := by
  obtain ⟨hid, hmsg⟩ := msgToSignQueryErr_eq_some h
  obtain ⟨hid', hmsg'⟩ := msgToSignQueryErr_eq_some h'
  obtain ⟨hsame, hcode⟩ := selfDelimiting_queryId hid hid' (hmsg.symm.trans hmsg')
  exact ⟨hsame, QueryErrKind.code_injective (List.head_eq_of_cons_eq hcode)⟩

end Payloads

/-- Two queries agree on everything a payload covers. -/
structure Query.AgreeOnSigned (q q' : Query) : Prop where
  queryId : q.queryId = q'.queryId
  timestampMs : q.timestampMs = q'.timestampMs
  dataset : q.dataset = q'.dataset
  query : q.query = q'.query
  chunkId : q.chunkId = q'.chunkId
  blockRange : q.blockRange = q'.blockRange
  queryEngine : q.queryEngine = q'.queryEngine
  outputFormat : q.outputFormat = q'.outputFormat

/-- The fields are peeled off two equal payloads one by one. -/
theorem Query.Signs.agree {P : Type} {toBytes : P → List UInt8}
    (hpeer : SelfDelimiting (fun _ => True) toBytes) {q q' : Query} {w w' : P} {msg : List UInt8}
    (h : q.Signs toBytes w msg) (h' : q'.Signs toBytes w' msg) : w = w' ∧ q.AgreeOnSigned q' := by
  obtain ⟨choice, hchoice, hmsg⟩ := h.tail
  obtain ⟨choice', hchoice', hmsg'⟩ := h'.tail
  have he := hmsg.symm.trans hmsg'
  rw [Query.head, Query.head] at he
  simp only [List.append_assoc] at he
  obtain ⟨hid, he⟩ := selfDelimiting_queryId h.queryId h'.queryId he
  obtain ⟨hworker, he⟩ := hpeer trivial trivial he
  obtain ⟨htime, he⟩ := selfDelimiting_u64LeBytes trivial trivial he
  simp only [← List.append_assoc (leBytes 4 _)] at he
  obtain ⟨hdataset, he⟩ := selfDelimiting_text h.dataset h'.dataset he
  obtain ⟨hquery, he⟩ := selfDelimiting_text h.query h'.query he
  obtain ⟨hchunkId, he⟩ := selfDelimiting_text h.chunkId h'.chunkId he
  obtain ⟨hrange, hengine, hformat⟩ := tail_inj hchoice hchoice' he
  exact ⟨hworker, hid, htime, hdataset, hquery, hchunkId, hrange, hengine, hformat⟩

/-- When peer ids mark their own end, a query payload determines the worker and the signed
fields; payloads of queries for workers with 38-byte ids, of successful results and of failed
results never coincide; and a result payload determines what it was made from. -/
theorem signed_payloads_unambiguous {P : Type} (toBytes : P → List UInt8)
    (hpeer : SelfDelimiting (fun _ => True) toBytes) :
    (∀ q q' w w' msg, Query.msgToSign toBytes q w = .ok (some msg) →
      Query.msgToSign toBytes q' w' = .ok (some msg) → w = w' ∧ q.AgreeOnSigned q') ∧
    (∀ q w msg, (toBytes w).length = 38 → Query.msgToSign toBytes q w = .ok (some msg) →
      (∀ queryId dataHash lastBlock, msgToSignQueryOk queryId dataHash lastBlock ≠ some msg) ∧
      ∀ queryId err, msgToSignQueryErr queryId err ≠ some msg) ∧
    (∀ queryId queryId' dataHash lastBlock err msg,
      msgToSignQueryOk queryId dataHash lastBlock = some msg →
      msgToSignQueryErr queryId' err ≠ some msg) ∧
    (∀ queryId queryId' dataHash dataHash' lastBlock lastBlock' msg,
      msgToSignQueryOk queryId dataHash lastBlock = some msg →
      msgToSignQueryOk queryId' dataHash' lastBlock' = some msg →
      queryId = queryId' ∧ dataHash = dataHash' ∧ lastBlock = lastBlock') ∧
    ∀ queryId queryId' err err' msg, msgToSignQueryErr queryId err = some msg →
      msgToSignQueryErr queryId' err' = some msg → queryId = queryId' ∧ err.kind = err'.kind := by
  refine ⟨?_, ?_, ?_, ?_, ?_⟩
  · intro q q' w w' msg h h'
    exact (Query.signs_of_msgToSign h).agree hpeer (Query.signs_of_msgToSign h')
  · intro q w msg hw h
    have hlong := (Query.signs_of_msgToSign h).length_ge hw
    refine ⟨fun queryId dataHash lastBlock hok => ?_, fun queryId err herr => ?_⟩
    · have hlen := length_msgToSignQueryOk hok
      omega
    · have hlen := length_msgToSignQueryErr herr
      omega
  · intro queryId queryId' dataHash lastBlock err msg hok herr
    have hlen := length_msgToSignQueryOk hok
    have hlen' := length_msgToSignQueryErr herr
    omega
  · intro queryId queryId' dataHash dataHash' lastBlock lastBlock' msg h h'
    exact msgToSignQueryOk_inj h h'
  · intro queryId queryId' err err' msg h h'
    exact msgToSignQueryErr_inj h h'

/-- The bytes of an Ed25519 peer id: an identity multihash of a 36-byte key. -/
def ed25519Bytes (key : { key : List UInt8 // key.length = 36 }) : List UInt8 := 0 :: 36 :: key

theorem selfDelimiting_ed25519Bytes : SelfDelimiting (fun _ => True) ed25519Bytes :=
  .of_length (fun key _ => congrArg (· + 2) key.2) fun _ _ _ _ h =>
    Subtype.ext (List.cons.inj (List.cons.inj h).2).2

/-- A query for the arrow format without a block range. -/
def sampleQuery : Query where
  queryId := "59a1d0a4-8c8f-4a5c-9f0e-2a7b8d5f6c3e"
  dataset := "s3://ethereum-mainnet"
  query := "\x7b\x7d"
  chunkId := "0000000000/0000808640-0000816499-b0486318"
  timestampMs := 1700000000000
  outputFormat := 1

theorem signed_payloads_unambiguous_ed25519 :
    ∃ msg, sampleQuery.msgToSign ed25519Bytes ⟨List.replicate 36 7, rfl⟩ = .ok (some msg) ∧
      (∀ q w, Query.msgToSign ed25519Bytes q w = .ok (some msg) →
        w = ⟨List.replicate 36 7, rfl⟩ ∧ q.AgreeOnSigned sampleQuery) ∧
      (∀ queryId dataHash lastBlock, msgToSignQueryOk queryId dataHash lastBlock ≠ some msg) ∧
      ∀ queryId err, msgToSignQueryErr queryId err ≠ some msg := by
  have hrun : (sampleQuery.msgToSign ed25519Bytes ⟨List.replicate 36 7, rfl⟩).passes
      (fun msg => msg.isSome) = true := by decide
  obtain ⟨o, hsample, hsome⟩ := Exec.exists_of_passes hrun
  obtain ⟨msg, rfl⟩ := Option.isSome_iff_exists.mp hsome
  obtain ⟨hagree, hkinds, -⟩ := signed_payloads_unambiguous ed25519Bytes selfDelimiting_ed25519Bytes
  exact ⟨msg, hsample, fun q w h => hagree q sampleQuery w _ msg h hsample,
    hkinds sampleQuery _ msg rfl hsample⟩

end SqdNetwork.Messages
