import SqdNetwork.Transport.WorkerQueues

/-!
# Requests to workers, from end to end

Portals, the SQL client and the collectors of logs and pings call workers. A call is
encoded, refused if it is too large for the worker, sent on a stream of its own, and
what comes back is decoded. The sizes on both sides are set apart; here they meet.
-/

namespace SqdNetwork.Transport

open SqdNetwork.Core

/-- Why a call to a worker failed, as its caller sees it. -/
inductive QueryFailure where
  | invalidRequest (text : String)
  | timeout (timeout : Timeout)
  | transportError (text : String)
  | invalidResponse (text : String)
  deriving DecidableEq

/-- The text of an error; that of an input or output error is given. -/
def RequestError.text (ioText : ErrorKind → String) : RequestError → String
  | .timeout .connect => "connect timeout"
  | .timeout .request => "request timeout"
  | .unsupportedProtocol => "the remote supports none of the requested protocols"
  | .responseTooLarge => "response too large"
  | .io kind => ioText kind

def QueryFailure.ofRequestError (ioText : ErrorKind → String) : RequestError → QueryFailure
  | .timeout t => .timeout t
  | e => .transportError (e.text ioText)

/-- A kind of call: `Q` is sent and `R` comes back. -/
structure Caller (Q R : Type) where
  protocol : WorkerProtocol
  maxSize : UInt64
  tooLarge : Nat → String
  /-- An empty response is a sign of an error of the worker. -/
  refusesEmpty : Bool
  encode : Q → List UInt8
  decode : List UInt8 → Except String R

namespace Caller

variable {Q R : Type}

/-- What is sent, unless it is too large. -/
def request (c : Caller Q R) (q : Q) : Except QueryFailure (List UInt8) :=
  let size := (c.encode q).length
  if size > c.maxSize.toNat then .error (.invalidRequest (c.tooLarge size))
  else .ok (c.encode q)

/-- What a caller makes of the result of its call. -/
def response (c : Caller Q R) (ioText : ErrorKind → String)
    (result : Except RequestError (List UInt8)) : Except QueryFailure R :=
  match result with
  | .error e => .error (.ofRequestError ioText e)
  | .ok buf =>
    if c.refusesEmpty && buf.isEmpty then .error (.invalidResponse "Empty response")
    else
      match c.decode buf with
      | .ok r => .ok r
      | .error text => .error (.invalidResponse text)

end Caller

/-- A portal sends a query. -/
def sendQuery {Q R : Type} (encode : Q → List UInt8) (decode : List UInt8 → Except String R) :
    Caller Q R where
  protocol := .query
  maxSize := maxQueryMsgSize
  tooLarge size := "Query size too large: " ++ toString size
  refusesEmpty := true
  encode := encode
  decode := decode

/-- The SQL client sends a query. -/
def sendSqlQuery {Q R : Type} (encode : Q → List UInt8) (decode : List UInt8 → Except String R) :
    Caller Q R where
  protocol := .sqlQuery
  maxSize := maxSqlQueryMsgSize
  tooLarge size := "SQLQuery message too large (" ++ toString size ++ " bytes)"
  refusesEmpty := true
  encode := encode
  decode := decode

/-- The collector of logs asks for logs. -/
def requestLogs {Q R : Type} (encode : Q → List UInt8) (decode : List UInt8 → Except String R) :
    Caller Q R where
  protocol := .logs
  maxSize := maxLogsRequestSize
  tooLarge size := "LogsRequest message too large (" ++ toString size ++ " bytes)"
  refusesEmpty := false
  encode := encode
  decode := decode

/-- A call that a client of this crate makes. -/
inductive Called : WorkerProtocol → List UInt8 → Prop where
  | query {Q R : Type} (encode : Q → List UInt8) (decode : List UInt8 → Except String R) (q : Q)
      {request : List UInt8} (h : (sendQuery encode decode).request q = .ok request) :
      Called .query request
  | sqlQuery {Q R : Type} (encode : Q → List UInt8) (decode : List UInt8 → Except String R) (q : Q)
      {request : List UInt8} (h : (sendSqlQuery encode decode).request q = .ok request) :
      Called .sqlQuery request
  | logs {Q R : Type} (encode : Q → List UInt8) (decode : List UInt8 → Except String R) (q : Q)
      {request : List UInt8} (h : (requestLogs encode decode).request q = .ok request) :
      Called .logs request
  /-- The collector of pings sends nothing. -/
  | status : Called .status []

theorem Caller.request_eq_ok {Q R : Type} {c : Caller Q R} {q : Q} {request : List UInt8}
    (h : c.request q = .ok request) :
    request = c.encode q ∧ request.length ≤ c.maxSize.toNat := by
  unfold Caller.request at h
  dsimp only at h
  split at h
  · cases h
  · next hsize =>
    cases h
    exact ⟨rfl, Nat.le_of_not_lt hsize⟩

/-- A caller that refuses empty responses has decoded some bytes. -/
theorem Caller.response_eq_ok {Q R : Type} {c : Caller Q R} (hrefuses : c.refusesEmpty = true)
    {ioText : ErrorKind → String} {result : Except RequestError (List UInt8)} {r : R}
    (h : c.response ioText result = .ok r) :
    ∃ buf, result = .ok buf ∧ buf ≠ [] ∧ c.decode buf = .ok r := by
  unfold Caller.response at h
  split at h
  · cases h
  · next buf =>
    split at h
    · cases h
    · next hnonempty =>
      split at h
      · next r' hdecode =>
        cases h
        refine ⟨buf, rfl, ?_, hdecode⟩
        rintro rfl
        simp [hrefuses] at hnonempty
      · cases h

/-- What a client sends is not too large for the worker. -/
theorem Called.fits {protocol : WorkerProtocol} {request : List UInt8}
    (h : Called protocol request) :
    request.length ≤ protocol.serverConfig.maxRequestSize.toNat := by
  cases h with
  | query encode decode q h => exact (Caller.request_eq_ok h).2
  | sqlQuery encode decode q h => exact (Caller.request_eq_ok h).2
  | logs encode decode q h => exact (Caller.request_eq_ok h).2
  | status => exact Nat.zero_le _

/-- With its default settings, a client takes every response that a worker sends. -/
theorem WorkerProtocol.maxResponseSize_default (q : WorkerProtocol) :
    q.serverConfig.maxResponseSize.toNat ≤ q.clientConfig.maxResponseSize.toNat := by
  cases q <;> exact Nat.le_refl _

namespace Exchange

variable {P : Type} {clientConfig : ClientConfig} {serverConfig : ServerConfig}
  {rules : DropRules} {x : Exchange P} {buf : List UInt8}

/-- A call that succeeded has read what was written of the response. -/
theorem Sound.ok_prefix (h : x.Sound clientConfig serverConfig rules)
    (hok : x.client = .ended (some (.ok buf))) : buf <+: x.response.getD [] := by
  have hclient := h.client
  simp only [ClientSound, hok] at hclient
  exact hclient.2.1.trans h.downPre

/-- Where dropping a stream resets it, a call that succeeded has the whole response to its whole
request. -/
theorem Sound.ok_whole (h : x.Sound clientConfig serverConfig rules)
    (hok : x.client = .ended (some (.ok buf)))
    (hlimit : readLimit clientConfig.maxResponseSize = clientConfig.maxResponseSize.toNat + 1)
    (hlimit' : readLimit serverConfig.maxRequestSize = serverConfig.maxRequestSize.toNat + 1)
    (hopen : rules.resetsOpen = true) (hclosed : rules.resetsHalfClosed = true) :
    x.response = some buf ∧ x.handed = some x.request := by
  have hclient := h.client
  simp only [ClientSound, hok] at hclient
  obtain ⟨hfinished, rfl⟩ := hclient.2.2 hlimit
  rcases h.downWhole hfinished with ⟨-, hresponse⟩ | ⟨-, hrules⟩
  · refine ⟨hresponse, ?_⟩
    obtain ⟨request, hhanded⟩ := Option.isSome_iff_exists.mp (h.fits _ hresponse).2
    rw [hhanded, (h.received request hhanded).2.2 hlimit' hopen]
  · rw [hopen, hclosed] at hrules
    cases hrules

/-- The request fits, and the response was not refused. -/
structure Fits (serverConfig : ServerConfig) (x : Exchange P) : Prop where
  request : x.request.length ≤ serverConfig.maxRequestSize.toNat
  accepted : x.client ≠ .ended (some (.error .responseTooLarge))

theorem Fits.clientDrop (h : x.Fits serverConfig)
    {result : Option (Except RequestError (List UInt8))}
    (hresult : result ≠ some (.error .responseTooLarge)) :
    (x.clientDrop rules result).Fits serverConfig := by
  have hended : ClientSide.ended result ≠ .ended (some (.error .responseTooLarge)) :=
    fun heq => hresult (ClientSide.ended.inj heq)
  unfold Exchange.clientDrop
  dsimp only
  split
  · exact ⟨h.request, hended⟩
  · split <;> exact ⟨h.request, hended⟩

theorem Fits.serverDrop (h : x.Fits serverConfig) : (x.serverDrop rules).Fits serverConfig := by
  unfold Exchange.serverDrop
  dsimp only
  split
  · exact ⟨h.request, h.accepted⟩
  · split <;> exact ⟨h.request, h.accepted⟩

theorem Fits.readRequest (h : x.Fits serverConfig) (count : Nat) (lost room : Bool) :
    (x.readRequest serverConfig rules count lost room).Fits serverConfig := by
  have hread : (x.readBytes serverConfig rules count lost).1.Fits serverConfig := by
    unfold Exchange.readBytes
    split
    · split
      · exact ⟨h.request, h.accepted⟩
      · split
        · exact h.serverDrop
        · exact h
      · exact h.serverDrop
      · exact h
    · exact h
  unfold Exchange.readRequest
  split
  · next y hy =>
    rw [hy] at hread
    exact hread
  · next y request hy =>
    rw [hy] at hread
    split
    · exact ⟨hread.request, hread.accepted⟩
    · exact hread.serverDrop

/-- What the client reads is no larger than what the server may send. -/
theorem Fits.clientRead (h : x.Fits serverConfig) (hsound : x.Sound clientConfig serverConfig rules)
    (hmax : serverConfig.maxResponseSize.toNat ≤ clientConfig.maxResponseSize.toNat) (count : Nat)
    (lost : Bool) : (x.clientRead clientConfig rules count lost).Fits serverConfig := by
  unfold Exchange.clientRead
  split
  · next buf hclient =>
    have hread := hsound.client
    simp only [ClientSound, hclient] at hread
    have hsize : buf.length ≤ clientConfig.maxResponseSize.toNat := by
      have hpre := (hread.2.1.trans hsound.downPre).length_le
      cases hresponse : x.response with
      | none =>
        rw [hresponse] at hpre
        exact hpre.trans (Nat.zero_le _)
      | some data =>
        rw [hresponse] at hpre
        exact (hpre.trans (hsound.fits data hresponse).1).trans hmax
    split
    · exact ⟨h.request, by simp⟩
    · refine h.clientDrop ?_
      rw [ClientConfig.checkResponse, if_neg (Nat.not_lt.mpr hsize)]
      simp
    · exact h.clientDrop (by simp)
    · exact h
  · exact h

/-- Sizes stay within their limits. -/
theorem Fits.step (h : x.Fits serverConfig) (hsound : x.Sound clientConfig serverConfig rules)
    (hmax : serverConfig.maxResponseSize.toNat ≤ clientConfig.maxResponseSize.toNat)
    (action : ExchangeAction) :
    (x.step clientConfig serverConfig rules action).Fits serverConfig := by
  cases action with
  | clientWrite count =>
    simp only [Exchange.step, Exchange.clientWrite]
    split
    · exact h.clientDrop (by simp)
    · exact ⟨h.request, h.accepted⟩
    · exact h
  | clientClose =>
    simp only [Exchange.step, Exchange.clientClose]
    split
    · exact h.clientDrop (by simp)
    · split
      · exact ⟨h.request, by simp⟩
      · exact h
    · exact h
  | clientRead count lost => exact h.clientRead hsound hmax count lost
  | clientLeave timedOut =>
    simp only [Exchange.step, Exchange.clientLeave]
    split
    · exact h
    · refine h.clientDrop ?_
      cases timedOut <;> simp
  | spawnReadTask =>
    simp only [Exchange.step, Exchange.spawnReadTask]
    split
    · exact ⟨h.request, h.accepted⟩
    · exact h
  | serverRead count lost room => exact h.readRequest count lost room
  | report taken =>
    simp only [Exchange.step, Exchange.report]
    split
    · split
      · exact ⟨h.request, h.accepted⟩
      · exact h.serverDrop
    · exact h
  | hand =>
    simp only [Exchange.step, Exchange.hand]
    split
    · exact ⟨h.request, h.accepted⟩
    · exact h
  | send data =>
    simp only [Exchange.step, Exchange.send]
    split
    · split
      · exact h.serverDrop
      · exact ⟨h.request, h.accepted⟩
    · exact h
  | serverWrite count =>
    simp only [Exchange.step, Exchange.serverWrite]
    split
    · exact h.serverDrop
    · exact ⟨h.request, h.accepted⟩
    · exact h
  | serverClose =>
    simp only [Exchange.step, Exchange.serverClose]
    split
    · exact h.serverDrop
    · split
      · exact ⟨h.request, h.accepted⟩
      · exact h
    · exact h
  | serverDrop =>
    simp only [Exchange.step, Exchange.serverLeave]
    split
    · exact h
    · exact h
    · exact h.serverDrop
  | disconnect kind => exact ⟨h.request, h.accepted⟩

end Exchange

namespace Worker

variable {P : Type} {clientConfig : WorkerProtocol → ClientConfig} {rules : DropRules}
  {w v u : Worker P}

/-- Every stream of the second worker is one of the first, some of its own steps later. -/
def Evolves (clientConfig : WorkerProtocol → ClientConfig) (rules : DropRules) (w v : Worker P) :
    Prop :=
  ∀ t ∈ v.streams, ∃ s ∈ w.streams, t.1 = s.1 ∧ ∃ actions : List ExchangeAction,
    t.2 = actions.foldl (Exchange.step (clientConfig s.1) s.1.serverConfig rules) s.2

theorem Evolves.refl : Evolves clientConfig rules w w := fun t ht => ⟨t, ht, rfl, [], rfl⟩

theorem Evolves.trans (h : Evolves clientConfig rules w v) (h' : Evolves clientConfig rules v u) :
    Evolves clientConfig rules w u := by
  intro t ht
  obtain ⟨s, hs, hts, actions, hactions⟩ := h' t ht
  obtain ⟨r, hr, hsr, before, hbefore⟩ := h s hs
  refine ⟨r, hr, hts.trans hsr, before ++ actions, ?_⟩
  rw [List.foldl_append, ← hbefore, hactions, hsr]

theorem evolves_of_streams (h : v.streams = w.streams) : Evolves clientConfig rules w v :=
  fun t ht => ⟨t, h ▸ ht, rfl, [], rfl⟩

/-- One stream takes a step. -/
theorem evolves_set {i : Nat} {q : WorkerProtocol} {x y : Exchange P}
    (hi : w.streams[i]? = some (q, x)) (action : ExchangeAction)
    (hy : y = x.step (clientConfig q) q.serverConfig rules action)
    (hv : v.streams = w.streams.set i (q, y)) : Evolves clientConfig rules w v := by
  intro t ht
  rw [hv] at ht
  rcases List.mem_or_eq_of_mem_set ht with hmem | rfl
  · exact ⟨t, hmem, rfl, [], rfl⟩
  · exact ⟨_, List.mem_of_getElem? hi, rfl, [action], hy⟩

theorem evolves_modify {i : Nat} {f : Exchange P → Exchange P} (action : ExchangeAction)
    (hf : ∀ (q : WorkerProtocol) (x : Exchange P),
      f x = x.step (clientConfig q) q.serverConfig rules action)
    (hv : v.streams = w.streams.modify i fun s => (s.1, f s.2)) :
    Evolves clientConfig rules w v := by
  cases hi : w.streams[i]? with
  | none =>
    refine evolves_of_streams (hv.trans ?_)
    rw [List.modify_eq_set_getElem?, hi]
    rfl
  | some s =>
    refine evolves_set (x := s.2) (q := s.1) hi action (hf _ _) (hv.trans ?_)
    rw [List.modify_eq_set_getElem?, hi]
    rfl

/-- Some streams are dropped. -/
theorem evolves_map {f : WorkerProtocol × Exchange P → WorkerProtocol × Exchange P}
    (hf : ∀ s, f s = s ∨ f s = (s.1, s.2.serverLeave rules))
    (hv : v.streams = w.streams.map f) : Evolves clientConfig rules w v := by
  intro t ht
  rw [hv] at ht
  obtain ⟨s, hs, rfl⟩ := List.mem_map.mp ht
  rcases hf s with heq | heq
  · exact ⟨s, hs, by rw [heq], [], by rw [heq]; rfl⟩
  · exact ⟨s, hs, by rw [heq], [.serverDrop], by rw [heq]; rfl⟩

theorem evolves_spawnReadTask (w : Worker P) (q : WorkerProtocol) :
    Evolves clientConfig rules w (w.spawnReadTask q) := by
  unfold Worker.spawnReadTask
  split
  · exact .refl
  · exact evolves_modify .spawnReadTask (fun _ _ => rfl) rfl

theorem evolves_report (w : Worker P) (q : WorkerProtocol) :
    Evolves clientConfig rules w (w.report rules q) := by
  unfold Worker.report
  split
  · exact .refl
  · dsimp only
    split
    · exact evolves_modify (.report true) (fun _ _ => rfl) rfl
    · exact evolves_modify (.report false) (fun _ _ => rfl) rfl
    · exact evolves_modify (.report false) (fun _ _ => rfl) rfl

/-- What happens to a worker happens to its streams one by one; only opening a stream adds one. -/
theorem step_evolves (w : Worker P) {action : WorkerAction P}
    (hopen : ∀ q peer request, action ≠ .openStream q peer request) :
    Evolves clientConfig rules w (w.step clientConfig rules action) := by
  cases action with
  | openStream q peer request => exact absurd rfl (hopen q peer request)
  | exchange i action =>
    simp only [step, Worker.exchange]
    split
    · exact .refl
    · next q x hi =>
      split
      · exact evolves_set hi action rfl rfl
      · exact .refl
  | read i count lost =>
    simp only [step, Worker.read]
    split
    · exact .refl
    · next q x hi =>
      split
      · next y hy =>
        refine evolves_set hi (.serverRead count lost true) ?_ rfl
        simp only [Exchange.step, Exchange.readRequest, hy]
      · next y request hy =>
        split
        · refine evolves_set hi (.serverRead count lost true) ?_ rfl
          simp only [Exchange.step, Exchange.readRequest, hy, if_true]
        · refine evolves_set hi (.serverRead count lost false) ?_ rfl
          simp [Exchange.step, Exchange.readRequest, hy]
  | poll q =>
    refine Evolves.trans ?_ (evolves_report _ q)
    generalize (w.servers q).incoming.queue.length = n
    induction n generalizing w with
    | zero => exact .refl
    | succ n ih => exact (evolves_spawnReadTask w q).trans (ih _)
  | next =>
    simp only [step, Worker.next]
    split
    · exact .refl
    · exact evolves_modify .hand (fun _ _ => rfl) rfl
  | dropEvents =>
    refine evolves_map (fun s => ?_) rfl
    split
    · next hserver => exact .inr (by simp only [Exchange.serverLeave, hserver])
    · exact .inl rfl
  | stop =>
    refine evolves_map (fun s => ?_) rfl
    split
    · next hserver => exact .inr (by simp only [Exchange.serverLeave, hserver])
    · next hserver => exact .inr (by simp only [Exchange.serverLeave, hserver])
    · exact .inl rfl

/-- The clients of a run are those of this crate. -/
def CalledBy : WorkerAction P → Prop
  | .openStream q _ request => Called q request
  | _ => True

/-- All streams keep within the limits. -/
def AllFit (w : Worker P) : Prop := ∀ s ∈ w.streams, s.2.Fits s.1.serverConfig

/-- Every client takes responses as large as a worker sends. -/
def TakesAll (clientConfig : WorkerProtocol → ClientConfig) : Prop :=
  ∀ q : WorkerProtocol,
    q.serverConfig.maxResponseSize.toNat ≤ (clientConfig q).maxResponseSize.toNat

theorem AllFit.evolves (h : w.AllFit) (htakes : TakesAll clientConfig)
    (hplaced : w.Placed clientConfig rules) (hevolves : Evolves clientConfig rules w v) :
    v.AllFit := by
  intro t ht
  obtain ⟨s, hs, hts, actions, hactions⟩ := hevolves t ht
  rw [hactions, hts]
  have hboth : ∀ x : Exchange P, x.Sound (clientConfig s.1) s.1.serverConfig rules ∧
      x.Fits s.1.serverConfig → (actions.foldl
        (Exchange.step (clientConfig s.1) s.1.serverConfig rules) x).Fits s.1.serverConfig := by
    intro x hx
    exact ((throughout_of_invariant (I := fun x : Exchange P =>
      x.Sound (clientConfig s.1) s.1.serverConfig rules ∧ x.Fits s.1.serverConfig)
      (fun _ action h => ⟨h.1.step action, h.2.step h.1 (htakes s.1) action⟩) actions hx).last).2
  exact hboth s.2 ⟨hplaced.sound s hs, h s hs⟩

theorem AllFit.step (h : w.AllFit) (htakes : TakesAll clientConfig)
    (hplaced : w.Placed clientConfig rules) {action : WorkerAction P}
    (hcalled : CalledBy action) : (w.step clientConfig rules action).AllFit := by
  by_cases hopen : ∃ q peer request, action = .openStream q peer request
  · obtain ⟨q, peer, request, rfl⟩ := hopen
    have hopened : (Exchange.opened peer request).Fits q.serverConfig :=
      ⟨Called.fits hcalled, by simp [Exchange.opened]⟩
    simp only [Worker.step, Worker.openStream]
    split <;> intro t ht <;> rcases List.mem_append.mp ht with hmem | hmem
    · exact h t hmem
    · rw [List.mem_singleton.mp hmem]
      exact hopened
    · exact h t hmem
    · rw [List.mem_singleton.mp hmem]
      exact hopened.serverDrop
  · exact h.evolves htakes hplaced (step_evolves w fun q peer request heq =>
      hopen ⟨q, peer, request, heq⟩)

/-- A stream that was handed over has its event, which says whose request it was. -/
theorem Placed.event_of_handed {i : Nat} {q : WorkerProtocol} {x : Exchange P}
    (h : w.Placed clientConfig rules) (hi : w.streams[i]? = some (q, x))
    (hhanded : x.handed.isSome = true) :
    ∃ e ∈ w.consumed, e.stream = i ∧ e.protocol = q ∧ e.peerId = x.peer ∧
      x.handed = some e.request := by
  obtain ⟨e, he, hstream⟩ := h.told i _ hi hhanded
  obtain ⟨-, y, hy, hrequest, hpeer⟩ := h.consumed e he
  rw [hstream, hi] at hy
  obtain ⟨rfl, rfl⟩ := Prod.mk.inj (Option.some.inj hy)
  exact ⟨e, he, hstream, rfl, hpeer.symm, hrequest⟩

/-- Whatever else happens, a call that succeeds has read the beginning of the response that the
worker sent for its own stream. Where a stream that is dropped is reset, and the call's limit is not
the largest there is, it has all of the response, and the worker was told all of the request, by
whom and for which protocol. -/
theorem ok_answer_is_response (eventsQueueSize : ℕ+) (actions : List (WorkerAction P)) {i : Nat}
    {q : WorkerProtocol} {x : Exchange P} {buf : List UInt8}
    (hi : (actions.foldl (step clientConfig rules) (start eventsQueueSize)).streams[i]? =
      some (q, x)) (hok : x.client = .ended (some (.ok buf))) :
    buf <+: x.response.getD [] ∧
      ((clientConfig q).maxResponseSize.toNat + 1 < UInt64.size →
        rules.resetsOpen = true → rules.resetsHalfClosed = true → x.response = some buf ∧
        ∃ e ∈ (actions.foldl (step clientConfig rules) (start eventsQueueSize)).consumed,
          e.stream = i ∧ e.protocol = q ∧ e.peerId = x.peer ∧ e.request = x.request) := by
  have hplaced : Placed clientConfig rules
      (actions.foldl (step clientConfig rules) (start eventsQueueSize)) :=
    placed_run eventsQueueSize actions
  have hsound := hplaced.sound_of hi
  refine ⟨hsound.ok_prefix hok, fun hlimit hopen hclosed => ?_⟩
  obtain ⟨hresponse, hhanded⟩ :=
    hsound.ok_whole hok (readLimit_eq hlimit) q.readLimit_maxRequestSize hopen hclosed
  obtain ⟨e, he, hstream, hprotocol, hpeer, hrequest⟩ :=
    hplaced.event_of_handed hi (by rw [hhanded]; rfl)
  refine ⟨hresponse, e, he, hstream, hprotocol, hpeer, ?_⟩
  rw [hhanded] at hrequest
  exact (Option.some.inj hrequest).symm

theorem ok_answer_is_response_sample :
    sampleServed.streams[0]? = some (.query, sampleExchange) ∧
      sampleExchange.client = .ended (some (.ok [9])) ∧ sampleExchange.response = some [9] :=
  have hi : sampleServed.streams[0]? = some (.query, sampleExchange) := by
    rw [sampleServed_streams]
    rfl
  ⟨hi, rfl, ((ok_answer_is_response 1 sampleCall hi rfl).2 (by decide) rfl rfl).1⟩

/-- The calls of this crate's clients are never too large for a worker, and its responses are
never too large for them, with the default settings or any that allow as much. -/
theorem calls_are_never_too_large (htakes : TakesAll clientConfig) (eventsQueueSize : ℕ+)
    (actions : List (WorkerAction P)) (hcalled : ∀ action ∈ actions, CalledBy action) :
    ∀ s ∈ (actions.foldl (step clientConfig rules) (start eventsQueueSize)).streams,
      (∀ buf, s.2.server = .reading buf → buf.length ≤ s.1.serverConfig.maxRequestSize.toNat) ∧
        s.2.client ≠ .ended (some (.error .responseTooLarge)) := by
  have hboth := (throughout_of_everyStep
    (I := fun w : Worker P => w.Placed clientConfig rules ∧ w.AllFit)
    (fun _ action hcalled h => ⟨h.1.step action, h.2.step htakes h.1 hcalled⟩)
    (everyStep_iff_forall.mpr hcalled)
    ⟨placed_start eventsQueueSize, fun _ hs => absurd hs List.not_mem_nil⟩).last
  intro s hs
  have hsound := hboth.1.sound s hs
  have hfits := hboth.2 s hs
  refine ⟨fun buf hreading => ?_, hfits.accepted⟩
  have hread := hsound.server
  simp only [Exchange.ServerSound, hreading] at hread
  exact (hread.2.2.1.trans hsound.upPre).length_le.trans hfits.request

theorem calls_are_never_too_large_sample :
    Called .query [1] ∧
      ∀ s ∈ sampleServed.streams, s.2.client ≠ .ended (some (.error .responseTooLarge)) := by
  have hcalled : Called .query [1] :=
    .query (fun bytes : List UInt8 => bytes) (fun bytes => .ok bytes) [1] rfl
  refine ⟨hcalled, fun s hs => (calls_are_never_too_large WorkerProtocol.maxResponseSize_default 1
    sampleCall ?_ s hs).2⟩
  simp [sampleCall, CalledBy, hcalled]

/-- On every transport, a query that its caller sees answered was answered: the worker's own code
was told of it and sent a response that is not empty, and the caller has decoded the beginning of
it. A request that is dropped, refused or lost on the way never looks like an answer. -/
theorem answered_query_was_responded {Q R : Type} (c : Caller Q R)
    (hrefuses : c.refusesEmpty = true) (ioText : ErrorKind → String) (eventsQueueSize : ℕ+)
    (actions : List (WorkerAction P)) {i : Nat} {q : WorkerProtocol} {x : Exchange P}
    {result : Except RequestError (List UInt8)} {r : R}
    (hi : (actions.foldl (step clientConfig rules) (start eventsQueueSize)).streams[i]? =
      some (q, x)) (hresult : x.client = .ended (some result))
    (hanswer : c.response ioText result = .ok r) :
    ∃ data buf, x.response = some data ∧ buf <+: data ∧ buf ≠ [] ∧ c.decode buf = .ok r ∧
      ∃ e ∈ (actions.foldl (step clientConfig rules) (start eventsQueueSize)).consumed,
        e.stream = i ∧ e.protocol = q ∧ e.peerId = x.peer := by
  have hplaced : Placed clientConfig rules
      (actions.foldl (step clientConfig rules) (start eventsQueueSize)) :=
    placed_run eventsQueueSize actions
  have hsound := hplaced.sound_of hi
  obtain ⟨buf, rfl, hne, hdecode⟩ := Caller.response_eq_ok hrefuses hanswer
  have hpre := hsound.ok_prefix hresult
  cases hresponse : x.response with
  | none =>
    rw [hresponse] at hpre
    exact absurd (List.prefix_nil.mp hpre) hne
  | some data =>
    rw [hresponse] at hpre
    obtain ⟨e, he, hstream, hprotocol, hpeer, -⟩ :=
      hplaced.event_of_handed hi (hsound.fits data hresponse).2
    exact ⟨data, buf, rfl, hpre, hne, hdecode, e, he, hstream, hprotocol, hpeer⟩

theorem answered_query_was_responded_sample :
    (sendQuery (fun bytes : List UInt8 => bytes) .ok).response (fun _ => "") (.ok [9]) = .ok [9] ∧
      ∃ data, sampleExchange.response = some data ∧ [9] <+: data := by
  have hi : sampleServed.streams[0]? = some (.query, sampleExchange) := by
    rw [sampleServed_streams]
    rfl
  obtain ⟨data, buf, hresponse, hpre, -, hdecode, -⟩ := answered_query_was_responded
    (sendQuery (fun bytes : List UInt8 => bytes) .ok) rfl (fun _ => "") 1 sampleCall hi rfl rfl
  cases hdecode
  exact ⟨rfl, data, hresponse, hpre⟩

end Worker

end SqdNetwork.Transport
