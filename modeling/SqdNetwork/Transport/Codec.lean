import SqdNetwork.Core.Machine
import SqdNetwork.Transport.Exchange

/-!
# Reading a message from a stream

The codec refuses to write a message beyond a maximum size. It reads at most one byte
more than that, and decodes what it has read only if the stream ended before. The
bytes are written in pieces; the stream is closed after all of them, or dropped on the
way. The writer can be anyone, and a codec that writes need not have the maximum of
the codec that reads.
-/

namespace SqdNetwork.Transport

open SqdNetwork.Core

/-- A message type with its encoding. -/
structure Message (M E : Type) where
  encode : M → List UInt8
  decode : List UInt8 → Except E M
  decode_encode : ∀ m, decode (encode m) = .ok m

/-- The two messages of a protocol. -/
inductive Part where
  | request
  | response
  deriving DecidableEq

/-- Why a message was not written or read. -/
inductive CodecError (E : Type) where
  | invalidData (text : String)
  | decode (error : E)
  | io (kind : ErrorKind)
  deriving DecidableEq

namespace Part

def tooLargeToRead : Part → String
  | .request => "Request too large to read"
  | .response => "Response too large to read"

def tooLargeToWrite : Part → String
  | .request => "Request too large to write"
  | .response => "Response too large to write"

end Part

structure ProtoCodec where
  maxReqSize : UInt64
  maxResSize : UInt64

namespace ProtoCodec

variable {M E : Type}

def maxSize (codec : ProtoCodec) : Part → UInt64
  | .request => codec.maxReqSize
  | .response => codec.maxResSize

/-- The bytes that are written for a message. -/
def write (codec : ProtoCodec) (part : Part) (message : Message M E) (m : M) :
    Except (CodecError E) (List UInt8) :=
  if (message.encode m).length > (codec.maxSize part).toNat then
    .error (.invalidData part.tooLargeToWrite)
  else .ok (message.encode m)

/-- What the bytes read to the end of the stream, or to the limit, are taken for. -/
def readBack (codec : ProtoCodec) (part : Part) (decode : List UInt8 → Except E M)
    (buf : List UInt8) : Except (CodecError E) M :=
  if buf.length > (codec.maxSize part).toNat then .error (.invalidData part.tooLargeToRead)
  else (decode buf).mapError .decode

end ProtoCodec

/-- The writing side of a stream. -/
inductive WriterSide where
  | writing
  | closed
  /-- It was dropped before it was closed. -/
  | left
  deriving DecidableEq

/-- The reading side of a stream. -/
inductive ReaderSide (M E : Type) where
  | reading (buf : List UInt8)
  | done (result : Except (CodecError E) M)

/-- One message on its way. -/
structure Transfer (M E : Type) where
  /-- What the writer means to write. -/
  payload : List UInt8
  pipe : Pipe ErrorKind
  writer : WriterSide
  reader : ReaderSide M E

/-- What happens to a message on its way. -/
inductive TransferAction where
  | write (count : Nat)
  | close
  /-- The writer gives up, by a timeout for example. -/
  | leave
  | read (count : Nat) (lost : Bool)
  /-- The connection breaks. -/
  | disconnect (kind : ErrorKind)
  deriving DecidableEq

namespace Transfer

variable {M E : Type}

def opened (payload : List UInt8) : Transfer M E := ⟨payload, .empty, .writing, .reading []⟩

/-- The writer drops the stream. -/
def leave (rules : DropRules) (t : Transfer M E) : Transfer M E :=
  match t.writer with
  | .writing =>
    { t with
      writer := .left
      pipe := if rules.resetsOpen then t.pipe.reset .connectionReset else t.pipe.finish }
  | _ => t

/-- The next bytes are written; writing to a broken stream fails. -/
def write (rules : DropRules) (t : Transfer M E) (count : Nat) : Transfer M E :=
  match t.writer, t.pipe.broken with
  | .writing, some _ => t.leave rules
  | .writing, none =>
    { t with pipe := t.pipe.write ((t.payload.drop t.pipe.written.length).take (count + 1)) }
  | _, _ => t

/-- The stream is closed after the last byte. -/
def close (rules : DropRules) (t : Transfer M E) : Transfer M E :=
  match t.writer, t.pipe.broken with
  | .writing, some _ => t.leave rules
  | .writing, none =>
    if t.pipe.written.length = t.payload.length then
      { t with pipe := t.pipe.finish, writer := .closed }
    else t
  | _, _ => t

variable (codec : ProtoCodec) (part : Part) (decode : List UInt8 → Except E M)

/-- One attempt to read more; the message is complete at the end of the stream. -/
def read (t : Transfer M E) (count : Nat) (lost : Bool) : Transfer M E :=
  match t.reader with
  | .done _ => t
  | .reading buf =>
    match t.pipe.read (readLimit (codec.maxSize part)) buf count lost with
    | .more buf => { t with reader := .reading buf }
    | .ended => { t with reader := .done (codec.readBack part decode buf) }
    | .failed kind => { t with reader := .done (.error (.io kind)) }
    | .pending => t

def step (rules : DropRules) (t : Transfer M E) : TransferAction → Transfer M E
  | .write count => t.write rules count
  | .close => t.close rules
  | .leave => t.leave rules
  | .read count lost => t.read codec part decode count lost
  | .disconnect kind => { t with pipe := t.pipe.reset kind }

/-- The result of a message that arrives. -/
def expected (t : Transfer M E) : Except (CodecError E) M := codec.readBack part decode t.payload

/-- The reader has the beginning of what was written, or the result for all of it, unless the
stream broke. -/
def ReaderSound (t : Transfer M E) : Prop :=
  match t.reader with
  | .reading buf => t.pipe.Read (readLimit (codec.maxSize part)) buf
  | .done result => result = t.expected codec part decode ∨ ∃ kind, result = .error (.io kind)

/-- What holds of a message on its way, where a dropped stream is reset. -/
structure Sound (t : Transfer M E) : Prop where
  written : t.pipe.written <+: t.payload
  whole : t.pipe.finished = true → t.pipe.written = t.payload
  closed : t.writer = .closed → t.pipe.finished = true
  reader : t.ReaderSound codec part decode

variable {codec part decode} {t : Transfer M E} {rules : DropRules}

theorem sound_opened (payload : List UInt8) :
    (opened payload : Transfer M E).Sound codec part decode where
  written := List.nil_prefix
  whole := by simp [opened, Pipe.empty]
  closed := by simp [opened]
  reader := Pipe.read_nil

/-- A change of the writer's side keeps what was read so far. -/
theorem ReaderSound.of_pipe (h : t.ReaderSound codec part decode) {t' : Transfer M E}
    (hpayload : t'.payload = t.payload) (hreader : t'.reader = t.reader)
    (hwritten : t.pipe.written <+: t'.pipe.written) : t'.ReaderSound codec part decode := by
  unfold ReaderSound expected at h ⊢
  rw [hreader, hpayload]
  cases hread : t.reader with
  | reading buf =>
    rw [hread] at h
    exact ⟨h.1.trans hwritten, h.2⟩
  | done result =>
    rw [hread] at h
    exact h

theorem Sound.leave (h : t.Sound codec part decode) (hrules : rules.resetsOpen = true) :
    (t.leave rules).Sound codec part decode := by
  unfold Transfer.leave
  cases hwriter : t.writer with
  | writing =>
    simp only [hrules, if_true]
    exact ⟨h.written, h.whole, by simp, h.reader.of_pipe rfl rfl List.prefix_rfl⟩
  | closed | left => exact h

theorem Sound.write (h : t.Sound codec part decode) (hrules : rules.resetsOpen = true)
    (count : Nat) : (t.write rules count).Sound codec part decode := by
  unfold Transfer.write
  split
  · exact h.leave hrules
  · next hwriter _ =>
    refine ⟨prefix_append_take_drop h.written _, fun hfinished => ?_, fun hclosed => ?_,
      h.reader.of_pipe rfl rfl (List.prefix_append _ _)⟩
    · have hall := h.whole hfinished
      change t.pipe.written ++ _ = t.payload
      rw [hall, List.drop_length, List.take_nil, List.append_nil]
    · exact absurd (hwriter.symm.trans hclosed) (by simp)
  · exact h

theorem Sound.close (h : t.Sound codec part decode) (hrules : rules.resetsOpen = true) :
    (t.close rules).Sound codec part decode := by
  unfold Transfer.close
  split
  · exact h.leave hrules
  · split
    · next hlength =>
      exact ⟨h.written, fun _ => h.written.eq_of_length hlength, fun _ => rfl,
        h.reader.of_pipe rfl rfl List.prefix_rfl⟩
    · exact h
  · exact h

/-- One byte more than the maximum is enough to refuse a message. -/
theorem Sound.readBack_eq (h : t.Sound codec part decode) {buf : List UInt8} {count : Nat}
    {lost : Bool} (hmax : readLimit (codec.maxSize part) = (codec.maxSize part).toNat + 1)
    (hread : t.pipe.Read (readLimit (codec.maxSize part)) buf)
    (hended : t.pipe.read (readLimit (codec.maxSize part)) buf count lost = .ended) :
    codec.readBack part decode buf = t.expected codec part decode := by
  rcases hread.ended hended with hlimit | ⟨hfinished, hbuf⟩
  · have hlong := (hread.1.trans h.written).length_le
    unfold expected ProtoCodec.readBack
    rw [if_pos (by omega), if_pos (by omega)]
  · rw [hbuf, h.whole hfinished]
    rfl

theorem Sound.read (h : t.Sound codec part decode)
    (hmax : readLimit (codec.maxSize part) = (codec.maxSize part).toNat + 1) (count : Nat)
    (lost : Bool) : (t.read codec part decode count lost).Sound codec part decode := by
  have hreader := h.reader
  unfold ReaderSound at hreader
  unfold Transfer.read
  cases hr : t.reader with
  | done result => exact h
  | reading buf =>
    rw [hr] at hreader
    dsimp only
    split
    · next buf' hmore => exact ⟨h.written, h.whole, h.closed, hreader.more hmore⟩
    · next hended =>
      exact ⟨h.written, h.whole, h.closed, .inl (h.readBack_eq hmax hreader hended)⟩
    · next kind hfailed => exact ⟨h.written, h.whole, h.closed, .inr ⟨kind, rfl⟩⟩
    · exact h

@[simp] theorem payload_leave : (t.leave rules).payload = t.payload := by
  unfold Transfer.leave
  split <;> rfl

theorem payload_step (t : Transfer M E) (action : TransferAction) :
    (t.step codec part decode rules action).payload = t.payload := by
  cases action with
  | write count =>
    simp only [Transfer.step, Transfer.write]
    split
    · exact payload_leave
    · rfl
    · rfl
  | close =>
    simp only [Transfer.step, Transfer.close]
    split
    · exact payload_leave
    · split <;> rfl
    · rfl
  | leave => exact payload_leave
  | read count lost =>
    simp only [Transfer.step, Transfer.read]
    split
    · rfl
    · split <;> rfl
  | disconnect kind => rfl

theorem Sound.step (h : t.Sound codec part decode) (hrules : rules.resetsOpen = true)
    (hmax : readLimit (codec.maxSize part) = (codec.maxSize part).toNat + 1)
    (action : TransferAction) :
    (t.step codec part decode rules action).Sound codec part decode := by
  cases action with
  | write count => exact h.write hrules count
  | close => exact h.close hrules
  | leave => exact h.leave hrules
  | read count lost => exact h.read hmax count lost
  | disconnect kind =>
    exact ⟨h.written, h.whole, h.closed, h.reader.of_pipe rfl rfl List.prefix_rfl⟩

/-- A stream that was closed and did not break gives its reader more bytes, or the end. -/
theorem Sound.read_closed (h : t.Sound codec part decode)
    (hmax : readLimit (codec.maxSize part) = (codec.maxSize part).toNat + 1)
    (hclosed : t.writer = .closed) (hbroken : t.pipe.broken = none) {buf : List UInt8}
    (hreader : t.reader = .reading buf) (count : Nat) (lost : Bool) :
    (t.read codec part decode count lost).reader = .done (t.expected codec part decode) ∨
      ∃ buf', buf.length < buf'.length ∧
        t.read codec part decode count lost = { t with reader := .reading buf' } := by
  have hsound := h.reader
  unfold ReaderSound at hsound
  rw [hreader] at hsound
  unfold Transfer.read
  rw [hreader]
  dsimp only
  cases hread : t.pipe.read (readLimit (codec.maxSize part)) buf count lost with
  | more buf' => exact .inr ⟨buf', Pipe.length_lt_of_more hread, rfl⟩
  | ended => exact .inl (congrArg ReaderSide.done (h.readBack_eq hmax hsound hread))
  | failed kind => exact absurd hread (Pipe.read_ne_failed hbroken)
  | pending => exact absurd hread (Pipe.read_ne_pending (h.closed hclosed))

/-- A message that is complete is not read again. -/
theorem foldl_read_done {result : Except (CodecError E) M} (h : t.reader = .done result)
    (reads : List (Nat × Bool)) :
    (reads.foldl (fun t r => t.read codec part decode r.1 r.2) t).reader = .done result := by
  induction reads generalizing t with
  | nil => exact h
  | cons r reads ih =>
    refine ih ?_
    change (t.read codec part decode r.1 r.2).reader = .done result
    unfold Transfer.read
    rw [h]
    exact h

/-- Enough attempts to read complete a message that was closed. -/
theorem Sound.reads_closed (h : t.Sound codec part decode)
    (hmax : readLimit (codec.maxSize part) = (codec.maxSize part).toNat + 1)
    (hclosed : t.writer = .closed) (hbroken : t.pipe.broken = none) {buf : List UInt8}
    (hreader : t.reader = .reading buf) (reads : List (Nat × Bool))
    (hreads : t.payload.length < buf.length + reads.length) :
    (reads.foldl (fun t r => t.read codec part decode r.1 r.2) t).reader =
      .done (t.expected codec part decode) := by
  induction reads generalizing t buf with
  | nil =>
    have hsound := h.reader
    unfold ReaderSound at hsound
    rw [hreader] at hsound
    have := (hsound.1.trans h.written).length_le
    simp only [List.length_nil] at hreads
    omega
  | cons r reads ih =>
    rw [List.foldl_cons]
    rcases h.read_closed hmax hclosed hbroken hreader r.1 r.2 with hdone | ⟨buf', hlonger, hnext⟩
    · exact foldl_read_done hdone reads
    · have hnextSound := h.read hmax r.1 r.2
      rw [hnext] at hnextSound ⊢
      rw [List.length_cons] at hreads
      exact ih hnextSound hclosed hbroken rfl (by simp only; omega)

end Transfer

namespace ProtoCodec

variable {M E : Type}

/-- What the receiver of a message should get: the message, if it is not too large. -/
def delivers (codec : ProtoCodec) (part : Part) (message : Message M E) (m : M) :
    Except (CodecError E) M :=
  if (message.encode m).length ≤ (codec.maxSize part).toNat then .ok m
  else .error (.invalidData part.tooLargeToRead)

theorem write_eq_ok {codec : ProtoCodec} {part : Part} {message : Message M E} {m : M}
    {payload : List UInt8} (h : codec.write part message m = .ok payload) :
    payload = message.encode m ∧ payload.length ≤ (codec.maxSize part).toNat := by
  unfold write at h
  split at h
  · cases h
  · next hsize =>
    cases h
    exact ⟨rfl, Nat.le_of_not_lt hsize⟩

theorem readBack_encode (codec : ProtoCodec) (part : Part) (message : Message M E) (m : M) :
    codec.readBack part message.decode (message.encode m) = codec.delivers part message m := by
  unfold readBack delivers
  rw [message.decode_encode]
  split
  · next hlong => rw [if_neg (by omega)]
  · next hfits =>
    rw [if_pos (by omega)]
    rfl

end ProtoCodec

/-- Where a stream that is dropped is reset, and however a message that was written with one codec
is cut into pieces on its way: its reader, with another codec, gets the message if it is not too
large, the refusal if it is, or an error of the stream; and once the stream is closed and does not
break, it gets the first or the second after enough attempts. A reader that allows as much as the
writer gets the message. -/
theorem codec_round_trip {M E : Type} (writer codec : ProtoCodec) (part : Part)
    (message : Message M E) (m : M) {payload : List UInt8}
    (hwrite : writer.write part message m = .ok payload) (rules : DropRules)
    (hrules : rules.resetsOpen = true) (hmax : (codec.maxSize part).toNat + 1 < UInt64.size)
    (actions : List TransferAction) :
    let t := actions.foldl (Transfer.step codec part message.decode rules)
      (Transfer.opened payload)
    ((writer.maxSize part).toNat ≤ (codec.maxSize part).toNat →
      codec.delivers part message m = .ok m) ∧
    (∀ result, t.reader = .done result →
      result = codec.delivers part message m ∨ ∃ kind, result = .error (.io kind)) ∧
    (t.writer = .closed → t.pipe.broken = none → ∀ buf, t.reader = .reading buf →
      ∀ reads : List (Nat × Bool), payload.length < reads.length →
        (reads.foldl (fun t r => t.read codec part message.decode r.1 r.2) t).reader =
          .done (codec.delivers part message m)) := by
  intro t
  obtain ⟨rfl, hsize⟩ := ProtoCodec.write_eq_ok hwrite
  replace hmax := readLimit_eq hmax
  have hsound : t.Sound codec part message.decode ∧ t.payload = message.encode m := by
    refine (throughout_of_invariant (I := fun t : Transfer M E =>
      t.Sound codec part message.decode ∧ t.payload = message.encode m) ?_ actions
      ⟨Transfer.sound_opened _, rfl⟩).last
    intro t action h
    exact ⟨h.1.step hrules hmax action, (t.payload_step action).trans h.2⟩
  obtain ⟨hsound, hpayload⟩ := hsound
  have hexpected : t.expected codec part message.decode = codec.delivers part message m := by
    unfold Transfer.expected
    rw [hpayload, codec.readBack_encode]
  refine ⟨fun hallows => if_pos (hsize.trans hallows), ?_, ?_⟩
  · intro result hdone
    have hreader := hsound.reader
    unfold Transfer.ReaderSound at hreader
    rw [hdone, hexpected] at hreader
    exact hreader
  · intro hclosed hbroken buf hreader reads hreads
    rw [hsound.reads_closed hmax hclosed hbroken hreader reads (by rw [hpayload]; omega), hexpected]

/-- Bytes as their own encoding. -/
def Message.bytes : Message (List UInt8) Unit := ⟨id, .ok, fun _ => rfl⟩

/-- Two bytes are written and read one at a time. -/
theorem codec_round_trip_sample :
    ProtoCodec.write ⟨2, 0⟩ .request Message.bytes [1, 2] = .ok [1, 2] ∧
    ([(0, false), (0, false), (0, false)].foldl
      (fun t r => t.read ⟨5, 0⟩ .request Message.bytes.decode r.1 r.2)
      ([.write 0, .read 0 false, .write 0, .close].foldl
        (Transfer.step ⟨5, 0⟩ .request Message.bytes.decode ⟨true, true⟩)
        (.opened [1, 2]))).reader = .done (.ok [1, 2]) :=
  ⟨rfl, (codec_round_trip ⟨2, 0⟩ ⟨5, 0⟩ .request Message.bytes [1, 2] rfl ⟨true, true⟩ rfl
    (by decide) [.write 0, .read 0 false, .write 0, .close]).2.2 rfl rfl [1] rfl _ (by decide)⟩

end SqdNetwork.Transport
