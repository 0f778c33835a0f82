import Idhan.Lib.Codec

/-!
# The framed channel

`FrameWriter` and `FrameReader` of `ipc/src/linux/FrameLinux.cpp`: frames with a body and some
descriptors go over a stream socket between the server and a worker.  Both ends are resumable: the
writer keeps what the socket has not taken, and the reader keeps a header or a body that has not
arrived completely.

The socket is a queue of bytes; the descriptors of a `sendmsg` arrive with its first byte.  How many
bytes a call takes or gives is free.  The library for JSON is a parameter; that a body is parsed
back from its text is supposed of the bodies that are sent, and is not true of every value (the
parser has a limit on nesting).
-/

namespace Idhan.Ipc

/-- What the channel uses of the library for JSON. -/
structure JsonLibrary (J : Type) where
  /-- `Json::writeString`, without indentation -/
  writeString : J → List UInt8
  /-- `Json::CharReader::parse`: the value, or the errors -/
  parse : List UInt8 → Except String J

/-- `Frame`.  A descriptor is known by the open file that it stands for. -/
structure Frame (J φ : Type) where
  body : J
  fds : List φ
  deriving DecidableEq, Repr

def maxFrameBody : ℕ := 64 * 1024 * 1024

def maxFrameFds : ℕ := 8

/-- `sizeof( Header )`. -/
def headerSize : ℕ := 8

structure Header where
  bodyExpected : ℕ
  fdsExpected : ℕ
  deriving DecidableEq, Repr

/-- The bytes of a header. -/
def Header.toBytes (header : Header) : List UInt8 :=
  leBytes 4 header.bodyExpected ++ leBytes 4 header.fdsExpected

/-- The header with these bytes. -/
def Header.ofBytes (bytes : List UInt8) : Header :=
  ⟨leValue (bytes.take 4), leValue (bytes.drop 4)⟩

/-- `errnoMessage`, with the message of the error. -/
def errnoMessage (what error : String) : String :=
  what ++ ": " ++ error

variable {J φ : Type}

/-! ## Writing -/

/-- `FrameWriter::Pending`. -/
structure Pending (φ : Type) where
  buffer : List UInt8
  fds : List φ
  sent : ℕ
  deriving DecidableEq, Repr

structure FrameWriter (φ : Type) where
  queue : List (Pending φ)
  deriving DecidableEq, Repr

/-- `FrameWriter::enqueue`.  `dupError` is the error of the duplication of a descriptor that fails,
if one does. -/
def FrameWriter.enqueue (writeString : J → List UInt8) (dupError : Option String)
    (w : FrameWriter φ) (body : J) (fds : List φ) : Except String (FrameWriter φ) :=
  if maxFrameFds < fds.length then
    .error ("frame carries " ++ toString fds.length ++ " descriptors, at most " ++
    toString maxFrameFds ++ " allowed")
  else
    let payload := writeString body
    if maxFrameBody < payload.length then
      .error ("frame body of " ++ toString payload.length ++ " bytes exceeds the " ++
        toString maxFrameBody ++ " byte limit")
    else
      match fds, dupError with
      | _ :: _, some error =>
        .error (errnoMessage "duplicating a descriptor for sending failed" error)
      | _, _ => .ok ⟨w.queue ++ [⟨Header.toBytes ⟨payload.length, fds.length⟩ ++ payload, fds, 0⟩]⟩

/-- A byte in the socket, with the descriptors that arrive with it. -/
structure Cell (φ : Type) where
  byte : UInt8
  fds : List φ
  deriving DecidableEq, Repr

/-- What a `sendmsg` puts into the socket. -/
def attach (fds : List φ) : List UInt8 → List (Cell φ)
  | [] => []
  | byte :: bytes => ⟨byte, fds⟩ :: bytes.map fun byte => ⟨byte, []⟩

/-- One round of `FrameWriter::drain`, when the socket takes at most `limit` bytes and at least one:
what is put into the socket, and the writer after it. -/
def FrameWriter.drainRound (w : FrameWriter φ) (limit : ℕ) : List (Cell φ) × FrameWriter φ :=
  match w.queue with
  | [] => ([], w)
  | pending :: queue =>
    let withFds := pending.sent == 0 && !pending.fds.isEmpty
    -- the descriptors go with the header
    let asked := if withFds then pending.buffer.take headerSize
      else pending.buffer.drop pending.sent
    let written := asked.take (max limit 1)
    let after : Pending φ :=
      { pending with
        fds := if 0 < written.length then [] else pending.fds
        sent := pending.sent + written.length }
    (attach (if withFds then pending.fds else []) written,
      ⟨if after.buffer.length ≤ after.sent then queue else after :: queue⟩)

/-! ## Reading -/

/-- `FrameReader`.  Of the header and of the body the bytes that have been filled in are kept. -/
structure FrameReader (φ : Type) where
  headerBytes : List UInt8
  body : List UInt8
  headerComplete : Bool
  pendingFds : List φ
  eof : Bool
  deriving DecidableEq, Repr

namespace FrameReader

/-- A new reader. -/
def start : FrameReader φ :=
  ⟨[], [], false, [], false⟩

/-- `m_header`. -/
def header (r : FrameReader φ) : Header :=
  .ofBytes r.headerBytes

def want (r : FrameReader φ) : ℕ :=
  if !r.headerComplete then headerSize - r.headerBytes.length
  else r.header.bodyExpected - r.body.length

/-- What a `recvmsg` has given is taken over. -/
def receive (r : FrameReader φ) (cells : List (Cell φ)) : FrameReader φ :=
  let r := { r with pendingFds := r.pendingFds ++ cells.flatMap Cell.fds }
  if !r.headerComplete then { r with headerBytes := r.headerBytes ++ cells.map Cell.byte }
  else { r with body := r.body ++ cells.map Cell.byte }

/-- The end of a round: a frame whose body is complete is parsed. -/
def finish (json : JsonLibrary J) (r : FrameReader φ) :
    Except String (FrameReader φ × Option (Frame J φ)) :=
  if r.body.length < r.header.bodyExpected then .ok (r, none)
  else
    match json.parse r.body with
    | .error errors => .error ("frame body was not valid JSON: " ++ errors)
    | .ok parsed =>
      if r.pendingFds.length ≠ r.header.fdsExpected then
        .error ("frame announced " ++ toString r.header.fdsExpected ++ " descriptors but " ++
          toString r.pendingFds.length ++ " arrived")
      else .ok ({ start with eof := r.eof }, some ⟨parsed, r.pendingFds⟩)

/-- The part of a round after the `recvmsg`. -/
def advance (json : JsonLibrary J) (r : FrameReader φ) :
    Except String (FrameReader φ × Option (Frame J φ)) :=
  if !r.headerComplete then
    if r.headerBytes.length < headerSize then .ok (r, none)
    else if maxFrameBody < r.header.bodyExpected then
      .error ("peer announced a " ++ toString r.header.bodyExpected ++
        " byte frame body, over the " ++ toString maxFrameBody ++ " byte limit")
    else if maxFrameFds < r.header.fdsExpected then
      .error ("peer announced " ++ toString r.header.fdsExpected ++
        " descriptors, over the limit of " ++ toString maxFrameFds)
    else
      let r := { r with body := [], headerComplete := true }
      if 0 < r.header.bodyExpected then .ok (r, none) else r.finish json
  else r.finish json

end FrameReader

/-! ## The channel -/

/-- Both ends and the socket between them. -/
structure Channel (J φ : Type) where
  writer : FrameWriter φ
  /-- the frames that `enqueue` has accepted -/
  accepted : List (Frame J φ)
  socket : List (Cell φ)
  closed : Bool
  reader : FrameReader φ
  /-- `completed` of the `read` that is going on -/
  completed : List (Frame J φ)
  /-- what the earlier calls of `read` have returned -/
  returned : List (Frame J φ)
  /-- the error that a `read` has reported -/
  failure : Option String

/-- What happens next in one of the processes.  A call that is interrupted changes nothing, and so
has no action; nor has a write for which there is no space. -/
inductive ChannelAction (J φ : Type) where
  | enqueue (dupError : Option String) (body : J) (fds : List φ)
  | drain (limit : ℕ)
  | close
  | read (limit : ℕ)

namespace Channel

/-- A new channel. -/
def start : Channel J φ :=
  ⟨⟨[]⟩, [], [], false, .start, [], [], none⟩

/-- The `read` that is going on returns. -/
def returnCompleted (c : Channel J φ) : Channel J φ :=
  { c with completed := [], returned := c.returned ++ c.completed }

/-- What is left of a round of `FrameReader::read` when there is nothing more to receive. -/
def advanceReader (json : JsonLibrary J) (c : Channel J φ) : Channel J φ :=
  match c.reader.advance json with
  | .error error => { c with failure := some error }
  | .ok (reader, none) => { c with reader := reader }
  | .ok (reader, some frame) => { c with reader := reader, completed := c.completed ++ [frame] }

/-- One round of `FrameReader::read`, when the socket gives at most `limit` bytes, at least one, and
no more than the reader asks for. -/
def readRound (json : JsonLibrary J) (c : Channel J φ) (limit : ℕ) : Channel J φ :=
  if c.reader.want = 0 then c.advanceReader json
  else if c.socket = [] then
    if c.closed then { c with reader := { c.reader with eof := true } }.returnCompleted
    else c.returnCompleted
  else
    let received := c.socket.take (min (max limit 1) c.reader.want)
    let c := { c with socket := c.socket.drop (min (max limit 1) c.reader.want) }
    if maxFrameFds < (received.flatMap Cell.fds).length then
      { c with failure := some "peer sent truncated ancillary descriptor data" }
    else { c with reader := c.reader.receive received }.advanceReader json

/-- What an action does.  Nothing is written after the end is closed, and nothing is read after an
error. -/
def step (json : JsonLibrary J) (c : Channel J φ) : ChannelAction J φ → Channel J φ
  | .enqueue dupError body fds =>
    match c.writer.enqueue json.writeString dupError body fds with
    | .error _ => c
    | .ok writer => { c with writer := writer, accepted := c.accepted ++ [⟨body, fds⟩] }
  | .drain limit =>
    if c.closed then c
    else { c with
      writer := (c.writer.drainRound limit).2
      socket := c.socket ++ (c.writer.drainRound limit).1 }
  | .close => { c with closed := true }
  | .read limit => if c.failure.isSome then c else c.readRound json limit

/-- The channel after some actions. -/
def run (json : JsonLibrary J) (actions : List (ChannelAction J φ)) : Channel J φ :=
  actions.foldl (step json) start

end Channel

end Idhan.Ipc
