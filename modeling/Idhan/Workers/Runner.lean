import Mathlib.Data.String.Basic
import Idhan.Ipc.Frame

/-!
# The worker's side of a call

`handleCall`, `invoke`, `runCall` and `send` of `runner-src/WorkerRunner.cpp`.  The thread that
reads the channel rejects a call or queues it; the threads of the pool take calls from the queue,
run them on a module and send the result.

What a module does is an input of the action that ends a call: it returns, or reports an error, or
throws.  The values of JSON that it returns are known by their texts.  The fields of a frame are
given as the library for JSON converts them, which throws for a field of a wrong type; nothing
catches that, so that it ends the worker.

Left out are the counters of the heartbeat and what is written to the log.
-/

namespace Idhan.Workers

open Ipc

variable {φ : Type}

/-! ## Texts -/

/-- The text of a value of JSON. -/
abbrev JsonText := List UInt8

/-- Text in ASCII. -/
def ascii (text : String) : JsonText :=
  text.toList.map fun c => c.toNat.toUInt8

/-- A digit in hexadecimal. -/
def hexDigitText (n : ℕ) : UInt8 :=
  if n % 16 < 10 then (48 + n % 16).toUInt8 else (87 + n % 16).toUInt8

/-- A code unit as `\uXXXX`. -/
def escapeUnit (n : ℕ) : JsonText :=
  ascii "\\u" ++ [hexDigitText (n / 4096), hexDigitText (n / 256), hexDigitText (n / 16),
    hexDigitText n]

/-- A character in a string of JSON. -/
def escapeChar (c : Char) : JsonText :=
  if c = '"' then ascii "\\\""
  else if c = '\\' then ascii "\\\\"
  else if c.toNat = 8 then ascii "\\b"
  else if c.toNat = 12 then ascii "\\f"
  else if c.toNat = 10 then ascii "\\n"
  else if c.toNat = 13 then ascii "\\r"
  else if c.toNat = 9 then ascii "\\t"
  else if c.toNat < 32 then escapeUnit c.toNat
  else if c.toNat < 128 then [c.toNat.toUInt8]
  else if c.toNat < 65536 then escapeUnit c.toNat
  else escapeUnit (55296 + (c.toNat - 65536) / 1024) ++
    escapeUnit (56320 + (c.toNat - 65536) % 1024)

/-- The text of a string. -/
def stringText (text : String) : JsonText :=
  ascii "\"" ++ text.toList.flatMap escapeChar ++ ascii "\""

/-- A value of JSON. -/
inductive JsonValue where
  | uint (n : ℕ)
  | bool (b : Bool)
  | string (text : String)
  /-- a value that is known by its text -/
  | raw (text : JsonText)
  deriving DecidableEq, Repr

/-- The text of a value. -/
def JsonValue.toText : JsonValue → JsonText
  | .uint n => ascii (toString n)
  | .bool b => ascii (if b then "true" else "false")
  | .string text => stringText text
  | .raw text => text

/-- An object, as its members in the order of their names. -/
abbrev JsonObject := List (String × JsonValue)

/-- `body[ key ] = value`. -/
def setMember (key : String) (value : JsonValue) : JsonObject → JsonObject
  | [] => [(key, value)]
  | (key', value') :: members =>
    if key < key' then (key, value) :: (key', value') :: members
    else if key = key' then (key, value) :: members
    else (key', value') :: setMember key value members

/-- Texts with commas between them. -/
def commaSeparated : List JsonText → JsonText
  | [] => []
  | [text] => text
  | text :: texts => text ++ ascii "," ++ commaSeparated texts

/-- `Json::writeString`, without indentation. -/
def writeObject (object : JsonObject) : JsonText :=
  ascii "\x7b" ++ commaSeparated (object.map fun member => stringText member.1 ++ ascii ":" ++
    member.2.toText) ++
    ascii "\x7d"

/-- The text of an array. -/
def arrayText (values : List JsonText) : JsonText :=
  ascii "[" ++ commaSeparated values ++ ascii "]"

/-! ## Operations -/

inductive CallOp where
  | metadata
  | thumbRgba
  | thumbFile
  | generate
  | embed
  | embedText
  | mimeParse
  deriving DecidableEq, Repr

/-- `toString( CallOp )`. -/
def CallOp.toString : CallOp → String
  | .metadata => "metadata"
  | .thumbRgba => "thumb_rgba"
  | .thumbFile => "thumb_file"
  | .generate => "generate"
  | .embed => "embed"
  | .embedText => "embed_text"
  | .mimeParse => "mime_parse"

def requiredFlag : CallOp → ℕ
  | .metadata => 1
  | .thumbRgba => 2
  | .thumbFile => 2
  | .generate => 4
  | .embed => 8
  | .embedText => 8
  | .mimeParse => 16

/-- What the worker reads of a module. -/
structure ModuleInfo where
  name : String
  type : ℕ
  supportsText : Bool
  modelName : String
  dimensions : ℕ
  deriving DecidableEq, Repr

/-- How a call of a module ends. -/
inductive Thrown (α : Type) where
  | returns (value : α)
  /-- a `std::exception` -/
  | throws (what : String)
  | throwsOther

/-- What a module and the sink for its output do in a call. -/
structure ModuleRun (φ : Type) where
  /-- the metadata, or the header of a thumbnail, as JSON -/
  described : Thrown (Except String JsonText)
  /-- the result of `generate` -/
  generated : Thrown (Except String Unit)
  /-- the values of an embedding, as JSON -/
  embedded : Thrown (Except String (List JsonText))
  mime : Thrown (Except String ℤ)
  /-- `MemfdSink::create` -/
  sinkCreated : Except String Unit
  /-- reserving space and writing the pixels of a thumbnail -/
  sinkWritten : Except String Unit
  /-- `seal` -/
  sinkSealed : Except String φ

/-- `QueuedCall`, as far as the worker itself reads it. -/
structure QueuedCall where
  callId : ℕ
  moduleIndex : ℕ
  op : CallOp
  deriving DecidableEq, Repr

/-- What `invoke` gives: the members of the result and its payload. -/
abbrev Invoked (φ : Type) := Except String (JsonObject × Option φ)

/-- The rest of a call after a part of the module has returned. -/
def Thrown.bind {α β : Type} (t : Thrown (Except String α)) (f : α → Except String β) :
    Thrown (Except String β) :=
  match t with
  | .returns (.ok value) => .returns (f value)
  | .returns (.error error) => .returns (.error error)
  | .throws what => .throws what
  | .throwsOther => .throwsOther

/-- The members of an embedding, if it has the declared size. -/
def embeddingResult (module : ModuleInfo) (values : List JsonText) : Invoked φ :=
  if values.length ≠ module.dimensions then
    .error ("embedding module '" ++ module.modelName ++ "' returned " ++ toString values.length ++
      " values but declares " ++ toString module.dimensions ++ " dimensions")
  else .ok ([("embedding", .raw (arrayText values))], none)

def invoke (op : CallOp) (module : ModuleInfo) (run : ModuleRun φ) : Thrown (Invoked φ) :=
  match op with
  | .embedText =>
    if !module.supportsText then .returns (.error "this model has no text encoder")
    else run.embedded.bind (embeddingResult module)
  | .metadata => run.described.bind fun metadata => .ok ([("metadata", .raw metadata)], none)
  | .thumbRgba | .thumbFile =>
    run.described.bind fun header => do
      let _ ← run.sinkCreated
      let _ ← run.sinkWritten
      let pixels ← run.sinkSealed
      return ([("thumbnail", .raw header)], some pixels)
  | .generate =>
    match run.sinkCreated with
    | .error error => .returns (.error error)
    | .ok _ => run.generated.bind fun _ => do
      let payload ← run.sinkSealed
      return ([], some payload)
  | .embed => run.embedded.bind (embeddingResult module)
  | .mimeParse => run.mime.bind fun mime => .ok ([("mime_id", .raw (ascii (toString mime)))], none)

/-! ## Calls -/

/-- What `handleCall` reads of a frame. -/
structure CallFrame (φ : Type) where
  callId : ℕ
  /-- the conversion of the other fields: the text of the exception, if it throws -/
  fields : Except String Unit
  /-- the operation, or the description of a value that is none -/
  op : Except String CallOp
  /-- the index, or the description of a value that is none -/
  moduleIndex : Except String ℕ
  /-- the hash, if it is a string -/
  hash : Option (List UInt8)
  /-- what comes of adopting each descriptor -/
  fds : List (Except String φ)

/-- The state of a worker. -/
structure Runner (φ : Type) where
  writer : FrameWriter φ
  /-- the frames that have been placed on the queue of the writer -/
  outbound : List (Frame JsonObject φ)
  /-- the calls that have reached `handleCall` -/
  received : List ℕ
  /-- `m_queue` -/
  queue : List QueuedCall
  /-- the calls that threads of the pool have taken -/
  running : List QueuedCall
  /-- an exception has ended the worker -/
  crashed : Bool

/-- `toWire( MessageType::RESULT )`. -/
def messageTypeResult : ℕ := 6

/-- A result for a call, before its outcome is known. -/
def resultBody (callId : ℕ) : JsonObject :=
  setMember "call_id" (.uint callId) (setMember "type" (.uint messageTypeResult) [])

/-- `send`: a frame that is too large is refused, and so is one whose descriptor cannot be
duplicated.  That the thread which writes cannot be woken is reported too, but the frame is in the
queue. -/
def Runner.send (r : Runner φ) (dupError : Option String) (body : JsonObject) (fds : List φ) :
    Runner φ :=
  match r.writer.enqueue writeObject dupError body fds with
  | .error _ => r
  | .ok writer => { r with writer := writer, outbound := r.outbound ++ [⟨body, fds⟩] }

/-- The body of a rejection. -/
def rejection (callId : ℕ) (reason : String) : JsonObject :=
  setMember "error" (.string reason) (setMember "ok" (.bool false) (resultBody callId))

/-- The value of a digit in hexadecimal. -/
def hexDigit (byte : UInt8) : Option ℕ :=
  if 48 ≤ byte.toNat ∧ byte.toNat ≤ 57 then some (byte.toNat - 48)
  else if 97 ≤ byte.toNat ∧ byte.toNat ≤ 102 then some (byte.toNat - 87)
  else if 65 ≤ byte.toNat ∧ byte.toNat ≤ 70 then some (byte.toNat - 55)
  else none

/-- The error of `SHA256::fromHex` for a text of the right length. -/
def hexError (text : List UInt8) : Option String :=
  (text.findIdx? fun byte => (hexDigit byte).isNone).map fun position =>
    "Invalid hex character at position " ++ toString position

/-- What `handleCall` does after the fields have been converted: the reason of a rejection, or the
call for the queue. -/
def acceptCall (frame : CallFrame φ) : Except String QueuedCall :=
  match frame.op with
  | .error described => .error ("unknown operation: " ++ described)
  | .ok op =>
    match frame.moduleIndex with
    | .error described => .error ("call carries no module index: " ++ described)
    | .ok moduleIndex =>
      match frame.hash.bind fun hex => if hex.length = 64 then hexError hex else none with
      | some error => .error error
      | none =>
        if op = .embedText then .ok ⟨frame.callId, moduleIndex, op⟩
        else
          match frame.fds with
          | [] => .error "call arrived without its input descriptor"
          | .error error :: _ => .error error
          | .ok _ :: _ => .ok ⟨frame.callId, moduleIndex, op⟩

def Runner.handleCall (r : Runner φ) (frame : CallFrame φ) : Runner φ :=
  let r := { r with received := r.received ++ [frame.callId] }
  match frame.fields with
  | .error _ => { r with crashed := true }
  | .ok _ =>
    match acceptCall frame with
    | .error reason => r.send none (rejection frame.callId reason) []
    | .ok call => { r with queue := r.queue ++ [call] }

/-- The failure of a call, which is empty for a success, and what it has produced. -/
def runModule (library : List ModuleInfo) (call : QueuedCall) (run : ModuleRun φ) :
    String × JsonObject × Option φ :=
  match library[call.moduleIndex]? with
  | none => ("no module at index " ++ toString call.moduleIndex, [], none)
  | some module =>
    if module.type &&& requiredFlag call.op = 0 then
      ("module " ++ module.name ++ " at index " ++ toString call.moduleIndex ++
        " does not implement the interface required by operation '" ++ call.op.toString ++ "'", [],
        none)
    else
      match invoke call.op module run with
      | .returns (.ok (members, payload)) => ("", members, payload)
      | .returns (.error error) => (error, [], none)
      | .throws what => ("module threw: " ++ what, [], none)
      | .throwsOther => ("module threw a non-standard exception", [], none)

/-- The body of a result. -/
def answer (callId : ℕ) (failure : String) (members : JsonObject) : JsonObject :=
  let body := members.foldl (fun body member => setMember member.1 member.2 body)
    (resultBody callId)
  let body := setMember "ok" (.bool (failure = "")) body
  if failure = "" then body else setMember "error" (.string failure) body

/-- The descriptors of a result. -/
def answerFds (failure : String) (payload : Option φ) : List φ :=
  if failure = "" then payload.toList else []

def Runner.runCall (r : Runner φ) (library : List ModuleInfo) (call : QueuedCall)
    (run : ModuleRun φ) (dupError : Option String) : Runner φ :=
  let (failure, members, payload) := runModule library call run
  r.send dupError (answer call.callId failure members) (answerFds failure payload)

/-- What happens next in the worker. -/
inductive RunnerAction (φ : Type) where
  /-- a call arrives -/
  | receive (frame : CallFrame φ)
  /-- a thread of the pool takes a call from the queue -/
  | take
  /-- a call that was taken ends -/
  | finish (place : ℕ) (run : ModuleRun φ) (dupError : Option String)

namespace Runner

/-- A worker that has started. -/
def start : Runner φ :=
  ⟨⟨[]⟩, [], [], [], [], false⟩

/-- What an action does. -/
def step (library : List ModuleInfo) (r : Runner φ) (action : RunnerAction φ) : Runner φ :=
  if r.crashed then r
  else
    match action with
    | .receive frame => r.handleCall frame
    | .take =>
      match r.queue with
      | [] => r
      | call :: queue => { r with queue := queue, running := r.running ++ [call] }
    | .finish place run dupError =>
      match r.running[place]? with
      | none => r
      | some call =>
        { r with running := r.running.eraseIdx place }.runCall library call run dupError

/-- The worker after some actions. -/
def run (library : List ModuleInfo) (actions : List (RunnerAction φ)) : Runner φ :=
  actions.foldl (step library) start

end Runner

end Idhan.Workers
