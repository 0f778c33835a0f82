import Idhan.Downloader.Completion

/-!
# A transfer in a shard

`LaneShard` of `IDHANDownloader/src/http/LaneShard.cpp`: what the transfer library tells about a
response, line by line and piece by piece, and the result that is made of it in the end.

What the library, the sink and the clock of the outside answer is an argument: what `sink->write`
and `sink->finish` return, how the transfer ended, the status and the URL that are reported.
Logging is left out.

* `Active.returns_writeCallback`: a piece goes to the sink only if the status is a success.
* `Active.ends_finish`: the result of a transfer, and what becomes of its sink.
-/

namespace Idhan.Downloader

/-- What a sink is told. -/
inductive SinkEvent where
  | write (bytes : Text)
  | abort
  | finish (succeeded : Bool)
  deriving DecidableEq, Repr

/-- What a hop takes from its options and from the import it is for. -/
structure HopOptions where
  /-- zero if there is no limit -/
  maxResponseBytes : ℕ
  requireFile : Bool
  /-- `redactUrlQuery`, with the query parameters of the request -/
  redactUrlQuery : Text → Text

/-- `LaneShard::Active`. -/
structure Active where
  request : TransferRequest
  status : ℤ
  headers : HttpHeaders
  body : Text
  bytes : ℕ
  preview : Text
  overLimit : Bool
  sinkError : Text
  deriving DecidableEq, Repr

namespace Active

/-- The transfer that `LaneShard::start` makes of a request. -/
def new (request : TransferRequest) : Active :=
  ⟨request, 0, [], [], 0, [], false, []⟩

def successful (status : ℤ) : Bool :=
  200 ≤ status ∧ status < 300

/-- `preservingSink`.  A redirect is no success, whether it is followed or not. -/
def preservingSink (active : Active) : Bool :=
  !successful active.status

/-- The status that a line is read to give. -/
def lineStatus (line : Text) : ℤ :=
  match (splitAtFirst ' ' line).2 with
  | none => 0
  | some rest =>
    match fromChars rest with
    | some status => if -(2 ^ 31) ≤ status ∧ status < 2 ^ 31 then status else 0
    | none => 0

/-- A line without its end. -/
def trimLine (data : Text) : Text :=
  data.rdropWhile fun c => c = '\r' || c = '\n'

/-- The line begins like a status line. -/
def beginsResponse (data : Text) : Bool :=
  "HTTP/".toList.isPrefixOf (trimLine data)

/-- `LaneShard::headerCallback`. -/
def headerCallback (data : Text) (active : Active) : Active :=
  if beginsResponse data then
    { active with
      headers := [], body := [], preview := [], bytes := 0, status := lineStatus (trimLine data) }
  else
    match splitAtFirst ':' (trimLine data) with
    | (_, none) => active
    | (name, some value) =>
      { active with
        headers := active.headers ++ [(name, value.dropWhile fun c => c = ' ' || c = '\t')] }

/-- `HTTP_BODY_LOG_LIMIT`. -/
def bodyLogLimit : ℕ :=
  2048

/-- The piece is counted, and its beginning is kept if the body is not. -/
def count (data : Text) (active : Active) : Active :=
  { active with
    bytes := active.bytes + data.length
    preview := if active.request.sink ∧ active.preview.length < bodyLogLimit then
        active.preview ++ data.take (bodyLogLimit - active.preview.length)
      else active.preview }

/-- `LaneShard::writeCallback`, which returns how many bytes it has taken.  `written` is what the
sink answers. -/
def writeCallback (options : HopOptions) (data : Text) (written : Except Text Unit)
    (active : Active) : Active × ℕ × List SinkEvent :=
  let active := active.count data
  if active.request.sink ∧ active.preservingSink then (active, data.length, [])
  else if active.request.sink then
    match written with
    | .ok () => (active, data.length, [.write data])
    | .error error => ({ active with sinkError := error }, 0, [.write data])
  else if options.maxResponseBytes ≠ 0 ∧
      options.maxResponseBytes < active.body.length + data.length then
    ({ active with overLimit := true }, 0, [])
  else ({ active with body := active.body ++ data }, data.length, [])

/-- `std::isspace`. -/
def isSpace (c : Char) : Bool :=
  c = ' ' || c = '\t' || c = '\n' || c = '\r' || c.toNat = 11 || c.toNat = 12

def isDirectResponse (contentType preview : Text) : Bool :=
  let type := ((lowered (splitAtFirst ';' contentType).1).rdropWhile isSpace).dropWhile isSpace
  let opening := preview.take 512
  let opening := if ([0xEF, 0xBB, 0xBF].map Char.ofNat).isPrefixOf opening then opening.drop 3
    else opening
  match (opening.dropWhile fun c => c = ' ' || c = '\t' || c = '\r' || c = '\n').head? with
  | some '<' => false
  | some '\x7b' => false
  | some '[' => false
  | _ =>
    if "+xml".toList.isSuffixOf type || "+json".toList.isSuffixOf type then false
    else
      "image/".toList.isPrefixOf type || "video/".toList.isPrefixOf type ||
      "audio/".toList.isPrefixOf type ||
        type ∈ ["application/octet-stream", "application/pdf", "application/zip",
          "application/x-7z-compressed", "application/x-rar-compressed", "application/vnd.rar",
          "application/gzip"].map String.toList

/-- `sink->abort()`, if the transfer has the sink. -/
def abortSink (active : Active) : List SinkEvent :=
  if active.request.sink then [.abort] else []

/-- The response of a transfer. -/
def response (status : ℤ) (url : Text) (sink : Bool) (active : Active) : TransferResponse :=
  ⟨status, url, active.headers, active.body, [], sink⟩

/-- How a transfer ends: the message of the error, if there is one; whether it was cancelled; the
status and the URL that are reported; and what the sink answers if it is asked to finish. -/
structure Ending where
  ended : Except Text Unit
  cancelled : Bool
  status : ℤ
  url : Text
  finished : Except Text Unit

/-- `LaneShard::finish`, up to the callback. -/
def finish (options : HopOptions) (ending : Ending) (active : Active) :
    TransferResult × List SinkEvent :=
  if active.sinkError ≠ [] then (.error ⟨.sink, active.sinkError⟩, active.abortSink)
  else if active.overLimit then
    (.error ⟨.tooLarge, "Response body from ".toList ++ options.redactUrlQuery active.request.url ++
      " exceeds the ".toList ++ (toString options.maxResponseBytes).toList ++ " byte limit".toList⟩,
      [])
  else
    match ending.ended with
    | .error message =>
      (.error ⟨if ending.cancelled then .cancelled else .transport, message⟩, active.abortSink)
    | .ok () =>
      let active := { active with status := ending.status }
      if active.request.sink ∧ active.preservingSink then
        (.ok (active.response ending.status ending.url true), [])
      else if active.request.sink ∧ options.requireFile ∧
          !isDirectResponse (HttpHeaders.get active.headers "content-type".toList)
            active.preview then
        (.error
        ⟨.sink,
        "URL did not return a single file (HTML, structured data, or unknown content type)".toList⟩,
        [.abort])
      else if active.request.sink then
        match ending.finished with
        | .ok () => (.ok (active.response ending.status ending.url false), [.finish true])
        | .error error => (.error ⟨.sink, error⟩, [.finish false, .abort])
      else (.ok (active.response ending.status ending.url false), [])

/-! ## What the callbacks can do -/

variable {options : HopOptions} {active : Active} {data : Text}

theorem request_headerCallback : (active.headerCallback data).request = active.request := by
  unfold headerCallback
  split
  · rfl
  split <;> rfl

theorem overLimit_headerCallback : (active.headerCallback data).overLimit = active.overLimit := by
  unfold headerCallback
  split
  · rfl
  split <;> rfl

/-- A line that does not begin like a status line leaves the status as it is. -/
theorem status_headerCallback (h : beginsResponse data = false) :
    (active.headerCallback data).status = active.status := by
  unfold headerCallback
  rw [if_neg (by simp [h])]
  split <;> rfl

/-- A line that begins like a status line makes the transfer forget what it has read. -/
theorem headerCallback_of_begins (h : beginsResponse data) :
    active.headerCallback data = { active with
      headers := [], body := [], preview := [], bytes := 0,
      status := lineStatus (trimLine data) } :=
  if_pos h

/-- A piece goes to the sink only if the status is a success; the request and the status stay, and a
limit is only exceeded without a sink. -/
theorem returns_writeCallback (options : HopOptions) (data : Text) (written : Except Text Unit)
    (active : Active) :
    let result := active.writeCallback options data written
    result.1.request = active.request ∧ result.1.status = active.status ∧
      (result.1.overLimit → active.overLimit ∨ active.request.sink = false) ∧
      (result.2.2 = [] ∨ result.2.2 = [.write data] ∧ active.request.sink ∧
        successful active.status) := by
  unfold writeCallback
  simp only
  split
  · exact ⟨rfl, rfl, Or.inl, Or.inl rfl⟩
  rename_i hkept
  split
  · rename_i hsink
    have hsuccess : successful active.status := by
      simp only [not_and, preservingSink, Bool.not_eq_true, Bool.not_eq_false'] at hkept
      exact hkept hsink
    cases written with
    | ok => exact ⟨rfl, rfl, Or.inl, Or.inr ⟨rfl, hsink, hsuccess⟩⟩
    | error error => exact ⟨rfl, rfl, Or.inl, Or.inr ⟨rfl, hsink, hsuccess⟩⟩
  rename_i hsink
  split
  · exact ⟨rfl, rfl, fun _ => Or.inr (Bool.eq_false_iff.2 hsink), Or.inl rfl⟩
  · exact ⟨rfl, rfl, Or.inl, Or.inl rfl⟩

/-- The sink is done with: it has finished, or it has been aborted. -/
def Disposes (events : List SinkEvent) : Prop :=
  events = [.finish true] ∨ events = [.abort] ∨ events = [.finish false, .abort]

/-- What becomes of the sink at the end of a transfer: it is handed back with a response that is no
success; or it has finished with a response that is one; or it was aborted, and there is an
error. -/
inductive Ends (ending : Ending) : TransferResult → List SinkEvent → Prop
  | kept {response : TransferResponse} : response.sink = true → response.status = ending.status →
      successful ending.status = false → Ends ending (.ok response) []
  | finished {response : TransferResponse} :
      response.sink = false → response.status = ending.status → successful ending.status →
      Ends ending (.ok response) [.finish true]
  | failed {error : TransferError} {events : List SinkEvent} :
      Disposes events → Ends ending (.error error) events

theorem ends_finish (options : HopOptions) (ending : Ending) (hsink : active.request.sink)
    (hlimit : active.overLimit = false) :
    Ends ending (active.finish options ending).1 (active.finish options ending).2 := by
  have habort : active.abortSink = [.abort] := if_pos hsink
  have hfailed : Disposes active.abortSink := Or.inr (Or.inl habort)
  unfold finish
  split
  · exact .failed hfailed
  rw [if_neg (by simp [hlimit])]
  split
  · exact .failed hfailed
  simp only [hsink, true_and, if_true]
  split
  · rename_i hkept
    exact .kept rfl rfl (by simpa [preservingSink] using hkept)
  rename_i hkept
  have hsuccess : successful ending.status := by simpa [preservingSink] using hkept
  split
  · exact .failed (Or.inr (Or.inl rfl))
  split
  · exact .finished rfl rfl hsuccess
  · exact .failed (Or.inr (Or.inr rfl))

/-- Without a sink nothing is told to one. -/
theorem finish_of_not_sink (options : HopOptions) (ending : Ending)
    (hsink : active.request.sink = false) : (active.finish options ending).2 = [] ∧
      ∀ response, (active.finish options ending).1 = .ok response → response.sink = false := by
  have habort : active.abortSink = [] := if_neg (by simp [hsink])
  unfold finish
  split
  · exact ⟨habort, fun _ h => by cases h⟩
  split
  · exact ⟨rfl, fun _ h => by cases h⟩
  split
  · exact ⟨habort, fun _ h => by cases h⟩
  simp only [hsink, Bool.false_eq_true, false_and, if_false]
  refine ⟨trivial, fun response h => ?_⟩
  cases h
  rfl

/-- A result of a transfer that ended well, with the URL that was reported and the headers that were
collected. -/
theorem response_of_finish {ending : Ending} {response : TransferResponse}
    (h : (active.finish options ending).1 = .ok response) :
    ending.ended = .ok () ∧ response.url = ending.url ∧ response.headers = active.headers ∧
      response.status = ending.status := by
  unfold finish at h
  split at h
  · cases h
  split at h
  · cases h
  split at h
  · cases h
  rename_i hended
  simp only at h
  repeat' split at h
  all_goals cases h
  all_goals exact ⟨hended, rfl, rfl, rfl⟩

end Active

end Idhan.Downloader
