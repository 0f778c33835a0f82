import Idhan.Downloader.Redirects
import Idhan.Downloader.Shard

/-!
# The life of an exchange

One exchange from `LanePool::send` to its callback: a hop is submitted to a lane, waits in its
queue, is taken by a shard, is started, receives a response, and its result ends the exchange or
begins the next hop.  At every place the lane, the shard or the caller may end it.  The steps of
other exchanges only show in what is left open: whether a lane has stopped, the jar, the times.

The sink is in one place at a time, and the log has what it was told.  A piece of a body is logged
with the response it belongs to, as the server has sent it: the transfer library gives the status
line of a response first, and the body of the last one only.

## The invariant

`ExchangeState.Intact` says, for each place, that the sink is there, that the callback was not
called and, up to the transfer, that the sink was told nothing.  During a transfer the pieces in the
log are of the response that is being received, and its status is a success.  The number of moves is
four for each hop, which bounds the run.  Of an exchange that has ended it says that there was one
callback and that the sink was finished or aborted, once.

An exception of `dispatch` or `complete` leads to a place of its own, of which nothing is true; the
condition of `exchange_ends_once` excludes it.  The other part of the condition is that a response
has one status line: `header_like_status_line` has a header that begins like one and puts the body
of an error page into the sink.
-/

namespace Idhan.Downloader

open List

open Active (successful)

/-- Where an exchange is. -/
inductive Place where
  /-- `dispatch` is to be called for the first time -/
  | dispatching (exchange : Exchange)
  /-- a hop is to be submitted to its lane -/
  | submitting (exchange : Exchange) (request : TransferRequest)
  | queued (exchange : Exchange) (request : TransferRequest)
  /-- a task to start the transfer is posted -/
  | posted (exchange : Exchange) (request : TransferRequest)
  | active (exchange : Exchange) (active : Active)
  | ended
  /-- an exception has left `send`, or it has left `complete` and with it the thread -/
  | crashed
  deriving DecidableEq, Repr

/-- What the sink was told; a piece with the number of the response it belongs to, and the status of
that response. -/
inductive LogEntry where
  | write (response : ℕ) (status : ℤ) (bytes : Text)
  | abort
  | finish (succeeded : Bool)
  deriving DecidableEq, Repr

/-- An exchange and what it has done. -/
structure ExchangeState where
  place : Place
  /-- the results that the callback was called with -/
  callbacks : List TransferResult
  log : List LogEntry
  /-- how many hops were submitted -/
  hops : ℕ
  /-- how many responses have begun -/
  responses : ℕ
  /-- the status of the last one -/
  status : ℤ
  /-- a piece of its body has arrived -/
  receiving : Bool

namespace ExchangeState

/-- `LanePool::send`. -/
def new (exchange : Exchange) : ExchangeState :=
  ⟨.dispatching exchange, [], [], 0, 0, 0, false⟩

/-- What the sink is told goes into the log. -/
def logged (state : ExchangeState) : SinkEvent → LogEntry
  | .write bytes => .write state.responses state.status bytes
  | .abort => .abort
  | .finish succeeded => .finish succeeded

/-- What `dispatch` or `complete` has done. -/
def proceed (outcome : Outcome) (state : ExchangeState) : ExchangeState :=
  outcome.events.foldl
    (fun state event => match event with
      | .abort => { state with log := state.log ++ [.abort] }
      | .callback result => { state with place := .ended, callbacks := state.callbacks ++ [result] }
      | .submit request =>
        { state with place := .submitting outcome.exchange request, hops := state.hops + 1 })
    state

/-- The hop gets an error: its sink is aborted, and `complete` passes the error on. -/
def answer (sink : Bool) (code : TransferErrorCode) (message : Text) (state : ExchangeState) :
    ExchangeState :=
  { state with
    place := .ended
    callbacks := state.callbacks ++ [.error ⟨code, message⟩]
    log := state.log ++ if sink then [.abort] else [] }

/-- `LaneShard::start` has handed the transfer to the library. -/
def started (exchange : Exchange) (request : TransferRequest) (state : ExchangeState) :
    ExchangeState :=
  { state with place := .active exchange (.new request), status := 0, receiving := false }

/-- A line has arrived that begins a response. -/
def responseBegun (exchange : Exchange) (active : Active) (data : Text) (status : ℤ)
    (state : ExchangeState) : ExchangeState :=
  { state with
    place := .active exchange (active.headerCallback data)
    responses := state.responses + 1
    status := status }

/-- A piece of a body has arrived. -/
def pieceArrived (options : HopOptions) (exchange : Exchange) (active : Active) (data : Text)
    (written : Except Text Unit) (state : ExchangeState) : ExchangeState :=
  { state with
    place := .active exchange (active.writeCallback options data written).1
    log := state.log ++ (active.writeCallback options data written).2.2.map state.logged
    receiving := true }

end ExchangeState

/-! ## Steps -/

/-- What happens to an exchange. -/
inductive ExchangeEvent where
  /-- the status line of a response with this status -/
  | statusLine (data : Text) (status : ℤ)
  /-- another line of a header -/
  | headerLine (data : Text)
  | piece (data : Text)
  | finish (ending : Active.Ending)
  /-- a step that is not about the response -/
  | moves

/-- The event takes the exchange to another place. -/
def ExchangeEvent.isMove : ExchangeEvent → Bool
  | .statusLine _ _ => false
  | .headerLine _ => false
  | .piece _ => false
  | .finish _ => true
  | .moves => true

open ExchangeState in
/-- One step of an exchange.  The codes and texts are those of the functions named. -/
inductive ExchangeStep (libraries : Libraries) (options : HopOptions) :
    ExchangeState → ExchangeEvent → ExchangeState → Prop
  | dispatch {state : ExchangeState} {exchange : Exchange} {outcome : Outcome}
      (surroundings : Surroundings) (jar : Jar) : state.place = .dispatching exchange →
      dispatch libraries surroundings jar exchange = .ok outcome →
      ExchangeStep libraries options state .moves (state.proceed outcome)
  /-- an exception leaves `send` -/
  | throws {state : ExchangeState} {exchange : Exchange} {error : String}
      (surroundings : Surroundings) (jar : Jar) : state.place = .dispatching exchange →
      dispatch libraries surroundings jar exchange = .error error →
      ExchangeStep libraries options state .moves { state with place := .crashed }
  /-- `Lane::submit`, in a lane that has stopped -/
  | refused {state : ExchangeState} {exchange : Exchange} {request : TransferRequest} :
      state.place = .submitting exchange request →
      ExchangeStep libraries options state .moves
        (state.answer request.sink .shutdown "The lane is shutting down".toList)
  | enqueue {state : ExchangeState} {exchange : Exchange} {request : TransferRequest} :
      state.place = .submitting exchange request →
      ExchangeStep libraries options state .moves { state with place := .queued exchange request }
  /-- `Lane::cancel` -/
  | cancelQueued {state : ExchangeState} {exchange : Exchange} {request : TransferRequest} :
      state.place = .queued exchange request →
      ExchangeStep libraries options state .moves
        (state.answer request.sink .cancelled "Transfer cancelled".toList)
  /-- `Lane::shutdown` -/
  | shutdownQueued {state : ExchangeState} {exchange : Exchange} {request : TransferRequest} :
      state.place = .queued exchange request →
      ExchangeStep libraries options state .moves
        (state.answer request.sink .shutdown "The lane is shutting down".toList)
  /-- `Lane::pump` -/
  | take {state : ExchangeState} {exchange : Exchange} {request : TransferRequest} :
      state.place = .queued exchange request →
      ExchangeStep libraries options state .moves { state with place := .posted exchange request }
  /-- `LaneShard::start`, for a transfer that was cancelled or that the library does not take -/
  | startFails {state : ExchangeState} {exchange : Exchange} {request : TransferRequest}
      {code : TransferErrorCode}
      (message : Text) : state.place = .posted exchange request →
      code = .cancelled ∨ code = .transport →
      ExchangeStep libraries options state .moves (state.answer request.sink code message)
  | start {state : ExchangeState} {exchange : Exchange} {request : TransferRequest} :
      state.place = .posted exchange request →
      ExchangeStep libraries options state .moves (state.started exchange request)
  /-- `LaneShard::headerCallback`, for the first line of a response: no body has come yet -/
  | statusLine {state : ExchangeState} {exchange : Exchange} {active : Active} (data : Text)
      (status : ℤ) :
      state.place = .active exchange active → state.receiving = false → Active.beginsResponse data →
      ExchangeStep libraries options state (.statusLine data status)
        (state.responseBegun exchange active data status)
  | headerLine {state : ExchangeState} {exchange : Exchange} {active : Active} (data : Text) :
      state.place = .active exchange active →
      ExchangeStep libraries options state (.headerLine data) { state with
        place := .active exchange (active.headerCallback data) }
  | piece {state : ExchangeState} {exchange : Exchange} {active : Active} (data : Text)
      (written : Except Text Unit) :
      state.place = .active exchange active →
      ExchangeStep libraries options state (.piece data)
        (state.pieceArrived options exchange active data written)
  /-- `LaneShard::finish`, with the status of the last response -/
  | finish {state : ExchangeState} {exchange : Exchange} {active : Active} {outcome : Outcome}
      (ending : Active.Ending)
      (surroundings : Surroundings) (jar : Jar) : state.place = .active exchange active →
      ending.status = state.status →
      complete libraries surroundings jar exchange (active.finish options ending).1 = .ok outcome →
      ExchangeStep libraries options state (.finish ending)
        ({ state with
          log := state.log ++ (active.finish options ending).2.map state.logged }.proceed outcome)
  | crash {state : ExchangeState} {exchange : Exchange} {active : Active} {error : String}
      (ending : Active.Ending)
      (surroundings : Surroundings) (jar : Jar) : state.place = .active exchange active →
      ending.status = state.status →
      complete libraries surroundings jar exchange (active.finish options ending).1 = .error error →
      ExchangeStep libraries options state (.finish ending)
        { state with
          place := .crashed, log := state.log ++ (active.finish options ending).2.map state.logged }
  /-- `LaneShard::cancel` -/
  | cancelActive {state : ExchangeState} {exchange : Exchange} {active : Active} :
      state.place = .active exchange active →
      ExchangeStep libraries options state .moves
      (state.answer active.request.sink .cancelled "Transfer cancelled".toList)
  /-- `LaneShard::shutdown` -/
  | shutdownActive {state : ExchangeState} {exchange : Exchange} {active : Active} :
      state.place = .active exchange active →
      ExchangeStep libraries options state .moves
        (state.answer active.request.sink .shutdown "The downloader is shutting down".toList)

/-- The states of an exchange that are reached by events which are all allowed, with the number of
its moves. -/
inductive ExchangeRun (libraries : Libraries) (options : HopOptions) (start : Exchange)
    (allowed : ExchangeState → ExchangeEvent → Prop) : ℕ → ExchangeState → Prop
  | send : ExchangeRun libraries options start allowed 0 (.new start)
  | step {moves : ℕ} {state state' : ExchangeState} {event : ExchangeEvent} :
      ExchangeRun libraries options start allowed moves state → allowed state event →
      ExchangeStep libraries options state event state' →
      ExchangeRun libraries options start allowed (if event.isMove then moves + 1 else moves) state'

/-- What a response may not do when its transfer has ended: its cookies can be read, and the
exchange goes on to a host that can be normalized a second time. -/
structure EndsWell (libraries : Libraries) (exchange : Exchange) (active : Active)
    (ending : Active.Ending) : Prop where
  cookies : exchange.cookies = true → ending.ended = .ok () →
    (libraries.parseUrl ending.url none).isSome →
    ∀ header ∈ active.headers.all "set-cookie".toList, SafeCookie libraries header
  next : ∀ response url, response.url = ending.url → response.headers = active.headers →
    response.status = ending.status → nextUrl libraries exchange response = some url →
    SafeUrl libraries url

/-- The responses are read as they were sent: the status line of each one gives its status, no other
line begins like one, and its end is read without an exception.  The host of the first URL can be
normalized a second time. -/
def ReadsWell (libraries : Libraries) (state : ExchangeState) : ExchangeEvent → Prop
  | .statusLine data status => Active.lineStatus (Active.trimLine data) = status
  | .headerLine data => Active.beginsResponse data = false
  | .finish ending => ∀ exchange active, state.place = .active exchange active →
      EndsWell libraries exchange active ending
  | .moves => ∀ exchange, state.place = .dispatching exchange → SafeUrl libraries exchange.url
  | .piece _ => True

/-! ## What a call does with the sink -/

section Calls

variable {libraries : Libraries} {surroundings : Surroundings} {jar : Jar} {exchange : Exchange}
  {outcome : Outcome} {response : TransferResponse}

/-- A call that has the sink, or has none, answers and aborts it; or it submits a hop that has
it. -/
inductive PassesOn (sink : Bool) (outcome : Outcome) : Prop
  | answers (result : TransferResult) :
      outcome.events = (if sink then [Event.abort] else []) ++ [.callback result] →
      PassesOn sink outcome
  | submits (request : TransferRequest) : outcome.events = [.submit request] → request.sink = sink →
      PassesOn sink outcome

theorem passesOn_refuse {code : TransferErrorCode} {message : Text} :
    PassesOn exchange.sink (refuse exchange jar code message) :=
  .answers _ rfl

theorem passesOn_of_dispatch (h : dispatch libraries surroundings jar exchange = .ok outcome) :
    PassesOn exchange.sink outcome := by
  unfold dispatch at h
  split at h
  · cases h
    exact passesOn_refuse
  simp only at h
  split at h
  · cases h
    exact passesOn_refuse
  split at h
  · cases h
    exact passesOn_refuse
  obtain ⟨host, -, h⟩ := bind_eq_ok_iff.1 h
  obtain ⟨settings, -, h⟩ := bind_eq_ok_iff.1 h
  split at h
  · cases h
    exact passesOn_refuse
  obtain ⟨headers, -, h⟩ := bind_eq_ok_iff.1 h
  cases h
  exact .submits _ rfl rfl

theorem passesOn_of_complete
    (h : complete libraries surroundings jar exchange (.ok response) = .ok outcome) :
    PassesOn response.sink outcome := by
  simp only [complete] at h
  obtain ⟨kept, -, h⟩ := bind_eq_ok_iff.1 h
  split at h
  · exact passesOn_of_dispatch h
  split at h
  · cases h
    exact .answers _ rfl
  · -- a redirect changes the method, the headers and the body, and leaves the sink
    have hsink :
        ∀ target, (redirected libraries { exchange with
          sink := response.sink } response target).sink = response.sink := by
      intro target
      unfold redirected
      simp only
      split <;> rfl
    have hpasses := passesOn_of_dispatch h
    rwa [hsink] at hpasses

/-- A success is neither a redirect nor a request to come back later: the exchange is answered. -/
theorem answers_of_successful (hstatus : successful response.status)
    (h : complete libraries surroundings jar exchange (.ok response) = .ok outcome) :
    ∃ result, outcome.events = (if response.sink then [Event.abort] else []) ++
    [.callback result] := by
  simp only [successful, decide_eq_true_eq] at hstatus
  simp only [complete] at h
  obtain ⟨kept, -, h⟩ := bind_eq_ok_iff.1 h
  rw [if_neg (by omega)] at h
  have hnone : redirectTarget libraries { exchange with sink := response.sink } response =
    none := by
    refine if_neg ?_
    simp only [isRedirect, Bool.or_eq_true, decide_eq_true_eq]
    omega
  rw [hnone] at h
  cases h
  exact ⟨_, rfl⟩

/-- A call of `complete` with an error calls the callback. -/
theorem events_of_complete_error {error : TransferError}
    (h : complete libraries surroundings jar exchange (.error error) = .ok outcome) :
    outcome.events = [.callback (.error error)] := by
  cases h
  rfl

end Calls

/-! ## What has been told to the sink -/

/-- The pieces of one response that is a success. -/
def OneBody (writes : List LogEntry) : Prop :=
  ∃ response status, successful status ∧ ∀ entry ∈ writes, ∃ bytes,
    entry = .write response status bytes

/-- The sink is done with once, after the pieces of one body. -/
def Done (sink : Bool) (log : List LogEntry) : Prop :=
  ∃ writes ending, log = writes ++ ending ∧ OneBody writes ∧
    if sink then ending = [.finish true] ∨ ending = [.abort] ∨ ending = [.finish false, .abort]
      else writes = [] ∧ ending = []

theorem oneBody_nil : OneBody [] :=
  ⟨0, 200, rfl, forall_mem_nil _⟩

theorem done_of_not_sink : Done false [] :=
  ⟨[], [], rfl, oneBody_nil, rfl, rfl⟩

variable {writes : List LogEntry}

theorem done_of_abort (h : OneBody writes) : Done true (writes ++ [.abort]) :=
  ⟨writes, [.abort], rfl, h, Or.inr (Or.inl rfl)⟩

namespace ExchangeState

/-- What holds of an exchange whose request had a sink or had none, after so many moves.  The sink
is where the exchange is, and nothing was told to it before the transfer that has it now; there it
has got pieces of the response that arrives. -/
def Intact (sink : Bool) (moves : ℕ) (state : ExchangeState) : Prop :=
  match state.place with
  | .dispatching exchange =>
    exchange.sink = sink ∧ state.callbacks = [] ∧ state.log = [] ∧ state.hops = 0 ∧ moves = 0
  | .submitting _ request =>
    request.sink = sink ∧ state.callbacks = [] ∧ state.log = [] ∧ moves + 3 = 4 * state.hops
  | .queued _ request =>
    request.sink = sink ∧ state.callbacks = [] ∧ state.log = [] ∧ moves + 2 = 4 * state.hops
  | .posted _ request =>
    request.sink = sink ∧ state.callbacks = [] ∧ state.log = [] ∧ moves + 1 = 4 * state.hops
  | .active _ active =>
    active.request.sink = sink ∧ state.callbacks = [] ∧ moves = 4 * state.hops ∧
      active.status = state.status ∧
      (active.overLimit → sink = false) ∧
      (state.log = [] ∨ sink = true ∧ state.receiving ∧ successful state.status ∧
        ∀ entry ∈ state.log, ∃ bytes, entry = .write state.responses state.status bytes)
  | .ended =>
    (∃ result, state.callbacks = [result]) ∧ moves ≤ 4 * state.hops + 1 ∧ Done sink state.log
  | .crashed => False

/-! ## One step -/

variable {libraries : Libraries} {options : HopOptions} {state : ExchangeState} {outcome : Outcome}
  {sink : Bool} {moves : ℕ} {exchange : Exchange} {active : Active} {log : List LogEntry}
  {data : Text} {surroundings : Surroundings} {result : TransferResult} {jar : Jar}
  {ending : Active.Ending}

theorem proceed_of_answers
    (h : outcome.events = (if sink then [Event.abort] else []) ++ [.callback result]) :
    state.proceed outcome = { state with
      place := .ended
      callbacks := state.callbacks ++ [result]
      log := state.log ++ if sink then [.abort] else [] } := by
  unfold proceed
  rw [h]
  cases sink with
  | true => rfl
  | false => simp

theorem proceed_of_submits {request : TransferRequest} (h : outcome.events = [.submit request]) :
    state.proceed outcome =
      { state with place := .submitting outcome.exchange request, hops := state.hops + 1 } := by
  unfold proceed
  rw [h]
  rfl

/-- What was told to a sink that is aborted now. -/
theorem done_append_abort (h : log = [] ∨ sink = true ∧ OneBody log) :
    Done sink (log ++ if sink then [.abort] else []) := by
  rcases h with rfl | ⟨rfl, hbody⟩
  · cases sink with
    | true => exact done_of_abort oneBody_nil
    | false => exact done_of_not_sink
  · exact done_of_abort hbody

/-- A call that has the sink while nothing was told to it. -/
theorem intact_proceed (hcallbacks : state.callbacks = []) (hlog : state.log = [])
    (hmoves : moves = 4 * state.hops) (h : PassesOn sink outcome) :
    (state.proceed outcome).Intact sink (moves + 1) := by
  cases h with
  | answers result h =>
    rw [proceed_of_answers h]
    refine ⟨⟨result, by simp [hcallbacks]⟩, ?_, done_append_abort (Or.inl hlog)⟩
    show moves + 1 ≤ 4 * state.hops + 1
    omega
  | submits request h hsink =>
    rw [proceed_of_submits h]
    refine ⟨hsink, hcallbacks, hlog, ?_⟩
    show moves + 1 + 3 = 4 * (state.hops + 1)
    omega

/-- A call that is answered when the sink is done with. -/
theorem intact_callback (hcallbacks : state.callbacks = [])
    (hmoves : moves ≤ 4 * state.hops) (hdone : Done sink log)
    (h : outcome.events = [.callback result]) :
    (proceed outcome { state with log := log }).Intact sink (moves + 1) := by
  unfold proceed
  rw [h]
  exact ⟨⟨result, by simp [hcallbacks]⟩, Nat.add_le_add_right hmoves 1, hdone⟩

/-- A hop that is answered with an error. -/
theorem intact_answer {held : Bool} {code : TransferErrorCode} {message : Text}
    (hheld : held = sink) (hcallbacks : state.callbacks = [])
    (hlog : state.log = [] ∨ sink = true ∧ OneBody state.log)
    (hmoves : moves ≤ 4 * state.hops) :
    (state.answer held code message).Intact sink (moves + 1) := by
  subst hheld
  refine ⟨⟨_, by rw [answer, hcallbacks]; rfl⟩, ?_, done_append_abort hlog⟩
  show moves + 1 ≤ 4 * state.hops + 1
  omega

theorem Intact.oneBody (h : state.Intact sink moves)
    (hplace : state.place = .active exchange active) :
    state.log = [] ∨ sink = true ∧ OneBody state.log := by
  rw [Intact, hplace] at h
  obtain ⟨-, -, -, -, -, hlog⟩ := h
  refine hlog.imp_right ?_
  rintro ⟨hsink, -, hsuccess, hwrites⟩
  exact ⟨hsink, _, _, hsuccess, hwrites⟩

theorem done_of_disposes {events : List SinkEvent} (hlog : log = [] ∨ OneBody log)
    (h : Active.Disposes events) : Done true (log ++ events.map state.logged) := by
  have hbody : OneBody log := hlog.elim (fun hnil => hnil ▸ oneBody_nil) id
  refine ⟨log, _, rfl, hbody, ?_⟩
  rcases h with rfl | rfl | rfl
  · exact Or.inl rfl
  · exact Or.inr (Or.inl rfl)
  · exact Or.inr (Or.inr rfl)

section

variable (h : state.Intact sink moves) (hplace : state.place = .active exchange active)
include h hplace

/-- The end of a transfer.  The sink is handed back only if nothing was written, since the status is
no success then. -/
theorem intact_finish (hstatus : ending.status = state.status)
    (hcall : complete libraries surroundings jar exchange (active.finish options ending).1 =
      .ok outcome) :
    (proceed outcome { state with
      log := state.log ++ (active.finish options ending).2.map state.logged }).Intact sink
      (moves + 1) := by
  have hbody := h.oneBody hplace
  rw [Intact, hplace] at h
  obtain ⟨hsink, hcallbacks, hmoves, -, hlimit, hlog⟩ := h
  cases sink with
  | false =>
    have hnil : state.log = [] := hlog.resolve_right fun h => Bool.false_ne_true h.1
    obtain ⟨hevents, hresponse⟩ := Active.finish_of_not_sink options ending hsink
    rw [hevents]
    refine intact_proceed hcallbacks (by simp [hnil]) hmoves ?_
    cases hresult : (active.finish options ending).1 with
    | error error =>
      rw [hresult] at hcall
      exact .answers _ (events_of_complete_error hcall)
    | ok response =>
      rw [hresult] at hcall
      exact hresponse response hresult ▸ passesOn_of_complete hcall
  | true =>
    have hfits : active.overLimit = false := Bool.eq_false_iff.2 fun hover => by cases hlimit hover
    have hends := Active.ends_finish options ending hsink hfits
    have hwritten : state.log = [] ∨ OneBody state.log := hbody.imp_right And.right
    generalize (active.finish options ending).1 = result at hends hcall
    generalize (active.finish options ending).2 = events at hends
    cases hends with
    | @kept response hkept _ hfailure =>
      have hnil : state.log = [] := by
        refine hlog.resolve_right ?_
        rintro ⟨-, -, hsuccess, -⟩
        rw [hstatus, hsuccess] at hfailure
        cases hfailure
      exact intact_proceed hcallbacks (by simp [hnil]) hmoves (hkept ▸ passesOn_of_complete hcall)
    | @finished response hgiven hsame hsuccess =>
      obtain ⟨result, hevents⟩ := answers_of_successful (hsame ▸ hsuccess) hcall
      rw [hgiven] at hevents
      exact intact_callback hcallbacks hmoves.le (done_of_disposes hwritten (Or.inl rfl)) hevents
    | failed hdisposes =>
      exact intact_callback hcallbacks hmoves.le (done_of_disposes hwritten hdisposes)
        (events_of_complete_error hcall)

/-- A response begins: nothing of a body has arrived before. -/
theorem intact_statusLine {status : ℤ} (hreceiving : state.receiving = false)
    (hbegins : Active.beginsResponse data)
    (hreads : Active.lineStatus (Active.trimLine data) = status) :
    (state.responseBegun exchange active data status).Intact sink moves := by
  rw [Intact, hplace] at h
  obtain ⟨hsink, hcallbacks, hmoves, -, hlimit, hlog⟩ := h
  have hnil : state.log = [] := by
    refine hlog.resolve_right ?_
    rintro ⟨-, hbody, -, -⟩
    rw [hreceiving] at hbody
    cases hbody
  refine ⟨?_, hcallbacks, hmoves, ?_, ?_, Or.inl hnil⟩
  · rwa [Active.request_headerCallback]
  · rw [Active.headerCallback_of_begins hbegins]
    exact hreads
  · rwa [Active.overLimit_headerCallback]

theorem intact_headerLine (hbegins : Active.beginsResponse data = false) :
    Intact sink moves { state with place := .active exchange (active.headerCallback data) } := by
  rw [Intact, hplace] at h
  obtain ⟨hsink, hcallbacks, hmoves, hstatus, hlimit, hlog⟩ := h
  refine ⟨?_, hcallbacks, hmoves, ?_, ?_, hlog⟩
  · rwa [Active.request_headerCallback]
  · rwa [Active.status_headerCallback hbegins]
  · rwa [Active.overLimit_headerCallback]

/-- A piece goes to the sink with the number and the status of the response that arrives, which is a
success then. -/
theorem intact_piece {written : Except Text Unit} :
    (state.pieceArrived options exchange active data written).Intact sink moves := by
  rw [Intact, hplace] at h
  obtain ⟨hsink, hcallbacks, hmoves, hstatus, hlimit, hlog⟩ := h
  obtain ⟨hrequest, hsame, hover, hevents⟩ :=
    Active.returns_writeCallback options data written active
  refine ⟨hrequest ▸ hsink, hcallbacks, hmoves, hsame.trans hstatus, fun h => ?_, ?_⟩
  · rcases hover h with h | h
    · exact hlimit h
    · exact hsink.symm.trans h
  · show state.log ++ (active.writeCallback options data written).2.2.map state.logged = [] ∨ _
    rcases hevents with hnone | ⟨hwrite, hhas, hsuccess⟩
    · rw [hnone, map_nil, append_nil]
      refine hlog.imp_right ?_
      rintro ⟨htrue, -, hsuccess, hwrites⟩
      exact ⟨htrue, rfl, hsuccess, by simpa [pieceArrived, hnone] using hwrites⟩
    · rw [hstatus] at hsuccess
      refine Or.inr ⟨hsink.symm.trans hhas, rfl, hsuccess, ?_⟩
      have hbefore : ∀ entry ∈ state.log, ∃ bytes,
          entry = .write state.responses state.status bytes := by
        rcases hlog with hnil | ⟨-, -, -, hwrites⟩
        · simp [hnil]
        · exact hwrites
      show ∀ entry ∈ state.log ++ (active.writeCallback options data written).2.2.map state.logged,
        _
      rw [hwrite]
      refine forall_mem_append.2 ⟨hbefore, ?_⟩
      simp only [map_cons, map_nil, mem_singleton, forall_eq]
      exact ⟨data, rfl⟩

end

/-- `complete` returns if the response ends well. -/
theorem complete_ne_error {error : String} (h : EndsWell libraries exchange active ending) :
    complete libraries surroundings jar exchange (active.finish options ending).1 ≠
      .error error := by
  cases hresult : (active.finish options ending).1 with
  | error error => exact fun h => by cases h
  | ok response =>
    obtain ⟨hended, hurl, hheaders, hstatus⟩ := Active.response_of_finish hresult
    have hcookies : (keepCookies libraries surroundings.now jar exchange response).isOk := by
      refine isOk_keepCookies_iff.2 fun hcookies hparsed => ?_
      rw [hurl] at hparsed
      rw [hheaders]
      exact h.cookies hcookies hended hparsed
    exact Succeeds.ne_error (endsOnce_complete_ok_iff.2
      ⟨hcookies, fun _ url => h.next response url hurl hheaders hstatus⟩)

/-- **Every step keeps it**, if the response is read as it was sent. -/
theorem Intact.step {state' : ExchangeState} {event : ExchangeEvent} (h : state.Intact sink moves)
    (hreads : ReadsWell libraries state event)
    (hstep : ExchangeStep libraries options state event state') :
    state'.Intact sink (if event.isMove then moves + 1 else moves) := by
  cases hstep with
  | dispatch surroundings jar hplace hcall =>
    rw [Intact, hplace] at h
    obtain ⟨hsink, hcallbacks, hlog, hhops, hmoves⟩ := h
    exact intact_proceed hcallbacks hlog (by omega) (hsink ▸ passesOn_of_dispatch hcall)
  | throws surroundings jar hplace hcall =>
    have hsafe := hreads _ hplace
    exact absurd hcall (Succeeds.ne_error (endsOnce_dispatch_iff.2 fun _ => hsafe))
  | enqueue hplace | take hplace =>
    rw [Intact, hplace] at h
    obtain ⟨hsink, hcallbacks, hlog, hmoves⟩ := h
    exact ⟨hsink, hcallbacks, hlog, hmoves⟩
  | refused hplace | cancelQueued hplace | shutdownQueued hplace | startFails _ hplace _ =>
    rw [Intact, hplace] at h
    obtain ⟨hsink, hcallbacks, hlog, hmoves⟩ := h
    exact intact_answer hsink hcallbacks (Or.inl hlog) (by omega)
  | start hplace =>
    rw [Intact, hplace] at h
    obtain ⟨hsink, hcallbacks, hlog, hmoves⟩ := h
    exact ⟨hsink, hcallbacks, hmoves, rfl, (fun hover => by cases hover), Or.inl hlog⟩
  | statusLine data status hplace hreceiving hbegins =>
    exact intact_statusLine h hplace hreceiving hbegins hreads
  | headerLine data hplace => exact intact_headerLine h hplace hreads
  | piece data written hplace => exact intact_piece h hplace
  | finish ending surroundings jar hplace hstatus hcall =>
    exact intact_finish h hplace hstatus hcall
  | @crash exchange active error ending surroundings jar hplace hstatus hcall =>
    exact absurd hcall (complete_ne_error (hreads exchange active hplace))
  | cancelActive hplace | shutdownActive hplace =>
    have hbody := h.oneBody hplace
    rw [Intact, hplace] at h
    obtain ⟨hsink, hcallbacks, hmoves, -⟩ := h
    exact intact_answer hsink hcallbacks hbody (by omega)

/-- The places other than the end have the sink, and only pieces of one body in the log. -/
theorem Intact.oneBody_or_done (h : state.Intact sink moves) : moves ≤ 4 * state.hops + 1 ∧
    ((state.callbacks = [] ∧ OneBody state.log) ∨
      (state.place = .ended ∧ (∃ result, state.callbacks = [result]) ∧ Done sink state.log)) := by
  have hempty : state.log = [] → OneBody state.log := fun hnil => hnil ▸ oneBody_nil
  cases hplace : state.place with
  | dispatching exchange | submitting exchange request | queued exchange request
  | posted exchange request =>
    rw [Intact, hplace] at h
    exact ⟨by omega, Or.inl ⟨h.2.1, hempty h.2.2.1⟩⟩
  | active exchange active =>
    have hbody := h.oneBody hplace
    rw [Intact, hplace] at h
    exact ⟨by omega, Or.inl ⟨h.2.1, hbody.elim hempty And.right⟩⟩
  | ended =>
    rw [Intact, hplace] at h
    exact ⟨h.2.1, Or.inr ⟨rfl, h.1, h.2.2⟩⟩
  | crashed =>
    rw [Intact, hplace] at h
    exact h.elim

/-- An exchange can go on exactly as long as its callback has not been called. -/
theorem Intact.exists_step_iff (h : state.Intact sink moves) :
    (∃ event state', ExchangeStep libraries options state event state') ↔ state.callbacks = [] := by
  constructor
  · rintro ⟨event, state', hstep⟩
    rcases h.oneBody_or_done.2 with hopen | ⟨hended, -⟩
    · exact hopen.1
    · cases hstep <;> simp_all
  · intro hcallbacks
    cases hplace : state.place with
    | dispatching exchange =>
      cases hcall : dispatch libraries running ⟨[], []⟩ exchange with
      | ok outcome => exact ⟨_, _, .dispatch _ _ hplace hcall⟩
      | error error => exact ⟨_, _, .throws _ _ hplace hcall⟩
    | submitting exchange request => exact ⟨_, _, .enqueue hplace⟩
    | queued exchange request => exact ⟨_, _, .take hplace⟩
    | posted exchange request => exact ⟨_, _, .start hplace⟩
    | active exchange active => exact ⟨_, _, .cancelActive hplace⟩
    | ended | crashed =>
      rw [Intact, hplace] at h
      simp [hcallbacks] at h

theorem intact_of_run {start : Exchange}
    (h : ExchangeRun libraries options start (ReadsWell libraries) moves state) :
    state.Intact start.sink moves := by
  induction h with
  | send => exact ⟨rfl, rfl, rfl, rfl, rfl⟩
  | step _ hreads hstep ih => exact ih.step hreads hstep

end ExchangeState

/-- The pieces of one body are neither an end nor an abort. -/
theorem OneBody.count_eq_zero (h : OneBody writes) :
    writes.count .abort = 0 ∧ writes.count (.finish true) = 0 := by
  obtain ⟨response, status, -, hwrites⟩ := h
  constructor
  all_goals
    refine List.count_eq_zero.2 fun hmem => ?_
    obtain ⟨bytes, heq⟩ := hwrites _ hmem
    cases heq

/-- **An exchange ends once, and its sink is done with once**, if its responses are read as they
were sent.  The callback is called at most once, and once exactly when the exchange cannot go on; it
moves at most four times for each hop, and once more.  A sink has then finished once and not been
aborted, or been aborted once and not finished; and every piece that it got, at any time, is of the
body of one response, which is a success. -/
theorem exchange_ends_once {libraries : Libraries} {options : HopOptions} {start : Exchange}
    {moves : ℕ} {state : ExchangeState}
    (hrun : ExchangeRun libraries options start (ReadsWell libraries) moves state) :
    state.callbacks.length ≤ 1 ∧ moves ≤ 4 * state.hops + 1 ∧
      (state.callbacks.length = 1 ↔
        ¬∃ event state', ExchangeStep libraries options state event state') ∧
      (start.sink → state.callbacks.length = 1 →
        state.log.count (.finish true) = 1 ∧ state.log.count .abort = 0 ∨
          state.log.count .abort = 1 ∧ state.log.count (.finish true) = 0) ∧
      ∃ response status, successful status ∧
        ∀ number code bytes, .write number code bytes ∈ state.log →
        number = response ∧ code = status := by
  have hintact := ExchangeState.intact_of_run hrun
  rw [hintact.exists_step_iff]
  have hbodies : ∀ {log : List LogEntry}, OneBody log → ∃ response status, successful status ∧
      ∀ number code bytes, .write number code bytes ∈ log → number = response ∧ code = status := by
    rintro log ⟨response, status, hsuccess, hwrites⟩
    refine ⟨response, status, hsuccess, fun number code bytes hmem => ?_⟩
    obtain ⟨written, heq⟩ := hwrites _ hmem
    cases heq
    exact ⟨rfl, rfl⟩
  obtain ⟨hmoves, ⟨hcallbacks, hbody⟩ | ⟨-, ⟨result, hcallbacks⟩, writes, ending, hlog, hbody,
    hend⟩⟩ := hintact.oneBody_or_done
  · refine ⟨by simp [hcallbacks], hmoves, by simp [hcallbacks], ?_, hbodies hbody⟩
    simp [hcallbacks]
  · obtain ⟨haborts, hfinishes⟩ := hbody.count_eq_zero
    refine ⟨by simp [hcallbacks], hmoves, by simp [hcallbacks], fun hsink _ => ?_, ?_⟩
    · rw [if_pos hsink] at hend
      rw [hlog, count_append, count_append, haborts, hfinishes]
      rcases hend with rfl | rfl | rfl <;> decide
    · obtain ⟨response, status, hsuccess, hwrites⟩ := hbodies hbody
      refine ⟨response, status, hsuccess,
        fun number code bytes hmem => hwrites number code bytes ?_⟩
      rw [hlog, mem_append] at hmem
      refine hmem.resolve_right fun hmem => ?_
      split at hend
      · rcases hend with rfl | rfl | rfl <;> simp at hmem
      · simp [hend.2] at hmem

/-! ## A header that begins like a status line -/

/-- A request for a file. -/
def fileGet : Exchange :=
  { plainGet with sink := true }

/-- No limit, and any kind of file. -/
def anyFile : HopOptions :=
  ⟨0, false, id⟩

/-- A transfer that ends without an error; the sink finishes. -/
def endsWell (status : ℤ) : Active.Ending :=
  ⟨.ok (), false, status, "https://example.com/".toList, .ok ()⟩

/-- The hop that asks for the file. -/
def fileHop : TransferRequest :=
  ⟨.get, "https://example.com/".toList, [], [], true⟩

/-- The exchange while the hop has the sink. -/
def fileExchange : Exchange :=
  { fileGet with sink := false }

/-- The transfer of the hop, with a status, the pieces that came last and their number. -/
def fileTransfer (status : ℤ) (preview : String) : Active :=
  ⟨fileHop, status, [], [], preview.length, preview.toList, false, []⟩

/-- A run of this request. -/
abbrev FileRun (allowed : ExchangeState → ExchangeEvent → Prop) : ℕ → ExchangeState → Prop :=
  ExchangeRun oneUrl anyFile fileGet allowed

section FileRuns

variable {allowed : ExchangeState → ExchangeEvent → Prop} {moves : ℕ} {state : ExchangeState}
  {status : ℤ} {responses hops : ℕ} {log : List LogEntry}

/-- A hop is submitted, queued, taken and started. -/
theorem FileRun.started {receiving : Bool}
    (hmoves : ∀ state, (∀ exchange, state.place ≠ .dispatching exchange) → allowed state .moves)
    (h : FileRun allowed moves ⟨.submitting fileExchange fileHop, [], log, hops, responses, status,
      receiving⟩) :
    FileRun allowed (moves + 3) ⟨.active fileExchange (.new fileHop), [], log, hops, responses, 0,
      false⟩ := by
  have hqueued := h.step (hmoves _ nofun) (.enqueue rfl)
  have hposted := hqueued.step (hmoves _ nofun) (.take rfl)
  exact hposted.step (hmoves _ nofun) (.start rfl)

/-- The request is dispatched. -/
theorem fileRun_submitting (hmoves : allowed (.new fileGet) .moves) :
    FileRun allowed 1 ⟨.submitting fileExchange fileHop, [], [], 1, 0, 0, false⟩ := by
  have hdispatch : dispatch oneUrl running ⟨[], []⟩ fileGet =
      .ok ⟨fileExchange, ⟨[], []⟩, [.submit fileHop]⟩ := rfl
  have hstep : ExchangeStep oneUrl anyFile (.new fileGet) .moves _ :=
    .dispatch running ⟨[], []⟩ rfl hdispatch
  exact ExchangeRun.send.step hmoves hstep

/-- A response begins. -/
theorem FileRun.response {before : ℤ} {data : Text}
    (hallowed : ∀ state, allowed state (.statusLine data status))
    (hbegins : Active.beginsResponse data)
    (hline : Active.lineStatus (Active.trimLine data) = status)
    (h : FileRun allowed moves ⟨.active fileExchange (.new fileHop), [], log, hops, responses,
      before, false⟩) :
    FileRun allowed moves ⟨.active fileExchange (fileTransfer status ""), [], log, hops,
      responses + 1, status, false⟩ := by
  have hstep := h.step (hallowed _) (.statusLine data status rfl rfl hbegins)
  rwa [ExchangeState.responseBegun, Active.headerCallback_of_begins hbegins, hline] at hstep

/-- A piece arrives, and its response is read as a success. -/
theorem FileRun.piece (data : String)
    (hallowed : ∀ state, allowed state (.piece data.toList))
    (hshort : data.length < Active.bodyLogLimit)
    (h : FileRun allowed moves ⟨.active fileExchange (fileTransfer 200 ""), [], log, hops,
      responses, status, false⟩) :
    FileRun allowed moves
      ⟨.active fileExchange (fileTransfer 200 data), [],
        log ++ [.write responses status data.toList], hops, responses, status,
        true⟩ := by
  have hstep := h.step (hallowed _) (.piece data.toList (.ok ()) rfl)
  have htransfer : (fileTransfer 200 "").writeCallback anyFile data.toList (.ok ()) =
      (fileTransfer 200 data, data.length, [.write data.toList]) := by
    have hlength : data.toList.length = data.length := String.length_toList
    have htake : data.toList.take Active.bodyLogLimit = data.toList := take_of_length_le (by omega)
    simp [Active.writeCallback, Active.count, fileTransfer, Active.preservingSink, successful,
      fileHop, htake, hlength, show 0 < Active.bodyLogLimit from by decide]
  rwa [ExchangeState.pieceArrived, htransfer] at hstep

end FileRuns

/-- The file arrives, and the sink finishes once. -/
theorem exchange_ends_once_file :
    ∃ moves state, FileRun (ReadsWell oneUrl) moves state ∧ state.callbacks.length = 1 ∧
      (state.log.count (.finish true) = 1 ∧ state.log.count .abort = 0 ∨
        state.log.count .abort = 1 ∧ state.log.count (.finish true) = 0) := by
  have hline : Active.lineStatus (Active.trimLine "HTTP/1.1 200 OK".toList) = 200 := by
    decide +kernel
  have hurl : SafeUrl oneUrl fileGet.url := by
    intro parsed hparsed _ host hhost
    cases hparsed
    cases hhost
    unfold SafeHost
    decide
  have hfirst : ReadsWell oneUrl (.new fileGet) .moves := by
    intro exchange hplace
    cases hplace
    exact hurl
  have hstarted : FileRun (ReadsWell oneUrl) 4 _ :=
    (fileRun_submitting hfirst).started fun state hplace exchange h => absurd h (hplace exchange)
  have hresponse := hstarted.response (fun _ => hline) rfl hline
  have hpiece := hresponse.piece "file" (fun _ => trivial) (by decide)
  have hcookies : ReadsWell oneUrl
      ⟨.active fileExchange (fileTransfer 200 "file"), [], [.write 1 200 "file".toList], 1, 1, 200,
      true⟩
      (.finish (endsWell 200)) := by
    intro exchange active hplace
    cases hplace
    refine ⟨fun _ _ _ header hheader => absurd hheader not_mem_nil,
      fun response url _ _ hstatus hnext => ?_⟩
    have hnone : nextUrl oneUrl fileExchange response = none := by
      simp [nextUrl, redirectTarget, isRedirect, hstatus, endsWell]
    exact absurd (hnone.symm.trans hnext) (Option.some_ne_none _).symm
  have hended := hpiece.step hcookies (.finish (endsWell 200) running ⟨[], []⟩ rfl rfl rfl)
  exact ⟨_, _, hended, rfl, (exchange_ends_once hended).2.2.2.1 rfl rfl⟩

/-- The answer to the first request is a status 429 with the header `HTTP/x: 200`, which is read as
a status line: its page goes to the sink.  The request is made again, the file arrives, and the sink
finishes with the page and the file. -/
theorem header_like_status_line :
    ∃ moves state, FileRun (fun _ _ => True) moves state ∧ state.callbacks.length = 1 ∧
      state.log = [.write 1 429 "slow".toList, .write 2 200 "file".toList, .finish true] := by
  have hlimited : Active.lineStatus (Active.trimLine "HTTP/1.1 429 Too Many Requests".toList) =
      429 := by decide +kernel
  have hheader : Active.lineStatus (Active.trimLine "HTTP/x: 200".toList) = 200 := by decide +kernel
  have hline : Active.lineStatus (Active.trimLine "HTTP/1.1 200 OK".toList) = 200 := by
    decide +kernel
  have hstarted : FileRun (fun _ _ => True) 4 _ :=
    (fileRun_submitting trivial).started fun _ _ => trivial
  have hresponse := hstarted.response (fun _ => trivial) rfl hlimited
  have hbegins : Active.beginsResponse "HTTP/x: 200".toList := rfl
  have hread := hresponse.step trivial (.headerLine "HTTP/x: 200".toList rfl)
  rw [Active.headerCallback_of_begins hbegins, hheader] at hread
  have hpage : FileRun (fun _ _ => True) 4 _ :=
    FileRun.piece "slow" (fun _ => trivial) (by decide) hread
  have hagain : FileRun (fun _ _ => True) 5
      ⟨.submitting fileExchange fileHop, [], [.write 1 429 "slow".toList], 2, 1, 429, true⟩ :=
    hpage.step trivial (.finish (endsWell 429) running ⟨[], []⟩ rfl rfl rfl)
  have hsecond := (hagain.started fun _ _ => trivial).response (fun _ => trivial) rfl hline
  have hfile := hsecond.piece "file" (fun _ => trivial) (by decide)
  have hended := hfile.step trivial (.finish (endsWell 200) running ⟨[], []⟩ rfl rfl rfl)
  exact ⟨_, _, hended, rfl, rfl⟩

end Idhan.Downloader
