import Ascendance.Core.Transition
import Mathlib.Data.List.Infix

/-!
# Requests that refresh the session

The response interceptor sends a request again when it was answered with 401, once, after the
session was refreshed; the requests that fail meanwhile wait for the same refresh. The answers of
the server are macrotasks: one arrives when all promises that the ones before have settled are
through. Each request is a call, also the one that refreshes.
-/

namespace Ascendance.AuthRefresh

open Ascendance.Core

/-- The requests that are never retried after a refresh. -/
def AUTH_BYPASS_ENDPOINTS : List String :=
  ["/api/users/login", "/api/users/register", "/api/users/refresh", "/api/users/logout"]

/-- Where a session is refreshed. -/
def refreshEndpoint : String := "/api/users/refresh"

/-- The headers that follow a request through the system. -/
structure Headers where
  clientRequestId : ℕ
  clientRequestAttempt : ℕ
  axiosRetry : Bool
  previousClientRequestId : Option ℕ
  causedByClientRequestId : Option ℕ
  deriving DecidableEq, Repr

/-- What the interceptors read and write of a request's configuration. -/
structure RetryableRequestConfig where
  url : String
  retry : Bool
  clientRequestId : Option ℕ
  clientRequestAttempt : Option ℕ
  causedByClientRequestId : Option ℕ
  headers : Option Headers
  deriving DecidableEq, Repr

/-- A request as a caller makes it. -/
def RetryableRequestConfig.of (url : String) (causedBy : Option ℕ) : RetryableRequestConfig where
  url := url
  retry := false
  clientRequestId := none
  clientRequestAttempt := none
  causedByClientRequestId := causedBy
  headers := none

/-- `createUuid` gives the identifier of a request that has none yet. -/
def resolveClientRequestId (uuid : ℕ) (config : RetryableRequestConfig) : ℕ :=
  (config.clientRequestId <|> config.headers.map Headers.clientRequestId).getD uuid

/-- The number of the attempt, from the configuration or its headers. -/
def resolveClientRequestAttempt (config : RetryableRequestConfig) : ℕ :=
  match config.clientRequestAttempt, config.headers with
  | some attempt, _ => max 1 attempt
  | none, some headers => if 0 < headers.clientRequestAttempt then headers.clientRequestAttempt else
      1
  | none, none => 1

/-- The request interceptor; `previous` is the identifier of the request sent before. -/
def interceptRequest (uuid : ℕ) (previous : Option ℕ) (config : RetryableRequestConfig) :
    RetryableRequestConfig × Headers :=
  let clientRequestId := resolveClientRequestId uuid config
  let requestAttempt := resolveClientRequestAttempt config
  let headers : Headers :=
    { clientRequestId := clientRequestId
      clientRequestAttempt := requestAttempt
      axiosRetry := config.retry || decide (1 < requestAttempt)
      previousClientRequestId := (config.headers.bind Headers.previousClientRequestId) <|>
        previous.filter (· ≠ clientRequestId)
      causedByClientRequestId := config.causedByClientRequestId }
  ({ config with
      clientRequestId := some clientRequestId
      clientRequestAttempt := some requestAttempt
      headers := some headers }, headers)

/-- `axios` resolves answers of these statuses; `none` is a request without an answer. -/
def isSuccess (status : Option ℕ) : Bool := status.any fun s => 200 ≤ s && s < 300

/-- A refresh follows a 401 answer to a request that was not retried and may be. -/
def shouldAttemptAuthRefresh (status : Option ℕ) (request : RetryableRequestConfig)
    (bypassRefresh : Bool) : Bool := status == some 401 && !request.retry && !bypassRefresh

/-- The endpoints whose failures refresh nothing. -/
def bypasses (url : String) : Bool :=
  AUTH_BYPASS_ENDPOINTS.any fun endpoint => decide (endpoint.toList <:+: url.toList)

/-- Whether a failure refreshes nothing, and the mark of a deleted account that it leaves. -/
def shouldBypassRefresh (accountDeleted : Bool) (url : String) : Bool × Bool :=
  if url = "" then (false, accountDeleted)
  else if accountDeleted then (true, false)
  else (bypasses url, false)

/-- Who makes a request. -/
inductive Sender where
  | caller
  | coordinator
  deriving DecidableEq, Repr

/-- A call of the client until its promise is settled. -/
inductive Call where
  | sent (sender : Sender) (config : RetryableRequestConfig)
  | waiting (sender : Sender) (config : RetryableRequestConfig) (status : Option ℕ) (flight : ℕ)
  | resolved
  | rejected (status : Option ℕ)
  deriving DecidableEq, Repr

/-- A promise of `AuthRefreshCoordinator`. -/
inductive Flight where
  /-- `refresh` has not run. -/
  | queued (cause : Option ℕ)
  | posting (call : ℕ)
  | settled (ok : Bool)
  deriving DecidableEq, Repr

/-- What happens on the way to the server and back, and to the callers. -/
inductive Entry where
  | sent (call : ℕ) (sender : Sender) (url : String) (headers : Headers)
  | answered (call : ℕ) (url : String) (status : Option ℕ)
  | resolved (call : ℕ)
  | rejected (call : ℕ) (status : Option ℕ)
  | accountDeleted
  deriving DecidableEq, Repr

/-- The state of the client: the module variables, the refresh flights, the calls of the application
and what has happened. -/
structure Client where
  accountDeleted : Bool
  previousClientRequestId : Option ℕ
  refreshPromise : Option ℕ
  flights : List Flight
  calls : List Call
  history : List Entry
  deriving DecidableEq, Repr

namespace Client

/-- The client when the page is loaded. -/
def initial : Client where
  accountDeleted := false
  previousClientRequestId := none
  refreshPromise := none
  flights := []
  calls := []
  history := []

/-- Write an entry into the history. -/
def log (s : Client) (e : Entry) : Client := { s with history := s.history ++ [e] }

/-- Put a call into another state. -/
def setCall (s : Client) (i : ℕ) (c : Call) : Client := { s with calls := s.calls.set i c }

/-- Send the request of a call, which is known or the next one. -/
def send (s : Client) (uuid i : ℕ) (sender : Sender) (config : RetryableRequestConfig) : Client :=
  let (config, headers) := interceptRequest uuid s.previousClientRequestId config
  let calls := if i < s.calls.length then s.calls.set i (.sent sender config)
    else s.calls ++ [.sent sender config]
  { s with
    previousClientRequestId := config.clientRequestId
    calls := calls
    history := s.history ++ [.sent i sender config.url headers] }

/-- A new request is appended to the calls. -/
theorem send_calls_new (s : Client) (uuid : ℕ) (sender : Sender) (config : RetryableRequestConfig) :
    (s.send uuid s.calls.length sender config).calls = s.calls ++
      [.sent sender (interceptRequest uuid s.previousClientRequestId config).1] := by
  unfold send
  dsimp only
  rw [if_neg (lt_irrefl _)]

/-- A new request leaves the other calls alone. -/
theorem getElem?_send_new {s : Client} {uuid : ℕ} {sender : Sender}
    {config : RetryableRequestConfig} {j : ℕ} (hj : j ≠ s.calls.length) :
    (s.send uuid s.calls.length sender config).calls[j]? = s.calls[j]? := by
  rw [send_calls_new]
  rcases Nat.lt_or_gt_of_ne hj with hlt | hgt
  · exact List.getElem?_append_left hlt
  · rw [List.getElem?_eq_none_iff.mpr hgt.le, List.getElem?_eq_none_iff.mpr]
    rw [List.length_append, List.length_singleton]
    omega

/-- The last call after a new request is that request. -/
theorem getElem?_send_last {s : Client} {uuid : ℕ} {sender : Sender}
    {config : RetryableRequestConfig} :
    (s.send uuid s.calls.length sender config).calls[s.calls.length]? =
      some (.sent sender (interceptRequest uuid s.previousClientRequestId config).1) := by
  rw [send_calls_new]
  exact List.getElem?_concat_length

/-- Sending a known call again replaces it. -/
theorem send_calls_known {s : Client} {uuid i : ℕ} {sender : Sender}
    {config : RetryableRequestConfig} (hi : i < s.calls.length) :
    (s.send uuid i sender config).calls =
      s.calls.set i (.sent sender (interceptRequest uuid s.previousClientRequestId config).1) := by
  unfold send
  dsimp only
  rw [if_pos hi]

/-- `waitForRefresh` up to its `await`; the promise that the caller waits for. -/
def waitForRefresh (s : Client) (cause : Option ℕ) : Client × ℕ :=
  match s.refreshPromise with
  | some flight => (s, flight)
  | none =>
    let flight := s.flights.length
    ({ s with refreshPromise := some flight, flights := s.flights ++ [.queued cause] }, flight)

/-- The caller is given the error. -/
def reject (s : Client) (i : ℕ) (status : Option ℕ) : Client :=
  (s.setCall i (.rejected status)).log (.rejected i status)

/-- The response interceptor on an answer to a call. -/
def receive (s : Client) (uuid i : ℕ) (sender : Sender) (config : RetryableRequestConfig)
    (status : Option ℕ) : Client :=
  let s := s.log (.answered i config.url status)
  if isSuccess status then (s.setCall i .resolved).log (.resolved i)
  else
    let (bypassRefresh, accountDeleted) := shouldBypassRefresh s.accountDeleted config.url
    let s := { s with accountDeleted := accountDeleted }
    if shouldAttemptAuthRefresh status config bypassRefresh then
      let config := { config with
        retry := true
        clientRequestId := some (resolveClientRequestId uuid config)
        clientRequestAttempt := some (resolveClientRequestAttempt config + 1) }
      let (s, flight) := s.waitForRefresh config.clientRequestId
      s.setCall i (.waiting sender config status flight)
    else s.reject i status

/-- Whether a call is settled, and how. -/
def outcome (s : Client) (i : ℕ) : Option Bool :=
  match s.calls[i]? with
  | some .resolved => some true
  | some (.rejected _) => some false
  | _ => none

/-- Whether a promise has something to run. -/
def Flight.ready (s : Client) : Flight → Bool
  | .queued _ => true
  | .posting call => (s.outcome call).isSome
  | .settled _ => false

/-- Whether a call goes on because its promise is settled. -/
def Call.ready (s : Client) : Call → Bool
  | .waiting _ _ _ flight => match s.flights[flight]? with
    | some (.settled _) => true
    | _ => false
  | _ => false

/-- Nothing is left to run before the next macrotask. -/
def Drained (s : Client) : Prop :=
  (∀ flight ∈ s.flights, Flight.ready s flight = false) ∧
    ∀ call ∈ s.calls, Call.ready s call = false

instance (s : Client) : Decidable s.Drained := inferInstanceAs (Decidable (_ ∧ _))

end Client

/-- What can happen to the client: the application starts a request or deletes the account, an
answer arrives, a flight goes through its stages, a waiting call goes on. -/
inductive Event where
  | start (url : String) (uuid : ℕ)
  | deleteAccount
  | respond (call : ℕ) (status : Option ℕ) (uuid : ℕ)
  | refresh (flight : ℕ) (uuid : ℕ)
  | clear (flight : ℕ)
  | resume (call : ℕ) (uuid : ℕ)
  deriving DecidableEq, Repr

namespace Client

/-- The effect of an event, where it can happen. -/
def step (s : Client) : Event → Option Client
  | .start url uuid => some (s.send uuid s.calls.length .caller (.of url none))
  | .deleteAccount => some ({ s with accountDeleted := true }.log .accountDeleted)
  | .respond i status uuid =>
    match s.calls[i]? with
    | some (.sent sender config) =>
      if s.Drained then some (s.receive uuid i sender config status) else none
    | _ => none
  | .refresh f uuid =>
    match s.flights[f]? with
    | some (.queued cause) =>
      let call := s.calls.length
      let s := s.send uuid call .coordinator (.of refreshEndpoint cause)
      some { s with flights := s.flights.set f (.posting call) }
    | _ => none
  | .clear f =>
    match s.flights[f]? with
    | some (.posting call) =>
      (s.outcome call).map fun ok =>
        { s with refreshPromise := none, flights := s.flights.set f (.settled ok) }
    | _ => none
  | .resume i uuid =>
    match s.calls[i]? with
    | some (.waiting sender config status f) =>
      match s.flights[f]? with
      | some (.settled ok) =>
        some (if ok then s.send uuid i sender config else s.reject i status)
      | _ => none
    | _ => none

/-- What an event does, case by case. -/
inductive Steps (s : Client) : Event → Client → Prop
  | start (url : String) (uuid : ℕ) :
      Steps s (.start url uuid) (s.send uuid s.calls.length .caller (.of url none))
  | deleteAccount : Steps s .deleteAccount ({ s with accountDeleted := true }.log .accountDeleted)
  | respond {i : ℕ} {sender : Sender} {config : RetryableRequestConfig} (status : Option ℕ)
      (uuid : ℕ) (hi : s.calls[i]? = some (.sent sender config)) (hdrained : s.Drained) :
      Steps s (.respond i status uuid) (s.receive uuid i sender config status)
  | refresh {f : ℕ} {cause : Option ℕ} (uuid : ℕ) (hf : s.flights[f]? = some (.queued cause)) :
      Steps s (.refresh f uuid)
        { s.send uuid s.calls.length .coordinator (.of refreshEndpoint cause) with
          flights := s.flights.set f (.posting s.calls.length) }
  | clear {f k : ℕ} {ok : Bool} (hf : s.flights[f]? = some (.posting k))
      (hk : s.outcome k = some ok) :
      Steps s (.clear f)
        { s with refreshPromise := none, flights := s.flights.set f (.settled ok) }
  | rejectWaiting {i f : ℕ} {sender : Sender} {config : RetryableRequestConfig}
      {status : Option ℕ} (uuid : ℕ) (hi : s.calls[i]? = some (.waiting sender config status f))
      (hf : s.flights[f]? = some (.settled false)) : Steps s (.resume i uuid) (s.reject i status)
  | sendAgain {i f : ℕ} {sender : Sender} {config : RetryableRequestConfig}
      {status : Option ℕ} (uuid : ℕ) (hi : s.calls[i]? = some (.waiting sender config status f))
      (hf : s.flights[f]? = some (.settled true)) :
      Steps s (.resume i uuid) (s.send uuid i sender config)

/-- An executed event is one of the listed steps. -/
theorem steps_of_step {s s' : Client} {e : Event} (h : s.step e = some s') : Steps s e s' := by
  cases e with
  | start url uuid =>
    obtain rfl := Option.some.inj h
    exact .start url uuid
  | deleteAccount =>
    obtain rfl := Option.some.inj h
    exact .deleteAccount
  | respond i status uuid =>
    simp only [step] at h
    split at h
    · next hi =>
      split at h
      · next hdrained =>
        obtain rfl := Option.some.inj h
        exact .respond status uuid hi hdrained
      · cases h
    · cases h
  | refresh f uuid =>
    simp only [step] at h
    split at h
    · next hf =>
      obtain rfl := Option.some.inj h
      exact .refresh uuid hf
    · cases h
  | clear f =>
    simp only [step] at h
    split at h
    · next hf =>
      obtain ⟨ok, hok, rfl⟩ := Option.map_eq_some_iff.mp h
      exact .clear hf hok
    · cases h
  | resume i uuid =>
    simp only [step] at h
    split at h
    · next hi =>
      split at h
      · next ok hf =>
        obtain rfl := Option.some.inj h
        cases ok with
        | false => exact .rejectWaiting uuid hi hf
        | true => exact .sendAgain uuid hi hf
      · cases h
    · cases h

end Client

end Ascendance.AuthRefresh
