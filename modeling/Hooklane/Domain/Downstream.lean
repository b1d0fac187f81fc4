import Hooklane.Domain.Events

/-!
# How the two backends read the downstream

The outcome of the HTTP request and what each backend's sink makes of it.  The
two classifications were written separately; they agree on every outcome but a
status code below 100, which one takes for a success and the other for a
client error.
-/

namespace Hooklane

/-- How the request to the downstream ends. -/
inductive HttpOutcome where
  | response (statusCode : ℤ)
  | timeout
  | connectError
  | requestError
deriving DecidableEq, Repr

/-- `MockSinkClient.deliver`: a response that no test matches is accepted. -/
def MockSinkClient.deliver : HttpOutcome → SinkReply
  | .timeout => .failed .timeout
  | .connectError => .failed .connection
  | .requestError => .failed .connection
  | .response statusCode =>
      if 200 ≤ statusCode ∧ statusCode < 300 then .success
      else if 100 ≤ statusCode ∧ statusCode < 200 then .failed .http1xx
      else if 300 ≤ statusCode ∧ statusCode < 400 then .failed .http3xx
      else if statusCode = 429 then .failed .http429
      else if 500 ≤ statusCode then .failed .http5xx
      else if 400 ≤ statusCode then .failed .http4xx
      else .success

namespace Cloudflare

/-- `classify_http_status`: a code that no test matches is a client error. -/
def classifyHttpStatus (statusCode : ℤ) : Option DeliveryErrorClass :=
  if 200 ≤ statusCode ∧ statusCode < 300 then none
  else if 100 ≤ statusCode ∧ statusCode < 200 then some .http1xx
  else if 300 ≤ statusCode ∧ statusCode < 400 then some .http3xx
  else if statusCode = 429 then some .http429
  else if 500 ≤ statusCode then some .http5xx
  else some .http4xx

/-- `FixedMockSink.deliver`: every exception but a timeout is a connection
failure. -/
def FixedMockSink.deliver : HttpOutcome → SinkReply
  | .timeout => .failed .timeout
  | .connectError | .requestError => .failed .connection
  | .response statusCode =>
      match classifyHttpStatus statusCode with
      | some errorClass => .failed errorClass
      | none => .success

end Cloudflare

/-- The two sinks tell the same of every outcome, except of a status code below
100. -/
theorem sinks_agree_iff (outcome : HttpOutcome) :
    MockSinkClient.deliver outcome = Cloudflare.FixedMockSink.deliver outcome ↔
      ∀ statusCode, outcome = .response statusCode → 100 ≤ statusCode := by
  cases outcome with
  | response statusCode =>
      have hcode : (∀ code, HttpOutcome.response statusCode = .response code →
          100 ≤ code) ↔ 100 ≤ statusCode := by
        simp
      rw [hcode, MockSinkClient.deliver, Cloudflare.FixedMockSink.deliver,
        Cloudflare.classifyHttpStatus]
      split_ifs <;> simp <;> omega
  | timeout => simp [MockSinkClient.deliver, Cloudflare.FixedMockSink.deliver]
  | connectError =>
      simp [MockSinkClient.deliver, Cloudflare.FixedMockSink.deliver]
  | requestError =>
      simp [MockSinkClient.deliver, Cloudflare.FixedMockSink.deliver]

end Hooklane
