import Bigpipe.Client.AsyncClient
import Mathlib.Data.Nat.Find

/-!
# `Bigpipe.Proofs.AsyncClient`: the attempts of a call and their requests

The test of the loop in `CallWithRetry` is `retries + 1`, which does
not change, so the loop ends at the first 200 and nowhere else. The
request counts the data in `Content-Length` and has an empty body, and
a `Content-Length` of the client is kept beside the one of the
attempt.

The loop is a transition system whose events are the answers of the
server. After `n` answers it has sent `n` requests, and it goes on
unless the last answer is 200 (`Attempted`). So on a stream of answers
it ends where the first 200 is, and the number of retries plays no
part in it.

All requests of a message are the same, since they are built from the
same fields in the same way. What such a request carries can therefore
be said once, for the function that builds it. Names of headers are
compared without regard to case, and a name may have several values.

* `bounded_iff`: the attempts are bounded exactly when one of the
  first `retries + 1` answers is 200.
* `run_outcomes`: what the attempts have done after any number of
  answers.
* `asAsked_iff`: a request is what was asked for exactly when the data
  is empty and no header of the message is a `Content-Length`.
* `header_httpRequest`: every header of a request.
-/

set_option autoImplicit false

namespace Bigpipe.AsyncClient

open Bigpipe.Lib
open Bigpipe.Client (addInt FitsInt addInt_eq)

variable {retries : Int} {msg : RequestMessage} {s : RetryState}

/-! ### The attempts -/

/-- The state in front of the loop of `CallWithRetry`. -/
def start (retries : Int) : RetryState where
  pc := retry retries 0

/-- The first `n` answers of a server. -/
def outcomes (answers : Nat → Nat) (n : Nat) : List Outcome :=
  (List.range n).map fun k => .status (answers k)

theorem outcomes_succ (answers : Nat → Nat) (n : Nat) :
    outcomes answers (n + 1) = outcomes answers n ++ [.status (answers n)] := by
  rw [outcomes, List.range_succ, List.map_append]
  rfl

/-- The loop goes on at every test. -/
theorem retry_eq (hret : 0 ≤ retries) (hfits : FitsInt (retries + 1)) (i : Int) :
    retry retries i = .attempt i := by
  have hne : addInt retries 1 ≠ 0 := by
    rw [addInt_eq hfits]
    omega
  rw [retry, if_pos hne]

/-- An attempt. -/
theorem step_attempt {i : Int} (hi : s.pc = .attempt i) (outcome : Outcome) :
    (callWithRetry retries msg).step s outcome = some {
      pc := (attempt retries i msg outcome).next
      requests := s.requests ++ (attempt retries i msg outcome).request.toList
      notified := s.notified ++ (attempt retries i msg outcome).notified.toList } := by
  simp only [callWithRetry, hi]

/-- Only the loop takes steps. -/
theorem step_cases {outcome : Outcome} {s' : RetryState}
    (h : (callWithRetry retries msg).step s outcome = some s') : ∃ i, s.pc = .attempt i := by
  simp only [callWithRetry] at h
  split at h
  · rename_i i hi
    exact ⟨i, hi⟩
  · cases h

/-- What the attempts have done after `n` answers: each answer belongs
to one request, and the loop goes on unless the last answer is 200. No
answer before the last is. -/
structure Attempted (msg : RequestMessage) (answers : Nat → Nat) (n : Nat) (s : RetryState) :
    Prop where
  requests : s.requests = List.replicate n (httpRequest msg)
  failed : ∀ k, k + 1 < n → answers k ≠ 200
  pc : (∃ i, s.pc = .attempt i ∧ ∀ k < n, answers k ≠ 200) ∨
    (s.pc = .returned ∧ ∃ k, n = k + 1 ∧ answers k = 200)

/-- Before the first answer. -/
theorem attempted_start (hret : 0 ≤ retries) (hfits : FitsInt (retries + 1))
    (answers : Nat → Nat) : Attempted msg answers 0 (start retries) where
  requests := rfl
  failed := nofun
  pc := .inl ⟨0, retry_eq hret hfits 0, nofun⟩

/-- One more answer: another request, and the loop goes on unless the
answer is a 200. -/
theorem attempted_step (hret : 0 ≤ retries) (hfits : FitsInt (retries + 1))
    {answers : Nat → Nat} {n : Nat} {s' : RetryState} (h : Attempted msg answers n s)
    (hstep : (callWithRetry retries msg).step s (.status (answers n)) = some s') :
    Attempted msg answers (n + 1) s' := by
  obtain ⟨i, hi⟩ := step_cases hstep
  have hfailed : ∀ k < n, answers k ≠ 200 := by
    rcases h.pc with ⟨-, -, hfailed⟩ | ⟨hreturned, -⟩
    · exact hfailed
    · rw [hi] at hreturned
      cases hreturned
  rw [step_attempt hi] at hstep
  cases hstep
  refine ⟨?_, fun k hk => hfailed k (by omega), ?_⟩
  · have hrequest : (attempt retries i msg (.status (answers n))).request =
        some (httpRequest msg) := by
      rw [attempt]
      split <;> rfl
    rw [hrequest, h.requests, List.replicate_succ']
    rfl
  · by_cases hanswer : answers n = 200
    · refine .inr ⟨?_, n, rfl, hanswer⟩
      simp [attempt, hanswer]
    · refine .inl ⟨addInt i 1, ?_, fun k hk => ?_⟩
      · simp [attempt, hanswer, retry_eq hret hfits]
      · rcases Nat.lt_succ_iff_lt_or_eq.mp hk with hlt | rfl
        · exact hfailed k hlt
        · exact hanswer

/-- After any number of answers. -/
theorem run_outcomes (hret : 0 ≤ retries) (hfits : FitsInt (retries + 1)) (answers : Nat → Nat)
    {n : Nat}
    (hrun : (callWithRetry retries msg).run (start retries) (outcomes answers n) = some s) :
    Attempted msg answers n s := by
  induction n generalizing s with
  | zero =>
      cases hrun
      exact attempted_start hret hfits answers
  | succ n ih =>
      rw [outcomes_succ] at hrun
      obtain ⟨s₁, hrun₁, hstep⟩ := System.run_concat_iff.mp hrun
      exact attempted_step hret hfits (ih hrun₁) hstep

/-- A server whose first `n` answers are not 200 is asked again. There
is no `n` at which the loop gives up. -/
theorem exists_run (hret : 0 ≤ retries) (hfits : FitsInt (retries + 1)) (msg : RequestMessage)
    {answers : Nat → Nat} {n : Nat} (hfailed : ∀ k < n, answers k ≠ 200) :
    ∃ s i, (callWithRetry retries msg).run (start retries) (outcomes answers n) = some s ∧
      s.pc = .attempt i := by
  induction n with
  | zero => exact ⟨start retries, 0, rfl, retry_eq hret hfits 0⟩
  | succ n ih =>
      obtain ⟨s, i, hrun, hi⟩ := ih fun k hk => hfailed k (by omega)
      have hanswer : answers n ≠ 200 := hfailed n (Nat.lt_succ_self n)
      have hrun' := System.run_concat_iff.mpr ⟨s, hrun, step_attempt hi (.status (answers n))⟩
      rw [← outcomes_succ] at hrun'
      refine ⟨_, addInt i 1, hrun', ?_⟩
      simp [attempt, hanswer, retry_eq hret hfits]

/-- On these answers `CallWithRetry` terminates, makes at most
`retries + 1` requests and none after the first 200, and makes exactly
`retries + 1` requests when none of the first `retries + 1` answers is
200. -/
def Bounded (retries : Int) (msg : RequestMessage) (answers : Nat → Nat) : Prop :=
  ∃ n s, (callWithRetry retries msg).run (start retries) (outcomes answers n) = some s ∧
    s.pc = .returned ∧
    (s.requests.length : Int) ≤ retries + 1 ∧
    (∀ k, answers k = 200 → s.requests.length ≤ k + 1) ∧
    ((∀ k : Nat, (k : Int) ≤ retries → answers k ≠ 200) →
      (s.requests.length : Int) = retries + 1)

/-- `CallWithRetry` returns at an answer 200 only, which is the
last. -/
theorem returned_cases (hret : 0 ≤ retries) (hfits : FitsInt (retries + 1))
    {answers : Nat → Nat} {n : Nat}
    (hrun : (callWithRetry retries msg).run (start retries) (outcomes answers n) = some s)
    (hreturned : s.pc = .returned) :
    ∃ k, s.requests.length = k + 1 ∧ answers k = 200 := by
  have hattempted := run_outcomes hret hfits answers hrun
  rcases hattempted.pc with ⟨i, hi, -⟩ | ⟨-, k, hn, hanswer⟩
  · rw [hreturned] at hi
    cases hi
  · refine ⟨k, ?_, hanswer⟩
    rw [hattempted.requests, List.length_replicate, hn]

/-- The attempts are bounded exactly when one of the first `retries +
1` answers is 200. Where that is so, the loop ends at the 200, as it
should. Otherwise it sends one request too many, since its test
compares nothing with the number of the attempt. -/
theorem bounded_iff (hret : 0 ≤ retries) (hfits : FitsInt (retries + 1)) (msg : RequestMessage)
    (answers : Nat → Nat) :
    Bounded retries msg answers ↔ ∃ k : Nat, (k : Int) ≤ retries ∧ answers k = 200 := by
  constructor
  · intro ⟨n, s, hrun, hreturned, hle, _, _⟩
    obtain ⟨k, hlength, hanswer⟩ := returned_cases hret hfits hrun hreturned
    exact ⟨k, by omega, hanswer⟩
  · intro hexists
    have hok : ∃ k, answers k = 200 := by
      obtain ⟨k, -, hanswer⟩ := hexists
      exact ⟨k, hanswer⟩
    -- The loop returns at the first 200.
    have hfailed : ∀ k < Nat.find hok, answers k ≠ 200 := fun k hk => Nat.find_min hok hk
    have hanswer : answers (Nat.find hok) = 200 := Nat.find_spec hok
    obtain ⟨s, i, hrun, hi⟩ := exists_run hret hfits msg hfailed
    have hrun' := System.run_concat_iff.mpr
      ⟨s, hrun, step_attempt hi (.status (answers (Nat.find hok)))⟩
    rw [← outcomes_succ] at hrun'
    have hlength := congrArg List.length (run_outcomes hret hfits answers hrun').requests
    rw [List.length_replicate] at hlength
    obtain ⟨k, hk, hanswer'⟩ := hexists
    have hfirst : Nat.find hok ≤ k := Nat.find_min' hok hanswer'
    refine ⟨_, _, hrun', ?_, ?_, fun k hk => ?_, fun hnone => ?_⟩
    · simp [attempt, hanswer]
    · rw [hlength]
      omega
    · have hle := Nat.find_min' hok hk
      rw [hlength]
      omega
    · exact absurd hanswer' (hnone k hk)

/-- `bounded_iff` at a server that answers 500 twice and then 200. -/
theorem bounded_iff_third :
    (0 : Int) ≤ 3 ∧ FitsInt (3 + 1) ∧
      (Bounded 3 {} (fun k => if k < 2 then 500 else 200) ↔
        ∃ k : Nat, (k : Int) ≤ 3 ∧ (if k < 2 then 500 else 200) = 200) :=
  ⟨by decide, by decide, bounded_iff (by decide) (by decide) {} fun k => if k < 2 then 500 else 200⟩

/-- A server that never answers 200 is asked for ever, also with no
retries. -/
theorem not_bounded_failing : ¬ Bounded 0 {} (fun _ => 500) := by
  intro ⟨n, s, hrun, hreturned, _⟩
  obtain ⟨k, -, hanswer⟩ := returned_cases (by decide) (by decide) hrun hreturned
  exact absurd hanswer (by decide)

/-! ### The requests -/

/-- The additions of a list of headers. -/
theorem headers_foldl (heads : List (String × String)) (request : HttpRequest) :
    heads.foldl (fun request head => request.addHeader head.1 head.2) request =
      { request with headers := MultiMap.addAll headerName request.headers heads } := by
  induction heads generalizing request with
  | nil => rfl
  | cons head heads ih =>
      rw [List.foldl_cons, ih]
      rfl

/-- A `POST` to the URL of the message, with an empty body. The data
goes into the request by its length only. -/
theorem httpRequest_fields (msg : RequestMessage) :
    (httpRequest msg).method = "POST" ∧ (httpRequest msg).url = msg.url ∧
      (httpRequest msg).body = "" := by
  simp only [httpRequest, headers_foldl]
  exact ⟨rfl, rfl, rfl⟩

/-- Every header of a request: what the message has under the name,
and then what the attempt adds. -/
theorem header_httpRequest (msg : RequestMessage) (name : String) :
    (httpRequest msg).header name =
      ((httpHeaders msg).filter fun head => headerName head.1 = headerName name).map Prod.snd ++
        (if headerName "Content-Type" = headerName name then ["application/octet-stream"]
          else []) ++
        (if headerName "Content-Length" = headerName name then [toString msg.data.utf8ByteSize]
          else []) := by
  simp only [httpRequest, headers_foldl]
  simp only [HttpRequest.header, HttpRequest.addHeader, MultiMap.values_add,
    MultiMap.values_addAll]
  rfl

/-- The request carries every header of the message. -/
theorem mem_header {head : String × String} (h : head ∈ httpHeaders msg) :
    head.2 ∈ (httpRequest msg).header head.1 := by
  rw [header_httpRequest]
  refine List.mem_append_left _ (List.mem_append_left _ (List.mem_map_of_mem ?_))
  exact List.mem_filter.mpr ⟨h, decide_eq_true rfl⟩

/-- The `Content-Length` of a request has the value of the attempt
alone exactly when the message has no header of that name. -/
theorem contentLength_eq_iff :
    (httpRequest msg).header "Content-Length" = [toString msg.data.utf8ByteSize] ↔
      ∀ head ∈ httpHeaders msg, headerName head.1 ≠ headerName "Content-Length" := by
  have hne : headerName "Content-Type" ≠ headerName "Content-Length" := by decide
  rw [header_httpRequest, if_neg hne, if_pos rfl, List.append_nil]
  rw [List.append_left_eq_self, List.map_eq_nil_iff, List.filter_eq_nil_iff]
  simp only [decide_eq_true_eq]

/-- The request asks for what the message asks for: a `POST` to its
URL whose body is its data, with every header of the message, and with
the length of the body as the one value of `Content-Length`. -/
structure AsAsked (msg : RequestMessage) (request : HttpRequest) : Prop where
  method : request.method = "POST"
  url : request.url = msg.url
  body : request.body = msg.data
  headers : ∀ head ∈ httpHeaders msg, head.2 ∈ request.header head.1
  contentLength : request.header "Content-Length" = [toString request.body.utf8ByteSize]

/-- An attempt sends the request of the message or nothing. -/
theorem request_of_attempt {i : Int} {outcome : Outcome} {request : HttpRequest}
    (h : (attempt retries i msg outcome).request = some request) : request = httpRequest msg := by
  cases outcome with
  | refused => cases h
  | thrown =>
      cases h
      rfl
  | status code =>
      rw [attempt] at h
      split at h
      · cases h
        rfl
      · cases h
        rfl

/-- Every request of a run is the request of the message. So a retry
sends what the first attempt sent. -/
theorem requests_of_run {es : List Outcome}
    (hrun : (callWithRetry retries msg).run (start retries) es = some s) :
    ∀ request ∈ s.requests, request = httpRequest msg := by
  refine System.run_induct (I := fun s => ∀ request ∈ s.requests, request = httpRequest msg)
    ?_ ?_ hrun
  · intro s outcome s' _ hall hstep request hmem
    obtain ⟨i, hi⟩ := step_cases hstep
    rw [step_attempt hi] at hstep
    cases hstep
    rcases List.mem_append.mp hmem with hold | hnew
    · exact hall request hold
    · exact request_of_attempt (Option.mem_toList.mp hnew)
  · intro request hmem
    cases hmem

/-- Whatever becomes of the attempts, each request that is sent is
what was asked for exactly when the data of the message is empty and
none of its headers is a `Content-Length`.

The method, the URL and the headers of the message are right in every
request. The body is right where there is nothing to send, and the
length is right where it is the only one. -/
theorem asAsked_iff {es : List Outcome}
    (hrun : (callWithRetry retries msg).run (start retries) es = some s) {request : HttpRequest}
    (hmem : request ∈ s.requests) :
    AsAsked msg request ↔
      msg.data = "" ∧
        ∀ head ∈ httpHeaders msg, headerName head.1 ≠ headerName "Content-Length" := by
  obtain ⟨hmethod, hurl, hbody⟩ := httpRequest_fields msg
  rw [requests_of_run hrun request hmem, ← contentLength_eq_iff]
  constructor
  · intro h
    have hdata : msg.data = "" := h.body.symm.trans hbody
    have hlength := h.contentLength
    rw [hbody, ← hdata] at hlength
    exact ⟨hdata, hlength⟩
  · intro ⟨hdata, hlength⟩
    refine ⟨hmethod, hurl, hbody.trans hdata.symm, fun head => mem_header, ?_⟩
    rw [hlength, hbody, hdata]

/-- A message with one letter of data. -/
def oneLetter : RequestMessage where
  url := "http://localhost/pay"
  data := "x"

/-- `asAsked_iff` at the one attempt for a message with data. -/
theorem asAsked_iff_oneLetter :
    ∃ s, (callWithRetry 0 oneLetter).run (start 0) [.status 200] = some s ∧
      ∃ request ∈ s.requests, (AsAsked oneLetter request ↔
        oneLetter.data = "" ∧
          ∀ head ∈ httpHeaders oneLetter, headerName head.1 ≠ headerName "Content-Length") := by
  have hrun : (callWithRetry 0 oneLetter).run (start 0) [.status 200] =
      some ⟨.returned, [httpRequest oneLetter], [true]⟩ := rfl
  exact ⟨_, hrun, _, List.mem_cons_self, asAsked_iff hrun List.mem_cons_self⟩

/-- The data of the message is announced and not sent. -/
theorem not_asAsked_oneLetter :
    ∃ s, (callWithRetry 0 oneLetter).run (start 0) [.status 200] = some s ∧
      ∃ request ∈ s.requests, request.header "Content-Length" = ["1"] ∧ request.body = "" ∧
        ¬ AsAsked oneLetter request := by
  have hbody : (httpRequest oneLetter).body = "" := rfl
  refine ⟨⟨.returned, [httpRequest oneLetter], [true]⟩, rfl, httpRequest oneLetter,
    List.mem_cons_self, by decide, hbody, fun h => ?_⟩
  have hdata : ("" : String) = "x" := hbody.symm.trans h.body
  exact absurd hdata (by decide)

end Bigpipe.AsyncClient
