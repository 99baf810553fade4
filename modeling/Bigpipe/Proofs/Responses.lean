import Bigpipe.Proofs.RpcCallback

/-!
# `Bigpipe.Proofs.Responses`: the text of an HTTP response

`RpcCallback` writes each `CallResp` to the response as the text of
one JSON object, and nothing stands between two of them. Where
`ParseFromJSON` throws it writes two, one for the exception and one
for what became of the message, so the response is then no JSON text
at all, and a client has to read one value after another.

The results are about every `folly` whose value parser stops behind a
value (`Folly.Reads`), as that of `folly::parseJson` does.

* `readAll_responseBody`: one value after another, the response is
  read back.
* `readable`: as one JSON text it is read exactly when `ParseFromJSON`
  has returned.
-/

set_option autoImplicit false

namespace Bigpipe

open Bigpipe.Lib

/-- The fields of the object that `ToJSON` prints. -/
def CallResp.fields (resp : CallResp) : List (String × Dynamic) :=
  [("errno", .num (.int resp.errcode)), ("msg", .str resp.msg), ("data", resp.data)]

namespace Acceptor

variable {folly : Folly} {parseValue : List Char → Option (Dynamic × List Char)}
  {fs : FileSystem} {headers : UnorderedMap String} {body : String} {full : Bool}

/-- The text of a response is the texts of its objects. -/
theorem toList_responseBody (folly : Folly) (resp : List CallResp) :
    (responseBody folly resp).toList =
      resp.flatMap fun status => (folly.toJson (.obj status.fields)).toList := by
  induction resp using List.reverseRecOn with
  | nil => rfl
  | append_singleton resp status ih =>
      rw [responseBody, List.foldl_append, List.foldl_cons, List.foldl_nil, String.toList_append,
        ← responseBody, ih, List.flatMap_append, List.flatMap_singleton]
      rfl

/-- What `RpcCallback` writes: one `CallResp`, behind one for the
exception of `ParseFromJSON` where it throws. The last one is about
the channel, whatever came before. -/
theorem callback_resp (folly : Folly) (fs : FileSystem) (headers : UnorderedMap String)
    (body : String) (full : Bool) :
    ∃ status, (status = success ∨ status = overloaded) ∧
      ((Parses folly fs body ∧ (callback folly fs headers body full).1 = [status]) ∨
        ¬ Parses folly fs body ∧ ∃ what,
          (callback folly fs headers body full).1 = [⟨-1, what, .str ""⟩, status]) := by
  have hresp : (callback folly fs headers body full).1 =
      (receive folly fs headers body).2 ++ [if full then overloaded else success] := by
    cases full <;> rfl
  refine ⟨if full then overloaded else success, by cases full <;> simp, ?_⟩
  rcases receive_cases folly fs headers body with ⟨hparses, hnone⟩ | ⟨hthrows, what, hone⟩
  · exact .inl ⟨hparses, by rw [hresp, hnone]; rfl⟩
  · exact .inr ⟨hthrows, what, by rw [hresp, hone]; rfl⟩

/-- An object of an error number, a text and no data is flat. -/
theorem isFlat_fields {errcode : Int} (hlow : -1 ≤ errcode) (hhigh : errcode ≤ 0) (msg : String) :
    IsFlat (CallResp.fields ⟨errcode, msg, .str ""⟩) := by
  refine ⟨by simp [CallResp.fields], fun f hf => ?_⟩
  simp only [CallResp.fields, List.mem_cons, List.not_mem_nil, or_false] at hf
  rcases hf with rfl | rfl | rfl
  · exact .int (by omega) (by omega)
  · exact .str msg
  · exact .str ""

/-- Every `CallResp` of a response is printed as a flat object: a
number and two strings. -/
theorem isFlat_of_callback {status : CallResp}
    (h : status ∈ (callback folly fs headers body full).1) : IsFlat status.fields := by
  obtain ⟨last, hlast, hwritten⟩ := callback_resp folly fs headers body full
  have hflat : IsFlat last.fields := by
    rcases hlast with rfl | rfl
    · exact isFlat_fields (by decide) (by decide) _
    · exact isFlat_fields (by decide) (by decide) _
  rcases hwritten with ⟨-, heq⟩ | ⟨-, what, heq⟩
  · rw [heq, List.mem_singleton] at h
    exact h ▸ hflat
  · rw [heq, List.mem_cons, List.mem_singleton] at h
    rcases h with rfl | rfl
    · exact isFlat_fields (by decide) (by decide) what
    · exact hflat

/-- Reading one value after another gives the objects of the
`CallResp`s. -/
theorem readAll_responseBody (hfolly : folly.Reads parseValue) {resp : List CallResp}
    (hflat : ∀ status ∈ resp, IsFlat status.fields) :
    ∃ values, Json.readAll parseValue (responseBody folly resp).toList = some values ∧
      List.Forall₂ (fun status d => IsReadAs (CallResp.fields status) d) resp values := by
  rw [toList_responseBody]
  refine Json.readAll_flatMap (fun status hstatus => ?_) fun status hstatus rest => ?_
  · obtain ⟨cs, hcs⟩ := hfolly.toJson_brace _ (hflat status hstatus)
    rw [hcs]
    exact List.cons_ne_nil _ _
  · exact hfolly.parseValue_toJson _ (hflat status hstatus) rest

/-- The text of one `CallResp` is a JSON text. -/
theorem parseJson_one (hfolly : folly.Reads parseValue) {status : CallResp}
    (hflat : IsFlat status.fields) :
    ∃ d, folly.parseJson (responseBody folly [status]) = .ok d ∧ IsReadAs status.fields d := by
  obtain ⟨d, hread, hd⟩ := hfolly.parseValue_toJson _ hflat []
  refine ⟨d, hfolly.parseJson_end _ d ?_, hd⟩
  rwa [toList_responseBody, List.flatMap_singleton, ← List.append_nil (String.toList _)]

/-- The texts of two `CallResp`s are not one JSON text: the brace of
the second is left behind the first. A parser that reads one value and
asks for the end of the text finds more text. -/
theorem parseJson_two (hfolly : folly.Reads parseValue) {first last : CallResp}
    (hfirst : IsFlat first.fields) (hlast : IsFlat last.fields) :
    ∃ what, folly.parseJson (responseBody folly [first, last]) = .error what := by
  obtain ⟨cs, hcs⟩ := hfolly.toJson_brace _ hlast
  obtain ⟨d, hread, -⟩ := hfolly.parseValue_toJson _ hfirst ('\x7b' :: cs)
  refine hfolly.parseJson_left _ d '\x7b' cs ?_ (by decide) (by decide)
  rw [toList_responseBody, List.flatMap_cons, List.flatMap_singleton, hcs]
  exact hread

/-- For every request, either answer of `full()` and every `folly`
whose value parser stops behind a value: a client that reads the
values of the response one after another gets the `CallResp`s that
`RpcCallback` wrote, in order.

A client that reads it as one JSON text gets the `CallResp` where it
is the only one, which it is exactly when `ParseFromJSON` has
returned. -/
theorem readable (hfolly : folly.Reads parseValue) (fs : FileSystem)
    (headers : UnorderedMap String) (body : String) (full : Bool) :
    let resp := (callback folly fs headers body full).1
    let text := responseBody folly resp
    (∃ values, Json.readAll parseValue text.toList = some values ∧
      List.Forall₂ (fun status d => IsReadAs (CallResp.fields status) d) resp values) ∧
    (∀ d, folly.parseJson text = .ok d →
      ∃ status, resp = [status] ∧ IsReadAs status.fields d) ∧
    ((∃ d, folly.parseJson text = .ok d) ↔ Parses folly fs body) := by
  intro resp text
  have hflat : ∀ status ∈ resp, IsFlat status.fields := fun _ => isFlat_of_callback
  refine ⟨readAll_responseBody hfolly hflat, ?_⟩
  obtain ⟨last, -, ⟨hparses, heq⟩ | ⟨hthrows, what, heq⟩⟩ :=
    callback_resp folly fs headers body full
  -- One response: the text is one JSON value.
  · obtain ⟨d, hd, hread⟩ := parseJson_one hfolly (hflat last (by simp [resp, heq]))
    have hone : folly.parseJson text = .ok d := by
      show folly.parseJson (responseBody folly (callback folly fs headers body full).1) = _
      rw [heq, hd]
    refine ⟨fun d' hd' => ⟨last, heq, ?_⟩, iff_of_true ⟨d, hone⟩ hparses⟩
    cases hone.symm.trans hd'
    exact hread
  -- Two responses: the text is two values in a row, which the parser does not
  -- accept.
  · obtain ⟨error, herror⟩ := parseJson_two hfolly
      (hflat ⟨-1, what, .str ""⟩ (by simp [resp, heq])) (hflat last (by simp [resp, heq]))
    have hnone : folly.parseJson text = .error error := by
      show folly.parseJson (responseBody folly (callback folly fs headers body full).1) = _
      rw [heq, herror]
    refine ⟨fun d hd => ?_, iff_of_false (fun ⟨d, hd⟩ => ?_) hthrows⟩
    · cases hnone.symm.trans hd
    · cases hnone.symm.trans hd

/-- `readable` for a body that names no file, while the channel is
full: two `CallResp`s. -/
theorem readable_noFile :
    let resp := (callback compactFolly (fun _ => none) ∅ "request.json" true).1
    let text := responseBody compactFolly resp
    (∃ values, Json.readAll (Json.read compactNumerals) text.toList = some values ∧
      List.Forall₂ (fun status d => IsReadAs (CallResp.fields status) d) resp values) ∧
    (∀ d, compactFolly.parseJson text = .ok d →
      ∃ status, resp = [status] ∧ IsReadAs status.fields d) ∧
    ((∃ d, compactFolly.parseJson text = .ok d) ↔
      Parses compactFolly (fun _ => none) "request.json") :=
  readable compactFolly_reads _ _ _ _

end Acceptor

end Bigpipe
