import Bigpipe.Folly.Compact
import Bigpipe.Proto.Messages

/-!
# `Bigpipe.Proofs.RequestMessage`: the wire format of `RequestMessage`

`ToJSON` prints the headers, the URL, the data and the topic of a
message. `FromJSON` reads the first three, and from the file that its
argument names.

There are two mistakes in one round trip, and they are independent.
The topic is printed and not read, so it is lost in any case. And the
text is opened as a file: what is read is the content of the file that
has the text as its name, which is usually not there. `Carries` says
what a text has to be like for `FromJSON` to read a message from it,
so the first mistake is a condition on the message, and the second one
on the file.

The headers need some care. The printed object has them in the order
of a hash table, the parser may give them in another, and `FromJSON`
inserts them one by one into what is there. So they are compared by
lookup.

* `fromJSON_iff`: when `FromJSON` returns true, and with which
  message.
* `decode`: the message that a text encodes, for what `FromJSON` reads
  from any file.
* `carries_toJSON`: the text that `ToJSON` prints carries the message,
  up to its topic.
* `delivers_iff`: a consumer gets the message of a producer exactly
  when it has no topic and a file with the printed text as its name
  holds a text that carries it. `noSuchFile`: a message that is not
  delivered.
* `fromJSON_toJSON_agrees_iff`: from a file that holds the printed
  text, `FromJSON` reads the message back exactly when it has no
  topic.
* `answersPayload_iff`: when `FromJSON` takes the message from the
  payload, or refuses it. `throwsOnPayload`: a payload that is no
  JSON.
-/

set_option autoImplicit false

namespace Bigpipe

open Bigpipe.Lib Bigpipe.Lib.Throws

namespace RequestMessage

/-- The messages agree on what both sides use: the URL, the data, the
topic and the headers. The key of the partition is left out, as
`ToJSON` does not print it. -/
structure Agrees (m m' : RequestMessage) : Prop where
  url : m.url = m'.url
  data : m.data = m'.data
  topic : m.topic = m'.topic
  headers : ∀ key, m.headers.lookup key = m'.headers.lookup key

/-- `FromJSON` on a fresh message reads what `ToJSON` printed: it
returns true, and the message has the URL, the data, the topic and the
headers of the printed one. -/
def Delivers (folly : Folly) (fs : FileSystem) (m : RequestMessage) : Prop :=
  ∃ m', fromJSON folly fs (m.toJSON folly) {} = (.ok true, m') ∧ m'.Agrees m

/-- The text is that of an object with the URL and the data of the
message, and an object of its headers. Of several headers under one
key the one that the parser finds counts. -/
def Carries (folly : Folly) (text : String) (m : RequestMessage) : Prop :=
  ∃ dict items, folly.parseJson text = .ok dict ∧
    folly.stringAt dict "url" = .ok m.url ∧ folly.stringAt dict "data" = .ok m.data ∧
    folly.index dict "headers" = .ok (.obj items) ∧
    (∀ f ∈ items, ∃ value, folly.asString f.2 = .ok value) ∧
    ∀ key value, m.headers.lookup key = some value ↔
      ∃ d, field key items = some d ∧ folly.asString d = .ok value

/-! ### The loop over the headers -/

variable {folly : Folly}

/-- What a round of the loop does to the headers, if it does not
throw. -/
def insertHeader (folly : Folly) (headers : UnorderedMap String) (f : String × Dynamic) :
    UnorderedMap String :=
  match folly.asString f.2 with
  | .ok value => headers.insert f.1 value
  | .error _ => headers

theorem readHeader_ok {f : String × Dynamic} (h : ∃ value, folly.asString f.2 = .ok value)
    (m : RequestMessage) :
    readHeader folly f m =
      (.ok (), { m with headers := insertHeader folly m.headers f }) := by
  obtain ⟨value, hvalue⟩ := h
  rw [insertHeader, hvalue]
  exact lift_bind_ok hvalue

theorem readHeader_cases (f : String × Dynamic) (m m' : RequestMessage)
    (h : readHeader folly f m = (.ok (), m')) : ∃ value, folly.asString f.2 = .ok value := by
  obtain ⟨value, hvalue, -⟩ := lift_bind_iff.mp h
  exact ⟨value, hvalue⟩

/-- The headers after the loop: those of the object, and the old ones
under other keys. The induction is on the items from the back, as the
last insertion under a key is the one that is seen. -/
theorem lookup_foldl_insertHeader (items : List (String × Dynamic))
    (h : ∀ f ∈ items, ∃ value, folly.asString f.2 = .ok value)
    (headers : UnorderedMap String) (key value : String) :
    (items.foldl (insertHeader folly) headers).lookup key = some value ↔
      (∃ d, field key items = some d ∧ folly.asString d = .ok value) ∨
        field key items = none ∧ headers.lookup key = some value := by
  induction items using List.reverseRecOn with
  | nil => simp [field_nil]
  | append_singleton items f ih =>
      have hitems := ih fun g hg => h g (List.mem_append_left _ hg)
      obtain ⟨text, htext⟩ := h f (List.mem_append_right _ List.mem_cons_self)
      -- The last field of the list is the last insertion, on both sides.
      rw [List.foldl_append, List.foldl_cons, List.foldl_nil, field_concat, insertHeader, htext]
      by_cases hkey : key = f.1
      · subst hkey
        simp [htext]
      · rw [if_neg hkey, AList.lookup_insert_ne hkey]
        exact hitems

/-- From no headers, the loop reads those of the object. -/
theorem lookup_foldl_empty {items : List (String × Dynamic)}
    (h : ∀ f ∈ items, ∃ value, folly.asString f.2 = .ok value) (key value : String) :
    (items.foldl (insertHeader folly) ∅).lookup key = some value ↔
      ∃ d, field key items = some d ∧ folly.asString d = .ok value := by
  rw [lookup_foldl_insertHeader items h]
  simp

/-- The loop over items that are all strings. -/
theorem forEach_readHeader {items : List (String × Dynamic)}
    (h : ∀ f ∈ items, ∃ value, folly.asString f.2 = .ok value) (m : RequestMessage) :
    forEach (readHeader folly) items m =
      (.ok (), { m with headers := items.foldl (insertHeader folly) m.headers }) := by
  rw [forEach_ok (g := fun m f => { m with headers := insertHeader folly m.headers f })
    fun f hf m => readHeader_ok (h f hf) m]
  congr 1
  clear h
  induction items generalizing m with
  | nil => rfl
  | cons f items ih =>
      rw [List.foldl_cons, ih]
      rfl

/-! ### `FromJSON` -/

/-- `FromJSON` returns true exactly when the file holds an object with
a string under "url", a string under "data" and an object of strings
under "headers". Then it assigns these. -/
theorem fromJSON_iff {fs : FileSystem} {json : String} {m m' : RequestMessage} :
    fromJSON folly fs json m = (.ok true, m') ↔
      ∃ dict url data items, folly.parseJson (fs.read json) = .ok dict ∧
        folly.stringAt dict "url" = .ok url ∧ folly.stringAt dict "data" = .ok data ∧
        folly.index dict "headers" = .ok (.obj items) ∧
        (∀ f ∈ items, ∃ value, folly.asString f.2 = .ok value) ∧
        m' = { m with
          url, data, headers := items.foldl (insertHeader folly) m.headers } := by
  constructor
  · intro h
    obtain ⟨dict, hdict, h⟩ := lift_bind_iff.mp h
    obtain ⟨url, hurl, h⟩ := lift_bind_iff.mp h
    rw [assign_bind] at h
    obtain ⟨data, hdata, h⟩ := lift_bind_iff.mp h
    rw [assign_bind] at h
    obtain ⟨headers, hheaders, h⟩ := lift_bind_iff.mp h
    obtain ⟨items, hitems, h⟩ := lift_bind_iff.mp h
    -- The loop returned, so every value is a string, and the loop is a fold.
    obtain ⟨u, m₁, hloop, h⟩ := ok_of_bind h
    have hobj : headers = .obj items := by
      cases headers <;> cases hitems
      rfl
    have hstrings := forEach_cases readHeader_cases hloop
    rw [forEach_readHeader hstrings] at hloop
    cases hloop
    cases h
    exact ⟨dict, url, data, items, hdict, hurl, hdata, by rw [hheaders, hobj], hstrings, rfl⟩
  · rintro ⟨dict, url, data, items, hdict, hurl, hdata, hheaders, hstrings, rfl⟩
    -- Each read returns, and the assignments follow the reads.
    refine lift_bind_iff.mpr ⟨dict, hdict, ?_⟩
    refine lift_bind_iff.mpr ⟨url, hurl, ?_⟩
    rw [assign_bind]
    refine lift_bind_iff.mpr ⟨data, hdata, ?_⟩
    rw [assign_bind]
    refine lift_bind_iff.mpr ⟨_, hheaders, ?_⟩
    refine lift_bind_iff.mpr ⟨items, rfl, ?_⟩
    exact bind_ok (forEach_readHeader hstrings _)

/-- `FromJSON` returns true or throws. -/
theorem eq_true_of_fromJSON {fs : FileSystem} {json : String} {m m' : RequestMessage} {b : Bool}
    (h : fromJSON folly fs json m = (.ok b, m')) : b = true := by
  obtain ⟨dict, -, h⟩ := lift_bind_iff.mp h
  obtain ⟨url, -, h⟩ := lift_bind_iff.mp h
  rw [assign_bind] at h
  obtain ⟨data, -, h⟩ := lift_bind_iff.mp h
  rw [assign_bind] at h
  obtain ⟨headers, -, h⟩ := lift_bind_iff.mp h
  obtain ⟨items, -, h⟩ := lift_bind_iff.mp h
  obtain ⟨u, m₁, -, h⟩ := ok_of_bind h
  cases h
  rfl

/-- The message that a text encodes: what `FromJSON` reads from a file
that holds the text. -/
def decode (folly : Folly) (text : String) : Option RequestMessage :=
  match fromJSON folly (fun _ => some text) "" {} with
  | (.ok true, msg) => some msg
  | _ => none

/-- `FromJSON` reads the message that the text of its file encodes. -/
theorem fromJSON_iff_decode {fs : FileSystem} {json : String} {msg : RequestMessage} :
    fromJSON folly fs json {} = (.ok true, msg) ↔ decode folly (fs.read json) = some msg := by
  have hread : fromJSON folly (fun _ => some (fs.read json)) "" {} = fromJSON folly fs json {} :=
    rfl
  rw [decode, hread]
  split
  · rename_i msg' heq
    rw [heq]
    simp
  · rename_i hne
    refine iff_of_false (hne msg) nofun

/-- Where it throws, the text encodes no message. -/
theorem decode_of_error {fs : FileSystem} {json error : String} {msg : RequestMessage}
    (h : fromJSON folly fs json {} = (.error error, msg)) : decode folly (fs.read json) = none := by
  refine Option.eq_none_iff_forall_ne_some.mpr fun msg' hmsg' => ?_
  cases h.symm.trans (fromJSON_iff_decode.mpr hmsg')

/-! ### `ToJSON` -/

/-- The keys of the printed headers are different. -/
theorem nodup_headerFields (m : RequestMessage) : (m.headerFields.map Prod.fst).Nodup := by
  have hkeys : m.headerFields.map Prod.fst = m.headers.keys := by
    rw [headerFields, List.map_map]
    rfl
  rw [hkeys]
  exact m.headers.nodupKeys

/-- A printed header is one of the message. -/
theorem field_headerFields (m : RequestMessage) (key value : String) :
    field key m.headerFields = some (.str value) ↔ m.headers.lookup key = some value := by
  rw [show m.headers.lookup key = some value ↔ ⟨key, value⟩ ∈ m.headers.entries from
    AList.mem_lookup_iff]
  constructor
  · intro h
    obtain ⟨header, hmem, heq⟩ := List.mem_map.mp (mem_of_field h)
    cases heq
    exact hmem
  · intro h
    exact field_of_mem m.nodup_headerFields (List.mem_map.mpr ⟨_, h, rfl⟩)

/-- Every printed header is a string. -/
theorem eq_str_of_field {m : RequestMessage} {key : String} {d : Dynamic}
    (h : field key m.headerFields = some d) : ∃ value, d = .str value := by
  obtain ⟨header, _, heq⟩ := List.mem_map.mp (mem_of_field h)
  exact ⟨header.2, (congrArg Prod.snd heq).symm⟩

/-- `ToJSON` prints an object of strings. -/
theorem ofStrings_toDynamic (m : RequestMessage) : OfStrings m.toDynamic := by
  have hheaders : OfStrings (.obj m.headerFields) := by
    refine .of_str m.nodup_headerFields fun f hf => ?_
    obtain ⟨header, _, rfl⟩ := List.mem_map.mp hf
    exact ⟨header.2, rfl⟩
  refine .obj (by simp) fun f hf => ?_
  simp only [List.mem_cons, List.not_mem_nil, or_false] at hf
  rcases hf with rfl | rfl | rfl | rfl
  · exact hheaders
  all_goals exact .str _

/-- The value of a string in a printed object, after parsing. -/
theorem stringAt_of_same {fields fields' : List (String × Dynamic)}
    (h : Same (.obj fields) (.obj fields')) {key value : String}
    (hfield : field key fields = some (.str value)) :
    folly.stringAt (.obj fields') key = .ok value := by
  obtain ⟨d, hd, hsame⟩ := h.exists_field hfield
  cases hsame.eq_str
  show (do folly.asString (← Except.ok ((field key fields').getD .null))) = _
  rw [hd]
  rfl

/-- The printed text carries the message. It is the first half of the
round trip, and it holds for every message. -/
theorem carries_toJSON (hfolly : folly.Lawful) (m : RequestMessage) :
    Carries folly (m.toJSON folly) m := by
  obtain ⟨dict, hdict, hstrings, hsame⟩ := hfolly.parseJson_toJson _ m.ofStrings_toDynamic
  obtain ⟨fields, rfl⟩ := hsame.eq_obj
  obtain ⟨d, hd, hheaders⟩ := hsame.exists_field
    (show field "headers" _ = some (.obj m.headerFields) from rfl)
  obtain ⟨items, rfl⟩ := hheaders.eq_obj
  have hitems : OfStrings (.obj items) := hstrings.of_mem (mem_of_field hd)
  -- A parsed header is the string that was printed under its key.
  have hvalue : ∀ key d, field key items = some d →
      ∃ value, d = .str value ∧ m.headers.lookup key = some value := by
    intro key d hfield
    obtain ⟨d', hd', hsame'⟩ := hheaders.symm.exists_field hfield
    obtain ⟨value, rfl⟩ := eq_str_of_field hd'
    exact ⟨value, hsame'.symm.eq_str, (field_headerFields m key value).mp hd'⟩
  refine ⟨_, items, hdict, stringAt_of_same hsame rfl, stringAt_of_same hsame rfl, ?_, ?_, ?_⟩
  · show Except.ok ((field "headers" fields).getD .null) = _
    rw [hd]
    rfl
  · intro f hf
    obtain ⟨value, hstr, _⟩ := hvalue f.1 f.2 (field_of_mem hitems.nodup hf)
    exact ⟨value, by rw [hstr]; rfl⟩
  · intro key value
    constructor
    · intro hlookup
      obtain ⟨d, hd, hsame'⟩ := hheaders.exists_field ((field_headerFields m key value).mpr hlookup)
      exact ⟨d, hd, by rw [hsame'.eq_str]; rfl⟩
    · intro ⟨d, hd, has⟩
      obtain ⟨value', rfl, hlookup⟩ := hvalue key d hd
      cases has
      exact hlookup

/-! ### What a text carries -/

/-- A text carries a message by its URL, its data and the headers that
can be looked up. -/
theorem Carries.congr {text : String} {m m' : RequestMessage} (h : Carries folly text m)
    (hurl : m'.url = m.url) (hdata : m'.data = m.data)
    (hheaders : ∀ key, m'.headers.lookup key = m.headers.lookup key) : Carries folly text m' := by
  obtain ⟨dict, items, hdict, hurl', hdata', hindex, hstrings, hlookup⟩ := h
  refine ⟨dict, items, hdict, ?_, ?_, hindex, hstrings, fun key value => ?_⟩
  · rw [hurl]
    exact hurl'
  · rw [hdata]
    exact hdata'
  · rw [hheaders key]
    exact hlookup key value

/-- Over other headers, the loop puts those of the object in front:
where the object has the key its value wins, and elsewhere the header
of before stays. -/
theorem lookup_foldl_union {items : List (String × Dynamic)}
    (hstrings : ∀ f ∈ items, ∃ value, folly.asString f.2 = .ok value)
    {sent : UnorderedMap String}
    (hsent : ∀ key value, sent.lookup key = some value ↔
      ∃ d, field key items = some d ∧ folly.asString d = .ok value)
    (headers : UnorderedMap String) (key : String) :
    (items.foldl (insertHeader folly) headers).lookup key = (sent ∪ headers).lookup key := by
  have hmissing : key ∉ sent ↔ field key items = none := by
    rw [← AList.lookup_eq_none, Option.eq_none_iff_forall_ne_some,
      Option.eq_none_iff_forall_ne_some]
    constructor
    · intro hnone d hd
      obtain ⟨value, hvalue⟩ := hstrings _ (mem_of_field hd)
      exact hnone value ((hsent key value).mpr ⟨d, hd, hvalue⟩)
    · intro hnone value hvalue
      obtain ⟨d, hd, -⟩ := (hsent key value).mp hvalue
      exact hnone d hd
  refine Option.ext fun value => ?_
  rw [AList.lookup_union_eq_some, hmissing, hsent key value]
  exact lookup_foldl_insertHeader items hstrings headers key value

/-! ### From the producer to the consumer -/

/-- `FromJSON` on a fresh message gives a message that agrees with `m`
exactly when `m` has no topic and the file holds a text that carries
`m`. What `FromJSON` leaves in the topic is the empty string of the
fresh message. -/
theorem fromJSON_agrees_iff (folly : Folly) (fs : FileSystem) (json : String)
    (m : RequestMessage) :
    (∃ m', fromJSON folly fs json {} = (.ok true, m') ∧ m'.Agrees m) ↔
      m.topic = "" ∧ Carries folly (fs.read json) m := by
  constructor
  · intro ⟨m', hread, hagrees⟩
    obtain ⟨dict, url, data, items, hdict, hurl, hdata, hheaders, hitems, rfl⟩ :=
      fromJSON_iff.mp hread
    refine ⟨hagrees.topic.symm, dict, items, hdict, ?_, ?_, hheaders, hitems, ?_⟩
    · rw [← hagrees.url]
      exact hurl
    · rw [← hagrees.data]
      exact hdata
    · intro key value
      rw [← hagrees.headers key]
      -- The fresh message has no headers that the object could leave in
      -- place.
      exact lookup_foldl_empty hitems key value
  · intro ⟨htopic, dict, items, hdict, hurl, hdata, hheaders, hitems, hsame⟩
    refine ⟨_, fromJSON_iff.mpr
      ⟨dict, m.url, m.data, items, hdict, hurl, hdata, hheaders, hitems, rfl⟩,
      rfl, rfl, htopic.symm, fun key => ?_⟩
    refine Option.ext fun value => ?_
    rw [hsame key value]
    exact lookup_foldl_empty hitems key value

/-- The consumer gets the message of the producer exactly when the
message has no topic, and the text of the file that has the printed
text as its name carries the message.

Nothing is assumed of the parser: which texts carry a message is up to
it. -/
theorem delivers_iff (folly : Folly) (fs : FileSystem) (m : RequestMessage) :
    Delivers folly fs m ↔ m.topic = "" ∧ Carries folly (fs.read (m.toJSON folly)) m := by
  rw [Delivers]
  exact fromJSON_agrees_iff folly fs (m.toJSON folly) m

/-- With a file that holds the text, whatever its name, only the topic
is lost. -/
theorem fromJSON_toJSON_agrees_iff (hfolly : folly.Lawful) (fs : FileSystem) (json : String)
    (m : RequestMessage) (hfile : fs.read json = m.toJSON folly) :
    (∃ m', fromJSON folly fs json {} = (.ok true, m') ∧ m'.Agrees m) ↔ m.topic = "" := by
  rw [fromJSON_agrees_iff, hfile]
  constructor
  · intro h
    exact h.1
  · intro h
    exact ⟨h, carries_toJSON hfolly m⟩

/-- What the caller takes the answer for: true with a message that the
payload carries, or false with the message that was there before. An
exception is neither, and nobody catches it in the loop. -/
def AnswersPayload (folly : Folly) (fs : FileSystem) (payload : String) (m : RequestMessage) :
    Prop :=
  ∃ b m', fromJSON folly fs payload m = (.ok b, m') ∧
    (b = true → Carries folly payload m') ∧ (b = false → m' = m)

/-- `FromJSON` answers for the payload exactly when the file that has
the payload as its name carries some message, and the payload carries
that message with the headers that were there before behind its own.

It never answers false. Where it cannot read a message it throws. -/
theorem answersPayload_iff (folly : Folly) (fs : FileSystem) (payload : String)
    (m : RequestMessage) :
    AnswersPayload folly fs payload m ↔
      ∃ sent, Carries folly (fs.read payload) sent ∧
        Carries folly payload { sent with headers := sent.headers ∪ m.headers } := by
  constructor
  · rintro ⟨b, m', hread, htrue, -⟩
    -- It never returns false.
    cases eq_true_of_fromJSON hread
    have hcarries : Carries folly payload m' := htrue rfl
    obtain ⟨dict, url, data, items, hdict, hurl, hdata, hheaders, hstrings, rfl⟩ :=
      fromJSON_iff.mp hread
    refine ⟨{ url, data, headers := items.foldl (insertHeader folly) ∅ },
      ⟨dict, items, hdict, hurl, hdata, hheaders, hstrings, lookup_foldl_empty hstrings⟩, ?_⟩
    refine hcarries.congr rfl rfl fun key => ?_
    exact (lookup_foldl_union hstrings (lookup_foldl_empty hstrings) m.headers key).symm
  · rintro ⟨sent, ⟨dict, items, hdict, hurl, hdata, hheaders, hstrings, hsent⟩, hcarries⟩
    refine ⟨true, _, fromJSON_iff.mpr ⟨dict, sent.url, sent.data, items, hdict, hurl, hdata,
      hheaders, hstrings, rfl⟩, fun _ => ?_, nofun⟩
    refine hcarries.congr rfl rfl fun key => ?_
    exact lookup_foldl_union hstrings hsent m.headers key

/-- A message of a client. -/
def payment : RequestMessage where
  topic := "orders"
  url := "/pay"
  data := "x"

/-- No file has the printed text as its name. -/
theorem noSuchFile :
    compactFolly.Lawful ∧ ¬ Delivers compactFolly (fun _ => none) payment := by
  refine ⟨compactFolly_lawful, fun ⟨m', hread, _⟩ => ?_⟩
  obtain ⟨dict, url, data, items, hdict, _⟩ := fromJSON_iff.mp hread
  have hempty : compactFolly.parseJson "" = .error "json parse error" := rfl
  -- A file that cannot be opened reads as the empty text, which is no JSON.
  cases hdict.symm.trans hempty

/-- On a payload that is no JSON, and is no file's name, `FromJSON`
throws. -/
theorem throwsOnPayload :
    fromJSON compactFolly (fun _ => none) "payment" {} = (.error "json parse error", {}) ∧
      ¬ AnswersPayload compactFolly (fun _ => none) "payment" {} := by
  have hempty : compactFolly.parseJson "" = .error "json parse error" := rfl
  have hthrows : fromJSON compactFolly (fun _ => none) "payment" {} =
      (.error "json parse error", {}) := lift_bind_error hempty
  refine ⟨hthrows, ?_⟩
  rintro ⟨b, m', hread, -⟩
  cases hthrows.symm.trans hread

end RequestMessage

end Bigpipe
