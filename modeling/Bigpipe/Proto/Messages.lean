import Bigpipe.Folly.Dynamic

/-!
# `Bigpipe.Proto.Messages`: the messages of the protocol

The classes `AccessControlList`, `RequestBody`, `RequestMessage` and
`CallResp` of `proto/`. A method that reads JSON assigns the fields of
its object one by one, so an exception in the middle leaves the object
with the fields that were read before. That is what `Throws` is for.

A message goes through four forms. The body of the HTTP request is
read into a `RequestBody`, which the handler turns into a
`RequestMessage` with the headers of the request. The producer prints
it as the payload, and the consumer reads the payload back into a
`RequestMessage`. The two readers on this way do not take the text
that they are given for JSON: they take it for the name of a file.

* The setters of the first two assign their parameter to itself,
  because the parameter has the name of the field. They change
  nothing. Those of `RequestMessage` are of the same kind, and nobody
  calls them.
* `RequestBody::ParseFromJSON` and `RequestMessage::FromJSON` open the
  file that their argument names and parse its content.
-/

set_option autoImplicit false

namespace Bigpipe

open Bigpipe.Lib (Throws)

/-! ### `AccessControlList` -/

/-- The fields of `AccessControlList`. An ACL without a topic has the
empty one. -/
structure AccessControlList where
  topic : String := ""
  name : String := ""
  secret : String := ""
  deriving DecidableEq, Repr

namespace AccessControlList

/-- `SetTopic`: `topic = topic`. -/
def setTopic (acl : AccessControlList) (_topic : String) : AccessControlList := acl

/-- `SetName`: `name = name`. -/
def setName (acl : AccessControlList) (_name : String) : AccessControlList := acl

/-- `SetSecret`: `secret = secret`. -/
def setSecret (acl : AccessControlList) (_secret : String) : AccessControlList := acl

/-- `FromJSON`. The text is parsed outside the `try`. -/
def fromJSON (folly : Folly) (json : String) : Throws String AccessControlList Bool := do
  let dict ← folly.parseJson json
  Throws.tryCatch
    (do
      let name ← folly.stringAt dict "name"
      Throws.assign fun acl => { acl with name }
      let secret ← folly.stringAt dict "secret"
      Throws.assign fun acl => { acl with secret }
      if (← folly.count dict "topic") > 0 then
        let topic ← folly.stringAt dict "topic"
        Throws.assign fun acl => { acl with topic }
      return true)
    fun _ => return false

/-- The object that `ToJSON` prints. -/
def toDynamic (acl : AccessControlList) : Dynamic :=
  .obj [("name", .str acl.name), ("secret", .str acl.secret), ("topic", .str acl.topic)]

/-- `ToJSON`. -/
def toJSON (folly : Folly) (acl : AccessControlList) : String :=
  folly.toJson acl.toDynamic

end AccessControlList

/-! ### `RequestBody` -/

/-- The fields of `RequestBody`, as an HTTP request has them. The
topic is that of the ACL. -/
structure RequestBody where
  acl : AccessControlList := {}
  partitionKey : String := ""
  url : String := ""
  data : String := ""
  deriving DecidableEq, Repr

namespace RequestBody

/-- `SetACL`: `acl = acl`. The field keeps the value that it had. -/
def setACL (b : RequestBody) (_acl : AccessControlList) : RequestBody := b

/-- `SetURL`: `url = url`. -/
def setURL (b : RequestBody) (_url : String) : RequestBody := b

/-- `SetPartitionKey`: `partitionKey = partitionKey`. -/
def setPartitionKey (b : RequestBody) (_partitionKey : String) : RequestBody := b

/-- `SetData`: `data = data`. -/
def setData (b : RequestBody) (_data : String) : RequestBody := b

/-- `ParseFromJSON`. The answer of `acl.FromJSON` is dropped, so an
ACL without a name is no error here. It has no `try`: what is thrown
leaves it, with the fields that were assigned before. -/
def parseFromJSON (folly : Folly) (fs : FileSystem) (body : String) :
    Throws String RequestBody Bool := do
  let content := fs.read body
  let dict ← folly.parseJson content
  let url ← folly.stringAt dict "url"
  Throws.assign fun b => { b with url }
  let data ← folly.stringAt dict "data"
  Throws.assign fun b => { b with data }
  let partitionKey ← folly.stringAt dict "partitionKey"
  Throws.assign fun b => { b with partitionKey }
  let acl ← folly.stringAt dict "acl"
  let _ ← Throws.onMember RequestBody.acl (fun b acl => { b with acl })
    (AccessControlList.fromJSON folly acl)
  return true

/-- The object that `ToJSON` prints. The ACL is a text in it. -/
def toDynamic (folly : Folly) (b : RequestBody) : Dynamic :=
  .obj [("url", .str b.url), ("data", .str b.data), ("partitionKey", .str b.partitionKey),
    ("acl", .str (b.acl.toJSON folly))]

/-- `ToJSON`. -/
def toJSON (folly : Folly) (b : RequestBody) : String :=
  folly.toJson (b.toDynamic folly)

end RequestBody

/-! ### `RequestMessage` -/

/-- The fields of `RequestMessage`, the message between the acceptor,
the channel and the broker. The headers are those of the HTTP
request. -/
structure RequestMessage where
  headers : UnorderedMap String := ∅
  partitionKey : String := ""
  topic : String := ""
  url : String := ""
  data : String := ""
  deriving DecidableEq

namespace RequestMessage

/-- The constructor from the headers and the body of a request. Of the
ACL only the topic goes into the message. -/
def ofRequest (headers : UnorderedMap String) (reqbody : RequestBody) : RequestMessage where
  headers := headers
  topic := reqbody.acl.topic
  partitionKey := reqbody.partitionKey
  url := reqbody.url
  data := reqbody.data

/-- One round of the loop over the headers in `FromJSON`. A name that
is there already gets the new value. -/
def readHeader (folly : Folly) (header : String × Dynamic) :
    Throws String RequestMessage Unit := do
  let value ← folly.asString header.2
  Throws.assign fun m => { m with headers := m.headers.insert header.1 value }

/-- `FromJSON`. -/
def fromJSON (folly : Folly) (fs : FileSystem) (json : String) :
    Throws String RequestMessage Bool := do
  let content := fs.read json
  let dict ← folly.parseJson content
  let url ← folly.stringAt dict "url"
  Throws.assign fun m => { m with url }
  let data ← folly.stringAt dict "data"
  Throws.assign fun m => { m with data }
  let headers ← folly.index dict "headers"
  let items ← folly.items headers
  Throws.forEach (readHeader folly) items
  return true

/-- The headers as fields of an object. -/
def headerFields (m : RequestMessage) : List (String × Dynamic) :=
  m.headers.entries.map fun header => (header.1, .str header.2)

/-- The object that `ToJSON` prints. -/
def toDynamic (m : RequestMessage) : Dynamic :=
  .obj [("headers", .obj m.headerFields), ("url", .str m.url), ("data", .str m.data),
    ("topic", .str m.topic)]

/-- `ToJSON`. -/
def toJSON (folly : Folly) (m : RequestMessage) : String :=
  folly.toJson m.toDynamic

end RequestMessage

/-! ### `CallResp` -/

/-- The fields of `CallResp`. The data is any value, and the handlers
give it an empty text. -/
structure CallResp where
  errcode : Int
  msg : String
  data : Dynamic

/-- `ToJSON`. -/
def CallResp.toJSON (folly : Folly) (resp : CallResp) : String :=
  folly.toJson (.obj [("errno", .num (.int resp.errcode)), ("msg", .str resp.msg),
    ("data", resp.data)])

end Bigpipe
