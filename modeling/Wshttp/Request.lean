/-
# `Wshttp.Request` — header fields and the status headers of a response

The field names and codes are `_usp` literals, so they carry their NUL.  A
`headers` holds the array handed to nghttp2, and of its two constructors with a
value the one that takes a name makes the pair and drops it.
-/
import Wshttp.Types

namespace Wshttp.req

namespace fields

def method : Bytes := usp ":method"
def scheme : Bytes := usp ":scheme"
def authority : Bytes := usp ":authority"
def status : Bytes := usp ":status"
def path : Bytes := usp ":path"

end fields

namespace code

def HTTP_200 : Bytes := usp "200"
def HTTP_404 : Bytes := usp "404"

end code

inductive FIELD where
  | method
  | scheme
  | authority
  | path
  | status
  deriving DecidableEq

/-- `_field`. -/
def fieldName : FIELD → Bytes
  | .method => fields.method
  | .scheme => fields.scheme
  | .authority => fields.authority
  | .path => fields.path
  | .status => fields.status

inductive CODE where
  | _200
  | _404
  deriving DecidableEq

/-- `_code`. -/
def codeValue : CODE → Bytes
  | ._200 => code.HTTP_200
  | ._404 => code.HTTP_404

def NGHTTP2_NV_FLAG_NONE : UInt8 := 0
def NGHTTP2_NV_FLAG_NO_COPY_NAME : UInt8 := 2
def NGHTTP2_NV_FLAG_NO_COPY_VALUE : UInt8 := 4

/-- `nghttp2_nv`, with what its pointers point to. -/
structure Nv where
  name : Bytes
  value : Bytes
  flags : UInt8
  deriving DecidableEq

def makePair (name value : Bytes) (flags : UInt8) : Nv :=
  ⟨name, value, flags ||| NGHTTP2_NV_FLAG_NO_COPY_NAME ||| NGHTTP2_NV_FLAG_NO_COPY_VALUE⟩

def makeHeader (f : FIELD) (value : Bytes) (flags : UInt8) : Nv :=
  ⟨fieldName f, value, flags ||| NGHTTP2_NV_FLAG_NO_COPY_NAME ||| NGHTTP2_NV_FLAG_NO_COPY_VALUE⟩

/-- `headers`, without the cursor of `current` and `next`. -/
structure Headers where
  hdrs : List Nv
  deriving DecidableEq

namespace Headers

/-- `headers(uspan name, uspan val, flags)`: the body is one call of `make_pair`. -/
def ofPair (name value : Bytes) (flags : UInt8) : Headers :=
  let _pair := makePair name value flags
  ⟨[]⟩

def makeStatus (s : CODE) : Headers := ofPair fields.status (codeValue s) NGHTTP2_NV_FLAG_NONE

def addField (f : FIELD) (value : Bytes) (flags : UInt8) (h : Headers) : Headers :=
  ⟨h.hdrs ++ [makeHeader f value flags]⟩

def size (h : Headers) : Nat := h.hdrs.length

end Headers

end Wshttp.req
