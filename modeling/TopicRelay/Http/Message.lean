/-
  Requests and responses of HTTP, as far as an endpoint looks at them.
-/
import TopicRelay.Text.Numeral
import TopicRelay.Text.Utf8

namespace TopicRelay.Http

/-- A request.  The target is a path, which a query may follow. -/
structure Request where
  method : String
  target : String
  headers : List (String × Bytes)
  body : Bytes
deriving DecidableEq, Repr

/-- A response; every response of the endpoint says what its body is. -/
structure Response where
  status : Nat
  contentType : String
  body : Bytes
deriving DecidableEq, Repr

/-- A header name with its capital letters made small: names that differ in case only are one. -/
def foldName (name : String) : Bytes := (Text.Utf8.encode name).map Ascii.lower

namespace Request

/-- The values of a header, in order; `name` is in small letters. -/
def headerValues (r : Request) (name : String) : List Bytes :=
  (r.headers.filter fun h => foldName h.1 == Ascii.bytes name).map Prod.snd

/-- The length that a body is announced with.  It has to be a number of 64 bits, and the same each
    time it is given. -/
def contentLength? (r : Request) : Option Nat :=
  match (r.headerValues "content-length").map (Text.Numeral.parse? 0xFFFFFFFFFFFFFFFF) with
  | some n :: others => if others.all (· == some n) then some n else none
  | _ => none

/-- The path of the target, without a query. -/
def path (r : Request) : String :=
  String.ofList (r.target.toList.takeWhile fun c => c != '?' && c != '#')

end Request

example : Request.contentLength? ⟨"POST", "/", [("Content-Length", Ascii.bytes "+7")], []⟩
    = some 7 := by decide +kernel
example : Request.path ⟨"GET", "/v1/ping?x=1", [], []⟩ = "/v1/ping" := by decide +kernel

end TopicRelay.Http
