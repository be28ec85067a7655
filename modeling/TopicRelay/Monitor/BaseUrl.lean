/-
  Where the remote is.

  A base url is any address; slashes at its end are dropped, because every path that is put behind
  it begins with one.
-/
import TopicRelay.Http.Uri

namespace TopicRelay.Monitor

/-- The text without the slashes at its end. -/
def trimSlashes (url : String) : String :=
  String.ofList (url.toList.reverse.dropWhile (· == '/')).reverse

/-- The base url that a text stands for, if it is an address. -/
def baseUrl? (url : String) : Option String :=
  let base := trimSlashes url
  if Http.Uri.isUri base then some base else none

example : baseUrl? "http://h/p//" = some "http://h/p" ∧ baseUrl? "///" = none := by decide +kernel

end TopicRelay.Monitor
