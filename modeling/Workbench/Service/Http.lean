/-
# Requests over HTTP

What is sent to a service and what comes back. How a request gets there is not said
here: a `Transport` answers requests, and may change a state of its own with each.
-/

import Workbench.Chain
import Workbench.Json.Reader
import Workbench.Json.Writer

namespace Workbench.Service

open Workbench.Json

/-- A request: where it goes, its headers, and the value it sends. -/
structure Request where
  url : String
  headers : List (String × String)
  body : Value

/-- A response: its status and its body. -/
structure Response where
  status : Nat
  body : String
  deriving DecidableEq, Repr

/-- Answers requests, or says why no response came. -/
abbrev Transport (σ : Type) := Request → σ → Except Chain Response × σ

namespace Response

/-- The request was carried out. -/
def isSuccess (r : Response) : Bool :=
  200 ≤ r.status && r.status < 300

/-- The body as JSON. -/
def json (r : Response) : Except Chain Value :=
  match Value.parse r.body with
  | .ok v => .ok v
  | .error e => .error ["error decoding response body", e.message]

end Response

/-- The names of statuses. -/
def reasons : List (Nat × String) := [
  (100, "Continue"), (101, "Switching Protocols"), (102, "Processing"), (200, "OK"),
  (201, "Created"), (202, "Accepted"), (203, "Non Authoritative Information"),
  (204, "No Content"), (205, "Reset Content"), (206, "Partial Content"), (207, "Multi-Status"),
  (208, "Already Reported"), (226, "IM Used"), (300, "Multiple Choices"),
  (301, "Moved Permanently"), (302, "Found"), (303, "See Other"), (304, "Not Modified"),
  (305, "Use Proxy"), (307, "Temporary Redirect"), (308, "Permanent Redirect"),
  (400, "Bad Request"), (401, "Unauthorized"), (402, "Payment Required"), (403, "Forbidden"),
  (404, "Not Found"), (405, "Method Not Allowed"), (406, "Not Acceptable"),
  (407, "Proxy Authentication Required"), (408, "Request Timeout"), (409, "Conflict"),
  (410, "Gone"), (411, "Length Required"), (412, "Precondition Failed"),
  (413, "Payload Too Large"), (414, "URI Too Long"), (415, "Unsupported Media Type"),
  (416, "Range Not Satisfiable"), (417, "Expectation Failed"), (418, "I'm a teapot"),
  (421, "Misdirected Request"), (422, "Unprocessable Entity"), (423, "Locked"),
  (424, "Failed Dependency"), (425, "Too Early"), (426, "Upgrade Required"),
  (428, "Precondition Required"), (429, "Too Many Requests"),
  (431, "Request Header Fields Too Large"), (451, "Unavailable For Legal Reasons"),
  (500, "Internal Server Error"), (501, "Not Implemented"), (502, "Bad Gateway"),
  (503, "Service Unavailable"), (504, "Gateway Timeout"), (505, "HTTP Version Not Supported"),
  (506, "Variant Also Negotiates"), (507, "Insufficient Storage"), (508, "Loop Detected"),
  (510, "Not Extended"), (511, "Network Authentication Required")]

/-- A status with its name. -/
def statusText (status : Nat) : String :=
  toString status ++ " " ++
    ((reasons.find? (·.1 == status)).map (·.2)).getD "<unknown status code>"

end Workbench.Service
