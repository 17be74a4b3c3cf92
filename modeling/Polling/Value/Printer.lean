import Polling.Text.Quoted
import Polling.Value.Basic

/-!
# How values are shown

`Value.shown` is the form of a value inside a list, a message or another value: texts stand in
quotes. `Value.display` is its form on its own, where a text is itself.
-/

namespace Polling

/-- The phrase that goes with a status code; empty for a code without one. -/
def statusPhrase (status : Int) : String :=
  ((statusPhrases.find? (·.1 == status)).map (·.2)).getD ""
where
  /-- The registered status codes. -/
  statusPhrases : List (Int × String) :=
    [(100, "Continue"), (101, "Switching Protocols"), (102, "Processing"), (103, "Early Hints"),
     (200, "OK"), (201, "Created"), (202, "Accepted"), (203, "Non-Authoritative Information"),
     (204, "No Content"), (205, "Reset Content"), (206, "Partial Content"), (207, "Multi-Status"),
     (208, "Already Reported"), (226, "IM Used"), (300, "Multiple Choices"),
     (301, "Moved Permanently"), (302, "Found"), (303, "See Other"), (304, "Not Modified"),
     (305, "Use Proxy"), (307, "Temporary Redirect"), (308, "Permanent Redirect"),
     (400, "Bad Request"), (401, "Unauthorized"), (402, "Payment Required"), (403, "Forbidden"),
     (404, "Not Found"), (405, "Method Not Allowed"), (406, "Not Acceptable"),
     (407, "Proxy Authentication Required"), (408, "Request Timeout"), (409, "Conflict"),
     (410, "Gone"), (411, "Length Required"), (412, "Precondition Failed"),
     (413, "Request Entity Too Large"), (414, "Request-URI Too Long"),
     (415, "Unsupported Media Type"), (416, "Requested Range Not Satisfiable"),
     (417, "Expectation Failed"), (418, "I'm a teapot"), (421, "Misdirected Request"),
     (422, "Unprocessable Entity"), (423, "Locked"), (424, "Failed Dependency"),
     (425, "Too Early"), (426, "Upgrade Required"), (428, "Precondition Required"),
     (429, "Too Many Requests"), (431, "Request Header Fields Too Large"),
     (451, "Unavailable For Legal Reasons"), (500, "Internal Server Error"),
     (501, "Not Implemented"), (502, "Bad Gateway"), (503, "Service Unavailable"),
     (504, "Gateway Timeout"), (505, "HTTP Version Not Supported"),
     (506, "Variant Also Negotiates"), (507, "Insufficient Storage"), (508, "Loop Detected"),
     (510, "Not Extended"), (511, "Network Authentication Required")]

namespace Value

mutual

/-- The form of a value inside other text. -/
def shown : Value → String
  | .null => "None"
  | .number n => n.text
  | .string s => Text.quoted s
  | .list items => "[" ++ ", ".intercalate (shownItems items) ++ "]"
  | .dict entries => "\x7b" ++ ", ".intercalate (shownEntries entries) ++ "\x7d"
  | .response status => "<Response [" ++ Number.intText status ++ " " ++ statusPhrase status ++ "]>"
  | .lookalike _ => "<FakeResponse object>"

/-- The forms of the items of a list. -/
def shownItems : List Value → List String
  | [] => []
  | v :: rest => shown v :: shownItems rest

/-- The forms of the entries of a dictionary. -/
def shownEntries : List (Value × Value) → List String
  | [] => []
  | (k, v) :: rest => (shown k ++ ": " ++ shown v) :: shownEntries rest

end

/-- The form of a value on its own: a text is itself. -/
def display : Value → String
  | .string s => s
  | v => v.shown

end Value

end Polling
