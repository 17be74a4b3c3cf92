import Polling.Number.Basic

/-!
# Values

What a polled operation returns and what errors are about: nothing, a number, a text, a list, a
dictionary that keeps the order in which its keys were first put, or a response of a web server.

A response and an object that merely resembles one are known by their status code alone. Each is an
object of its own: two of them are never equal.
-/

namespace Polling

/-- A value handed over by an operation or an error. -/
inductive Value where
  | null
  | number (n : Number)
  | string (s : String)
  | list (items : List Value)
  | dict (entries : List (Value × Value))
  /-- A web server's response with its status code. -/
  | response (status : Int)
  /-- An unrelated object that happens to have a status code. -/
  | lookalike (status : Int)
deriving Repr, Inhabited

namespace Value

/-- A flag. -/
@[match_pattern] abbrev flag (b : Bool) : Value := .number (.flag b)

/-- An integer. -/
@[match_pattern] abbrev int (n : Int) : Value := .number (.int n)

/-- A double. -/
@[match_pattern] abbrev real (x : Binary64) : Value := .number (.real x)

/-- Is a value nothing? -/
def isNull : Value → Bool
  | .null => true
  | _ => false

/-- The number that a value is, if it is one. -/
def number? : Value → Option Number
  | .number n => some n
  | _ => none

/-- The name of the type of a value, as error messages give it. -/
def typeName : Value → String
  | .null => "NoneType"
  | .number (.flag _) => "bool"
  | .number (.int _) => "int"
  | .number (.real _) => "float"
  | .string _ => "str"
  | .list _ => "list"
  | .dict _ => "dict"
  | .response _ => "Response"
  | .lookalike _ => "FakeResponse"

/-- Nothing, zero and what is empty read as false; everything else reads as true. -/
def truthy : Value → Bool
  | .null => false
  | .number n => n.truthy
  | .string s => !s.isEmpty
  | .list items => !items.isEmpty
  | .dict entries => !entries.isEmpty
  | .response _ => true
  | .lookalike _ => true

/-! ## Equality -/

mutual

/-- Are two values equal? Numbers are compared by value whatever their kind, lists item by item,
dictionaries key by key regardless of order. Responses are never equal. -/
def equals : Value → Value → Bool
  | .null, .null => true
  | .number a, .number b => a.same b
  | .string a, .string b => a == b
  | .list as, .list bs => allEqual as bs
  | .dict as, .dict bs => as.length == bs.length && allFound as bs
  | _, _ => false

/-- Item by item, with nothing left over. -/
def allEqual : List Value → List Value → Bool
  | [], [] => true
  | a :: as, b :: bs => equals a b && allEqual as bs
  | _, _ => false

/-- Does every entry of the first dictionary have an equal one in the second? -/
def allFound : List (Value × Value) → List (Value × Value) → Bool
  | [], _ => true
  | (k, v) :: rest, entries =>
    (entries.any fun (k', v') => equals k k' && equals v v') && allFound rest entries

end

/-- The value under a key, or nothing. -/
def find? (key : Value) (entries : List (Value × Value)) : Option Value :=
  (entries.find? fun (k, _) => key.equals k).map (·.2)

/-- A dictionary with `key` put to `value`: a key already there keeps its place and its first
spelling. -/
def put (key value : Value) : List (Value × Value) → List (Value × Value)
  | [] => [(key, value)]
  | (k, v) :: rest => if key.equals k then (k, value) :: rest else (k, v) :: put key value rest

/-- The dictionary that results from putting entries one after the other. -/
def ofEntries (entries : List (Value × Value)) : Value :=
  .dict (entries.foldl (fun d (k, v) => put k v d) [])

end Value

end Polling
