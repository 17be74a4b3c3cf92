import Polling.Fault.Basic
import Polling.Text.Numeral

/-!
# Misuse

What this library refuses, as causes: values outside the range a parameter allows, parts of a
configuration that are absent, and values of a type that does not fit where they are used.
`Misuse.kind` and `Misuse.message` say how each is reported.
-/

namespace Polling

/-- Why a request is refused. -/
inductive Misuse where
  /-- A delay below zero. -/
  | negativeDelay (delay : Number)
  /-- A base delay below zero. -/
  | negativeBase (base : Number)
  /-- A cap that is not above zero. -/
  | capNotPositive (cap : Number)
  /-- A backoff of the caller's answered with a delay below zero. -/
  | negativeBackoff (delay : Number)
  | limitMissing
  | backoffMissing
  | strategyMissing
  /-- A waiter was to be built before any polling strategy was set. -/
  | strategyNotSet
  | limitNotInteger (typeName : String)
  | limitTooSmall (limit : Int)
  /-- A strategy and its fields were both given. -/
  | strategyGivenTwice
  | outcomeHasBoth
  | responseHasBoth
  | tooFewAttempts (attempts : Number)
  | noStatusCodes
  | notAVerdict (given : Value)
  | notASubject (given : Value)
  /-- Two values of these types have no order; the sign is the comparison asked for. -/
  | unordered (sign left right : String)
  | noDifference (left right : String)
  /-- Something of the first type cannot be increased by something of the second. -/
  | noIncrease (left right : String)
  | notCallable (typeName : String)
  | noCalculate (typeName : String)
  | notCountable (typeName : String)
  | notIterable (typeName : String)
  /-- A value that may change cannot be a key. -/
  | notHashable (typeName : String)
  /-- Something that is no text was looked for in a text. -/
  | notAPart (typeName : String)
  /-- No whole number can be made of a value of this type. -/
  | notNumeric (typeName : String)
  /-- A text is not a whole number. -/
  | notANumeral (given : String)
  /-- A whole number has more digits than are read or written. They are counted if there is a text of
  them. -/
  | tooManyDigits (digits : Option Nat)
  /-- What is not a number has no whole part. -/
  | noWholePart
  /-- An infinity has no whole part. -/
  | endlessWholePart
  /-- A place in a list does not fit in a word. -/
  | placeTooFar
  /-- A count does not fit in a word. -/
  | countTooLarge
  | notAKind
  | notAwaitable
  /-- A promise cannot carry the end of an iteration. -/
  | endOfIteration
  /-- An integer lies past the finite range of doubles. -/
  | integerTooLarge
  /-- A power lies past the finite range of doubles. -/
  | powerTooLarge
  | noRunningLoop
  /-- Positional arguments were given where none are taken. -/
  | takesNoArguments (name : String) (given : Nat)
  /-- Required arguments were left out. -/
  | argumentsMissing (owner : String) (names : List String)
  /-- Required arguments that are only taken by name were left out. -/
  | namedMissing (owner : String) (names : List String)
  /-- More positional arguments than the constructor takes. Of those that are only taken by name so
  many were given. -/
  | argumentsSurplus (owner : String) (least most given named : Nat)
  /-- An argument was given by a name that is not taken. -/
  | argumentUnknown (owner name : String)
  /-- An argument was given both by place and by name. -/
  | argumentTwice (owner name : String)
deriving Repr

namespace Misuse

/-- The kind of fault that reports a misuse. -/
def kind : Misuse → FaultKind
  | .limitMissing | .backoffMissing | .strategyMissing | .strategyNotSet => .missingConfiguration
  | .negativeDelay _ | .negativeBase _ | .capNotPositive _ | .negativeBackoff _
  | .limitNotInteger _ | .limitTooSmall _ | .strategyGivenTwice | .outcomeHasBoth
  | .responseHasBoth | .tooFewAttempts _ | .noStatusCodes | .notAVerdict _ | .notASubject _
  | .notANumeral _ | .tooManyDigits _ | .noWholePart | .countTooLarge => .value
  | .noCalculate _ => .missingAttribute
  | .integerTooLarge | .powerTooLarge | .endlessWholePart => .overflow
  | .placeTooFar => .index
  | .noRunningLoop => .runtime
  | _ => .wrongType

/-- Names in single quotes, as an enumeration. -/
def enumerated : List String → String
  | [] => ""
  | [n] => s!"'{n}'"
  | [m, n] => s!"'{m}' and '{n}'"
  | n :: rest => s!"'{n}', " ++ enumerated rest

/-- Arguments by number. -/
def counted (n : Nat) (noun : String) : String :=
  if n = 1 then s!"{n} {noun}" else s!"{n} {noun}s"

/-- How many arguments a constructor takes by place. -/
def taken (least most : Nat) : String :=
  if least = most then counted most "positional argument"
  else s!"from {least} to {most} positional arguments"

/-- How many arguments were given by place, and by name if any were. -/
def handed (given named : Nat) : String :=
  if named = 0 then s!"{given} " ++ (if given = 1 then "was" else "were")
  else counted given "positional argument" ++ " (and " ++ counted named "keyword-only argument" ++
    ") were"

/-- The beginning of a quoted text, at most two hundred characters of it. -/
def beginning (s : String) : String := String.ofList ((Text.quoted s).toList.take 200)

/-- The wording of a misuse. -/
def message : Misuse → String
  | .negativeDelay d => s!"delay must be non-negative, got {d.text}"
  | .negativeBase b => s!"base_delay must be non-negative, got {b.text}"
  | .capNotPositive c => s!"max_delay must be positive if specified, got {c.text}"
  | .negativeBackoff d => s!"backoff strategy returned a negative delay: {d.text}"
  | .limitMissing => "max_attempts is required"
  | .backoffMissing => "backoff_strategy is required"
  | .strategyMissing => "polling_strategy is required"
  | .strategyNotSet => "a polling strategy is required to build a waiter"
  | .limitNotInteger t => s!"max_attempts must be an int, got {t}"
  | .limitTooSmall n => s!"max_attempts must be >= 1, got {Number.intText n}"
  | .strategyGivenTwice => "pass either a PollingStrategy or its fields, not both"
  | .outcomeHasBoth => "an outcome cannot hold both a value and an exception"
  | .responseHasBoth => "a waiter response cannot hold both a value and an exception"
  | .tooFewAttempts n => s!"attempts_executed must be >= 1, got {n.text}"
  | .noStatusCodes => "at least one status code is required"
  | .notAVerdict v => v.shown ++ " is not a valid WaiterState"
  | .notASubject v => v.shown ++ " is not a valid AcceptorKind"
  | .unordered sign l r => s!"'{sign}' not supported between instances of '{l}' and '{r}'"
  | .noDifference l r => s!"unsupported operand type(s) for -: '{l}' and '{r}'"
  | .noIncrease l r => s!"unsupported operand type(s) for +=: '{l}' and '{r}'"
  | .notCallable t => s!"'{t}' object is not callable"
  | .noCalculate t => s!"'{t}' object has no attribute 'calculate'"
  | .notCountable t => s!"'{t}' object cannot be interpreted as an integer"
  | .notIterable t => s!"'{t}' object is not iterable"
  | .notHashable t => s!"unhashable type: '{t}'"
  | .notAPart t => s!"'in <string>' requires string as left operand, not {t}"
  | .notNumeric t =>
    s!"int() argument must be a string, a bytes-like object or a real number, not '{t}'"
  | .notANumeral given => "invalid literal for int() with base 10: " ++ beginning given
  | .tooManyDigits n =>
    s!"Exceeds the limit ({Text.digitLimit} digits) for integer string conversion" ++
      ((n.map fun n => s!": value has {n} digits").getD "") ++
      "; use sys.set_int_max_str_digits() to increase the limit"
  | .noWholePart => "cannot convert float NaN to integer"
  | .endlessWholePart => "cannot convert float infinity to integer"
  | .placeTooFar | .countTooLarge => "cannot fit 'int' into an index-sized integer"
  | .notAKind => "isinstance() arg 2 must be a type, a tuple of types, or a union"
  | .notAwaitable => "An asyncio.Future, a coroutine or an awaitable is required"
  | .endOfIteration =>
    "StopIteration interacts badly with generators and cannot be raised into a Future"
  | .integerTooLarge => "int too large to convert to float"
  | .powerTooLarge => "(34, 'Numerical result out of range')"
  | .noRunningLoop => "no running event loop"
  | .takesNoArguments name n =>
    s!"{name}() takes " ++ taken 0 0 ++ " but " ++ handed n 0 ++ " given"
  | .argumentsMissing owner names =>
    s!"{owner}.__init__() missing " ++ counted names.length "required positional argument" ++ ": " ++
      enumerated names
  | .namedMissing owner names =>
    s!"{owner}.__init__() missing " ++ counted names.length "required keyword-only argument" ++
      ": " ++ enumerated names
  | .argumentsSurplus owner least most given named =>
    s!"{owner}.__init__() takes " ++ taken least most ++ " but " ++ handed given named ++ " given"
  | .argumentUnknown owner name =>
    s!"{owner}.__init__() got an unexpected keyword argument '{name}'"
  | .argumentTwice owner name =>
    s!"{owner}.__init__() got multiple values for argument '{name}'"

/-- The fault that reports a misuse. -/
def fault : Misuse → Fault
  | .powerTooLarge => .plain .overflow [.int 34, .string "Numerical result out of range"]
  | m =>
    if m.kind.isA .wait then .waiting m.kind (.string m.message) .null none none
    else .withText m.kind m.message

end Misuse

end Polling
