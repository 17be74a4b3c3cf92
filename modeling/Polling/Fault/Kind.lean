/-!
# Kinds of faults

A fault has a kind, and kinds form a hierarchy: a kind has a name and the kinds it directly
specialises, possibly several. `FaultKind.isA` is the resulting order. The hierarchy is open: any
tree built from names is a kind, and the named ones below are the kinds that operations, callers and
this library are known to raise.

* `FaultKind.isA_refl`, `FaultKind.isA_trans`: specialisation is reflexive and transitive.
-/

namespace Polling

/-- A kind of fault: its name and the kinds it directly specialises. -/
inductive FaultKind where
  | mk (name : String) (parents : List FaultKind)
deriving Repr

namespace FaultKind

/-- The name of a kind. -/
def name : FaultKind → String
  | mk n _ => n

/-- The kinds that a kind directly specialises. -/
def parents : FaultKind → List FaultKind
  | mk _ ps => ps

mutual

/-- Equality of kinds is decided by comparing names and parents. -/
def decEq : (a b : FaultKind) → Decidable (a = b)
  | mk n ps, mk m qs =>
    if hn : n = m then
      match decEqAll ps qs with
      | .isTrue h => .isTrue (by rw [hn, h])
      | .isFalse h => .isFalse (by intro e; injection e with _ e; exact h e)
    else .isFalse (by intro e; injection e with e _; exact hn e)

/-- Equality of lists of kinds. -/
def decEqAll : (as bs : List FaultKind) → Decidable (as = bs)
  | [], [] => .isTrue rfl
  | [], _ :: _ => .isFalse (by simp)
  | _ :: _, [] => .isFalse (by simp)
  | a :: as, b :: bs =>
    match decEq a b with
    | .isTrue ha =>
      match decEqAll as bs with
      | .isTrue hs => .isTrue (by rw [ha, hs])
      | .isFalse hs => .isFalse (by intro e; injection e with _ e; exact hs e)
    | .isFalse ha => .isFalse (by intro e; injection e with e _; exact ha e)

end

instance : DecidableEq FaultKind := decEq

mutual

/-- Is the kind `target` or a specialisation of it? -/
def isA (kind target : FaultKind) : Bool :=
  match kind with
  | mk n ps => decide (mk n ps = target) || anyIsA ps target

/-- Is one of the kinds `target` or a specialisation of it? -/
def anyIsA (kinds : List FaultKind) (target : FaultKind) : Bool :=
  match kinds with
  | [] => false
  | k :: ks => k.isA target || anyIsA ks target

end

theorem isA_refl (k : FaultKind) : k.isA k = true := by
  cases k
  simp [isA]

mutual

theorem isA_trans {a b c : FaultKind} (hab : a.isA b = true) (hbc : b.isA c = true) :
    a.isA c = true := by
  match a with
  | mk n ps =>
    simp only [isA, Bool.or_eq_true, decide_eq_true_eq] at hab ⊢
    rcases hab with hab | hab
    · subst hab
      simpa [isA] using hbc
    · exact .inr (anyIsA_trans hab hbc)

theorem anyIsA_trans {ks : List FaultKind} {b c : FaultKind} (hab : anyIsA ks b = true)
    (hbc : b.isA c = true) : anyIsA ks c = true := by
  match ks with
  | [] => simp [anyIsA] at hab
  | k :: rest =>
    simp only [anyIsA, Bool.or_eq_true] at hab ⊢
    rcases hab with h | h
    · exact .inl (isA_trans h hbc)
    · exact .inr (anyIsA_trans h hbc)

end

/-! ## The hierarchy -/

/-- The root of every fault. -/
def root : FaultKind := mk "BaseException" []

/-- Faults that a program is expected to handle. What is outside this kind is a request to stop. -/
def ordinary : FaultKind := mk "Exception" [root]

/-- The user asked the program to stop. -/
def keyboardInterrupt : FaultKind := mk "KeyboardInterrupt" [root]

/-- The program asked itself to stop. -/
def systemExit : FaultKind := mk "SystemExit" [root]

def generatorExit : FaultKind := mk "GeneratorExit" [root]

/-- A task was asked to stop. -/
def cancelled : FaultKind := mk "CancelledError" [root]

/-- A stop request of the caller's own making. -/
def fatalSignal : FaultKind := mk "FatalSignal" [root]

def lookup : FaultKind := mk "LookupError" [ordinary]
def value : FaultKind := mk "ValueError" [ordinary]
def runtime : FaultKind := mk "RuntimeError" [ordinary]
def arithmetic : FaultKind := mk "ArithmeticError" [ordinary]
def system : FaultKind := mk "OSError" [ordinary]
def wrongType : FaultKind := mk "TypeError" [ordinary]
def missingAttribute : FaultKind := mk "AttributeError" [ordinary]
def assertion : FaultKind := mk "AssertionError" [ordinary]
def stopIteration : FaultKind := mk "StopIteration" [ordinary]
def stopAsyncIteration : FaultKind := mk "StopAsyncIteration" [ordinary]
def memory : FaultKind := mk "MemoryError" [ordinary]

def key : FaultKind := mk "KeyError" [lookup]
def index : FaultKind := mk "IndexError" [lookup]
def unicode : FaultKind := mk "UnicodeError" [value]
def recursion : FaultKind := mk "RecursionError" [runtime]
def notImplemented : FaultKind := mk "NotImplementedError" [runtime]
def zeroDivision : FaultKind := mk "ZeroDivisionError" [arithmetic]
def overflow : FaultKind := mk "OverflowError" [arithmetic]

def timeout : FaultKind := mk "TimeoutError" [system]
def permission : FaultKind := mk "PermissionError" [system]
def fileNotFound : FaultKind := mk "FileNotFoundError" [system]
def connection : FaultKind := mk "ConnectionError" [system]
def blocking : FaultKind := mk "BlockingIOError" [system]
def childProcess : FaultKind := mk "ChildProcessError" [system]
def fileExists : FaultKind := mk "FileExistsError" [system]
def interruptedCall : FaultKind := mk "InterruptedError" [system]
def isDirectory : FaultKind := mk "IsADirectoryError" [system]
def notDirectory : FaultKind := mk "NotADirectoryError" [system]
def processLookup : FaultKind := mk "ProcessLookupError" [system]
def connectionAborted : FaultKind := mk "ConnectionAbortedError" [connection]
def connectionReset : FaultKind := mk "ConnectionResetError" [connection]
def connectionRefused : FaultKind := mk "ConnectionRefusedError" [connection]
def brokenPipe : FaultKind := mk "BrokenPipeError" [connection]

/-! Faults of polling itself. -/

/-- The common kind of everything that ends a wait without success. -/
def wait : FaultKind := mk "WaiterError" [ordinary]

/-- An acceptor matched and named failure. -/
def acceptorFailure : FaultKind := mk "AcceptorFailureError" [wait]

/-- The operation raised and no acceptor matched. -/
def unmatchedFailure : FaultKind := mk "UnmatchedFailureError" [wait]

/-- The attempt limit was reached. -/
def retriesExhausted : FaultKind := mk "RetriesExhaustedError" [wait]

/-- The wait between two attempts was cut short. -/
def interrupted : FaultKind := mk "WaiterInterruptedError" [wait]

/-- A required part of a configuration is absent. -/
def missingConfiguration : FaultKind := mk "MissingConfigurationError" [wait, value]

/-! Faults of web requests. -/

def http : FaultKind := mk "HTTPError" [ordinary]
def invalidAddress : FaultKind := mk "InvalidURL" [ordinary]

/-- A response whose status code reports an error. -/
def httpStatus : FaultKind := mk "HTTPStatusError" [http]

def request : FaultKind := mk "RequestError" [http]
def decoding : FaultKind := mk "DecodingError" [request]
def tooManyRedirects : FaultKind := mk "TooManyRedirects" [request]

/-- The request failed before a response arrived. -/
def transport : FaultKind := mk "TransportError" [request]

def requestTimeout : FaultKind := mk "TimeoutException" [transport]
def network : FaultKind := mk "NetworkError" [transport]
def protocol : FaultKind := mk "ProtocolError" [transport]
def proxy : FaultKind := mk "ProxyError" [transport]
def unsupportedProtocol : FaultKind := mk "UnsupportedProtocol" [transport]
def connectTimeout : FaultKind := mk "ConnectTimeout" [requestTimeout]
def readTimeout : FaultKind := mk "ReadTimeout" [requestTimeout]
def writeTimeout : FaultKind := mk "WriteTimeout" [requestTimeout]
def poolTimeout : FaultKind := mk "PoolTimeout" [requestTimeout]
def connect : FaultKind := mk "ConnectError" [network]
def read : FaultKind := mk "ReadError" [network]
def write : FaultKind := mk "WriteError" [network]
def close : FaultKind := mk "CloseError" [network]
def localProtocol : FaultKind := mk "LocalProtocolError" [protocol]
def remoteProtocol : FaultKind := mk "RemoteProtocolError" [protocol]

/-- Every kind with a name above. -/
def known : List FaultKind :=
  [root, ordinary, keyboardInterrupt, systemExit, generatorExit, cancelled, fatalSignal, lookup,
   value, runtime, arithmetic, system, wrongType, missingAttribute, assertion, stopIteration,
   stopAsyncIteration, memory, key, index, unicode, recursion, notImplemented, zeroDivision,
   overflow, timeout, permission, fileNotFound, connection, blocking, childProcess, fileExists,
   interruptedCall, isDirectory, notDirectory, processLookup, connectionAborted, connectionReset,
   connectionRefused, brokenPipe, wait, acceptorFailure, unmatchedFailure, retriesExhausted,
   interrupted, missingConfiguration, http, invalidAddress, httpStatus, request, decoding,
   tooManyRedirects, transport, requestTimeout, network, protocol, proxy, unsupportedProtocol,
   connectTimeout, readTimeout, writeTimeout, poolTimeout, connect, read, write, close,
   localProtocol, remoteProtocol]

/-- A kind that no fault has: values of this type are not faults. -/
def ofType (typeName : String) : FaultKind := mk typeName []

/-- The type of whole numbers. -/
def wholeNumber : FaultKind := ofType "int"

/-- The type of texts. -/
def text : FaultKind := ofType "str"

/-- The kind with a name; an unknown name is a kind on its own. -/
def named (n : String) : FaultKind := (known.find? (·.name == n)).getD (ofType n)

end FaultKind

end Polling
