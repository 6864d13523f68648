import Baize.Log.LogStream

namespace Baize.Log

open Lib

inductive LogLevel
  | trace
  | debug
  | info
  | warn
  | error
  | fatal
  deriving DecidableEq, Repr

def LogLevel.name : LogLevel → Bytes
  | .trace => [84, 82, 65, 67, 69, 32]
  | .debug => [68, 69, 66, 85, 71, 32]
  | .info => [73, 78, 70, 79, 32, 32]
  | .warn => [87, 65, 82, 78, 32, 32]
  | .error => [69, 82, 82, 79, 82, 32]
  | .fatal => [70, 65, 84, 65, 76, 32]

/-- `Logger`, with what its constructor and destructor read elsewhere: the time as `FormatTime` writes
it, the text of the error, and the names of the routine and of the thread. -/
structure Logger where
  time : Bytes
  time_length : time.length = 17
  us : Bytes
  us_length : us.length = 8
  level : LogLevel
  savedErrno : Int32
  strerror : Bytes
  filename : Bytes
  line : Int32
  func : Bytes
  routineName : Bytes
  routineId : UInt64
  threadname : Bytes
  tidstring : Bytes

namespace Logger

def dash : Value := .cstr (some [32, 45, 32])

def colon : Value := .cstr (some [58])

def newline : Value := .cstr (some [10])

def errnoText : Value := .cstr (some [32, 40, 101, 114, 114, 110, 111, 61])

def errnoEnd : Value := .cstr (some [41, 32])

def opening (l : Logger) : List Value :=
  [.piece l.time 17 (by rw [l.time_length]; decide), .piece l.us 8 (by rw [l.us_length]; decide),
    .cstr (some l.level.name)] ++
    if l.savedErrno ≠ 0 then [.cstr (some l.strerror), errnoText, .int l.savedErrno, errnoEnd] else []

def closing (l : Logger) : List Value :=
  [dash, .cstr (some l.filename), colon, .int l.line, colon, .cstr (some l.func), dash,
    .string l.routineName, colon, .unsignedLong l.routineId, dash, .string l.threadname, colon,
    .string l.tidstring, newline]

def values (l : Logger) (message : List Value) : List Value := l.opening ++ message ++ l.closing

def output (formatG : Float → Bytes) (l : Logger) (message : List Value) (earlier : LogStream) :
    Checked Bytes := do
  let s ← (l.values message).foldlM (LogStream.put formatG) (.new earlier)
  check (s.length ≤ klogBufferLen) .outOfBounds
  pure (s.buffer.take s.length.toNat)

end Logger

namespace LogStream

variable {formatG : Float → Bytes} {s s' : LogStream}

end LogStream

end Baize.Log
