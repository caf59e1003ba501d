/-
# `Muduo.Logging.Model` — base/LogStream.h, base/Logging.h, base/Logging.cpp

A `Logger` collects one record in a fixed buffer: its constructor writes the
level, the time, the thread and perhaps an error, the user streams items, and
its destructor writes the trailer and hands the record to the output handler.
What the constructor asks the system for, and the text that the standard
streams make of times, doubles and pointers, is an argument.
-/
import Muduo.AsyncLog.Model

namespace Muduo

/-- `kSmallBuffer`. -/
def kSmallBuffer : ℕ := 4000

/-- The bytes of characters. -/
def ofChars (cs : List Char) : List Byte := cs.map fun c => BitVec.ofNat 8 c.toNat

/-- The bytes of a literal. -/
def text (s : String) : List Byte := ofChars s.toList

/-- `std::to_string` of an integer. -/
def stdToString (n : ℤ) : List Byte :=
  if n < 0 then ofChars ('-' :: Nat.toDigits 10 n.natAbs) else ofChars (Nat.toDigits 10 n.natAbs)

/-- What is streamed. -/
inductive LogItem
  | char (c : Byte)
  /-- A `std::string`. -/
  | string (s : List Byte)
  /-- A `const char*`: what is in front of the terminating zero, or null. -/
  | cstr (s : Option (List Byte))
  | int (n : ℤ)
  | bool (b : Bool)
  /-- A `double` or `float`: what an `ostringstream` makes of it. -/
  | double (s : List Byte)
  /-- A pointer: what an `ostringstream` makes of it, or null. -/
  | pointer (s : Option (List Byte))
deriving DecidableEq, Repr

/-- The bytes that `operator<<` appends, at once. -/
def LogItem.bytes : LogItem → List Byte
  | .char c => [c]
  | .string s => s
  | .cstr (some s) => s
  | .cstr none => text "(null)"
  | .int n => stdToString n
  | .bool true => text "true"
  | .bool false => text "false"
  | .double s => s
  | .pointer (some s) => s
  | .pointer none => text "0x0"

/-- `class LogStream`. -/
structure LogStream (SIZE : ℕ) where
  buf : FixedBuffer SIZE
deriving DecidableEq

namespace LogStream

variable {SIZE : ℕ}

def new : LogStream SIZE := ⟨.new⟩

def append (s : LogStream SIZE) (data : List Byte) : LogStream SIZE := ⟨s.buf.append data⟩

/-- `operator<<`. -/
def put (s : LogStream SIZE) (i : LogItem) : LogStream SIZE := s.append i.bytes

/-- The stream after a literal. -/
def puts (s : LogStream SIZE) (lit : String) : LogStream SIZE := s.put (.cstr (some (text lit)))

end LogStream

/-- `enum LogLevel`. -/
inductive LogLevel
  | trace | debug | info | warning | error | fatal
deriving DecidableEq, Repr

namespace LogLevel

/-- `LevelName`. -/
def levelName : LogLevel → String
  | .trace => "[TRACE] "
  | .debug => "[DEBUG] "
  | .info => "[INFO ] "
  | .warning => "[WARN ] "
  | .error => "[ERROR] "
  | .fatal => "[FATAL] "

/-- The escape sequence before the name. -/
def color : LogLevel → String
  | .trace => "\x1b[1;96m"
  | .debug => "\x1b[1;95m"
  | .info => "\x1b[1;34m"
  | .warning => "\x1b[1;93m"
  | .error | .fatal => "\x1b[1;31m"

/-- `LevelNameWithColor`. -/
def levelNameWithColor (l : LogLevel) : String := l.color ++ l.levelName ++ "\x1b[0m"

end LogLevel

/-- `struct SourceFile`: the part of the array that is kept. -/
structure SourceFile where
  data : List Byte
deriving DecidableEq, Repr

/-- The constructor from a literal: what comes after the last `/` in front of the first
zero, up to the end of the array. -/
def SourceFile.ofArray (arr : List Byte) : SourceFile :=
  let slash : Byte := BitVec.ofNat 8 '/'.toNat
  let upToBoundary := (arr.takeWhile (· ≠ 0)).reverse.dropWhile (· ≠ slash)
  ⟨arr.drop upToBoundary.length⟩

example : SourceFile.ofArray (text "src/base/Thread.cc") = ⟨text "Thread.cc"⟩ := by decide

/-- What a constructor of `Logger` is told by the system, and `g_toConsole`. -/
structure LogContext where
  toConsole : Bool
  /-- The string of `FormatCurTime`. -/
  time : List Byte
  /-- `pthread_self()`. -/
  tid : ℕ
  errno : ℤ
  strerror : ℤ → Option (List Byte)

/-- `class LoggerImpl`. -/
structure LoggerImpl (SIZE : ℕ) where
  stream : LogStream SIZE
  level : LogLevel
  file : SourceFile
  line : ℤ
deriving DecidableEq

/-- The constructors of `Logger`. -/
inductive LoggerArgs
  /-- `Logger(file, line)` -/
  | info (file : SourceFile) (line : ℤ)
  /-- `Logger(level, file, line)` -/
  | level (level : LogLevel) (file : SourceFile) (line : ℤ)
  /-- `Logger(level, file, line, func)` -/
  | func (level : LogLevel) (file : SourceFile) (line : ℤ) (func : Option (List Byte))
  /-- `Logger(file, line, fatal)` -/
  | sys (file : SourceFile) (line : ℤ) (fatal : Bool)

namespace LoggerImpl

variable {SIZE : ℕ}

def formatLevel (ctx : LogContext) (level : LogLevel) (s : LogStream SIZE) : LogStream SIZE :=
  if ctx.toConsole then s.puts level.levelNameWithColor else s.puts level.levelName

def formatCurTime (ctx : LogContext) (s : LogStream SIZE) : LogStream SIZE :=
  s.put (.string ctx.time)

def formatTid (ctx : LogContext) (s : LogStream SIZE) : LogStream SIZE :=
  ((s.puts "Tid=").put (.int ctx.tid)).put (.char (BitVec.ofNat 8 ' '.toNat))

/-- `LoggerImpl(level, line, file, error_num)`. -/
def new (ctx : LogContext) (level : LogLevel) (line : ℤ) (file : SourceFile) (errorNum : ℤ) :
    LoggerImpl SIZE :=
  let s := formatTid ctx (formatCurTime ctx (formatLevel ctx level LogStream.new))
  let s := if errorNum ≠ 0 then
      (((s.put (.cstr (ctx.strerror errorNum))).puts " (errno=").put (.int errorNum)).puts ") - "
    else s
  ⟨s, level, file, line⟩

/-- What the constructors of `Logger` make. -/
def ofArgs (ctx : LogContext) : LoggerArgs → LoggerImpl SIZE
  | .info file line => new ctx .info line file 0
  | .level level file line => new ctx level line file 0
  | .func level file line func =>
      let l := new ctx level line file 0
      { l with stream := ((l.stream.puts "\x7b").put (.cstr func)).puts "\x7d " }
  | .sys file line fatal => new ctx (if fatal then .fatal else .error) line file ctx.errno

/-- The items that are streamed into `GetStream()`. -/
def streamed (l : LoggerImpl SIZE) (items : List LogItem) : LoggerImpl SIZE :=
  { l with stream := items.foldl LogStream.put l.stream }

/-- `Finish`, up to the line terminator. -/
def trailed (l : LoggerImpl SIZE) : LogStream SIZE :=
  ((((l.stream.puts " - ").append l.file.data).put (.char (BitVec.ofNat 8 ':'.toNat))).put
    (.int l.line))

/-- `'\n'`. -/
def newline : Byte := BitVec.ofNat 8 '\n'.toNat

def finish (l : LoggerImpl SIZE) : LoggerImpl SIZE :=
  { l with stream := l.trailed.put (.char newline) }

/-- `~Logger`: what the output handler is given, and whether the process is aborted then. -/
def destruct (l : LoggerImpl SIZE) : List Byte × Bool :=
  let l := l.finish
  (l.stream.buf.data, l.level = .fatal)

end LoggerImpl

end Muduo
