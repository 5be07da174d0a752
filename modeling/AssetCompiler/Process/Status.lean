import AssetCompiler.Text.Octets

/-! # How processes end

A process exits with a code or is ended by a signal. Signals have a number, a name and a
description; some of them do not end a process that takes no notice of them.
-/
namespace AssetCompiler

structure Signal where
  number : Nat
  name : String
  description : String
  deriving DecidableEq, Repr

namespace Signal

def named : List Signal := [
  ⟨1, "HUP", "Hangup"⟩, ⟨2, "INT", "Interrupt"⟩, ⟨3, "QUIT", "Quit"⟩,
  ⟨4, "ILL", "Illegal instruction"⟩, ⟨5, "TRAP", "Trace/breakpoint trap"⟩,
  ⟨6, "ABRT", "Aborted"⟩, ⟨7, "BUS", "Bus error"⟩, ⟨8, "FPE", "Floating point exception"⟩,
  ⟨9, "KILL", "Killed"⟩, ⟨10, "USR1", "User defined signal 1"⟩,
  ⟨11, "SEGV", "Segmentation fault"⟩, ⟨12, "USR2", "User defined signal 2"⟩,
  ⟨13, "PIPE", "Broken pipe"⟩, ⟨14, "ALRM", "Alarm clock"⟩, ⟨15, "TERM", "Terminated"⟩,
  ⟨16, "STKFLT", "Stack fault"⟩, ⟨17, "CHLD", "Child exited"⟩, ⟨18, "CONT", "Continued"⟩,
  ⟨19, "STOP", "Stopped (signal)"⟩, ⟨20, "TSTP", "Stopped"⟩,
  ⟨21, "TTIN", "Stopped (tty input)"⟩, ⟨22, "TTOU", "Stopped (tty output)"⟩,
  ⟨23, "URG", "Urgent I/O condition"⟩, ⟨24, "XCPU", "CPU time limit exceeded"⟩,
  ⟨25, "XFSZ", "File size limit exceeded"⟩, ⟨26, "VTALRM", "Virtual timer expired"⟩,
  ⟨27, "PROF", "Profiling timer expired"⟩, ⟨28, "WINCH", "Window changed"⟩,
  ⟨29, "IO", "I/O possible"⟩, ⟨30, "PWR", "Power failure"⟩, ⟨31, "SYS", "Bad system call"⟩]

def last : Nat := 64

/-- The first of the signals without a meaning of their own. -/
def firstRealTime : Nat := 34

def ofNumber? (n : Nat) : Option Signal := named.find? fun s => s.number == n

def describe (n : Nat) : String :=
  match ofNumber? n with
  | some s => s.description
  | none =>
    if firstRealTime ≤ n then "Real-time signal " ++ toString (n - firstRealTime)
    else "Unknown signal " ++ toString n

/-- Whether a signal leaves a process alone that has asked for nothing. -/
def isHarmless (n : Nat) : Bool := n == 0 || [17, 18, 19, 20, 21, 22, 23, 28].contains n

end Signal

inductive Status where
  | exited (code : Nat)
  | killed (signal : Nat)
  deriving DecidableEq, Inhabited, Repr

namespace Status

def success : Status := .exited 0

def isSuccess (s : Status) : Bool := s == success

def text : Status → String
  | exited code => "exit status: " ++ toString code
  | killed n =>
    "signal: " ++ toString n ++
      ((Signal.ofNumber? n).map fun s => " (SIG" ++ s.name ++ ")").getD ""

/-- The number that a shell makes of a status. -/
def code : Status → Nat
  | exited code => code
  | killed n => 128 + n

end Status

end AssetCompiler
