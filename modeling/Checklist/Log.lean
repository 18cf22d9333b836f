import Checklist.Text.Digit

/-!
# The log — records by level

A record has a level, a logger and a message. Records below the threshold are left out; those of
other libraries are also left out below the level of warnings.
-/

namespace Checklist

/-- How much the user wants to be told. -/
inductive Verbosity where
  | quiet
  | normal
  | verbose
  deriving DecidableEq

namespace Verbosity

/-- The word for the verbosity. -/
def name : Verbosity → Text
  | .quiet => "quiet".toList
  | .normal => "normal".toList
  | .verbose => "verbose".toList

/-- The verbosity that two switches ask for, which exclude each other. -/
def ofSwitches (verbose quiet : Bool) : Option Verbosity :=
  if verbose && quiet then none
  else if verbose then some .verbose
  else if quiet then some .quiet
  else some .normal

end Verbosity

namespace Log

/-- The levels that have names. -/
def debug : Int := 10

@[inherit_doc debug]
def info : Int := 20

@[inherit_doc debug]
def warning : Int := 30

@[inherit_doc debug]
def error : Int := 40

/-- A record of the log. -/
structure Entry where
  logger : Text
  level : Int
  message : Text

/-- The name of a level. -/
def levelName (level : Int) : Text :=
  if level = 50 then "CRITICAL".toList
  else if level = error then "ERROR".toList
  else if level = warning then "WARNING".toList
  else if level = info then "INFO".toList
  else if level = debug then "DEBUG".toList
  else if level = 0 then "NOTSET".toList
  else "Level ".toList ++ Text.signedDecimal level

/-- The logger that all of this library's loggers belong to. -/
def ownLogger : Text := "taskdown".toList

/-- Whether a logger is one of this library. -/
def isOwn (logger : Text) : Bool := logger = ownLogger || (ownLogger ++ ['.']).isPrefixOf logger

/-- The name of the logger that all others belong to. -/
def rootLogger : Text := "root".toList

/-- Whether the entry is written when the threshold is set to this level. -/
def Entry.passes (threshold : Int) (e : Entry) : Bool :=
  0 < e.level && threshold ≤ e.level && (isOwn e.logger || warning ≤ e.level)

/-- The line of an entry that is written at this time. -/
def Entry.line (time : Text) (e : Entry) : Text :=
  let logger := if e.logger.isEmpty then rootLogger else e.logger
  time ++ [' '] ++ levelName e.level ++ [' '] ++ logger ++ [':', ' '] ++ e.message ++ ['\n']

/-- The lines of the entries that pass. -/
def render (time : Text) (threshold : Int) (entries : List Entry) : Text :=
  (entries.filter (·.passes threshold)).flatMap (Entry.line time)

end Log

/-- The level from which on entries are written. -/
def Verbosity.threshold : Verbosity → Int
  | .quiet => Log.error
  | .normal => Log.warning
  | .verbose => Log.debug

end Checklist
