import Checklist.Text.Raw

/-!
# Options — telling options and arguments apart

A long option is written `--name`, with its value behind `=` or as the next word. Short options are
single letters that may stand together behind one hyphen; the rest of the word, or the next word, is
the value of the first that takes one. Behind `--` all words are arguments, and a hyphen alone is
one anywhere. Words are raw texts, as the system hands on any bytes; the options are texts.
-/

namespace Checklist

/-- An option that a command knows. -/
structure OptionForm where
  /-- The name behind two hyphens. -/
  long : Text
  /-- The letter behind one hyphen. -/
  short : Option Char := none
  takesValue : Bool := true

/-- Why words are no use of a command. -/
inductive UsageError where
  | unknownOption (option : RawText)
  | missingValue (option : Text)
  | unexpectedValue (option : Text)
  | missingCommand
  | unknownCommand (name : RawText)
  | missingArgument (name : Text)
  | extraArguments
  | badValue (name : Text)
  | noPlace
  | verbosityConflict
  deriving DecidableEq

/-- The wording of the error. -/
def UsageError.message : UsageError → Text
  | .unknownOption option => "no such option: ".toList ++ option.escaped
  | .missingValue option => "a value is missing for option: ".toList ++ option
  | .unexpectedValue option => "a value is given to option: ".toList ++ option
  | .missingCommand => "missing command".toList
  | .unknownCommand name => "no such command: ".toList ++ name.escaped
  | .missingArgument name => "missing argument: ".toList ++ name
  | .extraArguments => "too many arguments".toList
  | .badValue name => "invalid value for: ".toList ++ name
  | .noPlace => "no notes location given and none configured".toList
  | .verbosityConflict => "--verbose and --quiet are mutually exclusive".toList

/-- The words of a command, taken apart. -/
structure Words where
  /-- The options by their long names, with their values, in order. -/
  options : List (Text × RawText) := []
  arguments : List RawText := []

namespace Words

/-- The value of the last option of that name. -/
def value? (words : Words) (name : String) : Option RawText :=
  words.options.reverse.lookup name.toList

/-- The values of all options of that name. -/
def values (words : Words) (name : String) : List RawText :=
  (words.options.filter (·.1 = name.toList)).map Prod.snd

/-- Whether an option of that name is given. -/
def has (words : Words) (name : String) : Bool := (words.value? name).isSome

end Words

/-- What one word of options says: the options that are complete, and one whose value is the next
word. -/
structure OptionWord where
  complete : List (Text × RawText)
  pending : Option Text := none

namespace OptionForm

/-- The sign that begins an option. -/
def hyphen : RawChar := .char '-'

/-- What the letters behind one hyphen say. -/
def readLetters (forms : List OptionForm) : RawText → Except UsageError OptionWord
  | [] => .ok ⟨[], none⟩
  | c :: rest =>
    match forms.find? (·.short.map .char = some c) with
    | none => .error (.unknownOption [hyphen, c])
    | some form =>
      if form.takesValue then
        if rest.isEmpty then .ok ⟨[], some form.long⟩ else .ok ⟨[(form.long, rest)], none⟩
      else (readLetters forms rest).map fun word =>
        { word with complete := (form.long, []) :: word.complete }

/-- What the text behind two hyphens says. -/
def readLong (forms : List OptionForm) (s : RawText) : Except UsageError OptionWord :=
  let (name, value) := match Text.cutAt? (.char '=') s with
    | some (name, value) => (name, some value)
    | none => (s, none)
  match forms.find? (RawText.ofText ·.long = name), value with
  | none, _ => .error (.unknownOption (hyphen :: hyphen :: name))
  | some form, some value =>
    if form.takesValue then .ok ⟨[(form.long, value)], none⟩
    else .error (.unexpectedValue form.long)
  | some form, none =>
    if form.takesValue then .ok ⟨[], some form.long⟩ else .ok ⟨[(form.long, [])], none⟩

/-- What the word says, if it is one of options. -/
def readWord? (forms : List OptionForm) (word : RawText) :
    Option (Except UsageError OptionWord) :=
  match word with
  | .char '-' :: .char '-' :: s => some (readLong forms s)
  | .char '-' :: c :: s => some (readLetters forms (c :: s))
  | _ => none

/-- The words taken apart. Where options do not mix with arguments, all words from the first
argument on are arguments. -/
def read (forms : List OptionForm) (mixed : Bool) : List RawText → Except UsageError Words
  | [] => .ok {}
  | word :: rest =>
    if word = [hyphen, hyphen] then .ok { arguments := rest }
    else match readWord? forms word with
      | none =>
        if mixed then
          (read forms mixed rest).map fun words =>
            { words with arguments := word :: words.arguments }
        else .ok { arguments := word :: rest }
      | some (.error e) => .error e
      | some (.ok ⟨complete, none⟩) =>
        (read forms mixed rest).map fun words =>
          { words with options := complete ++ words.options }
      | some (.ok ⟨complete, some name⟩) =>
        match rest with
        | [] => .error (.missingValue name)
        | value :: rest =>
          (read forms mixed rest).map fun words =>
            { words with options := complete ++ (name, value) :: words.options }

end OptionForm

end Checklist
