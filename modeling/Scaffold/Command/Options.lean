import Scaffold.Shape.Reading

/-!
# Options on a command line

The words of a command line, the options they name, and what the options take. Long options may
be shortened as long as they stay unique, a value may follow with `=` or, after a short option,
directly, and short options without values may be joined.
-/

namespace Scaffold

/-- How many words an option takes. -/
inductive Arity where
  | none
  | one
  | atMostOne
  deriving DecidableEq

/-- An option. -/
structure CommandOption where
  /-- Its spellings, each with its dashes. -/
  names : List String
  arity : Arity
  /-- Must its value be an integer? -/
  isInteger : Bool
  /-- Options of one group exclude each other; group zero excludes nothing. -/
  group : Nat
  /-- Does it end the command line at once? -/
  isFinal : Bool
  deriving DecidableEq

namespace CommandOption

/-- All spellings in one text. -/
def title (o : CommandOption) : String := "/".intercalate o.names

/-- An option without a value. -/
def flag (names : List String) (group : Nat) : CommandOption :=
  ⟨names, .none, false, group, false⟩

/-- An option that ends the command line. -/
def final (names : List String) : CommandOption := ⟨names, .none, false, 0, true⟩

/-- An option with a value. -/
def setting (names : List String) (group : Nat) : CommandOption :=
  ⟨names, .one, false, group, false⟩

end CommandOption

/-- What can be wrong with a command line. -/
inductive ArgumentError where
  | ambiguous (word : String) (names : List String)
  | noValue (o : CommandOption)
  | extraValue (o : CommandOption) (value : String)
  | notInteger (o : CommandOption) (value : String)
  | excluded (o other : CommandOption)
  | missing (title : String)
  | unknownCommand (word : String) (known : List String)
  | unrecognized (words : List String)
  deriving DecidableEq

def ArgumentError.message : ArgumentError → String
  | .ambiguous word names =>
    let joined := ", ".intercalate names
    s!"ambiguous option: {word} could match {joined}"
  | .noValue o => s!"argument {o.title}: expected one argument"
  | .extraValue o value =>
    s!"argument {o.title}: ignored explicit argument {Value.textLiteral value}"
  | .notInteger o value => s!"argument {o.title}: invalid int value: {Value.textLiteral value}"
  | .excluded o other => s!"argument {o.title}: not allowed with argument {other.title}"
  | .missing title => s!"the following arguments are required: {title}"
  | .unknownCommand word known =>
    let joined := ", ".intercalate (known.map Value.textLiteral)
    s!"argument COMMAND: invalid choice: {Value.textLiteral word} (choose from {joined})"
  | .unrecognized words =>
    let joined := " ".intercalate words
    s!"unrecognized arguments: {joined}"

/-- What ends the reading of a command line early. -/
inductive CommandStop where
  | shown (o : CommandOption)
  | wrong (e : ArgumentError)
  deriving DecidableEq

/-- A word of a command line. -/
inductive CommandWord where
  | operand (text : String)
  /-- Two dashes, after which there are operands only. -/
  | separator
  /-- A known option under the spelling `name`, with a value that is joined to it. -/
  | known (o : CommandOption) (name : String) (value : Option String) (written : String)
  | unknown (written : String)
  deriving DecidableEq

def CommandWord.written : CommandWord → String
  | .operand text => text
  | .separator => "--"
  | .known _ _ _ written => written
  | .unknown written => written

namespace CommandWord

open Text

/-- The option with the given spelling. -/
def named? (options : List CommandOption) (name : String) : Option CommandOption :=
  options.find? (·.names.contains name)

/-- All spellings of all options. -/
def spellings (options : List CommandOption) : List (CommandOption × String) :=
  options.flatMap fun o ↦ o.names.map fun name ↦ (o, name)

/-- A word before its first equals sign, and after it if there is one. -/
def splitValue (word : String) : String × Option String :=
  if word.toList.contains '=' then
    let (name, value) := cutFirst '=' word
    (name, some value)
  else (word, none)

/-- The options that a shortened word may mean, with the values joined to it. -/
def candidates (options : List CommandOption) (word : String) :
    List (CommandOption × String × Option String) :=
  if startsWith word "--" then
    let (name, value) := splitValue word
    ((spellings options).filter fun s ↦ startsWith s.2 name).map fun (o, name) ↦ (o, name, value)
  else
    let short := String.ofList (word.toList.take 2)
    (spellings options).filterMap fun (o, name) ↦
      if name == short then some (o, name, some (dropChars 2 word))
      else if startsWith name word then some (o, name, none)
      else none

/-- Is the word a number below zero? -/
def isNegativeNumber (word : String) : Bool :=
  match word.toList with
  | '-' :: rest =>
    let whole := rest.takeWhile isDecimalDigit
    match rest.drop whole.length with
    | [] | ['\n'] => !whole.isEmpty
    | '.' :: places =>
      let digits := places.takeWhile isDecimalDigit
      !digits.isEmpty && (digits == places || digits ++ ['\n'] == places)
    | _ => false
  | _ => false

/-- Tells what a word is. -/
def ofText (options : List CommandOption) (word : String) : Except ArgumentError CommandWord :=
  if !startsWith word "-" || word == "-" then .ok (.operand word)
  else
    match named? options word with
    | some o => .ok (.known o word none word)
    | none =>
      let (name, value) := splitValue word
      match named? options name, value with
      | some o, some _ => .ok (.known o name value word)
      | _, _ =>
        match candidates options word with
        | [(o, name, value)] => .ok (.known o name value word)
        | [] =>
          if isNegativeNumber word || word.toList.contains ' ' then .ok (.operand word)
          else .ok (.unknown word)
        | several => .error (.ambiguous word (several.map (·.2.1)))

/-- Tells what the words of a command line are. -/
def ofTexts (options : List CommandOption) : List String → Except ArgumentError (List CommandWord)
  | [] => .ok []
  | "--" :: rest => .ok (.separator :: rest.map .operand)
  | word :: rest => do return (← ofText options word) :: (← ofTexts options rest)

end CommandWord

/-- An option that is used, and its value. -/
structure OptionUse where
  option : CommandOption
  value : Option String
  deriving DecidableEq

namespace OptionUse

/-- Takes apart an option and the text joined to it: options without values, the last option,
and the value that is joined to that. Short options without values may be followed by further
ones. -/
def takeApart (options : List CommandOption) :
    Nat → CommandOption → String → Option String →
      Except ArgumentError (List CommandOption × CommandOption × Option String)
  | _, o, _, none => .ok ([], o, none)
  | 0, o, _, some value => .error (.extraValue o value)
  | fuel + 1, o, name, some value =>
    match o.arity, value.toList with
    | .none, c :: rest =>
      let next := String.ofList ['-', c]
      match CommandWord.named? options next with
      | none => .error (.extraValue o value)
      | some p =>
        if Text.startsWith name "--" then .error (.extraValue o value)
        else
          let more := if rest.isEmpty then none else some (String.ofList rest)
          (takeApart options fuel p next more).map fun (flags, last, v) ↦ (o :: flags, last, v)
    | .none, [] => .error (.extraValue o value)
    | _, _ => .ok ([], o, some value)

/-- Reads digits of any script, with single underscores between them. -/
def natural? (s : List Char) : Option Nat :=
  if Text.maxDigits < s.countP Text.isDecimalDigit then none
  else Text.digitRun? Text.digitValue? s 0

/-- Reads an integer with an optional sign. -/
def integer? (s : String) : Option Int :=
  match Text.trim Text.isSpacing s.toList with
  | '-' :: rest => (natural? rest).map fun n ↦ -(n : Int)
  | '+' :: rest => (natural? rest).map Int.ofNat
  | rest => (natural? rest).map Int.ofNat

/-- Checks that no earlier use excludes a use. -/
def checkGroup (earlier : List OptionUse) (u : OptionUse) : Except CommandStop Unit :=
  match earlier.find? fun e ↦
      u.option.group != 0 && e.option.group == u.option.group && e.option != u.option with
  | some e => .error (.wrong (.excluded u.option e.option))
  | none => .ok ()

/-- Checks the value of a use. -/
def checkValue (u : OptionUse) : Except CommandStop Unit :=
  match u.value with
  | some v =>
    if u.option.isInteger && (integer? v).isNone then .error (.wrong (.notInteger u.option v))
    else .ok ()
  | none => .ok ()

/-- Adds uses to earlier ones. -/
def addAll (earlier : List OptionUse) : List OptionUse → Except CommandStop (List OptionUse)
  | [] => .ok earlier
  | u :: rest => do
    checkValue u
    checkGroup earlier u
    if u.option.isFinal then throw (.shown u.option)
    addAll (earlier ++ [u]) rest

end OptionUse

/-- What is expected beside the options. -/
inductive Operands where
  | nothing
  | one (title : String)
  /-- A word and all that follows it. -/
  | command (title : String)
  deriving DecidableEq

/-- What has been read of a command line. -/
structure CommandRead where
  uses : List OptionUse
  /-- The operand, and the words that belong to it if it is a command. -/
  operand : Option (String × List String)
  /-- Words that nothing was made of. -/
  extra : List String
  deriving DecidableEq

namespace CommandRead

def empty : CommandRead := ⟨[], none, []⟩

/-- Adds an option, the flags joined in front of it and its value. -/
def addOption (r : CommandRead) (flags : List CommandOption) (last : CommandOption)
    (value : Option String) : Except CommandStop CommandRead :=
  (OptionUse.addAll r.uses (flags.map (⟨·, none⟩) ++ [⟨last, value⟩])).map fun uses ↦
    { r with uses }

/-- Reads the words of a command line. -/
def words (options : List CommandOption) (expected : Operands) :
    List CommandWord → CommandRead → Except CommandStop CommandRead
  | [], r => .ok r
  | .unknown w :: rest, r => words options expected rest { r with extra := r.extra ++ [w] }
  | .known o name value written :: rest, r =>
    match OptionUse.takeApart options written.length o name value with
    | .error e => .error (.wrong e)
    | .ok (flags, last, value) =>
      match last.arity, value, rest with
      | .one, none, .operand v :: rest | .atMostOne, none, .operand v :: rest => do
        words options expected rest (← r.addOption flags last (some v))
      | .one, none, _ => .error (.wrong (.noValue last))
      | _, value, rest => do words options expected rest (← r.addOption flags last value)
  | .separator :: .operand w :: rest, r =>
    match expected, r.operand with
    | .one _, none => words options expected rest { r with operand := some (w, []) }
    | .command _, none => .ok { r with operand := some ("--", w :: rest.map CommandWord.written) }
    | _, _ => words options expected rest { r with extra := r.extra ++ ["--", w] }
  | .separator :: rest, r => words options expected rest { r with extra := r.extra ++ ["--"] }
  | .operand w :: rest, r =>
    match expected, r.operand, rest with
    | .one _, none, .separator :: rest => words options expected rest { r with operand := some (w, []) }
    | .one _, none, rest => words options expected rest { r with operand := some (w, []) }
    | .command _, none, rest => .ok { r with operand := some (w, rest.map CommandWord.written) }
    | _, _, rest => words options expected rest { r with extra := r.extra ++ [w] }

/-- Reads a command line. -/
def ofTexts (options : List CommandOption) (expected : Operands) (texts : List String) :
    Except CommandStop CommandRead := do
  let ws ← (CommandWord.ofTexts options texts).mapError .wrong
  let r ← words options expected ws empty
  match expected, r.operand with
  | .one title, none | .command title, none => throw (.wrong (.missing title))
  | _, _ => return r

/-- The value of the last use of an option. -/
def value? (r : CommandRead) (name : String) : Option String :=
  (r.uses.reverse.find? fun u ↦ u.option.names.contains name).bind (·.value)

/-- How often an option is used. -/
def count (r : CommandRead) (name : String) : Nat :=
  r.uses.countP fun u ↦ u.option.names.contains name

def has (r : CommandRead) (name : String) : Bool := r.count name != 0

end CommandRead

end Scaffold
