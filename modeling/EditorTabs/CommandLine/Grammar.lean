import EditorTabs.Text.Digit
import EditorTabs.Text.Quoted

/-!
# Grammars of command lines

A command line is read by a grammar: its options, and either commands or any number of operands.
First every word is classified, then the words are taken from left to right. Names of long options
may be shortened as long as one option is meant, a value stands in the next word or after an equals
sign, and after two dashes every word is an operand. The operands have to stand together.

In two places option parsers changed over time, and the older reading is followed. Two dashes as the
value in an option's own word are taken away, so the option has no value; newer parsers keep them as
the value. And a word of letters after a short option is an error as a whole when one of the letters
names no option; newer parsers first carry out the options before that letter.
-/
namespace EditorTabs.CommandLine

/-- An option: its names, whether it takes a value, and which values; no choices means any. An
option with a short name takes no value. -/
structure OptionSpec where
  names : List Text
  takesValue : Bool
  choices : List Text := []
  deriving DecidableEq, Repr

def helpOption : OptionSpec := { names := ["-h", "--help"], takesValue := false }

inductive Misuse where
  | ambiguous (word : Text) (names : List Text)
  | expectedValue (option : OptionSpec)
  | ignoredValue (option : OptionSpec) (value : Text)
  | wrongChoice (argument value : Text) (choices : List Text)
  | unrecognized (words : List Text)
  deriving DecidableEq, Repr

def OptionSpec.title (option : OptionSpec) : Text :=
  Text.separated "/" option.names

def Misuse.message : Misuse → Text
  | .ambiguous word names =>
    "ambiguous option: " ++ word ++ " could match " ++ Text.separated ", " names
  | .expectedValue option => "argument " ++ option.title ++ ": expected one argument"
  | .ignoredValue option value =>
    "argument " ++ option.title ++ ": ignored explicit argument " ++ Text.quote value
  | .wrongChoice argument value choices =>
    "argument " ++ argument ++ ": invalid choice: " ++ Text.quote value ++ " (choose from "
      ++ Text.separated ", " (choices.map Text.quote) ++ ")"
  | .unrecognized words => "unrecognized arguments: " ++ Text.separated " " words

/-- The grammar of a program or of one of its commands: the lines of its usage and of the help
after it, its options, and its commands. Without commands it takes operands. -/
structure Grammar where
  program : Text
  usage : List Text
  description : List Text
  options : List OptionSpec
  commands : List Text := []
  deriving DecidableEq, Repr

inductive Stop where
  | help (grammar : Grammar)
  | misuse (grammar : Grammar) (misuse : Misuse)
  deriving DecidableEq, Repr

/-! ## Words -/

/-- What a word is. An option comes with the name it was found by and the value in the same
word. -/
inductive Role where
  | operand
  | dashes
  | unknown
  | option (option : OptionSpec) (name : Text) (value : Option Text)
  deriving DecidableEq, Repr

structure Word where
  text : Text
  role : Role
  deriving DecidableEq, Repr

def Word.isOption (word : Word) : Bool :=
  match word.role with
  | .unknown | .option _ _ _ => true
  | .operand | .dashes => false

abbrev dash : CodePoint := '-'

abbrev equalsSign : CodePoint := '='

/-- The word after which every word is an operand. -/
def twoDashes : Text := [dash, dash]

def splitEquals (word : Text) : Text × Option Text :=
  match word.dropWhile (· ≠ equalsSign) with
  | [] => (word, none)
  | _ :: after => (word.takeWhile (· ≠ equalsSign), some after)

def isNumeral (s : Text) : Bool :=
  s ≠ [] && s.all Text.isDecimal

/-- A word that reads as a negative number, with or without a line end after it. -/
def looksNegative (word : Text) : Bool :=
  match if word.getLast? = some '\n' then word.dropLast else word with
  | .char '-' :: rest =>
    isNumeral rest ||
      match rest.dropWhile Text.isDecimal with
      | .char '.' :: places => isNumeral places
      | _ => false
  | _ => false

namespace Grammar

def named (grammar : Grammar) : List (Text × OptionSpec) :=
  grammar.options.flatMap fun option => option.names.map (·, option)

def find? (grammar : Grammar) (name : Text) : Option OptionSpec :=
  (grammar.named.find? fun entry => entry.1 = name).map (·.2)

/-- The options a word may mean when its name is shortened: after two dashes the options whose
names start with it, after one dash also the option of its first letter with the rest as value. -/
def expansions (grammar : Grammar) (word : Text) : List (Text × Role) :=
  if twoDashes.isPrefixOf word then
    let (start, value) := splitEquals word
    grammar.named.filterMap fun (name, option) =>
      if start.isPrefixOf name then some (name, .option option name value) else none
  else
    grammar.named.filterMap fun (name, option) =>
      if name = word.take 2 then some (name, .option option name (some (word.drop 2)))
      else if word.isPrefixOf name then some (name, .option option name none)
      else none

def classifyShortened (grammar : Grammar) (word : Text) : Except Misuse Role :=
  match grammar.expansions word with
  | [] => if looksNegative word || word.contains ' ' then .ok .operand else .ok .unknown
  | [(_, role)] => .ok role
  | several => .error (.ambiguous word (several.map (·.1)))

def classify (grammar : Grammar) (word : Text) : Except Misuse Role :=
  if word.head? ≠ some dash then .ok .operand
  else
    match grammar.find? word with
    | some option => .ok (.option option word none)
    | none =>
      if word = [dash] then .ok .operand
      else
        let (start, value) := splitEquals word
        match value, grammar.find? start with
        | some value, some option => .ok (.option option start (some value))
        | _, _ => grammar.classifyShortened word

/-- What the words of a command line are; all of them are classified before any is taken. -/
def classifyAll (grammar : Grammar) : List Text → Except Misuse (List Word)
  | [] => .ok []
  | text :: rest =>
    if text = twoDashes then .ok (⟨text, .dashes⟩ :: rest.map (⟨·, .operand⟩))
    else
      match grammar.classify text with
      | .error misuse => .error misuse
      | .ok role =>
        match grammar.classifyAll rest with
        | .error misuse => .error misuse
        | .ok words => .ok (⟨text, role⟩ :: words)

end Grammar

/-! ## Reading -/

/-- What a command line says: the options that were given, the values of those that take one, the
operands, the command with the words after it, and the words that mean nothing here. An option may
have been given no value at all in the place of one. -/
structure Reading where
  switches : List OptionSpec := []
  values : List (OptionSpec × Option Text) := []
  operands : List Text := []
  hadOperands : Bool := false
  command : Option (Text × List Text) := none
  extras : List Text := []
  deriving DecidableEq, Repr

namespace Reading

def has (reading : Reading) (option : OptionSpec) : Bool :=
  reading.switches.contains option

def valuesOf (reading : Reading) (option : OptionSpec) : List (Option Text) :=
  (reading.values.filter (·.1 = option)).map (·.2)

def lastOf? (reading : Reading) (option : OptionSpec) : Option (Option Text) :=
  (reading.valuesOf option).getLast?

def skip (reading : Reading) (text : Text) : Reading :=
  { reading with extras := reading.extras ++ [text] }

end Reading

namespace Grammar

def takeSwitch (grammar : Grammar) (option : OptionSpec) (reading : Reading) :
    Except Stop Reading :=
  if option = helpOption then .error (.help grammar)
  else .ok { reading with switches := reading.switches ++ [option] }

/-- An option with its value. Two dashes leave it without one, as older parsers do. -/
def takeValue (grammar : Grammar) (option : OptionSpec) (value : Text) (reading : Reading) :
    Except Stop Reading :=
  if value = twoDashes then .ok { reading with values := reading.values ++ [(option, none)] }
  else if option.choices = [] ∨ value ∈ option.choices then
    .ok { reading with values := reading.values ++ [(option, some value)] }
  else .error (.misuse grammar (.wrongChoice option.title value option.choices))

/-- A short option and those of the letters after it. All of them have to be options before any of
them is carried out, as in older parsers: a help option in front does not count yet. -/
def letters (grammar : Grammar) (option : OptionSpec) : Text → Except Misuse (List OptionSpec)
  | [] => .ok [option]
  | c :: rest =>
    match grammar.find? [dash, c] with
    | none => .error (.ignoredValue option (c :: rest))
    | some next =>
      match grammar.letters next rest with
      | .error misuse => .error misuse
      | .ok options => .ok (option :: options)

def takeSwitches (grammar : Grammar) : List OptionSpec → Reading → Except Stop Reading
  | [], reading => .ok reading
  | option :: rest, reading =>
    match grammar.takeSwitch option reading with
    | .error stop => .error stop
    | .ok after => grammar.takeSwitches rest after

/-- An option without a value that has one in its own word. It is an error, unless the value is made
of letters of short options. -/
def takeJoined (grammar : Grammar) (option : OptionSpec) (name value : Text) (reading : Reading) :
    Except Stop Reading :=
  if value = [] ∨ twoDashes.isPrefixOf name then
    .error (.misuse grammar (.ignoredValue option value))
  else
    match grammar.letters option value with
    | .error misuse => .error (.misuse grammar misuse)
    | .ok options => grammar.takeSwitches options reading

def takeCommand (grammar : Grammar) (text : Text) (rest : List Word) (reading : Reading) :
    Except Stop Reading :=
  if text ∈ grammar.commands then
    .ok { reading with command := some (text, rest.map Word.text) }
  else .error (.misuse grammar (.wrongChoice "command" text grammar.commands))

def take (grammar : Grammar) : List Word → Reading → Except Stop Reading
  | [], reading => .ok reading
  | word :: rest, reading =>
    match word.role with
    | .unknown => grammar.take rest (reading.skip word.text)
    | .option option name value =>
      match value with
      | some value =>
        let taken :=
          if option.takesValue then grammar.takeValue option value reading
          else grammar.takeJoined option name value reading
        match taken with
        | .error stop => .error stop
        | .ok after => grammar.take rest after
      | none =>
        if option.takesValue then
          match rest with
          | ⟨value, .operand⟩ :: others =>
            match grammar.takeValue option value reading with
            | .error stop => .error stop
            | .ok after => grammar.take others after
          | _ => .error (.misuse grammar (.expectedValue option))
        else
          match grammar.takeSwitch option reading with
          | .error stop => .error stop
          | .ok after => grammar.take rest after
    | .operand | .dashes =>
      if grammar.commands = [] then
        if reading.hadOperands then grammar.take rest (reading.skip word.text)
        else
          let together := (word :: rest).takeWhile fun w => !w.isOption
          grammar.take (rest.dropWhile fun w => !w.isOption)
            { reading with
              hadOperands := true,
              operands := (together.map Word.text).erase twoDashes }
      else if word.role = .dashes ∧ rest = [] then .ok (reading.skip word.text)
      else grammar.takeCommand word.text rest reading
  termination_by words => words.length
  decreasing_by
    all_goals simp only [List.length_cons]
    all_goals try omega
    have := (List.dropWhile_sublist (fun w : Word => !w.isOption) (l := rest)).length_le
    omega

def read (grammar : Grammar) (texts : List Text) : Except Stop Reading :=
  match grammar.classifyAll texts with
  | .error misuse => .error (.misuse grammar misuse)
  | .ok words => grammar.take words {}

end Grammar

end EditorTabs.CommandLine
