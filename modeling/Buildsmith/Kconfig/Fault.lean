import Buildsmith.FileTree.Basic
import Buildsmith.Text.Encoding

/-!
# Faults

A fault is a cause; `Fault.message` gives its wording.  `Problem` lists what can be wrong with a
single line of a description.
-/

namespace Buildsmith.Kconfig

/-- The blocks that need an end. -/
inductive Block where
  | choice
  | cond
  | menu
  deriving DecidableEq, Repr

def Block.opening : Block → String
  | choice => "choice"
  | cond => "if"
  | menu => "menu"

/-- What can be wrong with a line. -/
inductive Problem where
  | unknownStart
  | badAssignment
  | unknownTokens
  | unterminatedString
  | unclosedCall
  | blankName
  | recursiveVariable (name : String)
  | stuckFunction (name : String)
  | expectedSymbol
  | expectedNonconstant
  | expectedString
  | expectedPrompt
  | extraTokens
  | malformedExpression
  | badSymbolName
  | expectedOn
  | expectedIf
  | expectedEquals
  | unrecognizedOption
  | selectOutsideSymbol
  | implyOutsideSymbol
  | optionalOutsideChoice
  | allnoconfigOutsideSymbol
  | unmatchedEnd (b : Block)
  | unrecognizedConstruct
  deriving DecidableEq, Repr

def Problem.message : Problem → String
  | unknownStart => "unknown token at start of line"
  | badAssignment => "syntax error"
  | unknownTokens => "unknown tokens in line"
  | unterminatedString => "unterminated string"
  | unclosedCall => "missing end parenthesis in macro expansion"
  | blankName => "macro expanded to blank string"
  | recursiveVariable name => s!"Preprocessor variable {name} recursively references itself"
  | stuckFunction name => s!"Preprocessor function {name} seems stuck in infinite recursion"
  | expectedSymbol => "expected symbol"
  | expectedNonconstant => "expected nonconstant symbol"
  | expectedString => "expected string"
  | expectedPrompt => "expected prompt string"
  | extraTokens => "extra tokens at end of line"
  | malformedExpression => "malformed expression"
  | badSymbolName => "missing or bad symbol name"
  | expectedOn => "expected 'on' after 'depends'"
  | expectedIf => "expected 'if' after 'visible'"
  | expectedEquals => "expected '=' after 'env'"
  | unrecognizedOption => "unrecognized option"
  | selectOutsideSymbol => "only symbols can select"
  | implyOutsideSymbol => "only symbols can imply"
  | optionalOutsideChoice => "\"optional\" is only valid for choices"
  | allnoconfigOutsideSymbol => "the 'allnoconfig_y' option is only valid for symbols"
  | unmatchedEnd b => s!"no corresponding '{b.opening}'"
  | unrecognizedConstruct => "unrecognized construct"

/-- Where text that cannot be decoded comes from. -/
inductive TextOrigin where
  | file (path : String)
  | call (file : Option String) (line : Nat)
  deriving Repr

/-- Why reading or evaluating a configuration fails. -/
inductive Fault where
  /-- A line does not parse. -/
  | line (place : Option (String × Nat)) (text : String) (problem : Problem)
  /-- A preprocessor function is called with the wrong number of arguments. -/
  | argumentCount (file : Option String) (line : Nat) (function expected : String) (got : Nat)
  /-- A description asks for an error. -/
  | raised (file : Option String) (line : Nat) (text : String)
  /-- A file is read while it is being read. -/
  | recursiveSource (file : String) (line : Nat) (path : String) (trail : List (String × Nat))
  /-- No file matches a pattern. -/
  | sourceNotFound (file : String) (line : Nat) (pattern text : String) (srctree : String)
  /-- A file that exists cannot be opened. -/
  | cannotOpenSource (file : String) (line : Nat) (path text : String) (cause : FileCause)
  /-- A configuration file cannot be opened. -/
  | cannotOpenConfig (path : String) (cause : FileCause) (failedPath : String) (srctree : String)
  /-- A file ends inside a block. -/
  | unclosedBlock (b : Block) (file : String)
  /-- A default is not a symbol; the text says of what. -/
  | badDefault (text : String)
  /-- Items depend on themselves; the text describes them. -/
  | dependencyLoop (text : String)
  /-- Text cannot be decoded; the place is known. -/
  | malformedText (fault : Text.DecodeFault) (origin : TextOrigin)
  /-- Text cannot be decoded. -/
  | undecodable (fault : Text.DecodeFault)
  /-- Text cannot be encoded. -/
  | unencodable
  /-- An operation on the file tree fails. -/
  | file (fault : FileFault)
  /-- A statement does not apply to what it is said of. -/
  | inapplicable
  /-- The name of the file being read is needed where no file is read. -/
  | noFile
  /-- A number is needed, or is too long. -/
  | badNumber
  /-- A name that nothing has. -/
  | unknownName
  /-- A position that is out of bounds. -/
  | outOfRange
  /-- Evaluation does not end. -/
  | unbounded
  /-- A prompt is needed where there is none. -/
  | noPrompt
  /-- The lead of symbol names is no pattern. -/
  | badPattern
  /-- A pattern repeats something more often than can be counted. -/
  | tooLarge
  /-- A pattern asks for two alphabets. -/
  | alphabetConflict
  /-- An environment variable without a name is to be set. -/
  | namelessVariable
  /-- The program ends with a message. -/
  | exit (text : String)

def describeSrctree (srctree : String) : String :=
  if srctree.isEmpty then "unset or blank" else s!"set to '{srctree}'"

def placeText (place : String × Nat) : String :=
  place.1 ++ ":" ++ Text.Integer.natText place.2

def someplaceText (file : Option String) (line : Nat) : String :=
  placeText (file.getD "None", line)

def Fault.message : Fault → String
  | .line place text problem =>
    let lead := match place with
      | some p => placeText p ++ ": "
      | none => ""
    lead ++ "couldn't parse '" ++ text ++ "': " ++ problem.message
  | .argumentCount f n function expected got =>
    someplaceText f n ++ ": bad number of arguments in call to " ++ function ++
      ", expected " ++ expected ++ ", got " ++ Text.Integer.natText got
  | .raised f n text => someplaceText f n ++ ": " ++ text
  | .recursiveSource f n path trail =>
    "\n" ++ placeText (f, n) ++ ": recursive 'source' of '" ++ path ++
      "' detected. Check that environment variables are set correctly.\nInclude path:\n" ++
      String.intercalate "\n" (trail.map placeText)
  | .sourceNotFound f n pattern text srctree =>
    placeText (f, n) ++ ": '" ++ pattern ++ "' not found (in '" ++ text ++
      "'). Check that environment variables are set correctly (e.g. $srctree, which is " ++
      describeSrctree srctree ++
      "). Also note that unset environment variables expand to the empty string."
  | .cannotOpenSource f n path text cause =>
    placeText (f, n) ++ ": Could not open '" ++ path ++ "' (in '" ++ text ++ "') (" ++
      cause.code ++ ": " ++ cause.message ++ ")"
  | .cannotOpenConfig path cause _ srctree =>
    "Could not open '" ++ path ++ "' (" ++ cause.code ++ ": " ++ cause.message ++
      "). Check that the $srctree environment variable (" ++ describeSrctree srctree ++
      ") is set correctly."
  | .unclosedBlock b f => s!"expected 'end{b.opening}' at end of '{f}'"
  | .badDefault text => text
  | .dependencyLoop text => text
  | .malformedText fault origin =>
    let source := match origin with
      | .file path => s!"'{path}'"
      | .call f n => "output from macro at " ++ someplaceText f n
    "\nMalformed " ++ fault.encoding.name ++ " in " ++ source ++ "\nContext: " ++
      Text.ByteLiteral.render fault.context ++ "\nProblematic data: " ++
      Text.ByteLiteral.render fault.culprit ++ "\nReason: " ++ fault.reason.message
  | .undecodable fault => fault.reason.message
  | .unencodable => "text cannot be encoded"
  | .file (.failed cause path) => cause.message ++ ": " ++ path
  | .file .nulInPath => "embedded null byte"
  | .inapplicable => "statement does not apply here"
  | .noFile => "no file is being read"
  | .badNumber => "not a number"
  | .unknownName => "unknown name"
  | .outOfRange => "position out of range"
  | .unbounded => "evaluation does not end"
  | .noPrompt => "no prompt"
  | .badPattern => "malformed pattern"
  | .tooLarge => "the repetition number is too large"
  | .alphabetConflict => "two alphabets for one pattern"
  | .namelessVariable => FileCause.invalid.message
  | .exit text => text

end Buildsmith.Kconfig
