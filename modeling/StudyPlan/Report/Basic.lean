import StudyPlan.Grammar.Construct
import StudyPlan.Settings
import StudyPlan.Source.Lexing

/-!
# Analysing a source

The whole way from a source to a report.  A source that is empty or longer than the
settings allow is rejected without being looked at.  Any other source gets a
report: of its lexical faults, if it has any; else of the curriculum that its tokens
describe, or of the syntax error that they hold.

The settings decide only whether the tokens are listed in the report.  They do not
change the verdict on a source that they let through.
-/

namespace StudyPlan

/-- Why a source is not analysed at all. -/
inductive Rejection where
  | emptyInput
  | tooLarge (length limit : Nat)
  deriving DecidableEq, Repr

/-- Why a source is not analysed, in words. -/
def Rejection.message : Rejection → String
  | emptyInput => "Input must be a non-empty string"
  | tooLarge length limit => s!"Input is {length} bytes, the limit is {limit}"

/-- What an analysis has found.  The tokens are there if the settings ask for
them. -/
inductive Report where
  | lexicalFaults (faults : List Fault)
  | parsed (tokens : Option (List Token)) (curriculum : Curriculum)
  | syntaxError (tokens : Option (List Token)) (message : String) (line : Option Nat)
  deriving DecidableEq, Repr

namespace Report

/-- Did the source describe a curriculum? -/
def isSuccess : Report → Bool
  | parsed _ _ => true
  | _ => false

/-- The tokens that the report lists. -/
def tokens? : Report → Option (List Token)
  | lexicalFaults _ => none
  | parsed tokens _ => tokens
  | syntaxError tokens _ _ => tokens

/-- The curriculum that the source describes. -/
def curriculum? : Report → Option Curriculum
  | parsed _ curriculum => some curriculum
  | _ => none

end Report

/-- Why the settings do not let a source through, if they do not. -/
def Settings.rejection? (s : Settings) (source : String) : Option Rejection :=
  if source.isEmpty then some .emptyInput
  else match s.maxInputBytes with
  | none => none
  | some limit =>
    if limit.toNat < source.utf8ByteSize then
      some (.tooLarge source.utf8ByteSize limit.toNat)
    else none

/-- The report on the tokens and faults of a source, with the events of reading
them. -/
def Lexing.report (l : Lexing) (settings : Settings) : Logged Rejection Report :=
  let tokens := if settings.includeTokens then some l.tokens else none
  let lexed := Event.lexed l.tokens.length l.faults.length
  if l.isClean then
    match Curriculum.ofTokens l.tokens with
    | ⟨log, .ok c⟩ => ⟨lexed :: log, .ok (.parsed tokens c)⟩
    | ⟨log, .error e⟩ =>
      ⟨lexed :: log ++ [.refused e.message], .ok (.syntaxError tokens e.message e.line?)⟩
  else
    ⟨[lexed, .faulty l.faults.length], .ok (.lexicalFaults l.faults)⟩

/-- The report on a source, with the events on the way to it. -/
def analyze (settings : Settings) (source : String) : Logged Rejection Report :=
  match settings.rejection? source with
  | some r => ⟨[], .error r⟩
  | none => (lex source).report settings

end StudyPlan
