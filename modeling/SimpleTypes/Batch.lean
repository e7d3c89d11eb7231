import SimpleTypes.Inference
import SimpleTypes.Ty.Normalized

/-!
# Typing a text line by line

Every line is trimmed and answered on its own. Empty lines and remarks are
answered by themselves; every other line is followed by its type, with letters
for type variables, or by what is wrong with it.
-/

namespace SimpleTypes.Batch

/-- A line that holds no term: an empty one, or one that begins with `#`. -/
def isRemark (line : String) : Bool :=
  match line.toList with
  | [] => true
  | c :: _ => c == '#'

def verdict (line : String) : String :=
  match parse line with
  | .error error => "PARSE ERROR: " ++ error.message
  | .ok term =>
    match term.inferType with
    | .ok ty => ty.normalized
    | .error _ => noTypeText

def answerTrimmed (line : String) : String :=
  if isRemark line then line else line ++ " : " ++ verdict line

def answer (line : String) : String := answerTrimmed (Text.trim line)

def answers (content : String) : List String := (Text.lines content).map answer

/-- The answers as they are written to a file. -/
def fileText (answers : List String) : String := "\n".intercalate answers ++ "\n"

end SimpleTypes.Batch
