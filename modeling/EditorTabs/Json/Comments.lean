import EditorTabs.Text.Basic

/-!
# Comments in configuration texts

Configuration files may hold comments of two sorts: from two slashes to the end of the line, and
between a slash with a star and a star with a slash. Inside a quoted text neither is a comment. A
comment that is not closed takes the rest of the text with it.
-/
namespace EditorTabs.Json

inductive Region where
  | code
  | quoted
  | afterBackslash
  | lineComment
  | blockComment
  deriving DecidableEq, Repr

/-- A text without its comments, from a region on. The line feed after a line comment is no
part of the comment. -/
def stripFrom : Region → Text → Text
  | _, [] => []
  | .code, .char '/' :: .char '/' :: rest => stripFrom .lineComment rest
  | .code, .char '/' :: .char '*' :: rest => stripFrom .blockComment rest
  | .code, c :: rest => c :: stripFrom (if c = '"' then .quoted else .code) rest
  | .quoted, c :: rest =>
    c :: stripFrom (if c = '\\' then .afterBackslash else if c = '"' then .code else .quoted) rest
  | .afterBackslash, c :: rest => c :: stripFrom .quoted rest
  | .lineComment, c :: rest =>
    if c = '\n' then c :: stripFrom .code rest else stripFrom .lineComment rest
  | .blockComment, .char '*' :: .char '/' :: rest => stripFrom .code rest
  | .blockComment, _ :: rest => stripFrom .blockComment rest

def stripComments (s : Text) : Text :=
  stripFrom .code s

end EditorTabs.Json
