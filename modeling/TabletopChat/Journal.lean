import TabletopChat.Text.Basic

/-!
# Journal — what is said besides the result

- `Subject`  : the part of the program that says something
- `Entry`    : a remark, or text shown to whoever answers prompts
- `Journal`  : all of it, in order
-/

namespace TabletopChat

inductive Subject
  | dice | evaluation | hooks | references | prompts | pipeline | store
  deriving DecidableEq, Repr

def Subject.name : Subject → Text
  | .dice => "chatmacro.dice".toList
  | .evaluation => "chatmacro.eval".toList
  | .hooks => "chatmacro.hooks".toList
  | .references => "chatmacro.references".toList
  | .prompts => "chatmacro.prompts".toList
  | .pipeline => "chatmacro.pipeline".toList
  | .store => "chatmacro.store".toList

/-- How much a remark matters: details are shown on request only. -/
inductive Level
  | detail | warning
  deriving DecidableEq, Repr

def Level.name : Level → Text
  | .detail => "DEBUG".toList
  | .warning => "WARNING".toList

inductive Entry
  | remark (level : Level) (subject : Subject) (message : Text)
  | shown (t : Text)
  deriving DecidableEq, Repr

/-- What was said, the latest first. -/
abbrev Journal := List Entry

namespace Journal

def warn (subject : Subject) (message : Text) (j : Journal) : Journal :=
  .remark .warning subject message :: j

def detail (subject : Subject) (message : Text) (j : Journal) : Journal :=
  .remark .detail subject message :: j

def line (level : Level) (subject : Subject) (message : Text) : Text :=
  level.name ++ ' ' :: subject.name ++ ": ".toList ++ message

def entryText (details : Bool) : Entry → Text
  | .remark .warning subject message => line .warning subject message ++ ['\n']
  | .remark .detail subject message =>
    if details then line .detail subject message ++ ['\n'] else []
  | .shown t => t

def render (details : Bool) (j : Journal) : Text := j.reverse.flatMap (entryText details)

end Journal

end TabletopChat
