import Glob.Pattern
import Glob.Search.Walk
import Glob.Search.Stream

/-! Searching a file tree for the entries that a matcher or lists of patterns select. -/

namespace Glob

namespace Search

def explore (tree : FileTree) (settings : Settings) (matcher : Matcher) (base : Path) : Trace :=
  walk tree settings matcher (.first base)

def Trace.toStream (trace : Trace) : Stream :=
  let sent := Stream.send {} (trace.reported.map .ok)
  match trace.ending with
  | .finished => sent.close .finished
  | .failed error => (sent.send [.error error]).close .finished
  | .brokenDown => sent.close .brokenDown

/-- The stream of a search that is given up before its task comes to run. -/
def Stream.cancelled : Stream :=
  Stream.close {} .cancelled

/-- Whether some pattern matches a relative path. That of a directory, which ends with a slash, is
tried without it as well. -/
def matchesAny (patterns : List Pattern) (relative : List Char) : Bool :=
  patterns.any fun pattern =>
    relative.getLast? == some '/' && pattern.acceptsChars relative.dropLast ||
      pattern.acceptsChars relative

/-- The matcher that reports what some pattern in `included` matches, or everything if there is
none, and stays out of what some pattern in `excluded` matches. -/
def selecting (included excluded : List Pattern) : Matcher := fun _ relative =>
  if matchesAny excluded relative.toList then some .prune
  else if included.isEmpty || matchesAny included relative.toList then some .accept
  else some .ignore

end Search

end Glob
