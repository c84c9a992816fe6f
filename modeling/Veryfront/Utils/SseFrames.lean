import Veryfront.Lib.Split
import Veryfront.Utils.Text

/-!
# Frames of an event stream

Line ends are made LF first. Two of them end a frame.
-/

namespace Veryfront

open Lib

def replaceCrlf : Text → Text
  | 13 :: 10 :: rest => lf :: replaceCrlf rest
  | c :: rest => c :: replaceCrlf rest
  | [] => []

/-- Each CRLF becomes an LF, and then each CR that is left. -/
def normalizeNewlines (value : Text) : Text := (replaceCrlf value).map fun c => if c = cr then lf else c

def frameSeparator : Separator Nat := fixedSeparator lf [lf]

def splitSseFrames (value : Text) : List Text × Text := (frameSeparator.complete value, frameSeparator.remainder value)

def isCommentOnlySseFrame (raw : Text) : Bool :=
  (raw.splitOn lf).all fun line => (Text.trim line).isEmpty || (Text.trimStart line).startsWith ":"

end Veryfront
