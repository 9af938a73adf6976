import MonkeySource.File.Directory
import MonkeySource.Text.Newline
import MonkeySource.Text.Utf8
import MonkeySource.Tokenize

set_option autoImplicit false

/-!
# Tokens of a file

A file is read as strict UTF-8 with its line ends made uniform; what comes out is scanned as a
text under the path it was asked for by. Offsets count in that text and not in the file.
-/

namespace MonkeySource

/-- Why a file gives no tokens: it is not there, it is no text, or a strict scan refused it. -/
inductive FileError where
  | unreadable (path : String) (fault : PathFault)
  | undecodable (fault : Text.Utf8.Fault)
  | rejected (error : LexicalError)
  deriving DecidableEq, Repr

def FileError.message : FileError → String
  | .unreadable _ .nullCharacter => "embedded null byte"
  | .unreadable path .missing => "[Errno 2] No such file or directory: " ++ Text.quote path
  | .unreadable path .isDirectory => "[Errno 21] Is a directory: " ++ Text.quote path
  | .unreadable path .notDirectory => "[Errno 20] Not a directory: " ++ Text.quote path
  | .undecodable fault => fault.message
  | .rejected error => error.text

def readText (bytes : List UInt8) : Except Text.Utf8.Fault String :=
  (Text.Utf8.decode bytes).map fun text => String.ofList (Text.normalizeNewlines text)

/-- The tokens of a file with these bytes. Bytes that are no text are refused before any of them
is scanned. -/
def tokenizeBytes (bytes : List UInt8) (path : String) (strict : Bool) :
    Except FileError (List Token) :=
  match readText bytes with
  | .error fault => .error (.undecodable fault)
  | .ok source => (tokenizeText source path strict).mapError .rejected

def tokenizeFile (directory : Directory) (path : String) (strict : Bool) :
    Except FileError (List Token) :=
  match directory.read path with
  | .error fault => .error (.unreadable path fault)
  | .ok bytes => tokenizeBytes bytes path strict

end MonkeySource
