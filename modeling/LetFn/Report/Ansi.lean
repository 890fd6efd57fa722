import LetFn.Report.Frame

/-!
# The styles of the program

Reports are painted in whatever styles they are given. Those that the program gives are escape
sequences for the colour red, for bold and for faint text, as terminals of sixteen colours have
them.
-/

namespace LetFn.Report

/-- The number of the paint in an escape sequence. -/
def Paint.code : Paint → Bytes
  | alarm => Text.utf8 "31"
  | strong => Text.utf8 "1;31"
  | faint => Text.utf8 "2"

/-- A text between escape sequences; a tab in it becomes four blanks. -/
def Styles.ansi : Styles := fun p text =>
  Text.utf8 "\x1b[" ++ p.code ++ Text.utf8 "m" ++
    text.flatMap (fun b => if b = 0x09 then Text.blanks 4 else [b]) ++ Text.utf8 "\x1b[0m"

end LetFn.Report
