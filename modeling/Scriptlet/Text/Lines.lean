/-!
# Lines of a text

A line ends at a newline, or at the end of the text when something stands before it. One carriage
return directly before the newline belongs to the line end; any other one belongs to the line.
-/

namespace Scriptlet.Text

def lines : List Char → List (List Char)
  | [] => []
  | '\n' :: rest => [] :: lines rest
  | '\r' :: '\n' :: rest => [] :: lines rest
  | c :: rest =>
    match lines rest with
    | [] => [[c]]
    | line :: others => (c :: line) :: others

end Scriptlet.Text
