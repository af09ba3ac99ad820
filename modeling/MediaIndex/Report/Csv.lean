/-!
# Comma-separated rows

Fields of a row stand between commas, and a row ends with a carriage return and a line feed. A field
that holds a comma, a quote or either of these two is put between quotes, its own quotes doubled.
-/

namespace MediaIndex.Report

def needsQuotes (c : Char) : Bool :=
  c == ',' || c == '\x22' || c == '\r' || c == '\n'

def csvField (s : String) : List Char :=
  if s.toList.any needsQuotes then
    '\x22' :: s.toList.flatMap (fun c => if c = '\x22' then ['\x22', '\x22'] else [c]) ++ ['\x22']
  else s.toList

def csvRow (fields : List String) : String :=
  String.ofList ((fields.map csvField).intersperse [','] |>.flatten) ++ "\r\n"

end MediaIndex.Report
