namespace Jumpcut.Text

def replaceAll (old new : List Char) : List Char → List Char
  | [] => []
  | c :: cs =>
    if old.isPrefixOf (c :: cs) then new ++ replaceAll old new (cs.drop (old.length - 1))
    else c :: replaceAll old new cs
termination_by cs => cs.length

def occurs (small : List Char) : List Char → Bool
  | [] => small.isEmpty
  | c :: cs => small.isPrefixOf (c :: cs) || occurs small cs

end Jumpcut.Text
