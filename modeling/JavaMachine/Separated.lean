/-! # Separated text -/

namespace JavaMachine.Separated

/-- The parts of a sequence of characters between its separators. -/
def partsOfChars (separator : Char) (text : List Char) : List (List Char) :=
  text.foldr
    (fun c parts =>
      if c = separator then [] :: parts
      else
        match parts with
        | [] => [[c]]
        | part :: rest => (c :: part) :: rest)
    [[]]

/-- The parts of a text between its separators. -/
def parts (separator : Char) (text : String) : List String :=
  (partsOfChars separator text.toList).map String.ofList

end JavaMachine.Separated
