/-!
# Paths

Paths to files below a folder. Steps are cut at slashes; an empty step and a single dot stay where
they are, two dots go back to the folder above.
-/

namespace Forthline.Path

def cut : List Char → List (List Char)
  | [] => [[]]
  | c :: cs =>
    if c = '/' then [] :: cut cs
    else
      match cut cs with
      | [] => [[c]]
      | step :: steps => (c :: step) :: steps

def steps (path : String) : List String := (cut path.toList).map String.ofList

def stays (step : String) : Bool := step = "" || step = "."

def direct (path : String) : List String := (steps path).filter fun step => !stays step

/-- Follows steps from the place `here`. Only the last step may lead to something other than a
folder, and no step leaves the folder at the start. -/
def walk (isFolder : List String → Bool) (here : List String) : List String → Option (List String)
  | [] => some here
  | step :: rest =>
    if stays step then walk isFolder here rest
    else if step = ".." then
      if here.isEmpty then none else walk isFolder here.dropLast rest
    else
      let there := here ++ [step]
      if rest.isEmpty || isFolder there then walk isFolder there rest else none

/-- Where a path leads among files that are named by their paths. A path that starts at the root is
not followed. -/
def follow (names : List (List String)) (path : String) : Option (List String) :=
  if path.startsWith "/" then none
  else walk (fun place => names.any fun name => place.isPrefixOf name.dropLast) [] (steps path)

end Forthline.Path
