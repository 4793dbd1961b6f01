/-
Paths as texts with slashes. A backslash counts as a slash here, so that a path written on another
system names the same module; texts are joined with one slash between them.
-/

namespace BuildOrder.Text

/-- The text with a slash in place of each backslash. -/
def forwardSlashes (path : String) : String :=
  .ofList (path.toList.map fun c => if c = '\\' then '/' else c)

/-- What follows the last slash. -/
def afterLastSlash (path : List Char) : List Char := (path.reverse.takeWhile (· ≠ '/')).reverse

/-- What precedes the last slash; nothing where there is no slash. -/
def beforeLastSlash (path : List Char) : List Char :=
  ((path.reverse.dropWhile (· ≠ '/')).drop 1).reverse

/-- The path `rel` seen from `base`, with forward slashes. An empty part leaves the other one as it
is, and no slash is added behind a base that ends in a slash or a backslash. -/
def joinPaths (base rel : String) : String :=
  if rel = "" then base
  else if base = "" then rel
  else
    let last := base.toList.getLast?
    let sep := if last = some '/' ∨ last = some '\\' then "" else "/"
    forwardSlashes (base ++ sep ++ rel)

end BuildOrder.Text
