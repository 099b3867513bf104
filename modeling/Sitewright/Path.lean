import Sitewright.Text.Basic

/-!
# Slash-separated paths

Paths are texts whose steps are separated by slashes. Empty steps say nothing, `.` stays and `..`
goes up. `Path.between` is the shortest way from one folder to another that is written without
looking at any file system.

Generated files refer to each other by prefixes that lead from one output folder to another, joined
with the path of a module below that folder. Asset paths of a page are prefixed in a way of their
own.
-/

namespace Sitewright

namespace Path

def isAbsolute (path : String) : Bool := beginsWith "/" path

/-- A path followed by a second one; an absolute second path stands alone. -/
def join (base next : String) : String :=
  if isAbsolute next then next
  else if base.isEmpty then next
  else if endsWithText "/" base then base ++ next
  else base ++ "/" ++ next

def ofSegments (segments : List String) : String := segments.foldl join ""

/-- The steps of a path. Empty steps are left out, and so is `.` except as the first step of a
relative path. -/
def steps (path : String) : List String :=
  let named := (splitText '/' path).filter (· ≠ "")
  if isAbsolute path then named.filter (· ≠ ".")
  else match named with
    | [] => []
    | first :: rest => first :: rest.filter (· ≠ ".")

/-- The way from the folder `start` to the folder `target`, both given as steps that are neither
shared nor gone yet. There is none if a `..` of `start` would have to be undone. -/
def divergent : List String → List String → Option (List String)
  | target, [] => some target
  | [], _ :: fromRest => (divergent [] fromRest).map (".." :: ·)
  | t :: toRest, f :: fromRest =>
    if f = "." then (divergent toRest fromRest).map (t :: ·)
    else if f = ".." then none
    else some (".." :: fromRest.map (fun _ => "..") ++ t :: toRest)

/-- Drop the steps that two folders share at their start, then go from one to the other. -/
def betweenSteps : List String → List String → Option (List String)
  | t :: toRest, f :: fromRest =>
    if t = f then betweenSteps toRest fromRest else divergent (t :: toRest) (f :: fromRest)
  | target, start => divergent target start

/-- The path that leads from the folder `start` to the folder `target`. Between a relative and an
absolute path there is a way only to the absolute one, which is itself. -/
def between (start target : String) : Option String :=
  if isAbsolute target ≠ isAbsolute start then
    if isAbsolute target then some target else none
  else (betweenSteps (steps target) (steps start)).map ofSegments

/-- Steps without the empty ones and the `.` at their end. -/
def trimSteps (steps : List String) : List String :=
  (steps.reverse.dropWhile fun step => step = "" || step = ".").reverse

/-- The folder that a path leads through last; none for a path without steps. -/
def parent? (path : String) : Option String :=
  match splitText '/' path with
  | [] => none
  | first :: rest =>
    let above := (trimSteps (trimSteps rest).dropLast)
    if first = "" then
      if (trimSteps rest).isEmpty then none else some ("/" ++ "/".intercalate above)
    else if (trimSteps rest).isEmpty then some ""
    else some ("/".intercalate (first :: above))

def lastStep (path : String) : String := ((splitText '/' path).getLast?).getD ""

end Path

/-! ## Paths of modules and assets -/

/-- The characters after a repeated beginning. -/
def dropRepeated (start : List Char) : List Char → List Char
  | [] => []
  | c :: rest =>
    if start.isPrefixOf (c :: rest) ∧ 0 < start.length then
      dropRepeated start (rest.drop (start.length - 1))
    else c :: rest
termination_by s => s.length
decreasing_by
  simp only [List.length_drop, List.length_cons]
  omega

/-- The relative prefix that leads from one output folder to another, both given by their segments:
`.` when they coincide, `./x` going down and `../x` going up. -/
def relativePrefix (start target : List String) : String :=
  let way := (Path.between (Path.ofSegments start) (Path.ofSegments target)).getD ""
  let way := replaceChar '\\' "/" way
  if way.isEmpty then "."
  else if beginsWith ".." way then way
  else "./" ++ way

def dropEndSlashes (s : String) : String :=
  String.ofList (s.toList.reverse.dropWhile (· == '/')).reverse

/-- A module prefix and a path below it, with one slash between them. -/
def joinModulePath (modulePrefix path : String) : String :=
  let base := dropEndSlashes modulePrefix
  let rest := String.ofList ((dropRepeated ['.', '/'] path.toList).dropWhile (· == '/'))
  if rest.isEmpty then base else base ++ "/" ++ rest

/-- Put the assets prefix before a root-relative path. Relative paths and absolute addresses, none
of which begin with a slash, are left alone. -/
def prefixAssetPath (assetsPrefix path : String) : String :=
  if assetsPrefix.isEmpty || !beginsWith "/" path then path
  else dropEndSlashes assetsPrefix ++ path

end Sitewright
