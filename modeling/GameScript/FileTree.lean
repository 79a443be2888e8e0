/-! Access to files by path, and a tree of files in memory. -/

namespace GameScript

inductive FileError where
  | missing
  /-- The path leads through a file, names a directory, or is no path at all. -/
  | refused
deriving DecidableEq, Repr

structure FileAccess (σ : Type) where
  read : σ → String → Except FileError String
  write : σ → String → String → Except FileError σ

/-- Files with their contents, and directories; both by the names from the root on. -/
structure FileTree where
  files : List (List String × String)
  dirs : List (List String)
deriving DecidableEq, Repr

namespace FileTree

def empty : FileTree := ⟨[], []⟩

def content? (tree : FileTree) (names : List String) : Option String :=
  tree.files.lookup names

def isDir (tree : FileTree) (names : List String) : Bool :=
  names.isEmpty || tree.dirs.contains names

def put (tree : FileTree) (names : List String) (content : String) : FileTree :=
  { tree with files := (names, content) :: tree.files.filter (·.1 ≠ names) }

def makeDir (tree : FileTree) (names : List String) : FileTree :=
  { tree with
    dirs := (List.range names.length).foldl
      (fun dirs count =>
        let dir := names.take (count + 1)
        if dirs.contains dir then dirs else dirs ++ [dir])
      tree.dirs }

def parts (path : String) : List String := path.splitOn "/"

def cleanNames (path : String) : List String :=
  (parts path).foldl
    (fun names part =>
      if part = "" || part = "." then names
      else if part = ".." then names.dropLast
      else names ++ [part])
    []

def addFile (tree : FileTree) (path content : String) : FileTree :=
  let names := cleanNames path
  (tree.makeDir names.dropLast).put names content

def follow (tree : FileTree) (dir : List String) : List String → Except FileError (List String)
  | [] => .ok dir
  | part :: rest =>
      if part = "" || part = "." then tree.follow dir rest
      else if part = ".." then tree.follow dir.dropLast rest
      else if 255 < part.utf8ByteSize then .error .refused
      else
        let names := dir ++ [part]
        -- The last name need not be there yet.
        if rest.isEmpty || tree.isDir names then tree.follow names rest
        else if (tree.content? names).isSome then .error .refused
        else .error .missing

def resolve (tree : FileTree) (path : String) : Except FileError (List String) :=
  if path.toList.contains '\x00' then .error .refused
  else if path = "" || path.toList.head? = some '/' then .error .missing
  else tree.follow [] (parts path)

def read (tree : FileTree) (path : String) : Except FileError String := do
  let names ← tree.resolve path
  match tree.content? names with
  | some content => return content
  | none => .error (if tree.isDir names then .refused else .missing)

def trimSlashes (path : String) : String :=
  String.ofList (path.toList.reverse.dropWhile (· = '/')).reverse

def write (tree : FileTree) (path content : String) : Except FileError FileTree := do
  let names ← tree.resolve (trimSlashes path)
  if trimSlashes path ≠ path || tree.isDir names then .error .refused
  else return tree.put names content

def access : FileAccess FileTree := ⟨read, write⟩

def listing (tree : FileTree) : List (String × String) :=
  tree.files.map fun (names, content) => (String.intercalate "/" names, content)

end FileTree

end GameScript
