import Lazydns.Plugin.Env

/-!
# Texts and paths of the configuration

The two patterns that the loader searches a configuration for, with what each captures, the replacement of a text by another, and the paths of the standard library, as they are on Unix.
-/

namespace Lazydns

/-! ### Searching and replacing -/

/-- `captures_iter`: the matches from left to right, each behind the one before. The first `skip` characters are part of a match that has been found. -/
def capturesFrom {α : Type} (matchAt : List Char → Option (α × Nat)) : Nat → List Char → List α
  | _, [] => []
  | skip + 1, _ :: text => capturesFrom matchAt skip text
  | 0, c :: text =>
    match matchAt (c :: text) with
    | some (capture, length) => capture :: capturesFrom matchAt (length - 1) text
    | none => capturesFrom matchAt 0 text

def capturesIter {α : Type} (matchAt : List Char → Option (α × Nat)) (content : String) : List α :=
  capturesFrom matchAt 0 content.toList

def replaceFrom (old new : List Char) : Nat → List Char → List Char
  | _, [] => []
  | skip + 1, _ :: text => replaceFrom old new skip text
  | 0, c :: text =>
    if old.isPrefixOf (c :: text) then new ++ replaceFrom old new (old.length - 1) text
    else c :: replaceFrom old new 0 text

/-- `s.replace(old, new)`, for an `old` that is not empty. -/
def replace (s old new : String) : String := String.ofList (replaceFrom old.toList new.toList 0 s.toList)

structure EnvCapture where
  fullMatch : String
  varName : String
  defaultValue : Option String
  deriving DecidableEq, Repr

def isVarChar (c : Char) : Bool := c.isUpper || c.isDigit || c = '_'

/-- `RE_ENV` at the start of a text: a variable's name in braces after a dollar sign, and after a colon and a hyphen its default. Both are as long as they can be, since none of their characters can follow them. -/
def matchEnv (text : List Char) : Option (EnvCapture × Nat) :=
  match text with
  | '$' :: '\x7b' :: rest =>
    let name := rest.takeWhile isVarChar
    match rest.dropWhile isVarChar with
    | '\x7d' :: _ =>
      if name = [] then none
      else some (⟨String.ofList (text.take (name.length + 3)), String.ofList name, none⟩, name.length + 3)
    | ':' :: '-' :: rest =>
      let value := rest.takeWhile (· ≠ '\x7d')
      if name = [] ∨ value = [] ∨ rest.dropWhile (· ≠ '\x7d') = [] then none
      else
        let length := name.length + value.length + 5
        some (⟨String.ofList (text.take length), String.ofList name, some (String.ofList value)⟩, length)
    | _ => none
  | _ => none

structure IncludeCapture where
  fullMatch : String
  includePath : String
  deriving DecidableEq, Repr

/-- `RE_INCLUDE` at the start of a text: the keyword, blanks, and all that follows up to the next blank. -/
def matchInclude (text : List Char) : Option (IncludeCapture × Nat) :=
  if "!include".toList.isPrefixOf text then
    let blanks := (text.drop 8).takeWhile isWhitespace
    let path := ((text.drop 8).dropWhile isWhitespace).takeWhile fun c => !isWhitespace c
    if blanks = [] ∨ path = [] then none
    else
      let length := 8 + blanks.length + path.length
      some (⟨String.ofList (text.take length), String.ofList path⟩, length)
  else none

/-! ### Paths -/

namespace Path

/-- `len_before_body`: the root, or the current directory, in front of the other components. -/
def lenBeforeBody : List Char → Nat
  | '/' :: _ => 1
  | ['.'] => 1
  | '.' :: '/' :: _ => 1
  | _ => 0

/-- `trim_right`, from the end of a body: empty components and dots are left out. -/
def trimRev : List Char → List Char
  | '/' :: body => trimRev body
  | '.' :: '/' :: body => trimRev body
  | ['.'] => []
  | body => body

/-- The body without its last component and the separator before it, from the end. -/
def dropComponent (body : List Char) : List Char := (body.dropWhile (· ≠ '/')).drop 1

/-- `path.parent()`: none for the empty path and for the root, else the path without its last component. -/
def parent (path : String) : Option String :=
  let text := path.toList
  let body := trimRev (text.drop (lenBeforeBody text)).reverse
  if body ≠ [] then
    some (String.ofList (text.take (lenBeforeBody text) ++ (trimRev (dropComponent body)).reverse))
  else if text.take (lenBeforeBody text) = ['.'] then some ""
  else none

/-- `base.join(path)`: an absolute path replaces the base. -/
def join (base path : String) : String :=
  if path.toList.head? = some '/' ∨ base = "" then path
  else if base.toList.getLast? = some '/' then base ++ path
  else base ++ "/" ++ path

end Path

end Lazydns
