import Lazydns.Lib.Fallible
import Lazydns.Plugin.Persistence

/-!
# Writing the dump file

The dump is written to a temporary file next to the dump file, one call of the file system after another, and renamed when it is complete. Every call may fail; a write that fails may have written a part. The file system holds the contents of the files, without links between them.
-/

namespace Lazydns

open Dns Persistence Bytes

/-- A path to a file: the directory as text, and the name. -/
structure DumpPath where
  parent : String
  fileName : String
  deriving DecidableEq, Repr

namespace DumpPath

/-- `file_stem`: the name up to its last dot, if that is not its first letter. -/
def fileStem (name : String) : String :=
  match name.toList.reverse.dropWhile (· ≠ '.') with
  | _ :: stem => if stem = [] then name else String.ofList stem.reverse
  | [] => name

/-- `path.with_extension("tmp")`. -/
def withTmp (p : DumpPath) : DumpPath := { p with fileName := fileStem p.fileName ++ ".tmp" }

end DumpPath

/-- The contents of the files, and what is to become of the next calls: `some n` is a failure, after `n` bytes if the call writes some. -/
structure DumpDisk where
  files : DumpPath → Option (List UInt8)
  faults : List (Option Nat)

inductive DumpError where
  | io
  | serialize
  deriving DecidableEq, Repr

namespace DumpDisk

/-- A call of the file system: what it does to the files, and what it has done if it fails. -/
def call (effect : (DumpPath → Option (List UInt8)) → DumpPath → Option (List UInt8))
    (failed : Nat → (DumpPath → Option (List UInt8)) → DumpPath → Option (List UInt8)) :
    Fallible DumpDisk DumpError Unit where
  run d :=
    match d.faults with
    | some n :: rest => (.error .io, ⟨failed n d.files, rest⟩)
    | none :: rest => (.ok (), ⟨effect d.files, rest⟩)
    | [] => (.ok (), ⟨effect d.files, []⟩)

/-- `create_dir_all` of the directory, if the path names one; directories are not modelled. -/
def createParent (p : DumpPath) : Fallible DumpDisk DumpError Unit :=
  if p.parent ≠ "" then call id fun _ => id else pure ()

/-- `File::create`: the file is there and empty. -/
def create (p : DumpPath) : Fallible DumpDisk DumpError Unit :=
  call (fun files => Function.update files p (some [])) fun _ => id

def writeAll (p : DumpPath) (bytes : List UInt8) : Fallible DumpDisk DumpError Unit :=
  call (fun files => Function.update files p (some ((files p).getD [] ++ bytes)))
    fun n files => Function.update files p (some ((files p).getD [] ++ bytes.take n))

def flush : Fallible DumpDisk DumpError Unit := call id fun _ => id

/-- `rename`; to the same path it does nothing. -/
def rename (source target : DumpPath) : Fallible DumpDisk DumpError Unit :=
  call (fun files =>
    if source = target then files else Function.update (Function.update files target (files source)) source none)
    fun _ => id

end DumpDisk

namespace Persistence

variable (wire : WireCodec)

def serialize (m : Message) : Fallible DumpDisk DumpError (List UInt8) :=
  match wire.serializeMessage m with
  | some bytes => pure bytes
  | none => .fail .serialize

/-- The body of the loop of `dump_cache`. -/
def writeEntry (tmp : DumpPath) (e : String × CacheEntry) : Fallible DumpDisk DumpError Unit := do
  DumpDisk.writeAll tmp (writeLe 2 (ofString e.1).length)
  DumpDisk.writeAll tmp (ofString e.1)
  DumpDisk.writeAll tmp (writeLe 8 e.2.cachedAtUnix)
  DumpDisk.writeAll tmp (writeLe 4 e.2.originalTtl)
  let msgBytes ← serialize wire e.2.response
  DumpDisk.writeAll tmp (writeLe 4 msgBytes.length)
  DumpDisk.writeAll tmp msgBytes

/-- `dump_cache`, call by call. -/
def dumpCacheTo (path : DumpPath) (entries : List (String × CacheEntry)) : Fallible DumpDisk DumpError Unit := do
  DumpDisk.createParent path
  let tmp := path.withTmp
  DumpDisk.create tmp
  DumpDisk.writeAll tmp MAGIC
  DumpDisk.writeAll tmp (writeLe 4 entries.length)
  entries.forM (writeEntry wire tmp)
  DumpDisk.flush
  DumpDisk.rename tmp path

end Persistence

end Lazydns
