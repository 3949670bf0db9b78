import Lazydns.Lib.FileStore
import Lazydns.Lib.Machine
import Lazydns.Plugin.Init

/-!
# Downloading files

A download writes the body to a temporary file, named by the path with `.tmp` behind it, and renames it. The downloads of a run follow one another in one worker, or each has a worker of its own; and a run may begin while workers of other runs go on. `fs::write` opens the file and writes the body in as many parts as it takes, and between any two of these steps another worker may take one.

A path is a name in a file system; that two paths may be one name is left open. The system keeps a log of the downloads that have succeeded; it is not in the source.
-/

namespace Lazydns

def FileDownloadSpec.tempPath (spec : FileDownloadSpec) : String := spec.path ++ ".tmp"

namespace DownloaderPlugin

abbrev Body := List UInt8

inductive Outcome where
  | unsent (e : String)
  /-- A status other than success. -/
  | status (status : String)
  | unread (e : String)
  | content (content : Body)
  deriving DecidableEq, Repr

inductive Phase where
  | requesting
  | opening (content : Body)
  /-- So many bytes are in the file. -/
  | writing (content : Body) (file written : Nat)
  | renaming (content : Body)
  /-- The renaming has failed. -/
  | removing (e : String)
  | waiting
  | ended (result : Except Error Unit)

structure Worker where
  spec : FileDownloadSpec
  /-- The downloads that follow if this one succeeds. -/
  queue : List FileDownloadSpec
  maxRetries : Nat
  attempt : Nat
  phase : Phase

/-- `for attempt in 0..=max_retries`, of which the last error is returned. -/
def Worker.fail (w : Worker) (e : String) : Worker :=
  { w with phase := if w.attempt = w.maxRetries then .ended (.error (.config e)) else .waiting }

def Worker.succeed (w : Worker) : Worker :=
  match w.queue with
  | [] => { w with phase := .ended (.ok ()) }
  | spec :: queue => { w with spec, queue, attempt := 0, phase := .requesting }

/-- One attempt up to the writing. -/
def Worker.respond (w : Worker) : Outcome → Worker
  | .unsent e => w.fail ("Failed to download " ++ w.spec.url ++ ": " ++ e)
  | .status status => w.fail ("HTTP " ++ status ++ " for " ++ w.spec.url)
  | .unread e => w.fail ("Failed to read response body: " ++ e)
  | .content [] => w.fail "Downloaded file is empty"
  | .content (byte :: bytes) => { w with phase := .opening (byte :: bytes) }

def workers (p : DownloaderPlugin) : List Worker :=
  if p.concurrent then p.files.map fun spec => ⟨spec, [], p.maxRetries, 0, .requesting⟩
  else
    match p.files with
    | [] => []
    | spec :: queue => [⟨spec, queue, p.maxRetries, 0, .requesting⟩]

structure System (Name : Type) where
  disk : FileStore Name
  workers : List Worker
  log : List (FileDownloadSpec × Body)

inductive Op where
  | respond (outcome : Outcome)
  | create
  | write (count : Nat)
  | close
  /-- Opening or writing fails. -/
  | refuse (e : String)
  | rename
  | refuseRename (e : String)
  | remove (removed : Bool)
  /-- The blocking task panics. -/
  | abort (e : String)
  | retry
  deriving DecidableEq, Repr

inductive Action where
  /-- A run of a plugin. -/
  | start (i : Nat)
  | work (i : Nat) (op : Op)
  deriving DecidableEq, Repr

variable {Name : Type} [DecidableEq Name] (locate : String → Name)

/-- The worker afterwards, the disk, and the download that has succeeded. -/
def Worker.step (d : FileStore Name) (w : Worker) : Op → Option (Worker × FileStore Name × Option Body)
  | .respond outcome =>
    match w.phase with
    | .requesting => some (w.respond outcome, d, none)
    | _ => none
  | .create =>
    match w.phase with
    | .opening content =>
      let name := locate w.spec.tempPath
      some ({ w with phase := .writing content (d.handle name) 0 }, d.create name, none)
    | _ => none
  | .write count =>
    match w.phase with
    | .writing content file written =>
      if 0 < count ∧ written + count ≤ content.length then
        some ({ w with phase := .writing content file (written + count) },
          d.write file written ((content.drop written).take count), none)
      else none
    | _ => none
  | .close =>
    match w.phase with
    | .writing content _ written =>
      if written = content.length then some ({ w with phase := .renaming content }, d, none) else none
    | _ => none
  | .refuse e =>
    match w.phase with
    | .opening _ | .writing _ _ _ => some (w.fail ("Failed to write file: " ++ e), d, none)
    | _ => none
  | .rename =>
    match w.phase with
    | .renaming content =>
      if (d.dir (locate w.spec.tempPath)).isSome then
        some (w.succeed, d.rename (locate w.spec.tempPath) (locate w.spec.path), some content)
      else none
    | _ => none
  | .refuseRename e =>
    match w.phase with
    | .renaming _ => some ({ w with phase := .removing e }, d, none)
    | _ => none
  | .remove removed =>
    match w.phase with
    | .removing e =>
      some (w.fail ("Failed to write file: " ++ e), if removed then d.remove (locate w.spec.tempPath) else d, none)
    | _ => none
  | .abort e =>
    match w.phase with
    | .opening _ | .writing _ _ _ | .renaming _ | .removing _ => some (w.fail ("File I/O task failed: " ++ e), d, none)
    | _ => none
  | .retry =>
    match w.phase with
    | .waiting => some ({ w with attempt := w.attempt + 1, phase := .requesting }, d, none)
    | _ => none

variable (plugins : List DownloaderPlugin)

def step (s : System Name) : Action → Option (System Name)
  | .start i => plugins[i]?.map fun p => { s with workers := s.workers ++ p.workers }
  | .work i op => do
    let w ← s.workers[i]?
    let (w', disk, content) ← w.step locate s.disk op
    some { disk, workers := s.workers.set i w', log := (content.map (w.spec, ·)).toList ++ s.log }

def machine : Machine (System Name) Action := ⟨step locate plugins⟩

end DownloaderPlugin

end Lazydns
