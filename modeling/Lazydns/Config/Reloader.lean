import Lazydns.Lib.Machine
import Lazydns.Plugin.Env

/-!
# Reloading the configuration

A reload reads the file, waits for the write lock and replaces the shared configuration. Each is a task of its own, spawned by the callback of the watcher or by a call of `reload`, so that they read and publish in any order; in between the file is edited. A load that fails, or whose configuration is not valid, publishes nothing.

The results of all loads are kept in the order in which they read the file, and the numbers of those that have been published. This is not in the source: it is for the statements about a run.
-/

namespace Lazydns

namespace ConfigReloader

inductive Reload (Config : Type) where
  | started
  | loaded (newConfig : Config) (read : Nat)
  | ended
  deriving DecidableEq, Repr

/-- `file` is all that the load depends on: the file, those that it includes, and the environment. -/
structure System (Content Config : Type) where
  file : Content
  config : Config
  reloads : List (Reload Config)
  results : List (Except Error Config)
  published : List Nat

inductive Event (Content : Type) where
  | edit (file : Content)
  | reload
  | load (i : Nat)
  | publish (i : Nat)
  deriving DecidableEq, Repr

variable {Content Config : Type}

/-- `load_from_file`, and what `validate` says of its result. -/
abbrev Load (Content Config : Type) := Content → Except Error Config

def step (load : Load Content Config) (s : System Content Config) : Event Content → Option (System Content Config)
  | .edit file => some { s with file }
  | .reload => some { s with reloads := s.reloads ++ [.started] }
  | .load i =>
    match s.reloads[i]? with
    | some .started =>
      let result := load s.file
      let reload := match result with
        | .ok newConfig => .loaded newConfig s.results.length
        | .error _ => .ended
      some { s with results := s.results ++ [result], reloads := s.reloads.set i reload }
    | _ => none
  | .publish i =>
    match s.reloads[i]? with
    | some (.loaded newConfig read) =>
      some { s with config := newConfig, published := read :: s.published, reloads := s.reloads.set i .ended }
    | _ => none

def machine (load : Load Content Config) : Machine (System Content Config) (Event Content) := ⟨step load⟩

def System.new (file : Content) (config : Config) : System Content Config := ⟨file, config, [], [], []⟩

end ConfigReloader

end Lazydns
