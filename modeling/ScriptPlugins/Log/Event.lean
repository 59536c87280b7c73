/-!
# Log events — what a session reports while it works

An event is what happened, with the names and numbers that belong to it.  It has a level, the part
of the program that reports it, a message, and named fields.
-/

namespace ScriptPlugins.Log

/-- How grave an event is, the gravest first. -/
inductive Level where
  | error
  | warn
  | info
  | debug
  | trace
  deriving DecidableEq, Repr

namespace Level

def name : Level → String
  | error => "ERROR"
  | warn => "WARN"
  | info => "INFO"
  | debug => "DEBUG"
  | trace => "TRACE"

/-- One for errors, five for traces. -/
def rank : Level → Nat
  | error => 1
  | warn => 2
  | info => 3
  | debug => 4
  | trace => 5

end Level

/-- The value of a field: a text as it is, a constant word, a number or a truth value. -/
inductive FieldValue where
  | text (s : String)
  | word (s : String)
  | count (n : Nat)
  | flag (b : Bool)
  deriving DecidableEq, Repr

/-- What happened. -/
inductive Event where
  | usingConfig (path : String)
  | scopeCreated (name : String) (parent : Nat)
  | scopeLocked (name : String)
  | scopeReused (name : String) (reuses : Nat)
  | directoryExported (scope dir : String) (classes : Nat)
  | scopeReleased (name : String)
  | unitCompiled (className phase : String) (steps : Nat)
  | entryStale (script className reason : String)
  | phaseCompiled (script className phase : String)
  | phaseReused (script className phase : String)
  | entryUnreadable (className error : String)
  | batchStarted (scripts workers : Nat) (scope : String)
  | packaged (dest : String) (files : Nat)
  | scriptFailed (script error : String)
  | batchFinished (succeeded failed files : Nat)
  | nothingPackaged (dir : String)
  | adapterGenerated (script path : String)
  | adapterApplying (script target : String)
  | adapterFailed (script error : String)
  | requestsRunning (className target : String)
  | bodyRunning (className target : String)
  | runCompleted (target : String)
  | stepRunning (className : String) (line : Nat)
  | pluginPresent (id : String)
  | pluginResolved (id target : String)
  | pluginApplied (id target request : String) (newly : Bool)
  deriving DecidableEq, Repr

namespace Event

def level : Event → Level
  | usingConfig _ | scopeCreated _ _ | scopeLocked _ | scopeReused _ _ | directoryExported _ _ _
  | scopeReleased _ | unitCompiled _ _ _ | phaseReused _ _ _ | adapterGenerated _ _
  | requestsRunning _ _ | bodyRunning _ _ | pluginPresent _ | pluginResolved _ _ => .debug
  | entryStale _ _ _ | phaseCompiled _ _ _ | batchStarted _ _ _ | packaged _ _
  | batchFinished _ _ _ | adapterApplying _ _ | runCompleted _ | pluginApplied _ _ _ _ => .info
  | entryUnreadable _ _ | nothingPackaged _ => .warn
  | scriptFailed _ _ | adapterFailed _ _ => .error
  | stepRunning _ _ => .trace

/-- The part of the program that reports an event, as log filters name it. -/
def component : Event → String
  | usingConfig _ => "prescript::config"
  | scopeCreated _ _ | scopeLocked _ | scopeReused _ _ | directoryExported _ _ _
  | scopeReleased _ => "prescript::scope"
  | unitCompiled _ _ _ => "prescript::compiler::dsl"
  | entryStale _ _ _ | phaseCompiled _ _ _ | phaseReused _ _ _
  | entryUnreadable _ _ => "prescript::script::cache"
  | batchStarted _ _ _ | packaged _ _ | scriptFailed _ _ | batchFinished _ _ _
  | nothingPackaged _ => "prescript::pipeline"
  | adapterGenerated _ _ | adapterApplying _ _ | adapterFailed _ _ => "prescript::adapter"
  | requestsRunning _ _ | bodyRunning _ _ | runCompleted _ => "prescript::runtime::runner"
  | stepRunning _ _ => "prescript::runtime::executable"
  | pluginPresent _ | pluginResolved _ _ | pluginApplied _ _ _ _ => "prescript::runtime::plugins"

def message : Event → String
  | usingConfig path => "Using config: " ++ path
  | scopeCreated _ _ => "created child scope"
  | scopeLocked _ => "locked scope"
  | scopeReused _ _ => "scope reused"
  | directoryExported _ _ _ => "exported classes directory"
  | scopeReleased _ => "released scope"
  | unitCompiled _ _ _ => "compiled script unit"
  | entryStale _ _ _ => "discarding stale cache entry"
  | phaseCompiled _ _ _ => "compiled script phase"
  | phaseReused _ _ _ => "reusing cached script phase"
  | entryUnreadable _ _ => "skipping unreadable cache entry"
  | batchStarted _ _ _ => "starting compile batch"
  | packaged _ _ => "packaged compiled scripts"
  | scriptFailed _ _ => "script failed to compile"
  | batchFinished _ _ _ => "compile batch finished"
  | nothingPackaged _ => "no packaged script classes found"
  | adapterGenerated _ _ => "generated adapter"
  | adapterApplying _ _ => "applying precompiled script"
  | adapterFailed _ _ => "precompiled script failed"
  | requestsRunning _ _ => "executing plugin requests"
  | bodyRunning _ _ => "executing script body"
  | runCompleted _ => "script run completed"
  | stepRunning _ _ => "executing step"
  | pluginPresent _ => "plugin already applied"
  | pluginResolved _ _ => "resolved plugin without applying"
  | pluginApplied _ _ request _ => "applied plugin " ++ request

/-- The fields of an event, in order. -/
def fields : Event → List (String × FieldValue)
  | usingConfig _ => []
  | scopeCreated name parent => [("scope", .text name), ("parent", .count parent)]
  | scopeLocked name | scopeReleased name => [("scope", .text name)]
  | scopeReused name reuses => [("scope", .text name), ("reuse_count", .count reuses)]
  | directoryExported scope dir classes =>
    [("scope", .text scope), ("dir", .text dir), ("class_count", .count classes)]
  | unitCompiled className phase steps =>
    [("class_name", .text className), ("phase", .text phase), ("steps", .count steps)]
  | entryStale script className reason =>
    [("operation", .word "compile"), ("status", .word "stale"), ("script_id", .text script),
      ("class_name", .text className), ("reason", .text reason)]
  | phaseCompiled script className phase =>
    [("operation", .word "compile"), ("status", .word "miss"), ("script_id", .text script),
      ("class_name", .text className), ("phase", .text phase)]
  | phaseReused script className phase =>
    [("operation", .word "compile"), ("status", .word "hit"), ("script_id", .text script),
      ("class_name", .text className), ("phase", .text phase)]
  | entryUnreadable className error => [("class_name", .text className), ("error", .text error)]
  | batchStarted scripts workers scope =>
    [("operation", .word "batch"), ("script_count", .count scripts), ("workers", .count workers),
      ("scope", .text scope)]
  | packaged dest files =>
    [("operation", .word "package"), ("status", .word "success"), ("dest", .text dest),
      ("file_count", .count files)]
  | scriptFailed script error =>
    [("operation", .word "compile"), ("status", .word "error"), ("script_id", .text script),
      ("error", .text error)]
  | batchFinished succeeded failed files =>
    [("operation", .word "batch"), ("success_count", .count succeeded),
      ("error_count", .count failed), ("packaged_files", .count files)]
  | nothingPackaged dir => [("dir", .text dir)]
  | adapterGenerated script path =>
    [("operation", .word "adapter.generate"), ("status", .word "success"),
      ("script_id", .text script), ("path", .text path)]
  | adapterApplying script target =>
    [("operation", .word "adapter.apply"), ("script_id", .text script), ("target", .text target)]
  | adapterFailed script error =>
    [("operation", .word "adapter.apply"), ("status", .word "error"), ("script_id", .text script),
      ("error", .text error)]
  | requestsRunning className target | bodyRunning className target =>
    [("operation", .word "run"), ("class_name", .text className), ("target", .text target)]
  | runCompleted target =>
    [("operation", .word "run"), ("status", .word "success"), ("target", .text target)]
  | stepRunning className line => [("class_name", .text className), ("line", .count line)]
  | pluginPresent id => [("plugin_id", .text id)]
  | pluginResolved id target =>
    [("operation", .word "plugin.apply"), ("status", .word "skipped"), ("plugin_id", .text id),
      ("target", .text target)]
  | pluginApplied id target _ newly =>
    [("operation", .word "plugin.apply"), ("status", .word "success"), ("plugin_id", .text id),
      ("target", .text target), ("newly_applied", .flag newly)]

/-- The names of all that an event says. -/
def fieldNames (e : Event) : List String := "message" :: e.fields.map Prod.fst

end Event

end ScriptPlugins.Log
