import Jumpcut.Analysis.Method
import Jumpcut.Script.Eval
import Jumpcut.Tool.Basic

namespace Jumpcut.Tool

open CommandLine Script

structure Prompt where
  setup : Option Setup

namespace Prompt

def host (p : Prompt) : Host Workspace :=
  ⟨fun s w => { w with out := w.out ++ s }, p.setup.map (·.flags)⟩

def bind (p : Prompt) (scope : Scope) : Scope :=
  match p.setup with
  | some s => scope.set "timebase" (.num (.frac s.tb))
  | none => scope

def complain (act : Session Unit) : Session Unit :=
  try act catch
    | .script e => Session.write ("error: " ++ e.message ++ "\n")
    | e => throw e

def showValues (vs : List Value) : Session Unit :=
  vs.forM fun v => do Session.write (← Session.ofExcept v.display)

def step (p : Prompt) (scope : Scope) (line : String) : Session Scope := fun w =>
  match interpret p.host line ⟨p.bind scope, w⟩ with
  | .ok vs m => (do complain (showValues vs); return m.scope : Session Scope) m.host
  | .error e m => (do complain (throw e); return m.scope : Session Scope) m.host

def answer (p : Prompt) (scope : Scope) : List String → Session Unit
  | [] => do
    modify fun w => { w with input := [] }
    Session.write "> "
  | line :: lines => do
    modify fun w => { w with input := lines }
    Session.write "> "
    p.answer (← p.step scope line) lines

def run (p : Prompt) : Session Unit := do
  try p.answer Scope.initial (← get).input catch
    | .interrupted => pure ()
    | e => throw e
  Session.write "\n"

end Prompt

def promptSetup (vs : Values) : Session (Option Setup) := do
  if (vs.texts "input").isEmpty then return none
  let temp ← Fetch.tempDir (vs.text? "temp_dir") .plain
  let c : Console := ⟨false, true, some temp⟩
  let t ← transcoder vs
  let sources ← sources vs t c
  match sources with
  | [] => return none
  | src :: rest =>
    return some ⟨src, ⟨t, src.sampleRate, temp, c⟩, rest.isEmpty,
      (vs.rat? "timebase").getD src.fps, Bar.hidden, temp, c⟩

def prompt (banner : String) (vs : Values) : Session Unit := do
  let setup ← promptSetup vs
  Session.write (banner ++ "\n")
  (Prompt.mk setup).run

end Jumpcut.Tool
