import ExtensionAudit.Request.Course

/-!
A request and its worker on one disk, to the end of the request and beyond: when the
request is over, the worker goes on as long as it has something to do.
-/

namespace ExtensionAudit

/-- A request and the disk. -/
structure Scene where
  request : Request
  disk : Disk

namespace Scene

/-- Takes a turn. -/
def take (auditor : Auditor) (scene : Scene) (turn : Request.Turn) : Scene :=
  let (request, disk) := scene.request.take auditor scene.disk turn
  ⟨request, disk⟩

/-- Takes turns, also when the request is over. -/
def run (auditor : Auditor) (scene : Scene) (turns : List Request.Turn) : Scene :=
  turns.foldl (take auditor) scene

end Scene

namespace Call

/-- The scene of a call after some turns. -/
def sceneAfter (call : Call) (turns : List Request.Turn) : Scene :=
  Scene.run call.auditor ⟨call.origin.request call.directory, call.opened⟩ turns

/-- The scene of a call after its turns. -/
def scene (call : Call) : Scene := call.sceneAfter call.turns

end Call

end ExtensionAudit
