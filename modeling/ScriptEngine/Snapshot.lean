import ScriptEngine.Json.Reader
import ScriptEngine.Snapshot.Heaps
import ScriptEngine.Snapshot.Stacks
/-! Saving stacks and heaps as text, and reading them back. What is read back is what was saved,
except that its variables have lost their bindings. -/

namespace ScriptEngine.Snapshot

def load? {α : Type} (decode : Decoder α) (text : String) : Option α :=
  (Json.parse? text).bind (decode maxLevels)

def saveVariable (var : Variable) : String := (encodeVariable var).render

def loadVariable? : String → Option Variable := load? decodeVariable

def saveFrame (frame : Frame) : String := (encodeFrame frame).render

def loadFrame? : String → Option Frame := load? decodeFrame

def saveStack (stack : Stack) : String := (encodeStack stack).render

def loadStack? : String → Option Stack := load? decodeStack

def saveHeap (heap : Heap) : String := (encodeHeap heap).render

def loadHeap? : String → Option Heap := load? decodeHeap

end ScriptEngine.Snapshot
