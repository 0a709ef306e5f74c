import ScriptEngine.Snapshot.Frames
import ScriptEngine.Stack
/-! Saved stacks: the call a stack was started with, its frames, and the error of its last call. -/

namespace ScriptEngine.Snapshot

def encodeSpan (span : Span) : Json :=
  .ofMembers
    [("line", .ofNat span.line), ("col", .ofNat span.col), ("start", .ofNat span.start),
      ("end", .ofNat span.stop)]

def decodeSpan : Decoder Span
  | 0, _ => none
  | _ + 1, json => do
      let record ← record? ["line", "col", "start", "end"] json
      let line ← record.required "line" word?
      let col ← record.required "col" word?
      let start ← record.required "start" word?
      let stop ← record.required "end" word?
      return ⟨line, col, start, stop⟩

def encodeError (error : RuntimeError) : Json :=
  .ofMembers
    [("code", .ofText error.cause.code), ("span", .orNull encodeSpan error.span)]

def decodeError : Decoder RuntimeError
  | 0, _ => none
  | levels + 1, json => do
      let record ← record? ["code", "span"] json
      let cause ← record.required "code" (oneOf RuntimeCause.code RuntimeCause.all levels)
      let span ← record.nullable "span" (decodeSpan levels)
      return ⟨cause, span⟩

def encodeReceiver (receiver : Receiver) : Json :=
  .ofMembers [("handle", encodeHandle receiver.handle), ("class", .ofText receiver.className)]

def decodeReceiver : Decoder Receiver
  | 0, _ => none
  | levels + 1, json => do
      let record ← record? ["handle", "class"] json
      let handle ← record.required "handle" (decodeHandle levels)
      let className ← record.required "class" Json.text?
      return ⟨handle, className⟩

def encodeEntry (entry : EntryCall) : Json :=
  .ofMembers
    [("name", .ofText entry.name), ("args", encodeVariables entry.args),
      ("receiver", .orNull encodeReceiver entry.receiver),
      ("cached", .orNull (fun id => .ofNat id.number) entry.kept)]

def decodeEntry : Decoder EntryCall
  | 0, _ => none
  | levels + 1, json => do
      let record ← record? ["name", "args", "receiver", "cached"] json
      let name ← record.required "name" Json.text?
      let args ← record.required "args" (decodeVariables levels)
      let receiver ← record.nullable "receiver" (decodeReceiver levels)
      let kept ← record.nullable "cached" longWord?
      return { name, args, receiver, kept := kept.map FunctionId.mk }

def encodeStack (stack : Stack) : Json :=
  .ofMembers
    [("context", .ofNat stack.context.number), ("program", .ofNat stack.program.number),
      ("entry", .orNull encodeEntry stack.entry), ("root", encodeFrame stack.root),
      ("last_error", .orNull encodeError stack.lastError)]

def decodeStack : Decoder Stack
  | 0, _ => none
  | levels + 1, json => do
      let record ← record? ["context", "program", "entry", "root", "last_error"] json
      let context ← record.required "context" longWord?
      let program ← record.required "program" word?
      let entry ← record.nullable "entry" (decodeEntry levels)
      let root ← record.required "root" (decodeFrame levels)
      let lastError ← record.nullable "last_error" (decodeError levels)
      return { context := ⟨context⟩, program := ⟨program⟩, entry, root, lastError }

end ScriptEngine.Snapshot
