import ScriptEngine.Frame
import ScriptEngine.Overload
/-! What a declaration says in front of its body. -/

namespace ScriptEngine

/-- The modifiers of a declaration as they were read. -/
structure Modifiers where
  isPublic : Bool := false
  externKeyword : Option Span := none
  isSynchronized : Bool := false
deriving DecidableEq, Repr, Inhabited

/-- A declaration up to its body. The owner is the class of a method. -/
structure Header where
  modifiers : Modifiers
  returns : DataType
  owner : Option String
  name : String
  nameSpan : Span
  params : ParamList
  start : Span
deriving DecidableEq, Repr, Inhabited

namespace Header

def clashes (header other : Header) : Bool :=
  header.name = other.name && header.owner = other.owner && header.params.agrees other.params

def readModifiers (inBlock : Bool) (read : Modifiers) (stream : TokenStream) :
    Except CompileError (Reached stream Modifiers) :=
  match stream.next? with
  | none => .ok ⟨read, stream, Nat.le_refl _⟩
  | some token =>
      let continueWith (read : Modifiers) : Except CompileError (Reached stream Modifiers) := do
        let all ← readModifiers inBlock read token.rest
        return ⟨all.value, all.rest, Nat.le_of_lt (Nat.lt_of_le_of_lt all.bounded token.shorter)⟩
      match token.value.kind with
      | .publicKeyword =>
          if inBlock then
            .error ⟨.unexpectedToken, token.value.span,
              some "methods of a class block cannot be public"⟩
          else continueWith { read with isPublic := true }
      | .externKeyword => continueWith { read with externKeyword := some token.value.span }
      | .synchronizedKeyword => continueWith { read with isSynchronized := true }
      | _ => .ok ⟨read, stream, Nat.le_refl _⟩
termination_by stream.size
decreasing_by exact token.shorter

def readOwner (classes : ClassTable) (classBlock : Option String) (stream : TokenStream) :
    Except CompileError (Reached stream (Option String)) := do
  if classBlock.isNone && stream.check .identifier && (stream.peekAt 1).kind = .colonColon then
    let className ← stream.takeName .unexpectedToken
    if !classes.contains className.value.lexeme then
      throw ⟨.unknownClass, className.value.span, some className.value.lexeme⟩
    let mark ← className.rest.take .colonColon .unexpectedToken
    return (className.behind mark (some className.value.lexeme)).reached
  else return ⟨classBlock, stream, Nat.le_refl _⟩

def readName (stream : TokenStream) : Except CompileError (Parsed stream (String × Span)) := do
  match stream.take? .tilde with
  | none =>
      let name ← stream.takeName .noSuchFunctionName
      return ⟨(name.value.lexeme, name.value.span), name.rest, name.shorter⟩
  | some tilde =>
      let name ← tilde.rest.takeName .noSuchFunctionName
      return tilde.behind name
        ("~" ++ name.value.lexeme, tilde.value.span.cover name.value.span)

/-- Read modifiers, return type, owner, name and parameters. Inside the block of a class the owner
is that class and none is read. -/
def read (classes : ClassTable) (classBlock : Option String) (stream : TokenStream) :
    Except CompileError (Parsed stream Header) := do
  let modifiers ← readModifiers classBlock.isSome {} stream
  match TypeName.read? classes modifiers.rest with
  | none => throw ⟨.noTypeForReturnValue, modifiers.rest.peek.span, none⟩
  | some returns =>
      let owner ← readOwner classes classBlock returns.rest
      let name ← readName owner.rest
      let params ← ParamList.read classes name.rest
      let header : Header :=
        ⟨modifiers.value, returns.value, owner.value, name.value.1, name.value.2, params.value,
          stream.peek.span⟩
      return ⟨header, params.rest, by
        have := modifiers.bounded
        have := returns.shorter
        have := owner.bounded
        have := name.shorter
        have := params.shorter
        omega⟩

end Header

/-- A declaration with its identity and the places of its first token and of its body among the
tokens of the unit. -/
structure Signature where
  id : FunctionId
  header : Header
  /-- The class block around the declaration. -/
  classBlock : Option String
  body : Span
  startsAt : Nat
  bodyAt : Nat
deriving DecidableEq, Repr, Inhabited

namespace Signature

def callable (signature : Signature) : Callable :=
  ⟨signature.id, signature.header.name, signature.header.params, signature.header.returns⟩

def positions (signature : Signature) : Positions :=
  let header := signature.header
  { externKeyword := header.modifiers.externKeyword
    name := header.nameSpan
    params := header.params.span
    body := signature.body
    whole := header.start.cover signature.body }

/-- The modifiers as bits: 1 for public, 2 for extern and 4 for synchronized. Whether a function is
public does not count before its body is compiled. -/
def flags (signature : Signature) (withPublic : Bool) : Nat :=
  let modifiers := signature.header.modifiers
  (if withPublic && modifiers.isPublic then 1 else 0) +
    (if modifiers.externKeyword.isSome then 2 else 0) + (if modifiers.isSynchronized then 4 else 0)

/-- A method declared in a class block is called on a receiver, another one on the object of its
program. -/
def callKind (signature : Signature) : CallKind :=
  if signature.header.owner.isNone then .function
  else if signature.classBlock.isNone then .method
  else .dispatched signature.header.modifiers.isSynchronized

theorem owner_of_function {signature : Signature} (free : signature.callKind = .function) :
    signature.header.owner = none := by
  unfold callKind at free
  split at free
  · rename_i unowned
    exact Option.isNone_iff_eq_none.mp unowned
  · split at free <;> cases free

theorem owner_of_method {signature : Signature} (method : signature.callKind = .method) :
    (∃ owner, signature.header.owner = some owner) ∧ signature.classBlock = none := by
  unfold callKind at method
  split at method
  · cases method
  · rename_i owned
    split at method
    · rename_i apart
      exact ⟨Option.ne_none_iff_exists'.mp (by simpa using owned),
        Option.isNone_iff_eq_none.mp apart⟩
    · cases method

theorem owner_of_dispatched {signature : Signature} {isSynchronized : Bool}
    (dispatched : signature.callKind = .dispatched isSynchronized) :
    ∃ owner, signature.header.owner = some owner := by
  unfold callKind at dispatched
  split at dispatched
  · cases dispatched
  · rename_i owned
    exact Option.ne_none_iff_exists'.mp (by simpa using owned)

end Signature

end ScriptEngine
