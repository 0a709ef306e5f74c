import ScriptEngine.BodyParser
import ScriptEngine.Lexer
import ScriptEngine.Program
import ScriptEngine.PublicIndex
/-! Compiling a source into a program. All declarations are read before any body is compiled, so
that calls may go to functions declared further down. -/

namespace ScriptEngine

/-- What a unit is compiled against: the classes, the loaded programs and their public functions. -/
structure CompileEnv where
  classes : ClassTable
  programs : Programs
  published : PublicIndex Function
  /-- Whether free calls may mean public functions. -/
  withPublic : Bool

namespace Compiler

/-- Whether a declaration repeats one that is known already. A free declaration must differ from
those of its unit and from public functions, a method of a class block from those of the class. -/
def isRedefinition (env : CompileEnv) (declared : List Signature) (classBlock : Option String)
    (header : Header) : Bool :=
  let inUnit := declared.any fun signature =>
    signature.classBlock = classBlock && header.clashes signature.header
  let clashesWith (functions : List Function) : Bool :=
    functions.any fun function => header.clashes function.header
  match classBlock with
  | some className =>
      inUnit || clashesWith (env.programs.classMethods className) ||
        env.classes.declares className header.name header.params.types
  | none => inUnit || clashesWith (env.published.functions some)

def readSignature (env : CompileEnv) (declared : List Signature) (classBlock : Option String)
    (id : FunctionId) (stream : TokenStream) : Except CompileError (Parsed stream Signature) := do
  let header ← Header.read env.classes classBlock stream
  if isRedefinition env declared classBlock header.value then
    throw ⟨.redefinition, header.value.nameSpan, some header.value.name⟩
  match skipped : header.rest.skipBlock with
  | (.error error, _) => throw error
  | (.ok body, behind) =>
      let signature : Signature :=
        { id, header := header.value, classBlock, body
          startsAt := stream.position, bodyAt := header.rest.position }
      return ⟨signature, behind,
        Nat.lt_trans (TokenStream.skipBlock_size skipped) header.shorter⟩

def readClassBlock (classes : ClassTable) (stream : TokenStream) :
    Except CompileError (Parsed stream String) := do
  let className ← stream.takeName .expectedIdentifier
  if !classes.contains className.value.lexeme then
    throw ⟨.unknownClass, className.value.span, some className.value.lexeme⟩
  let opening ← className.rest.openBlock
  return className.behind opening className.value.lexeme

/-- What stands at a place between declarations. -/
inductive Item (stream : TokenStream) where
  | finished
  | enterBlock (inside : Parsed stream String)
  | leaveBlock (behind : Parsed stream Token)
  | declaration (signature : Parsed stream Signature)

def readItem (env : CompileEnv) (declared : List Signature) (classBlock : Option String)
    (id : FunctionId) (stream : TokenStream) : Except CompileError (Item stream) := do
  match classBlock with
  | some _ =>
      if let some closing := stream.closeBlock? then
        return .leaveBlock closing
      if stream.isAtEnd then
        throw ⟨.unexpectedEof, stream.peek.span, some "unclosed class block"⟩
  | none =>
      if stream.isAtEnd then
        return .finished
      if let some keyword := stream.take? .classKeyword then
        let inside ← readClassBlock env.classes keyword.rest
        return .enterBlock (keyword.behind inside inside.value)
  return .declaration (← readSignature env declared classBlock id stream)

def readSignatures (env : CompileEnv) (declared : List Signature) (classBlock : Option String)
    (next : Nat) (stream : TokenStream) : List Signature × Option CompileError :=
  match readItem env declared classBlock ⟨next⟩ stream with
  | .error error => (declared, some error)
  | .ok .finished => (declared, none)
  | .ok (.enterBlock inside) => readSignatures env declared (some inside.value) next inside.rest
  | .ok (.leaveBlock behind) => readSignatures env declared none next behind.rest
  | .ok (.declaration found) =>
      readSignatures env (declared ++ [found.value]) classBlock (next + 1) found.rest
termination_by stream.size
decreasing_by
  · exact inside.shorter
  · exact behind.shorter
  · exact found.shorter

/-- The functions that bodies of a unit may call while `published` are public. -/
def callScope (env : CompileEnv) (declared : List Signature) (published : List Function) :
    CallScope :=
  let declaredIn (classBlock : Option String) : List Callable :=
    (declared.filter fun signature => signature.classBlock = classBlock).map Signature.callable
  { classes := env.classes
    withPublic := env.withPublic
    own := declaredIn none
    published := published.map Function.callable
    methods := fun className =>
      declaredIn (some className) ++ (env.programs.classMethods className).map Function.callable }

/-- The names of a method's object: `this`, `super` if its class has a parent, and its members. -/
def ownerScope (classes : ClassTable) (scope : Scope) : Option String → Scope
  | none => scope
  | some owner =>
      let withThis := scope.addReserved .this (.object owner)
      let withSuper := match classes.parent? owner with
        | some parent => withThis.addReserved .super (.object parent)
        | none => withThis
      ((classes.members? owner).getD []).foldl
        (fun scope member => scope.addMember member.name member.type) withSuper

def addParams (scope : Scope) : List Param → Except CompileError Scope
  | [] => .ok scope
  | param :: rest => do
      let (_, scope) ← scope.addLocal param.name param.type param.span
      addParams scope rest

def bodyScope (classes : ClassTable) (header : Header) : Except CompileError Scope :=
  addParams (ownerScope classes { returns := header.returns } header.owner) header.params.params

def compileBody (env : CompileEnv) (program : ProgramId) (declared : List Signature)
    (published : List Function) (stream : TokenStream) (signature : Signature) :
    Except CompileError Function := do
  let scope ← bodyScope env.classes signature.header
  let names := callScope env declared published
  let body ← BodyParser.block names scope (stream.seek signature.bodyAt)
  return { signature, program, body := body.value.1, locals := body.value.2.locals }

def publish (index : PublicIndex Function) (function : Function) : PublicIndex Function :=
  if function.isPublic then index.insert function.id function else index

/-- Compile bodies one after the other. What is published is visible to the bodies behind it; if one of
those does not compile, the functions that the unit has published, `announced`, are withdrawn. -/
def compileBodies (env : CompileEnv) (program : ProgramId) (declared : List Signature)
    (stream : TokenStream) (announced : List FunctionId) (index : PublicIndex Function) :
    List Signature → Except CompileError (List Function) × PublicIndex Function
  | [] => (.ok [], index)
  | signature :: rest =>
      match compileBody env program declared (index.functions some) stream signature with
      | .error error => (.error error, index.eraseAll announced)
      | .ok function =>
          let announced :=
            if function.isPublic then announced ++ [function.id] else announced
          let (functions, index) :=
            compileBodies env program declared stream announced (publish index function) rest
          (functions.map (function :: ·), index)

/-- The declarations of a source up to its first error, numbered from `next` on, and that error; or
the error that kept the source from falling into tokens. -/
def declarations (env : CompileEnv) (next : Nat) (source : String) :
    TokenStream × List Signature × Option CompileError :=
  match tokenize source with
  | .error error => (.ofTokens [], [], some error.toCompileError)
  | .ok tokens =>
      let stream := TokenStream.ofTokens tokens
      (stream, readSignatures env [] none next stream)

/-- Compile a source. The identities of functions are used up also if it fails; the index of public
functions is the one to go on with. -/
def compile (env : CompileEnv) (program : ProgramId) (name source : String) (ids : Identities) :
    Except CompileError Program × Identities × PublicIndex Function :=
  let (stream, declared, error) := declarations env (ids.lastFunction + 1) source
  let ids := { ids with lastFunction := ids.lastFunction + declared.length }
  match error with
  | some error => (.error error, ids, env.published)
  | none =>
      match compileBodies env program declared stream [] env.published declared with
      | (.error error, published) => (.error error, ids, published)
      | (.ok functions, published) => (.ok ⟨program, name, functions⟩, ids, published)

end Compiler

end ScriptEngine
