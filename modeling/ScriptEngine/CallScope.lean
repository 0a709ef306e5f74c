import ScriptEngine.Overload
/-! The functions that the bodies of one unit may call while it is compiled. -/

namespace ScriptEngine

structure CallScope where
  classes : ClassTable
  /-- Whether free calls may mean public functions. -/
  withPublic : Bool
  /-- The free functions of the unit. -/
  own : List Callable
  published : List Callable
  /-- The methods compiled for a class, those of the unit first. -/
  methods : String → List Callable

namespace CallScope

/-- The function a free call means: one of the unit, or a public one. -/
def resolveCall (scope : CallScope) (name : String) (args : List DataType) :
    Except CompileCause Callable :=
  (Overload.resolve id scope.classes.derives scope.withPublic none name args scope.own
    scope.published).1

/-- The method a call on a receiver of a class means: one of the class or of its nearest ancestor
that has one. -/
def resolveMethod (scope : CallScope) (className name : String) (args : List DataType) :
    Except CompileCause Callable :=
  let offered := (scope.classes.chain className).map fun decl => scope.methods decl.name
  (Overload.resolveAlong id scope.classes.derives none name args none offered).1

end CallScope

end ScriptEngine
