import ScriptEngine.Proofs.Decoding
/-! What is read of saved stacks: what was saved, without the bindings of its variables, and of each
float what its text says. The numbers on a stack must fit the words they are saved in. -/

namespace ScriptEngine

def Handle.fits (handle : Handle) : Bool :=
  handle.index < UInt32.size && handle.generation < UInt32.size

namespace Value

def fits : Value → Bool
  | .object handle => handle.fits
  | _ => true

def reread : Value → Option Value
  | .float number => (Json.ofFloat number).float?.map .float
  | value => some value

end Value

namespace Variable

def fits (var : Variable) : Bool := var.value.fits

def reread (var : Variable) : Option Variable :=
  var.value.reread.map fun value => { var.bind .unbound with value }

end Variable

namespace Snapshot

open Json

theorem reads_handle {handle : Handle} (fits : handle.fits = true) :
    Reads decodeHandle (encodeHandle handle) (some handle) := by
  simp only [Handle.fits, Bool.and_eq_true, decide_eq_true_eq] at fits
  have index := reads_word fits.1
  have generation := reads_word fits.2
  refine reads_record (fun _ => rfl) (fun _ _ => rfl) ["index", "generation"] rfl (by decide)
    (by simp [index.spelled, generation.spelled]) fun levels => ?_
  rw [required_found rfl index levels, required_found rfl generation levels]
  simp [itemsDepth]

theorem reads_value {value : Value} (fits : value.fits = true) :
    Reads decodeValue (encodeValue value) value.reread := by
  cases value with
  | void | null =>
      refine ⟨isQuotable_escape _, fun levels => ?_⟩
      rw [encodeValue, decodeValue, choice?_ofText]
      exact (within_zero ..).symm
  | bool value =>
      have read := reads_bool value
      refine reads_form (by decide) read.spelled rfl fun levels => ?_
      rw [decodeValue, choice?_form _ (by decide)]
      exact (congrArg (Option.map Value.bool) (read.read levels)).trans (within_map ..)
  | int number =>
      have read := reads_int64 number
      refine reads_form (by decide) read.spelled rfl fun levels => ?_
      rw [decodeValue, choice?_form _ (by decide)]
      exact (congrArg (Option.map Value.int) (read.read levels)).trans (within_map ..)
  | float number =>
      have read := reads_float number
      refine reads_form (by decide) read.spelled rfl fun levels => ?_
      rw [decodeValue, choice?_form _ (by decide)]
      exact (congrArg (Option.map Value.float) (read.read levels)).trans (within_map ..)
  | string text =>
      have read := reads_text text
      refine reads_form (by decide) read.spelled rfl fun levels => ?_
      rw [decodeValue, choice?_form _ (by decide)]
      exact (congrArg (Option.map Value.string) (read.read levels)).trans (within_map ..)
  | object handle =>
      have read := reads_handle fits
      refine reads_form (by decide) read.spelled rfl fun levels => ?_
      rw [decodeValue, choice?_form _ (by decide)]
      exact (congrArg (Option.map Value.object) (read.read levels)).trans (within_map ..)

theorem reads_init (init : InitState) :
    Reads (oneOf initName initStates) (.ofText (initName init)) (some init) := by
  refine reads_oneOf ?_
  cases init <;> decide

theorem reads_variable {var : Variable} (fits : var.fits = true) :
    Reads decodeVariable (encodeVariable var) var.reread := by
  have name := reads_text var.name
  have type := reads_type var.type
  have value := reads_value fits
  have init := reads_init var.init
  have isPrivate := reads_bool var.isPrivate
  refine reads_record (fun _ => rfl) (fun _ _ => rfl)
    ["name", "data_type", "value", "init", "private"] rfl (by decide)
    (by simp [name.spelled, type.spelled, value.spelled, init.spelled, isPrivate.spelled])
    fun levels => ?_
  rw [required_found rfl name levels, required_found rfl type levels,
    required_found rfl value levels, required_found rfl init levels,
    required_found rfl isPrivate levels]
  simp [itemsDepth, Variable.reread, Variable.bind, ← bind_some_eq_map]

theorem reads_variables {vars : Variables} (fits : ∀ var ∈ vars, var.fits = true) :
    Reads decodeVariables (encodeVariables vars) (vars.mapM Variable.reread) :=
  .items fun var among => reads_variable (fits var among)

end Snapshot

def Call.fits (call : Call) : Bool :=
  call.function.number < UInt64.size && call.program.number < UInt32.size

def FrameState.fits : FrameState → Bool
  | .call started => started.fits
  | .block next => next < UInt32.size
  | .wait remaining => remaining < UInt32.size
  | .fresh | .eval => true

namespace Snapshot

open Json

def single {α : Type} (name : String) (decode : Json → Option α) : Decoder α
  | 0, _ => none
  | _ + 1, json => do
      let record ← record? [name] json
      record.required name decode

theorem reads_single {α : Type} {name : String} (plain : escape name.toList = name.toList)
    {decode : Json → Option α} {json : Json} {value : α}
    (reads : Reads (fun _ => decode) json (some value)) :
    Reads (single name decode) (.ofMembers [(name, json)]) (some value) := by
  refine reads_record (fun _ => rfl) (fun _ _ => rfl) [name] rfl ?_ ?_ fun levels => ?_
  · simp [Plain, plain]
  · simp [reads.spelled]
  · rw [required_found (by simp) reads levels]
    simp [itemsDepth]

theorem reads_callKind (kind : CallKind) :
    Reads decodeCallKind (encodeCallKind kind) (some kind) := by
  cases kind with
  | function | method =>
      refine ⟨isQuotable_escape _, fun levels => ?_⟩
      rw [encodeCallKind, decodeCallKind, choice?_ofText]
      exact (within_zero ..).symm
  | dispatched isSynchronized =>
      have read := reads_single (by decide : escape "synchronized".toList = "synchronized".toList)
        (reads_bool isSynchronized)
      refine reads_form (by decide) read.spelled rfl fun levels => ?_
      rw [decodeCallKind, choice?_form _ (by decide)]
      refine .trans ?_ ((congrArg (Option.map CallKind.dispatched) (read.read levels)).trans
        (within_map ..))
      cases levels with
      | zero => rfl
      | succ levels => simp [single, ← bind_some_eq_map, Option.bind_assoc]

theorem reads_step (step : CallStep) :
    Reads (oneOf stepName callSteps) (.ofText (stepName step)) (some step) := by
  refine reads_oneOf ?_
  cases step <;> decide

theorem reads_call {call : Call} (fits : call.fits = true) :
    Reads decodeCall (encodeCall call) (some call) := by
  obtain ⟨⟨number⟩, ⟨unit⟩, kind, step, owner⟩ := call
  simp only [Call.fits, Bool.and_eq_true, decide_eq_true_eq] at fits
  have function := reads_longWord fits.1
  have program := reads_word fits.2
  have kind := reads_callKind kind
  have step := reads_step step
  cases owner with
  | none =>
      refine reads_record (fun _ => rfl) (fun _ _ => rfl) ["function", "program", "kind", "step"]
        rfl (by decide)
        (by simp [function.spelled, program.spelled, kind.spelled, step.spelled]) fun levels => ?_
      dsimp only
      rw [required_found rfl function levels, required_found rfl program levels,
        required_found rfl kind levels, required_found rfl step levels, nullable_missing rfl]
      simp [itemsDepth]
  | some owner =>
      have owned := reads_text owner
      refine reads_record (fun _ => rfl) (fun _ _ => rfl)
        ["function", "program", "kind", "step", "owner"] rfl (by decide)
        (by simp [function.spelled, program.spelled, kind.spelled, step.spelled, owned.spelled])
        fun levels => ?_
      dsimp only
      rw [required_found rfl function levels, required_found rfl program levels,
        required_found rfl kind levels, required_found rfl step levels,
        nullable_found rfl Json.noConfusion owned levels]
      simp [itemsDepth]

theorem reads_state {state : FrameState} (fits : state.fits = true) :
    Reads decodeState (encodeState state) (some state) := by
  cases state with
  | fresh | eval =>
      refine ⟨isQuotable_escape _, fun levels => ?_⟩
      rw [encodeState, decodeState, choice?_ofText]
      exact (within_zero ..).symm
  | call call =>
      have read := reads_call fits
      refine reads_form (by decide) read.spelled rfl fun levels => ?_
      rw [decodeState, choice?_form _ (by decide)]
      exact (congrArg (Option.map FrameState.call) (read.read levels)).trans (within_map ..)
  | block next =>
      have read := reads_single (by decide : escape "pc".toList = "pc".toList)
        (reads_word (of_decide_eq_true fits))
      refine reads_form (by decide) read.spelled rfl fun levels => ?_
      rw [decodeState, choice?_form _ (by decide)]
      refine .trans ?_ ((congrArg (Option.map FrameState.block) (read.read levels)).trans
        (within_map ..))
      cases levels with
      | zero => rfl
      | succ levels => simp [single, ← bind_some_eq_map, Option.bind_assoc]
  | wait remaining =>
      have read := reads_single (by decide : escape "remaining".toList = "remaining".toList)
        (reads_word (of_decide_eq_true fits))
      refine reads_form (by decide) read.spelled rfl fun levels => ?_
      rw [decodeState, choice?_form _ (by decide)]
      refine .trans ?_ ((congrArg (Option.map FrameState.wait) (read.read levels)).trans
        (within_map ..))
      cases levels with
      | zero => rfl
      | succ levels => simp [single, ← bind_some_eq_map, Option.bind_assoc]

end Snapshot

namespace Frame

mutual

def fits : Frame → Bool
  | ⟨state, vars, temps, children⟩ =>
      state.fits && vars.all Variable.fits && temps.all Value.fits && fitIn children

def fitIn : List (Nat × Frame) → Bool
  | [] => true
  | (slot, child) :: rest => slot < UInt32.size && child.fits && fitIn rest

end

mutual

def isOrdered : Frame → Bool
  | ⟨_, _, _, children⟩ => areOrdered children

def areOrdered : List (Nat × Frame) → Bool
  | [] => true
  | (slot, child) :: rest =>
      child.isOrdered && rest.all (fun entry => slot < entry.1) && areOrdered rest

end

mutual

def reread : Frame → Option Frame
  | ⟨state, vars, temps, children⟩ => do
      let vars ← vars.mapM Variable.reread
      let temps ← temps.mapM Value.reread
      let children ← rereadIn children
      return ⟨state, vars, temps, children⟩

def rereadIn : List (Nat × Frame) → Option (List (Nat × Frame))
  | [] => some []
  | (slot, child) :: rest => do
      let child ← child.reread
      let rest ← rereadIn rest
      return (slot, child) :: rest

end

theorem slots_rereadIn {children others : List (Nat × Frame)}
    (read : rereadIn children = some others) :
    others.map Prod.fst = children.map Prod.fst := by
  induction children generalizing others with
  | nil =>
      rw [rereadIn] at read
      rw [← Option.some.inj read]
  | cons entry rest ih =>
      obtain ⟨slot, child⟩ := entry
      simp only [rereadIn, Option.bind_eq_bind, Option.bind_eq_some_iff, Option.pure_def] at read
      obtain ⟨_, _, more, kept, same⟩ := read
      rw [← Option.some.inj same, List.map_cons, List.map_cons, ih kept]

theorem place_first {slot : Nat} {others : List (Nat × Frame)}
    (ahead : ∀ other ∈ others.map Prod.fst, slot < other) (child : Frame) :
    others.lookup slot = none ∧ place slot child others = (slot, child) :: others := by
  constructor
  · rw [List.lookup_eq_none_iff]
    intro entry among
    have := ahead entry.1 (List.mem_map_of_mem among)
    simp
    omega
  · cases others with
    | nil => rfl
    | cons entry rest => rw [place, if_pos (ahead entry.1 (List.mem_cons_self ..))]

end Frame

namespace Snapshot

open Json

theorem slot?_toDigits {slot : Nat} (small : slot < UInt32.size) :
    slot? (Nat.toDigits 10 slot) = some slot := by
  have taken := @IsNumber.taken [] _ (isNumber_toDigits slot) nofun
  rw [List.append_nil] at taken
  rw [slot?, if_pos taken]
  exact natBelow?_ofNat small

mutual

/-- A frame tree is read as what the document says of its values. -/
theorem reads_frame : ∀ frame : Frame, frame.fits = true → frame.isOrdered = true →
    Reads decodeFrame (encodeFrame frame) frame.reread
  | ⟨state, vars, temps, children⟩, fits, ordered => by
      simp only [Frame.fits, Bool.and_eq_true, List.all_eq_true] at fits
      obtain ⟨⟨⟨state_fits, vars_fit⟩, temps_fit⟩, children_fit⟩ := fits
      have state := reads_state state_fits
      have vars := reads_variables vars_fit
      have temps : Reads (items decodeValue) (.array (temps.map encodeValue))
          (temps.mapM Value.reread) := .items fun temp among => reads_value (temps_fit temp among)
      obtain ⟨spelled, read⟩ := reads_children children children_fit ordered
      have plain : Plain ["state", "vars", "temps", "children"] := by decide
      rw [encodeFrame]
      refine ⟨isSpelled_ofMembers plain ?_, fun levels => ?_⟩
      · simp only [List.map_cons, List.map_nil, List.forall_mem_cons]
        exact ⟨state.spelled, vars.spelled, temps.spelled, spelled, nofun⟩
      · rw [depth_ofMembers]
        match levels with
        | 0 => rw [decodeFrame, within_none]; exact nofun
        | 1 =>
            rw [decodeFrame, within_succ]
            · exact (if_neg (by simp [itemsDepth, depth])).symm
            · exact nofun
        | levels + 2 =>
            have inner : decodeChildren (decodeFrame levels) (encodeChildren children) =
                within (levels + 1) (Json.object (encodeChildren children)).depth
                  (Frame.rereadIn children) := by
              rw [depth, within_succ, read]
            rw [decodeFrame, within_succ]
            refine Eq.trans (record?_ofMembers ["state", "vars", "temps", "children"] rfl
              (by decide)) ?_
            rw [required_found rfl state (levels + 1), required_found rfl vars (levels + 1),
              required_found rfl temps (levels + 1), required_read rfl inner]
            simp [itemsDepth, Frame.reread]

theorem reads_children : ∀ children : List (Nat × Frame), Frame.fitIn children = true →
    Frame.areOrdered children = true →
      AreMembersSpelled (encodeChildren children) ∧
      ∀ levels, decodeChildren (decodeFrame levels) (encodeChildren children) =
        within levels (membersDepth (encodeChildren children)) (Frame.rereadIn children)
  | [], _, _ => ⟨trivial, fun _ => (within_zero ..).symm⟩
  | (slot, child) :: rest, fits, ordered => by
      simp only [Frame.fitIn, Bool.and_eq_true, decide_eq_true_eq] at fits
      simp only [Frame.areOrdered, Bool.and_eq_true, List.all_eq_true, decide_eq_true_eq]
        at ordered
      have first := reads_frame child fits.1.2 ordered.1.1
      obtain ⟨spelled, read⟩ := reads_children rest fits.2 ordered.2
      refine ⟨⟨(areDigits_toDigits slot).isQuotable, first.spelled, spelled⟩, fun levels => ?_⟩
      have ahead : ∀ child : Frame, ((Frame.rereadIn rest).bind fun others =>
          some (if (others.lookup slot).isSome then others else Frame.place slot child others)) =
          (Frame.rereadIn rest).bind fun others => some ((slot, child) :: others) := by
        intro child
        cases kept : Frame.rereadIn rest with
        | none => rfl
        | some others =>
            have slots := Frame.slots_rereadIn kept
            obtain ⟨absent, placed⟩ := @Frame.place_first slot others (by
              rw [slots, List.forall_mem_map]
              exact ordered.1.2) child
            simp [absent, placed]
      simp only [encodeChildren, decodeChildren, slot?_toDigits fits.1.1, first.read, read,
        Option.bind_eq_bind, Option.bind_some, Option.pure_def, within_bind, bind_within,
        within_within, ahead, membersDepth, Frame.rereadIn]

end

end Snapshot

def Span.fits (span : Span) : Bool :=
  span.line < UInt32.size && span.col < UInt32.size && span.start < UInt32.size &&
    span.stop < UInt32.size

def RuntimeError.fits (error : RuntimeError) : Bool := error.span.all Span.fits

namespace EntryCall

def fits (entry : EntryCall) : Bool :=
  entry.args.all Variable.fits && entry.receiver.all (fun receiver => receiver.handle.fits) &&
    entry.kept.all fun id => id.number < UInt64.size

def reread (entry : EntryCall) : Option EntryCall :=
  (entry.args.mapM Variable.reread).map fun args => { entry with args }

end EntryCall

namespace Stack

/-- The numbers on a stack fit the words they are saved in: those of functions and contexts 64 bits,
the others 32. -/
def fits (stack : Stack) : Bool :=
  stack.context.number < UInt64.size && stack.program.number < UInt32.size &&
    stack.entry.all EntryCall.fits && stack.root.fits && stack.lastError.all RuntimeError.fits

def reread (stack : Stack) : Option Stack := do
  let entry ← stack.entry.mapM EntryCall.reread
  let root ← stack.root.reread
  return { stack with entry, root }

end Stack

namespace Snapshot

open Json

theorem reads_span {span : Span} (fits : span.fits = true) :
    Reads decodeSpan (encodeSpan span) (some span) := by
  simp only [Span.fits, Bool.and_eq_true, decide_eq_true_eq] at fits
  have line := reads_word fits.1.1.1
  have col := reads_word fits.1.1.2
  have start := reads_word fits.1.2
  have stop := reads_word fits.2
  refine reads_record (fun _ => rfl) (fun _ _ => rfl) ["line", "col", "start", "end"] rfl
    (by decide) (by simp [line.spelled, col.spelled, start.spelled, stop.spelled]) fun levels => ?_
  rw [required_found rfl line levels, required_found rfl col levels,
    required_found rfl start levels, required_found rfl stop levels]
  simp [itemsDepth]

theorem reads_cause (cause : RuntimeCause) :
    Reads (oneOf RuntimeCause.code RuntimeCause.all) (.ofText cause.code) (some cause) := by
  refine reads_oneOf ?_
  cases cause <;> decide

theorem reads_error {error : RuntimeError} (fits : error.fits = true) :
    Reads decodeError (encodeError error) (some error) := by
  have cause := reads_cause error.cause
  have span : ∀ span ∈ error.span, Reads decodeSpan (encodeSpan span) (some span) := by
    rw [RuntimeError.fits, Option.all_eq_true] at fits
    exact fun span among => reads_span (fits span among)
  refine reads_record (fun _ => rfl) (fun _ _ => rfl) ["code", "span"] rfl (by decide) ?_
    fun levels => ?_
  · simp [cause.spelled, isSpelled_orNull fun value among => (span value among).spelled]
  · rw [required_found rfl cause levels,
      nullable_orNull rfl (fun _ => Json.noConfusion) span levels]
    simp [itemsDepth]

theorem reads_receiver {receiver : Receiver} (fits : receiver.handle.fits = true) :
    Reads decodeReceiver (encodeReceiver receiver) (some receiver) := by
  have handle := reads_handle fits
  have className := reads_text receiver.className
  refine reads_record (fun _ => rfl) (fun _ _ => rfl) ["handle", "class"] rfl (by decide)
    (by simp [handle.spelled, className.spelled]) fun levels => ?_
  rw [required_found rfl handle levels, required_found rfl className levels]
  simp [itemsDepth]

theorem reads_entry {entry : EntryCall} (fits : entry.fits = true) :
    Reads decodeEntry (encodeEntry entry) entry.reread := by
  simp only [EntryCall.fits, Bool.and_eq_true, List.all_eq_true, Option.all_eq_true,
    decide_eq_true_eq] at fits
  have name := reads_text entry.name
  have args := reads_variables fits.1.1
  have receiver : ∀ receiver ∈ entry.receiver,
      Reads decodeReceiver (encodeReceiver receiver) (some receiver) :=
    fun receiver among => reads_receiver (fits.1.2 receiver among)
  have kept : ∀ id ∈ entry.kept,
      Reads (fun _ => longWord?) (.ofNat id.number) (some id.number) :=
    fun id among => reads_longWord (fits.2 id among)
  refine reads_record (fun _ => rfl) (fun _ _ => rfl) ["name", "args", "receiver", "cached"] rfl
    (by decide) ?_ fun levels => ?_
  · simp [name.spelled, args.spelled,
      isSpelled_orNull fun value among => (receiver value among).spelled,
      isSpelled_orNull fun value among => (kept value among).spelled]
  · rw [required_found rfl name levels, required_found rfl args levels,
      nullable_orNull rfl (fun _ => Json.noConfusion) receiver levels,
      nullable_orNull rfl (fun _ => Json.noConfusion) kept levels]
    simp [itemsDepth, EntryCall.reread, ← bind_some_eq_map]
    cases entry.kept <;> rfl

theorem reads_stack {stack : Stack} (fits : stack.fits = true)
    (ordered : stack.root.isOrdered = true) :
    Reads decodeStack (encodeStack stack) stack.reread := by
  simp only [Stack.fits, Bool.and_eq_true, Option.all_eq_true, decide_eq_true_eq] at fits
  have context := reads_longWord fits.1.1.1.1
  have program := reads_word fits.1.1.1.2
  have entry : ∀ entry ∈ stack.entry, Reads decodeEntry (encodeEntry entry) entry.reread :=
    fun entry among => reads_entry (fits.1.1.2 entry among)
  have root := reads_frame stack.root fits.1.2 ordered
  have lastError : ∀ error ∈ stack.lastError,
      Reads decodeError (encodeError error) (some error) :=
    fun error among => reads_error (fits.2 error among)
  refine reads_record (fun _ => rfl) (fun _ _ => rfl)
    ["context", "program", "entry", "root", "last_error"] rfl (by decide) ?_ fun levels => ?_
  · simp [context.spelled, program.spelled, root.spelled,
      isSpelled_orNull fun value among => (entry value among).spelled,
      isSpelled_orNull fun value among => (lastError value among).spelled]
  · rw [required_found rfl context levels, required_found rfl program levels,
      nullable_orNull rfl (fun _ => Json.noConfusion) entry levels,
      required_found rfl root levels,
      nullable_orNull rfl (fun _ => Json.noConfusion) lastError levels]
    simp [itemsDepth, Stack.reread]

end Snapshot

end ScriptEngine
