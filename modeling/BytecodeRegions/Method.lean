import BytecodeRegions.Body

/-!
# Methods and their exception handlers

A *handler* protects the code from one place through another, both included, and names the place
that an exception thrown there goes to. A *method* is a body that is not empty, with a name and the
handlers registered so far. Registering a handler takes positions, counted from the end if they are
negative, or handles of the method's own body; a handler that is refused leaves the method as it
was.

## Main definitions

* `Handler`: a protected range with the entry of its handler.
* `Handler.covered`: the protected places, by walking from the first to the last.
* `Handler.contains`: whether a place lies in the range, by its position.
* `Method`, `Method.make?`: named bodies.
* `Method.addHandler`: registration.
-/

namespace BytecodeRegions

/-- The place after a place is one position further in the same body. -/
theorem Handle.of_next?_eq_some {h k : Handle} (hk : h.next? = some k) :
    k.body = h.body ∧ k.position = h.position + 1 := by
  simp only [Handle.next?, Body.handle?] at hk
  split at hk
  · cases hk
    exact ⟨rfl, rfl⟩
  · cases hk

/-- The places from `h` on, through `last` if it is met, else through the end of the body. -/
def Handle.walkTo (h last : Handle) : List Handle :=
  h :: if h = last then [] else
    match _hk : h.next? with
    | none => []
    | some k => k.walkTo last
termination_by h.body.size - h.position
decreasing_by
  have := Handle.of_next?_eq_some _hk
  have := h.inside
  simp_all only
  omega

/-- A protected range and where exceptions thrown in it go. -/
structure Handler where
  /-- The first protected place. -/
  start : Handle
  /-- The last protected place. -/
  stop : Handle
  /-- The place that exceptions go to. -/
  entry : Handle
  /-- The type of exception that is caught; without one, all are. -/
  catchType : Option String
  /-- The range does not end before it starts. -/
  ordered : start.position ≤ stop.position

namespace Handler

/-- Why a handler is refused. -/
inductive Refusal where
  /-- A position is outside the body. -/
  | outside
  /-- A handle is a place of another body. -/
  | foreign (h : Handle)
  /-- The range would end before it starts. -/
  | reversed (start stop : Nat)

/-- The wording of the reason. -/
def Refusal.message : Refusal → String
  | outside => "list index out of range"
  | foreign h => "handle " ++ h.text ++ " belongs to another instruction list"
  | reversed start stop =>
    "handler range ends (" ++ Text.decimalNat stop ++ ") before it starts (" ++
      Text.decimalNat start ++ ")"

/-- A handler for any three places, of whatever bodies, as long as the range is not reversed. -/
def make (start stop entry : Handle) (catchType : Option String) : Except Refusal Handler :=
  if h : start.position ≤ stop.position then .ok ⟨start, stop, entry, catchType, h⟩
  else .error (.reversed start.position stop.position)

/-- The protected places in order. -/
def covered (x : Handler) : List Handle :=
  x.start.walkTo x.stop

/-- Whether a place has a position inside the range. -/
def contains (x : Handler) (h : Handle) : Bool :=
  decide (x.start.position ≤ h.position) && decide (h.position ≤ x.stop.position)

/-- The type that is caught as written; no type, or an empty one, is written `all`. -/
def typeText (x : Handler) : String :=
  match x.catchType with
  | none => "all"
  | some t => if t.isEmpty then "all" else t

/-- The handler in one line. -/
def text (x : Handler) : String :=
  "catch " ++ x.typeText ++ " [" ++ Text.decimalNat x.start.position ++ ".." ++
    Text.decimalNat x.stop.position ++ "] -> " ++ Text.decimalNat x.entry.position

end Handler

/-- A named body with exception handlers. -/
structure Method where
  /-- The name. -/
  name : String
  /-- The instructions. -/
  body : Body
  /-- The handlers in the order of their registration. -/
  handlers : List Handler
  /-- There is an instruction to start at. -/
  nonempty : 0 < body.size

namespace Method

/-- Why there is no method `name` without instructions. -/
def emptyMessage (name : String) : String :=
  "method " ++ Text.quoted name ++ " has no instructions"

/-- The method with a given body, unless the body is empty. -/
def make? (name : String) (body : Body) : Option Method :=
  if h : 0 < body.size then some ⟨name, body, [], h⟩ else none

/-- The place where the method starts. -/
def first (m : Method) : Handle :=
  ⟨m.body, 0, m.nonempty⟩

/-- The place that a number or a handle stands for in the method. -/
def resolve (m : Method) : Target → Except Handler.Refusal Handle
  | .absent => .error .outside
  | .handle h => if m.body.owns h then .ok h else .error (.foreign h)
  | .position p =>
    let q := if p < 0 then p + m.body.size else p
    if 0 ≤ q then (m.body.handle? q.toNat).elim (.error .outside) .ok else .error .outside

/-- The handler that a registration stands for. -/
def handlerFor (m : Method) (start stop entry : Target) (catchType : Option String) :
    Except Handler.Refusal Handler := do
  let start ← m.resolve start
  let stop ← m.resolve stop
  let entry ← m.resolve entry
  Handler.make start stop entry catchType

/-- The method with one more handler at the end. -/
def withHandler (m : Method) (x : Handler) : Method :=
  { m with handlers := m.handlers ++ [x] }

/-- Registers a handler. -/
def addHandler (m : Method) (start stop entry : Target) (catchType : Option String) :
    Except Handler.Refusal Method :=
  m.withHandler <$> m.handlerFor start stop entry catchType

/-- Whether two methods have the same instructions, line by line. -/
def sameDump (m n : Method) : Bool :=
  m.body.dump == n.body.dump

/-- Whether two methods have the same handlers, line by line. -/
def sameHandlers (m n : Method) : Bool :=
  m.handlers.map Handler.text == n.handlers.map Handler.text

/-- The word for a method. -/
def render (m : Method) : String :=
  "MethodCode(" ++ Text.quoted m.name ++ ", instructions=" ++ Text.decimalNat m.body.size ++
    ", handlers=" ++ Text.decimalNat m.handlers.length ++ ")"

end Method

end BytecodeRegions
