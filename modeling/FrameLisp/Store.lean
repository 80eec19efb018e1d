import FrameLisp.Frame

/-!
The store: frames, and the environments that chain them. An environment is a list of references to
frames, innermost first. Environments share frames, so a value assigned in a frame is seen through
all of them; the list itself belongs to one environment, so a frame pushed on it is seen only by
those who hold that environment.
-/
namespace FrameLisp

/-- An environment's frames, innermost first. -/
abbrev Chain := List FrameRef

/-- All frames and environments made so far. -/
structure Store where
  frames : Array Frame
  chains : Array Chain

namespace Store

/-- The store without frames and environments. -/
def empty : Store := ⟨#[], #[]⟩

/-- A frame's contents. -/
def frame (s : Store) (f : FrameRef) : Frame := s.frames[f.index]?.getD .empty

/-- An environment's frames. -/
def chain (s : Store) (env : EnvRef) : Chain := s.chains[env.index]?.getD []

/-- The first frame of an environment that binds a name. -/
def find? (s : Store) (env : EnvRef) (x : Symbol) : Option FrameRef :=
  (s.chain env).find? fun f => (s.frame f).binds x

/-- What the first frame that binds a name binds it to. -/
def binding? (s : Store) (env : EnvRef) (x : Symbol) : Option Value :=
  (s.chain env).findSome? fun f => (s.frame f).get? x

/-- The value of a variable: it must be bound, and its initializer must have finished. -/
def lookup (s : Store) (env : EnvRef) (x : Symbol) : Except Fault Value :=
  match s.binding? env x with
  | none => .error (.unbound x)
  | some .unassigned => .error (.unassigned x)
  | some v => .ok v

/-- Adds a frame. -/
def newFrame (s : Store) (f : Frame) : FrameRef × Store :=
  (⟨s.frames.size⟩, { s with frames := s.frames.push f })

/-- Adds an environment. -/
def newEnv (s : Store) (chain : Chain) : EnvRef × Store :=
  (⟨s.chains.size⟩, { s with chains := s.chains.push chain })

/-- Adds frames, and an environment of them. -/
def newEnvOf (s : Store) (frames : List Frame) : EnvRef × Store :=
  let chain := (List.range' s.frames.size frames.length).map FrameRef.mk
  newEnv { s with frames := s.frames ++ frames.toArray } chain

/-- A new environment with one more frame in front; the old one stays as it is. -/
def extend (s : Store) (env : EnvRef) (f : Frame) : EnvRef × Store :=
  let chain := s.chain env
  let (ref, s) := s.newFrame f
  s.newEnv (ref :: chain)

/-- Puts a new frame in front of an environment itself. -/
def push (s : Store) (env : EnvRef) (f : Frame) : Store :=
  let (ref, s) := s.newFrame f
  { s with chains := s.chains.modify env.index (ref :: ·) }

/-- Changes a frame's contents. -/
def modifyFrame (s : Store) (f : FrameRef) (change : Frame → Frame) : Store :=
  { s with frames := s.frames.modify f.index change }

/-- Binds a name in a frame. -/
def assign (s : Store) (f : FrameRef) (x : Symbol) (v : Value) : Store :=
  s.modifyFrame f (·.insert x v)

/-- Binds names in a frame, one after the other. -/
def assignAll (s : Store) (f : FrameRef) (pairs : List (Symbol × Value)) : Store :=
  s.modifyFrame f (·.insertAll pairs)

/-- The frame in which names at the head of an environment can be bound again. The numbers of
    names and values are compared first. -/
def headFor (s : Store) (env : EnvRef) (params : List Symbol) (args : List Value) :
    Except Fault FrameRef :=
  if params.length = args.length then
    match s.chain env with
    | [] => .error .noFrame
    | head :: _ => .ok head
  else .error (.rebindArity params.length args.length)

/-- The written forms of an environment's frames. -/
def frameTexts (s : Store) (chain : Chain) : Option (List String) :=
  chain.mapM fun f => (s.frame f).text?

/-- The head frame of an environment in writing, and whether more follow. -/
def headText? (s : Store) (env : EnvRef) : Option String :=
  match s.chain env with
  | [] => some (entriesText [])
  | [head] => (s.frame head).text?
  | head :: _ => (s.frame head).text?.map (· ++ " -> ...")

/-- All frames of an environment in writing. -/
def chainText? (s : Store) (env : EnvRef) : Option String :=
  (s.frameTexts (s.chain env)).map fun texts =>
    "<Environment chain: " ++ " -> ".intercalate texts ++ ">"

end Store

end FrameLisp
